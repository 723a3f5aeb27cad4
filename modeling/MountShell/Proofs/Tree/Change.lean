import MountShell.Proofs.Tree.Handle

/-!
# The changes of a tree

A tree changes in three ways only (`TreeChange`): a directory gets a new empty file, the flag of a
node is set or cleared, and a writeable text is replaced.  What is shown of a node, apart from its
path, is its `Face`; nodes far from the place of a change keep theirs, and those near it change in
the one way that fits (`TreeChange.Seen`).

Main statement: `TreeChange.seen_apply`.
-/

namespace MountShell

/-- What is shown of a node, apart from its path. -/
structure Face where
  writeable : Bool
  kind : EntryKind
  deriving DecidableEq, Repr

namespace Node

/-- What is shown of a node. -/
def face : Node → Face
  | directory w children => ⟨w, .directory (NameMap.names children)⟩
  | file w content => ⟨w, .file content⟩

@[simp] theorem face_directory (w : Bool) (children : List (String × Node)) :
    (directory w children).face = ⟨w, .directory (NameMap.names children)⟩ :=
  rfl

@[simp] theorem face_file (w : Bool) (content : Content) :
    (file w content).face = ⟨w, .file content⟩ :=
  rfl

theorem face_setWriteable (w : Bool) (node : Node) :
    (node.setWriteable w).face = { node.face with writeable := w } := by
  cases node <;> rfl

/-- A change shows only at the node that is changed and below it. -/
theorem face_at?_update (f : Node → Node) {node : Node} {names other : List String}
    (h : ¬ names <+: other) :
    ((node.update f names).at? other).map face = (node.at? other).map face := by
  induction names generalizing node other with
  | nil => exact absurd List.nil_prefix h
  | cons name names ih =>
    cases node with
    | file w content => rfl
    | directory w children =>
      cases other with
      | nil =>
        rw [update, at?_nil, at?_nil, Option.map_some, Option.map_some, face_directory,
          face_directory, NameMap.names_modify]
      | cons first rest =>
        rw [update, at?_cons, at?_cons, child?, child?, NameMap.find?_modify]
        by_cases hname : name = first
        · subst hname
          have hrest : ¬ names <+: rest := fun hprefix =>
            h (List.cons_prefix_cons.2 ⟨rfl, hprefix⟩)
          rw [if_pos rfl]
          cases NameMap.find? name children with
          | none => rfl
          | some child => exact ih hrest
        · rw [if_neg hname]

/-- Below the node that is changed stands what the change makes of it. -/
theorem at?_update_append (f : Node → Node) {node found : Node} {names : List String}
    (h : node.at? names = some found) (rest : List String) :
    (node.update f names).at? (names ++ rest) = (f found).at? rest := by
  rw [at?_append, at?_update f h, Option.bind_some]

end Node

/-- A change of a tree. -/
inductive TreeChange where
  /-- A new empty file. -/
  | addFile (parent : List String) (name : String)
  | setFlag (names : List String) (w : Bool)
  /-- Another text in place of a writeable one. -/
  | setText (names : List String) (body : String)
  deriving DecidableEq, Repr

namespace TreeChange

/-- The tree after the change. -/
def apply (root : Node) : TreeChange → Node
  | addFile parent name => root.update (Node.addChild name .emptyFile) parent
  | setFlag names w => root.update (Node.setWriteable w) names
  | setText names body => root.update (fun _ => .file true (.text body)) names

/-- The tree has what is changed: a writeable directory without a child of that name, a node, or a
writeable text. -/
def Allowed (root : Node) : TreeChange → Prop
  | addFile parent name => ∃ children, root.at? parent = some (.directory true children) ∧
      NameMap.find? name children = none
  | setFlag names _ => (root.at? names).isSome = true
  | setText names _ => ∃ old, root.at? names = some (.file true (.text old))

/-- The node that comes into being or gets another flag or text. -/
def target : TreeChange → List String
  | addFile parent name => parent ++ [name]
  | setFlag names _ => names
  | setText names _ => names

/-- The nodes that a change shows at. -/
def places : TreeChange → List (List String)
  | addFile parent name => [parent ++ [name], parent]
  | setFlag names _ => [names]
  | setText names _ => [names]

/-- How a change shows at a node: what is shown there before it and after it. -/
inductive Seen : TreeChange → List String → Option Face → Option Face → Prop
  | same {c : TreeChange} {names : List String} {face : Option Face} :
      names ∉ c.places → Seen c names face face
  | added {parent : List String} {name : String} :
      Seen (addFile parent name) (parent ++ [name]) none (some ⟨true, .file (.text "")⟩)
  | listed {parent : List String} {name : String} {own : List String} :
      name ∉ own → Seen (addFile parent name) parent (some ⟨true, .directory own⟩)
        (some ⟨true, .directory (insertName name own)⟩)
  | flagged {names : List String} {w : Bool} {face : Face} :
      Seen (setFlag names w) names (some face) (some { face with writeable := w })
  | written {names : List String} {old body : String} :
      Seen (setText names body) names (some ⟨true, .file (.text old)⟩)
        (some ⟨true, .file (.text body)⟩)

variable {root : Node}

/-- Below a change that leaves what lies below the node nothing shows. -/
theorem face_at?_of_below {f : Node → Node} {node found : Node} {names other : List String}
    (h : node.at? names = some found)
    (hf : ∀ name rest, (f found).at? (name :: rest) = found.at? (name :: rest))
    (hne : other ≠ names) :
    ((node.update f names).at? other).map Node.face = (node.at? other).map Node.face := by
  by_cases hprefix : names <+: other
  · obtain ⟨rest, rfl⟩ := hprefix
    cases rest with
    | nil => exact absurd (List.append_nil names) hne
    | cons name rest =>
      rw [Node.at?_update_append f h, hf, Node.at?_append, h, Option.bind_some]
  · exact Node.face_at?_update f hprefix

/-- How a new file shows. -/
theorem seen_addFile {parent : List String} {name : String}
    (h : (addFile parent name).Allowed root) (names : List String) :
    (addFile parent name).Seen names ((root.at? names).map Node.face)
      ((((addFile parent name).apply root).at? names).map Node.face) := by
  obtain ⟨children, hparent, hnone⟩ := h
  have hbelow := Node.at?_update_append (Node.addChild name .emptyFile) hparent
  have hold : ∀ rest, root.at? (parent ++ rest) = (Node.directory true children).at? rest := by
    intro rest
    rw [Node.at?_append, hparent, Option.bind_some]
  rw [apply]
  -- At the parent the name is listed, and at the name there is the file; everywhere else there is
  -- what was there.
  by_cases hprefix : parent <+: names
  · obtain ⟨rest, rfl⟩ := hprefix
    rw [hbelow, hold, Node.addChild]
    cases rest with
    | nil =>
      rw [List.append_nil, Node.at?_nil, Node.at?_nil, Option.map_some, Option.map_some,
        Node.face_directory, Node.face_directory, NameMap.names_insert]
      refine .listed fun hmem => ?_
      rw [← NameMap.contains_iff_mem_names, NameMap.contains, hnone] at hmem
      exact absurd hmem (by simp)
    | cons first rest =>
      rw [Node.at?_cons, Node.at?_cons, Node.child?, Node.child?, NameMap.find?_insert]
      by_cases hfirst : name = first
      · subst hfirst
        rw [if_pos rfl, hnone, Option.bind_none, Option.bind_some]
        cases rest with
        | nil =>
          rw [Node.at?_nil]
          exact .added
        | cons next rest =>
          rw [Node.emptyFile, Node.at?_file_cons]
          exact .same (by simp [places])
      · rw [if_neg hfirst]
        exact .same (by simp [places, Ne.symm hfirst])
  · rw [Node.face_at?_update _ hprefix]
    refine .same fun hmem => hprefix ?_
    rcases List.mem_cons.1 hmem with rfl | hmem
    · exact List.prefix_append parent [name]
    · exact List.mem_singleton.1 hmem ▸ List.prefix_refl _

/-- What a change of a tree shows at the nodes of the tree. -/
theorem seen_apply {c : TreeChange} (h : c.Allowed root) (names : List String) :
    c.Seen names ((root.at? names).map Node.face) (((c.apply root).at? names).map Node.face) := by
  cases c with
  | addFile parent name => exact seen_addFile h names
  | setFlag there w =>
    obtain ⟨found, hfound⟩ := Option.isSome_iff_exists.1 h
    by_cases hnames : names = there
    · subst hnames
      rw [apply, Node.at?_update _ hfound, hfound, Option.map_some, Option.map_some,
        Node.face_setWriteable]
      exact .flagged
    · have hbelow : ∀ name rest, (found.setWriteable w).at? (name :: rest) =
          found.at? (name :: rest) := by
        intro name rest
        cases found <;> rfl
      rw [apply, face_at?_of_below hfound hbelow hnames]
      exact .same (by simpa [places] using hnames)
  | setText there body =>
    obtain ⟨old, hold⟩ := h
    by_cases hnames : names = there
    · subst hnames
      rw [apply, Node.at?_update _ hold, hold]
      exact .written
    · have hbelow : ∀ name rest, (Node.file true (.text body)).at? (name :: rest) =
          (Node.file true (.text old)).at? (name :: rest) := by
        intro name rest
        rw [Node.at?_file_cons, Node.at?_file_cons]
      rw [apply, face_at?_of_below hold hbelow hnames]
      exact .same (by simpa [places] using hnames)

end TreeChange

end MountShell
