import Mathlib.Data.List.Sort
import Mathlib.Data.String.Basic
import MountShell.Proofs.Path
import MountShell.Proofs.Volume.Access

/-!
# What an index denotes

An index is a document of somebody else's making.  Read as a tree of values, in which the fields
under `children` lead on (`Json.descend`), it gives a tree of nodes of the same form
(`Index.at?_node`): at the end of the same names stands the node of the value there, and the body of
a remote file is looked for at the location of the tree with these names behind it.  The names may
be anything, `..` or names with slashes in them among them; no path leads to those.

Main statements: `Index.at?_node`, by induction on the names; `Index.denotes_node`, what kind of
node a value gives; and `Volume.shows_remote`, what is found on a volume whose index has been read.
-/

namespace MountShell

/-! ### Values and the names below them -/

namespace Json

/-- The fields of the object that a value has under `children`, if it has one. -/
def children? (value : Json) : Option (List (String × Json)) :=
  match value.field? "children" with
  | some (.object children) => some children
  | _ => none

/-- The value at the end of a list of names, each of which is a key of the children of the value
before. -/
def descend : List String → Json → Option Json
  | [], value => some value
  | name :: names, value => (value.children?.bind (lastField? name)).bind (descend names)

/-- A value has a field of a name just when the name is one of its keys. -/
theorem isSome_lastField?_iff (name : String) (fields : List (String × Json)) :
    (lastField? name fields).isSome = true ↔ name ∈ fields.map Prod.fst := by
  induction fields with
  | nil => simp [lastField?]
  | cons field rest ih =>
    obtain ⟨key, value⟩ := field
    rw [lastField?, List.map_cons, List.mem_cons, ← ih]
    cases lastField? name rest with
    | some later => simp
    | none =>
      by_cases hkey : key = name
      · simp [hkey]
      · simp [hkey, Ne.symm hkey]

end Json

/-- The path with the given segments as it stands behind a location, where the root adds nothing. -/
def Path.below (segments : List String) : String :=
  if segments = [] then "" else Path.ofSegments segments

/-- Each segment stands behind a slash. -/
theorem Path.below_cons (name : String) (names : List String) :
    Path.below (name :: names) = "/" ++ name ++ Path.below names := by
  unfold Path.below
  rw [if_neg (List.cons_ne_nil name names)]
  cases names with
  | nil => simp [Path.ofSegments]
  | cons next rest =>
    rw [if_neg (List.cons_ne_nil next rest)]
    refine String.toList_inj.1 ?_
    simp [Path.toList_ofSegments, List.intercalate_cons_cons]

/-- A list of names in increasing order is that of the names in it, sorted. -/
theorem eq_sortNames {names others : List String} (h : names.Pairwise (· < ·))
    (hmem : ∀ name, name ∈ names ↔ name ∈ others) : names = sortNames others :=
  h.eq_of_mem_iff (pairwise_sortNames others) fun name => by rw [hmem, mem_sortNames]

/-! ### Nodes and the values that they stand for -/

namespace Index

variable {location path : String} {value : Json} {kids : List (String × Json)}

/-- What kind of node a value stands for, at a place outside. -/
inductive Denotes (place : String) : Json → Node → Prop
  /-- An object with an object under `children` is a directory with its keys. -/
  | directory {value : Json} {kids : List (String × Json)} {children : List (String × Node)} :
      value.children? = some kids → NameMap.names children = sortNames (kids.map Prod.fst) →
        Denotes place value (.directory false children)
  | text (body : String) : Denotes place (.text body) (.file false (.text body))
  /-- Anything else is a file whose body lies at the place. -/
  | remote {value : Json} : (∀ body, value ≠ .text body) → value.children? = none →
      Denotes place value (.file false (.remote place))

/-- The last of the fields named `children` counts. -/
theorem children?_eq (location path : String) (fields : List (String × Json)) :
    children? location path fields =
      (Json.lastField? "children" fields).map fun value =>
        match value with
        | .object kids => some (nodes location path kids)
        | _ => none := by
  induction fields with
  | nil => rw [children?]; rfl
  | cons field rest ih =>
    obtain ⟨name, value⟩ := field
    rw [Json.lastField?]
    cases value <;> rw [children?, ih] <;>
      cases Json.lastField? "children" rest <;> by_cases hname : name = "children" <;>
        simp [hname]

theorem node_of_children? (location path : String) (h : value.children? = some kids) :
    node location path value = .dir (nodes location path kids) := by
  cases value with
  | object fields =>
    unfold Json.children? Json.field? at h
    rw [node, children?_eq]
    cases hlast : Json.lastField? "children" fields with
    | none => exact absurd h (by simp [hlast])
    | some last =>
      cases last with
      | object own =>
        obtain rfl : own = kids := by simpa [hlast] using h
        rfl
      | _ => exact absurd h (by simp [hlast])
  | _ => exact absurd h (by simp [Json.children?, Json.field?])

/-- A value that is no directory is a text, or stands for a body that lies elsewhere. -/
theorem node_of_none (location path : String) (h : value.children? = none) :
    (∃ body, value = .text body ∧ node location path value = .file false (.text body)) ∨
      ((∀ body, value ≠ .text body) ∧
        node location path value = .file false (.remote (location ++ path))) := by
  cases value with
  | text body => exact .inl ⟨body, rfl, by rw [node]; rfl⟩
  | object fields =>
    refine .inr ⟨fun body => by simp, ?_⟩
    unfold Json.children? Json.field? at h
    rw [node, children?_eq]
    cases hlast : Json.lastField? "children" fields with
    | none => rfl
    | some last =>
      cases last with
      | object kids => exact absurd h (by simp [hlast])
      | _ => rfl
  | _ => exact .inr ⟨fun body => by simp, by rw [node] <;> simp [Node.remote]⟩

/-- Of the nodes of several fields of one name the last is found. -/
theorem find?_nodes (location path name : String) (kids : List (String × Json)) :
    NameMap.find? name (NameMap.ofList (nodes location path kids)) =
      (Json.lastField? name kids).map (node location (path ++ "/" ++ name)) := by
  have hfold : ∀ (kids : List (String × Json)) (m : List (String × Node)),
      NameMap.find? name ((nodes location path kids).foldl
          (fun m pair => NameMap.insert pair.1 pair.2 m) m) =
        ((Json.lastField? name kids).map (node location (path ++ "/" ++ name))).or
          (NameMap.find? name m) := by
    intro kids
    induction kids with
    | nil => intro m; rw [nodes]; rfl
    | cons field rest ih =>
      intro m
      obtain ⟨key, value⟩ := field
      rw [nodes, List.foldl_cons, ih, NameMap.find?_insert, Json.lastField?]
      cases Json.lastField? name rest with
      | some later => rfl
      | none => by_cases hkey : key = name <;> simp [hkey]
  exact (hfold kids []).trans (by simp [NameMap.find?_nil])

/-- A directory has the keys of its value. -/
theorem names_nodes (location path : String) (kids : List (String × Json)) :
    NameMap.names (NameMap.ofList (nodes location path kids)) = sortNames (kids.map Prod.fst) := by
  have hordered := NameMap.ordered_ofList (nodes location path kids)
  refine eq_sortNames ((NameMap.ordered_iff_pairwise_names _).1 hordered) fun name => ?_
  rw [← NameMap.contains_iff_mem_names, NameMap.contains, find?_nodes, Option.isSome_map,
    Json.isSome_lastField?_iff]

theorem denotes_node (location path : String) (value : Json) :
    Denotes (location ++ path) value (node location path value) := by
  cases hkids : value.children? with
  | some kids =>
    rw [node_of_children? location path hkids]
    exact .directory hkids (names_nodes location path kids)
  | none =>
    rcases node_of_none location path hkids with ⟨body, rfl, hnode⟩ | ⟨hnot, hnode⟩
    · rw [hnode]
      exact .text body
    · rw [hnode]
      exact .remote hnot hkids

theorem child?_node (location path name : String) (value : Json) :
    (node location path value).child? name =
      (value.children?.bind (Json.lastField? name)).map
        (node location (path ++ "/" ++ name)) := by
  cases hkids : value.children? with
  | some kids =>
    rw [node_of_children? location path hkids, Node.dir, Node.child?, find?_nodes, Option.bind_some]
  | none =>
    rcases node_of_none location path hkids with ⟨body, -, hnode⟩ | ⟨-, hnode⟩ <;>
      rw [hnode] <;> rfl

/-- At the end of a list of names stands the node of the value there, with the names behind its
location. -/
theorem at?_node (location path : String) (names : List String) (value : Json) :
    (node location path value).at? names =
      (value.descend names).map (node location (path ++ Path.below names)) := by
  induction names generalizing path value with
  | nil => simp [Node.at?_nil, Json.descend, Path.below]
  | cons name names ih =>
    rw [Node.at?_cons, child?_node, Json.descend]
    cases value.children?.bind (Json.lastField? name) with
    | none => rfl
    | some child =>
      have hplace : path ++ Path.below (name :: names) =
          path ++ "/" ++ name ++ Path.below names := by
        rw [Path.below_cons, String.append_assoc, String.append_assoc, String.append_assoc]
      rw [hplace]
      exact ih (path ++ "/" ++ name) child

theorem denotes_of_at? {names : List String} {found : Node}
    (h : (node location path value).at? names = some found) :
    ∃ entry, value.descend names = some entry ∧
      Denotes (location ++ (path ++ Path.below names)) entry found := by
  rw [at?_node] at h
  obtain ⟨entry, hentry, rfl⟩ := Option.map_eq_some_iff.1 h
  exact ⟨entry, hentry, denotes_node location _ entry⟩

theorem Denotes.eq_of_remote {place other : String} {w : Bool}
    (h : Denotes place value (.file w (.remote other))) : other = place := by
  cases h
  rfl

/-! ### Documents -/

theorem read_of_field {document : Json} {body : String} (hread : Json.read body = .ok document)
    (hroot : document.field? "/" = some value) :
    read location body = .ok (node location "" value) := by
  unfold read
  rw [hread]
  simp only [hroot]

theorem exists_of_read {body : String} {root : Node} (h : read location body = .ok root) :
    ∃ value, root = node location "" value := by
  unfold read at h
  cases hread : Json.read body with
  | error fault => exact absurd h (by simp [hread])
  | ok document =>
    rw [hread] at h
    cases hroot : document.field? "/" with
    | none => exact absurd h (by simp [hroot])
    | some value =>
      simp only [hroot, Except.ok.injEq] at h
      exact ⟨value, h.symm⟩

end Index

/-! ### Volumes -/

namespace Volume

variable {v : Volume} {place : String} {value : Json} {o : Outside}

/-- What is found on a volume at the paths made of segments is what a value denotes: something just
where the names lead on in the value, and then a node of the right kind. -/
structure Shows (v : Volume) (place : String) (value : Json) (o : Outside) : Prop where
  found : ∀ segments entry, (∀ s ∈ segments, Path.IsSegment s) →
    value.descend segments = some entry →
    ∃ node, (v.get (Path.ofSegments segments) o).1 = .ok node ∧
      Index.Denotes (place ++ Path.below segments) entry node
  missing : ∀ segments, (∀ s ∈ segments, Path.IsSegment s) → value.descend segments = none →
    ∃ e, (v.get (Path.ofSegments segments) o).1 = .error e

theorem shows_of_tree (h : (v.tree o).1 = .ok (Index.node place "" value)) :
    v.Shows place value o := by
  have hget : ∀ path, (v.get path o).1 = Tree.walk (Index.node place "" value) path := by
    intro path
    rw [get_fst, h]
    rfl
  have hat : ∀ segments, (∀ s ∈ segments, Path.IsSegment s) → ∀ node,
      (v.get (Path.ofSegments segments) o).1 = .ok node ↔
        (Index.node place "" value).at? segments = some node := fun segments hsegments node => by
    rw [hget, Tree.walk_eq_ok_iff, Path.walkSteps_ofSegments hsegments]
  refine ⟨fun segments entry hsegments hentry => ?_, fun segments hsegments hnone => ?_⟩
  · refine ⟨Index.node place (Path.below segments) entry, ?_, Index.denotes_node _ _ _⟩
    rw [hat segments hsegments, Index.at?_node, hentry, String.empty_append]
    rfl
  · cases hresult : (v.get (Path.ofSegments segments) o).1 with
    | error e => exact ⟨e, rfl⟩
    | ok node =>
      have hsome := (hat segments hsegments node).1 hresult
      rw [Index.at?_node, hnone] at hsome
      exact absurd hsome (by simp)

/-- A remote volume whose index can be fetched and read shows the value of its root, and goes on to
do so when it has been used, whatever happens outside. -/
theorem shows_remote {location body : String} {document : Json}
    (hread : Json.read body = .ok document) (hroot : document.field? "/" = some value)
    (hfetch : o.fetcher.answer o.disk (indexLocation (Path.trimSlashes location)) = .ok body) :
    (remote location).Shows (Path.trimSlashes location) value o ∧
      ∀ path later,
        ((remote location).get path o).2.1.Shows (Path.trimSlashes location) value later := by
  have htree : ((remote location).tree o).1 =
      .ok (Index.node (Path.trimSlashes location) "" value) := by
    unfold tree remote Outside.fetch
    simp only [hfetch, Index.read_of_field hread hroot]
  refine ⟨shows_of_tree htree, fun path later => shows_of_tree ?_⟩
  rw [get_snd]
  rcases hresult : (remote location).tree o with ⟨result, loaded, after⟩
  rw [hresult] at htree
  obtain rfl : result = .ok (Index.node (Path.trimSlashes location) "" value) := htree
  rw [tree_of_root (root_of_tree hresult)]

end Volume

end MountShell
