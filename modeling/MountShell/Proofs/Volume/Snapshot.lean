import MountShell.Proofs.Json.Nesting
import MountShell.Proofs.NameMap
import MountShell.Volume.Snapshot

/-!
# Trees that survive a snapshot

A tree can be kept and had back whole if it holds text files only, the names in its directories are
in order, and its directories do not lie too deep inside each other: a directory takes two braces of
JSON and a file takes one, so that `maxDepth` braces are enough for `maxLevels` directories and a
file in the innermost one.  `Node.Fits` and `Snapshot.Fits` say this for a number of levels.

Main statements: `Snapshot.read_write`, a snapshot that fits is read back as it was written;
`Snapshot.fits_of_read`, whatever is read fits; and `Node.Fits.exists_capture`, a tree that fits is
the one that its snapshot restores.
-/

namespace MountShell

/-- No more than `levels` directories of the tree lie inside each other, the names in each of them
are in order, and its files hold text. -/
inductive Node.Fits : Nat → Node → Prop
  | file {levels : Nat} (w : Bool) (body : String) : Fits levels (.file w (.text body))
  | directory {levels : Nat} (w : Bool) {children : List (String × Node)} :
      NameMap.Ordered children → (∀ pair ∈ children, Fits levels pair.2) →
      Fits (levels + 1) (.directory w children)

namespace Snapshot

/-- No more than `levels` directories of the snapshot lie inside each other, and the names in each
of them are in order. -/
inductive Fits : Nat → Snapshot → Prop
  | file {levels : Nat} (w : Bool) (content : String) : Fits levels (.file w content)
  | directory {levels : Nat} (w : Bool) {children : List (String × Snapshot)} :
      NameMap.Ordered children → (∀ pair ∈ children, Fits levels pair.2) →
      Fits (levels + 1) (.directory w children)

/-- The number of directories that may lie inside each other. -/
def maxLevels : Nat := Json.maxDepth / 2

/-! ### Snapshots as lists -/

theorem restoreAll_eq_map (children : List (String × Snapshot)) :
    restoreAll children = children.map fun pair => (pair.1, pair.2.restore) := by
  induction children with
  | nil => rfl
  | cons pair rest ih => rw [restoreAll, ih, List.map_cons]

theorem toJsonAll_eq_map (children : List (String × Snapshot)) :
    toJsonAll children = children.map fun pair => (pair.1, pair.2.toJson) := by
  induction children with
  | nil => rfl
  | cons pair rest ih => rw [toJsonAll, ih, List.map_cons]

theorem ordered_restoreAll (children : List (String × Snapshot)) :
    NameMap.Ordered (restoreAll children) ↔ NameMap.Ordered children := by
  rw [restoreAll_eq_map, NameMap.Ordered, List.pairwise_map]
  rfl

/-! ### Taking and restoring -/

mutual

theorem capture_restore (s : Snapshot) : capture s.restore = some s := by
  cases s with
  | file w content => rfl
  | directory w children => rw [restore, capture, captureAll_restoreAll children]

theorem captureAll_restoreAll (children : List (String × Snapshot)) :
    captureAll (restoreAll children) = children := by
  cases children with
  | nil => rfl
  | cons pair rest =>
    obtain ⟨name, child⟩ := pair
    rw [restoreAll, captureAll, capture_restore child, captureAll_restoreAll rest]

end

/-- The tree of a snapshot that fits does so too. -/
theorem Fits.restore {levels : Nat} {s : Snapshot} (h : s.Fits levels) :
    s.restore.Fits levels := by
  induction h with
  | file w content => exact .file w content
  | directory w hordered _ ih =>
    refine .directory w ((ordered_restoreAll _).2 hordered) ?_
    rw [restoreAll_eq_map]
    intro pair hpair
    obtain ⟨kept, hkept, rfl⟩ := List.mem_map.1 hpair
    exact ih kept hkept

/-- Every tree that fits is the tree of a snapshot that does. -/
theorem exists_fits_restore {levels : Nat} {node : Node} (h : node.Fits levels) :
    ∃ s : Snapshot, s.Fits levels ∧ s.restore = node := by
  induction h with
  | file w body => exact ⟨.file w body, .file w body, rfl⟩
  | @directory levels w children hordered _ ih =>
    have hall : ∀ nodes : List (String × Node),
        (∀ pair ∈ nodes, ∃ s : Snapshot, s.Fits levels ∧ s.restore = pair.2) →
        ∃ kept : List (String × Snapshot),
          (∀ pair ∈ kept, pair.2.Fits levels) ∧ restoreAll kept = nodes := by
      intro nodes
      induction nodes with
      | nil => exact fun _ => ⟨[], fun _ hmem => absurd hmem List.not_mem_nil, rfl⟩
      | cons pair rest ihrest =>
        intro hnodes
        obtain ⟨hfirst, hrest⟩ := List.forall_mem_cons.1 hnodes
        obtain ⟨s, hs, hrestore⟩ := hfirst
        obtain ⟨kept, hkept, hrestoreAll⟩ := ihrest hrest
        refine ⟨(pair.1, s) :: kept, List.forall_mem_cons.2 ⟨hs, hkept⟩, ?_⟩
        rw [restoreAll, hrestore, hrestoreAll]
    obtain ⟨kept, hkept, hrestore⟩ := hall children ih
    subst hrestore
    exact ⟨.directory w kept, .directory w ((ordered_restoreAll kept).1 hordered) hkept, rfl⟩

/-! ### Reading the value of a node -/

/-- Reads a child of a directory from its field. -/
def ofField? (depth : Nat) (field : String × Json) : Option (String × Snapshot) :=
  (ofJson? false depth field.2).map fun child => (field.1, child)

/-- What is read is a file with the text that is given for its content, or a directory with what is
read of its children. -/
theorem ofJson?_succ_eq_some_iff (top : Bool) (depth : Nat) (json : Json) (s : Snapshot) :
    ofJson? top (depth + 1) json = some s ↔
      (∃ w content, parts? top json = some (.file, w, .text content) ∧ s = .file w content) ∨
      (∃ w fields children, parts? top json = some (.directory, w, .object fields) ∧
        fields.mapM (ofField? depth) = some children ∧
        s = .directory w (NameMap.ofList children)) := by
  have hfield : (fun x : String × Json =>
      (ofJson? false depth x.2).bind fun child => some (x.1, child)) = ofField? depth := by
    funext x
    exact Option.map_eq_bind.symm
  rw [ofJson?]
  constructor
  · intro h
    cases hparts : parts? top json with
    | none => exact absurd h (by simp [hparts])
    | some parts =>
      obtain ⟨tag, w, value⟩ := parts
      rw [hparts] at h
      match tag, value, h with
      | .file, .text content, h => exact Or.inl ⟨w, content, rfl, (Option.some.inj h).symm⟩
      | .directory, .object fields, h =>
        refine Or.inr ⟨w, fields, ?_⟩
        simp only [Option.bind_eq_bind, Option.bind_some, Option.pure_def, hfield] at h
        obtain ⟨children, hchildren, hs⟩ := Option.bind_eq_some_iff.1 h
        exact ⟨children, rfl, hchildren, (Option.some.inj hs).symm⟩
  · rintro (⟨w, content, hparts, rfl⟩ | ⟨w, fields, children, hparts, hchildren, rfl⟩)
    · rw [hparts]
      rfl
    · rw [hparts]
      simp only [Option.bind_eq_bind, Option.bind_some, Option.pure_def, hfield, hchildren]

/-- Every child of a directory that is read comes from one of the fields. -/
theorem exists_field_of_mapM {depth : Nat} {fields : List (String × Json)}
    {children : List (String × Snapshot)} (h : fields.mapM (ofField? depth) = some children) :
    ∀ pair ∈ children, ∃ field ∈ fields, ofJson? false depth field.2 = some pair.2 := by
  induction fields generalizing children with
  | nil =>
    obtain rfl : children = [] := by simpa [eq_comm] using h
    exact fun _ hmem => absurd hmem List.not_mem_nil
  | cons field rest ih =>
    rw [List.mapM_cons] at h
    cases hfirst : ofField? depth field with
    | none => exact absurd h (by simp [hfirst])
    | some first =>
      cases hrest : rest.mapM (ofField? depth) with
      | none => exact absurd h (by simp [hfirst, hrest])
      | some later =>
        obtain rfl : children = first :: later := by simpa [hfirst, hrest, eq_comm] using h
        obtain ⟨child, hchild, rfl⟩ := Option.map_eq_some_iff.1 hfirst
        refine List.forall_mem_cons.2 ⟨⟨field, List.mem_cons_self, hchild⟩, fun pair hpair => ?_⟩
        obtain ⟨other, hmem, hother⟩ := ih hrest pair hpair
        exact ⟨other, List.mem_cons_of_mem _ hmem, hother⟩

/-! ### What is written fits and is read -/

/-- A directory takes two braces, a file takes one. -/
theorem Fits.toJson {levels : Nat} {s : Snapshot} (h : s.Fits levels) :
    s.toJson.PlainWithin (2 * levels + 1) := by
  induction h with
  | @file levels w content =>
    rw [Snapshot.toJson]
    refine .object fun field hfield => ?_
    rcases List.mem_cons.1 hfield with rfl | hfield
    · exact .text _
    · rcases List.mem_cons.1 hfield with rfl | hfield
      · exact .bool _
      · rw [List.mem_singleton.1 hfield]
        exact .text _
  | @directory levels w children _ _ ih =>
    rw [Snapshot.toJson, toJsonAll_eq_map]
    refine .object fun field hfield => ?_
    rcases List.mem_cons.1 hfield with rfl | hfield
    · exact .text _
    · rcases List.mem_cons.1 hfield with rfl | hfield
      · exact .bool _
      · rw [List.mem_singleton.1 hfield]
        refine .object fun below hbelow => ?_
        obtain ⟨pair, hpair, rfl⟩ := List.mem_map.1 hbelow
        exact ih pair hpair

theorem parts?_toJson_file (top w : Bool) (content : String) :
    parts? top (toJson (.file w content)) = some (.file, w, .text content) := by
  cases top <;> rfl

theorem parts?_toJson_directory (top w : Bool) (children : List (String × Snapshot)) :
    parts? top (toJson (.directory w children)) =
      some (.directory, w, .object (toJsonAll children)) := by
  cases top <;> rfl

/-- A snapshot is read back from its JSON value. -/
theorem Fits.ofJson?_toJson {levels : Nat} {s : Snapshot} (h : s.Fits levels) (top : Bool)
    {depth : Nat} (hdepth : levels < depth) : ofJson? top depth s.toJson = some s := by
  induction h generalizing top depth with
  | @file levels w content =>
    obtain ⟨depth, rfl⟩ := Nat.exists_eq_succ_of_ne_zero (Nat.ne_of_gt (Nat.zero_lt_of_lt hdepth))
    refine (ofJson?_succ_eq_some_iff _ _ _ _).2 (Or.inl ?_)
    exact ⟨w, content, parts?_toJson_file top w content, rfl⟩
  | @directory levels w children hordered _ ih =>
    obtain ⟨depth, rfl⟩ := Nat.exists_eq_succ_of_ne_zero (Nat.ne_of_gt (Nat.zero_lt_of_lt hdepth))
    have hbelow : levels < depth := Nat.lt_of_succ_lt_succ hdepth
    have hall : ∀ kept : List (String × Snapshot),
        (∀ pair ∈ kept, ofJson? false depth pair.2.toJson = some pair.2) →
        (toJsonAll kept).mapM (ofField? depth) = some kept := by
      intro kept
      induction kept with
      | nil => exact fun _ => rfl
      | cons pair rest ihrest =>
        intro hkept
        obtain ⟨hfirst, hrest⟩ := List.forall_mem_cons.1 hkept
        simp [toJsonAll, List.mapM_cons, ofField?, hfirst, ihrest hrest]
    refine (ofJson?_succ_eq_some_iff _ _ _ _).2 (Or.inr ?_)
    refine ⟨w, toJsonAll children, children, parts?_toJson_directory top w children, ?_, ?_⟩
    · exact hall children fun pair hpair => ih pair hpair false hbelow
    · rw [hordered.ofList_eq]

/-- A snapshot that fits is read back as it was written. -/
theorem read_write {s : Snapshot} (h : s.Fits maxLevels) : read s.write = some s := by
  have hplain : s.toJson.PlainWithin Json.maxDepth := h.toJson
  have hread : Json.read s.write = .ok s.toJson := Json.read_compact hplain
  unfold read
  rw [hread]
  exact h.ofJson?_toJson true (by decide)

/-! ### What is read fits -/

theorem mem_of_only? {name : String} {fields : List (String × Json)} {value : Json}
    (h : only? name fields = some value) : ∃ field ∈ fields, field.2 = value := by
  unfold only? at h
  split at h
  next key found hfilter =>
    have hmem : (key, found) ∈ fields.filter fun field => field.1 = name := by
      rw [hfilter]
      exact List.mem_cons_self
    exact ⟨(key, found), (List.mem_filter.1 hmem).1, Option.some.inj h⟩
  next => exact absurd h (by simp)

/-- The part of a node that its children or its text are read from lies inside a brace or
bracket. -/
theorem within_of_parts? {top w : Bool} {depth : Nat} {json value : Json} {tag : Tag}
    (h : json.Within depth) (hparts : parts? top json = some (tag, w, value)) :
    ∃ below, depth = below + 1 ∧ value.Within below := by
  cases h with
  | @list below items hitems =>
    refine ⟨below, rfl, ?_⟩
    unfold parts? at hparts
    match items, hitems, hparts with
    | [first, .bool flag, last], hitems, hparts =>
      obtain ⟨found, -, hlast⟩ := Option.bind_eq_some_iff.1 hparts
      obtain rfl : last = value := by
        simpa using congrArg (fun parts : Option (Tag × Bool × Json) =>
          parts.map fun parts => parts.2.2) hlast
      exact hitems last (by simp)
  | @object below fields hfields =>
    refine ⟨below, rfl, ?_⟩
    unfold parts? at hparts
    simp only [Option.bind_eq_bind] at hparts
    obtain ⟨type, -, hparts⟩ := Option.bind_eq_some_iff.1 hparts
    obtain ⟨found, -, hparts⟩ := Option.bind_eq_some_iff.1 hparts
    obtain ⟨flag, -, hparts⟩ := Option.bind_eq_some_iff.1 hparts
    match flag, hparts with
    | .bool flag, hparts =>
      obtain ⟨last, honly, hlast⟩ := Option.bind_eq_some_iff.1 hparts
      obtain rfl : last = value := by
        simpa using congrArg (fun parts : Option (Tag × Bool × Json) =>
          parts.map fun parts => parts.2.2) hlast
      obtain ⟨field, hfield, rfl⟩ := mem_of_only? honly
      exact hfields field hfield
  | _ => exact absurd hparts (by simp [parts?])

/-- What is read from a value fits into half as many levels as the value has brackets. -/
theorem fits_of_ofJson? {depth : Nat} {top : Bool} {json : Json} {s : Snapshot} {levels : Nat}
    (h : ofJson? top depth json = some s) (hwithin : json.Within (2 * levels + 1)) :
    s.Fits levels := by
  induction depth generalizing top json s levels with
  | zero => exact absurd h (by simp [ofJson?])
  | succ depth ih =>
    rcases (ofJson?_succ_eq_some_iff _ _ _ _).1 h with
      ⟨w, content, -, rfl⟩ | ⟨w, fields, children, hparts, hchildren, rfl⟩
    · exact .file w content
    · obtain ⟨inside, hinside, hobject⟩ := within_of_parts? hwithin hparts
      cases hobject with
      | @object below _ hfields =>
      obtain ⟨levels, rfl⟩ : ∃ inner, levels = inner + 1 := ⟨levels - 1, by omega⟩
      obtain rfl : below = 2 * levels + 1 := by omega
      refine .directory w (NameMap.ordered_ofList children) (NameMap.forall_ofList ?_)
      intro pair hpair
      obtain ⟨field, hfield, hread⟩ := exists_field_of_mapM hchildren pair hpair
      exact ih hread (hfields field hfield)

/-- Whatever is read fits. -/
theorem fits_of_read {body : String} {s : Snapshot} (h : read body = some s) :
    s.Fits maxLevels := by
  unfold read at h
  cases hread : Json.read body with
  | error fault => exact absurd h (by simp [hread])
  | ok json =>
    rw [hread] at h
    exact fits_of_ofJson? h (Json.within_of_read hread)

end Snapshot

namespace Node

/-- A tree that fits has a snapshot, which fits too and which the tree is had back from. -/
theorem Fits.exists_capture {levels : Nat} {node : Node} (h : node.Fits levels) :
    ∃ s : Snapshot, Snapshot.capture node = some s ∧ s.Fits levels ∧ s.restore = node := by
  obtain ⟨s, hs, rfl⟩ := Snapshot.exists_fits_restore h
  exact ⟨s, Snapshot.capture_restore s, hs, rfl⟩

/-! ### Changes of a tree that fits -/

/-- Changing a node of a tree leaves the tree fitting if it leaves the node so. -/
theorem Fits.update {f : Node → Node} (hf : ∀ levels node, Fits levels node → Fits levels (f node))
    {levels : Nat} {node : Node} (h : node.Fits levels) (names : List String) :
    (node.update f names).Fits levels := by
  induction names generalizing levels node with
  | nil =>
    cases node <;> exact hf levels _ h
  | cons name names ih =>
    cases h with
    | file w body => exact .file w body
    | directory w hordered hchildren =>
      exact .directory w (hordered.modify name _) (NameMap.forall_modify hchildren fun _ => ih)

theorem Fits.addChild {levels : Nat} {node : Node} (h : node.Fits levels) (name : String)
    {new : Node} (hnew : ∀ levels, new.Fits levels) :
    (Node.addChild name new node).Fits levels := by
  cases h with
  | file w body => exact .file w body
  | directory w hordered hchildren =>
    exact .directory w (hordered.insert name new) (NameMap.forall_insert hchildren (hnew _))

theorem Fits.setWriteable {levels : Nat} {node : Node} (h : node.Fits levels) (w : Bool) :
    (node.setWriteable w).Fits levels := by
  cases h with
  | file _ body => exact .file w body
  | directory _ hordered hchildren => exact .directory w hordered hchildren

end Node

end MountShell
