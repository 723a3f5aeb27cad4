import MountShell.Tree.Basic

/-!
# Changes of a tree

What `Node.update` does at the end of its list of names, and to the number of nodes of the tree
(`Node.size`), and when `Tree.walk` and `Tree.create` succeed.

Main statements: `walk_eq_ok_iff`, a walk finds the node at the end of its steps;
`create_eq_ok_iff`, a node is created just when the parent is a writeable directory without a child
of that name; and `size_create`, the tree has one more node then.
-/

namespace MountShell

namespace Node

/-! ### The node at the end of a list of names -/

theorem at?_nil (node : Node) : node.at? [] = some node := by
  cases node <;> rfl

theorem at?_cons (node : Node) (name : String) (names : List String) :
    node.at? (name :: names) = (node.child? name).bind fun child => child.at? names := by
  rw [at?]
  cases node.child? name <;> rfl

theorem at?_append (node : Node) (names more : List String) :
    node.at? (names ++ more) = (node.at? names).bind fun found => found.at? more := by
  induction names generalizing node with
  | nil =>
    rw [List.nil_append, at?_nil]
    rfl
  | cons name names ih =>
    rw [List.cons_append, at?_cons, at?_cons]
    cases hchild : node.child? name with
    | none => rfl
    | some child => exact ih child

/-- Names lead on from a directory, through the child with the first of them. -/
theorem exists_of_at?_cons {node found : Node} {name : String} {names : List String}
    (h : node.at? (name :: names) = some found) :
    ∃ w children child, node = directory w children ∧ NameMap.find? name children = some child ∧
      child.at? names = some found := by
  rw [at?_cons] at h
  obtain ⟨child, hchild, hrest⟩ := Option.bind_eq_some_iff.1 h
  cases node with
  | file w content => exact absurd hchild (by simp [child?])
  | directory w children => exact ⟨w, children, child, rfl, hchild, hrest⟩

/-- The node at the end of the names is the one that is changed. -/
theorem at?_update (f : Node → Node) {node found : Node} {names : List String}
    (h : node.at? names = some found) : (node.update f names).at? names = some (f found) := by
  induction names generalizing node with
  | nil =>
    rw [at?_nil] at h
    obtain rfl : node = found := Option.some.inj h
    cases node <;> exact at?_nil _
  | cons name names ih =>
    obtain ⟨w, children, child, rfl, hchild, hrest⟩ := exists_of_at?_cons h
    rw [update, at?_cons, child?, NameMap.find?_modify, if_pos rfl, hchild]
    exact ih hrest

theorem update_update (f g : Node → Node) (names : List String) (node : Node) :
    (node.update f names).update g names = node.update (g ∘ f) names := by
  induction names generalizing node with
  | nil => rfl
  | cons name names ih =>
    cases node with
    | file w content => rfl
    | directory w children =>
      have hmodify : update g names ∘ update f names = update (g ∘ f) names := funext ih
      rw [update, update, update, NameMap.modify_modify, hmodify]

/-- A change that leaves the node at the end of the names leaves the tree. -/
theorem update_eq_self {f : Node → Node} {node found : Node} {names : List String}
    (h : node.at? names = some found) (hfound : f found = found) : node.update f names = node := by
  induction names generalizing node with
  | nil =>
    rw [at?_nil] at h
    obtain rfl : node = found := Option.some.inj h
    exact hfound
  | cons name names ih =>
    obtain ⟨w, children, child, rfl, hchild, hrest⟩ := exists_of_at?_cons h
    rw [update, NameMap.modify_eq_self hchild (ih hrest)]

theorem at?_file_cons (w : Bool) (content : Content) (name : String) (names : List String) :
    (file w content).at? (name :: names) = none := by
  rw [at?_cons, child?]
  rfl

/-- A file stays as it is when another one is changed. -/
theorem at?_update_of_ne (f : Node → Node) {node : Node} {names other : List String} {w w' : Bool}
    {content content' : Content} (h : node.at? names = some (.file w content))
    (hother : node.at? other = some (.file w' content')) (hne : other ≠ names) :
    (node.update f names).at? other = some (.file w' content') := by
  induction names generalizing node other with
  | nil =>
    rw [at?_nil] at h
    obtain rfl : node = .file w content := Option.some.inj h
    cases other with
    | nil => exact absurd rfl hne
    | cons name rest => exact absurd hother (by simp [at?_file_cons])
  | cons name names ih =>
    obtain ⟨w₀, children, child, rfl, hchild, hrest⟩ := exists_of_at?_cons h
    cases other with
    | nil => exact absurd hother (by simp [at?_nil])
    | cons name' rest =>
      rw [at?_cons, child?] at hother
      rw [update, at?_cons, child?, NameMap.find?_modify]
      by_cases hname : name = name'
      · subst hname
        rw [hchild] at hother
        rw [if_pos rfl, hchild]
        exact ih hrest hother fun heq => hne (congrArg (name :: ·) heq)
      · rw [if_neg hname]
        exact hother

/-- A file that is there when another one has been changed was there before. -/
theorem at?_of_update {f : Node → Node} {node : Node} {names other : List String} {w w' w₁ : Bool}
    {content content' content₁ : Content} (h : node.at? names = some (.file w content))
    (hf : f (.file w content) = .file w₁ content₁)
    (hother : (node.update f names).at? other = some (.file w' content')) (hne : other ≠ names) :
    node.at? other = some (.file w' content') := by
  induction names generalizing node other with
  | nil =>
    rw [at?_nil] at h
    obtain rfl : node = .file w content := Option.some.inj h
    cases other with
    | nil => exact absurd rfl hne
    | cons name rest =>
      rw [update, hf, at?_file_cons] at hother
      exact absurd hother (by simp)
  | cons name names ih =>
    obtain ⟨w₀, children, child, rfl, hchild, hrest⟩ := exists_of_at?_cons h
    cases other with
    | nil => exact absurd hother (by simp [update, at?_nil])
    | cons name' rest =>
      rw [update, at?_cons, child?, NameMap.find?_modify] at hother
      rw [at?_cons, child?]
      by_cases hname : name = name'
      · subst hname
        rw [if_pos rfl, hchild] at hother
        rw [hchild]
        exact ih hrest hother fun heq => hne (congrArg (name :: ·) heq)
      · rwa [if_neg hname] at hother

/-- What can be reached before a change can be reached after it, if that holds of the node that is
changed. -/
theorem isSome_at?_update {f : Node → Node} {node found : Node} {names other : List String}
    (h : node.at? names = some found)
    (hf : ∀ rest, (found.at? rest).isSome = true → ((f found).at? rest).isSome = true)
    (hother : (node.at? other).isSome = true) :
    ((node.update f names).at? other).isSome = true := by
  induction names generalizing node other with
  | nil =>
    rw [at?_nil] at h
    obtain rfl : node = found := Option.some.inj h
    have hchanged := hf other hother
    cases node <;> exact hchanged
  | cons name names ih =>
    obtain ⟨w, children, child, rfl, hchild, hrest⟩ := exists_of_at?_cons h
    cases other with
    | nil =>
      rw [at?_nil]
      rfl
    | cons name' rest =>
      rw [at?_cons, child?] at hother
      rw [update, at?_cons, child?, NameMap.find?_modify]
      by_cases hname : name = name'
      · subst hname
        rw [hchild] at hother
        rw [if_pos rfl, hchild]
        exact ih hrest hother
      · rw [if_neg hname]
        exact hother

/-! ### The number of nodes -/

theorem sizeOfAll_insert {name : String} {children : List (String × Node)} (new : Node)
    (h : NameMap.find? name children = none) :
    sizeOfAll (NameMap.insert name new children) = sizeOfAll children + new.size := by
  induction children with
  | nil => simp [NameMap.insert, sizeOfAll]
  | cons pair rest ih =>
    obtain ⟨key, child⟩ := pair
    rw [NameMap.find?_cons] at h
    by_cases hkey : key = name
    · exact absurd h (by simp [hkey])
    · rw [if_neg hkey] at h
      rw [NameMap.insert, if_neg hkey]
      by_cases hlt : name < key
      · rw [if_pos hlt]
        simp only [sizeOfAll]
        omega
      · rw [if_neg hlt]
        simp only [sizeOfAll, ih h]
        omega

theorem sizeOfAll_modify {name : String} {children : List (String × Node)} {f : Node → Node}
    {child : Node} {more : Nat} (h : NameMap.find? name children = some child)
    (hf : (f child).size = child.size + more) :
    sizeOfAll (NameMap.modify name f children) = sizeOfAll children + more := by
  induction children with
  | nil => exact absurd h (by simp [NameMap.find?_nil])
  | cons pair rest ih =>
    obtain ⟨key, first⟩ := pair
    rw [NameMap.find?_cons] at h
    rw [NameMap.modify]
    by_cases hkey : key = name
    · rw [if_pos hkey] at h ⊢
      obtain rfl : first = child := Option.some.inj h
      simp only [sizeOfAll, hf]
      omega
    · rw [if_neg hkey] at h ⊢
      simp only [sizeOfAll, ih h]
      omega

/-- A tree grows as much as the node in it that is changed. -/
theorem size_update {node found : Node} {names : List String} {f : Node → Node} {more : Nat}
    (h : node.at? names = some found) (hf : (f found).size = found.size + more) :
    (node.update f names).size = node.size + more := by
  induction names generalizing node with
  | nil =>
    rw [at?_nil] at h
    obtain rfl : node = found := Option.some.inj h
    cases node <;> exact hf
  | cons name names ih =>
    obtain ⟨w, children, child, rfl, hchild, hrest⟩ := exists_of_at?_cons h
    have hall := sizeOfAll_modify (f := update f names) hchild (ih hrest)
    rw [update, size, size, hall]
    omega

end Node

namespace Tree

/-! ### Walks -/

theorem follow_eq_ok_iff (path : String) (node found : Node) (walked names : List String) :
    follow path node walked names = .ok found ↔ node.at? names = some found := by
  induction names generalizing node walked with
  | nil =>
    rw [Node.at?_nil]
    cases node <;> simp [follow]
  | cons name names ih =>
    rw [Node.at?_cons]
    cases node with
    | file w content => simp [follow, Node.child?]
    | directory w children =>
      rw [follow, Node.child?]
      cases NameMap.find? name children with
      | none => simp
      | some child => exact ih child _

/-- A walk finds the node at the end of its steps. -/
theorem walk_eq_ok_iff (root found : Node) (path : String) :
    walk root path = .ok found ↔ root.at? (Path.walkSteps path) = some found :=
  follow_eq_ok_iff path root found [] _

/-! ### Creating a node -/

/-- A node is created just when its name can be one and the parent is a writeable directory without
a child of that name. -/
theorem create_eq_ok_iff (root new after : Node) (path : String) :
    create root path new = .ok after ↔
      ∃ parent name children, Path.splitParent path = (parent, name) ∧
        ¬ (name = "" ∨ name = "." ∨ name = "..") ∧
        root.at? (Path.walkSteps parent) = some (.directory true children) ∧
        NameMap.find? name children = none ∧
        after = root.update (Node.addChild name new) (Path.walkSteps parent) := by
  unfold create
  obtain ⟨parent, name⟩ := Path.splitParent path
  simp only []
  -- The checks are undone in their order: the name, the way to the parent, its flag, and that the
  -- name is free.
  by_cases hname : name = "" ∨ name = "." ∨ name = ".."
  · rw [if_pos hname]
    refine ⟨fun h => absurd h (by simp), ?_⟩
    rintro ⟨parent', name', children, heq, hgood, -⟩
    obtain ⟨-, rfl⟩ := Prod.mk.inj heq
    exact absurd hname hgood
  rw [if_neg hname]
  constructor
  · intro h
    cases hwalk : walk root parent with
    | error e =>
      rw [hwalk] at h
      exact absurd h (by simp)
    | ok found =>
      rw [hwalk] at h
      cases found with
      | file w content => exact absurd h (by simp)
      | directory w children =>
        cases w with
        | false => exact absurd h (by simp)
        | true =>
          cases hfind : NameMap.find? name children with
          | some child => exact absurd h (by simp [NameMap.contains, hfind])
          | none =>
            have hat := (walk_eq_ok_iff root _ parent).1 hwalk
            refine ⟨parent, name, children, rfl, hname, hat, hfind, ?_⟩
            simpa [NameMap.contains, hfind, eq_comm] using h
  · rintro ⟨parent', name', children, heq, -, hat, hfind, rfl⟩
    obtain ⟨rfl, rfl⟩ := Prod.mk.inj heq
    have hwalk := (walk_eq_ok_iff root _ parent).2 hat
    simp [hwalk, NameMap.contains, hfind]

/-- What could be reached before a node is created can still be reached. -/
theorem isSome_at?_create {root new after : Node} {path : String}
    (h : create root path new = .ok after) {names : List String}
    (hnames : (root.at? names).isSome = true) : (after.at? names).isSome = true := by
  obtain ⟨parent, name, children, -, -, hat, hfind, rfl⟩ := (create_eq_ok_iff _ _ _ _).1 h
  refine Node.isSome_at?_update hat (fun rest hrest => ?_) hnames
  cases rest with
  | nil => exact hrest
  | cons first rest =>
    rw [Node.at?_cons, Node.child?] at hrest
    rw [Node.addChild, Node.at?_cons, Node.child?, NameMap.find?_insert]
    by_cases hname : name = first
    · subst hname
      exact absurd hrest (by simp [hfind])
    · rw [if_neg hname]
      exact hrest

/-- A tree in which a node has been created has as many more nodes. -/
theorem size_create {root new after : Node} {path : String}
    (h : create root path new = .ok after) : after.size = root.size + new.size := by
  obtain ⟨parent, name, children, -, -, hat, hfind, rfl⟩ := (create_eq_ok_iff _ _ _ _).1 h
  refine Node.size_update hat ?_
  have hall := Node.sizeOfAll_insert new hfind
  rw [Node.addChild, Node.size, Node.size, hall]
  omega

end Tree

end MountShell
