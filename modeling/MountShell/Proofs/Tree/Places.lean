import Mathlib.Data.List.Basic
import Mathlib.Data.List.Nodup
import MountShell.Proofs.NameMap
import MountShell.Proofs.Tree.Change

/-!
# The places of a tree

`Node.places` lists the nodes of a tree by going through all of it, each with the names that lead
there.  Where the names of every directory are in order (`Node.Sorted`), looking a list of names up
finds the same: each place is listed once, with the node at the end of its names
(`Node.nodup_places`, `Node.mem_places_iff`).

Main statements: these two; and `TreeChange.remotes_apply`, no change of a tree adds a remote file
to it or takes one away.
-/

namespace MountShell

namespace Node

mutual

/-- The places of a tree: the names that lead to each node, and the node. -/
def places : Node → List (List String × Node)
  | directory w children => ([], directory w children) :: placesOf children
  | file w content => [([], file w content)]

/-- The places below the children of a directory. -/
def placesOf : List (String × Node) → List (List String × Node)
  | [] => []
  | (name, child) :: rest =>
    (child.places.map fun place => (name :: place.1, place.2)) ++ placesOf rest

end

/-- The nodes of a tree, one for each place. -/
def nodes (root : Node) : List Node :=
  root.places.map Prod.snd

/-- The location of the body, if the node is a remote file. -/
def location? : Node → Option String
  | file _ (.remote location) => some location
  | _ => none

/-- The locations of the remote files of a tree, one for each of the files. -/
def remotes (root : Node) : List String :=
  root.nodes.filterMap location?

/-- The names in every directory are in order, each of them once. -/
inductive Sorted : Node → Prop
  | file (w : Bool) (content : Content) : Sorted (.file w content)
  | directory (w : Bool) {children : List (String × Node)} :
      NameMap.Ordered children → (∀ pair ∈ children, Sorted pair.2) →
      Sorted (.directory w children)

theorem placesOf_eq_flatMap (children : List (String × Node)) :
    placesOf children =
      children.flatMap fun pair => pair.2.places.map fun place => (pair.1 :: place.1, place.2) := by
  induction children with
  | nil => rfl
  | cons pair rest ih => rw [placesOf, ih, List.flatMap_cons]

theorem mem_placesOf {children : List (String × Node)} {names : List String} {node : Node} :
    (names, node) ∈ placesOf children ↔
      ∃ pair ∈ children, ∃ rest, (rest, node) ∈ pair.2.places ∧ names = pair.1 :: rest := by
  rw [placesOf_eq_flatMap, List.mem_flatMap]
  refine exists_congr fun pair => and_congr_right fun _ => ?_
  simp [List.mem_map, eq_comm]

theorem nodes_directory (w : Bool) (children : List (String × Node)) :
    (directory w children).nodes =
      directory w children :: children.flatMap fun pair => pair.2.nodes := by
  rw [nodes, places, placesOf_eq_flatMap, List.map_cons, List.map_flatMap]
  simp only [List.map_map]
  rfl

theorem remotes_directory (w : Bool) (children : List (String × Node)) :
    (directory w children).remotes = children.flatMap fun pair => pair.2.remotes := by
  rw [remotes, nodes_directory, List.filterMap_cons_none rfl, List.filterMap_flatMap]
  rfl

theorem remotes_file (w : Bool) (content : Content) :
    (file w content).remotes = (file w content).location?.toList := by
  cases content <;> rfl

/-! ### Places and what is found at them -/

/-- What can be found has a place. -/
theorem mem_places_of_at? {root node : Node} {names : List String}
    (h : root.at? names = some node) : (names, node) ∈ root.places := by
  induction names generalizing root with
  | nil =>
    rw [at?_nil] at h
    obtain rfl := Option.some.inj h
    cases root <;> exact List.mem_cons_self
  | cons name names ih =>
    obtain ⟨w, children, child, rfl, hchild, hrest⟩ := exists_of_at?_cons h
    rw [places]
    refine List.mem_cons_of_mem _ (mem_placesOf.2 ?_)
    exact ⟨(name, child), NameMap.mem_of_find? hchild, names, ih hrest, rfl⟩

/-- Where the names are in order, the places are the lists of names that lead to a node. -/
theorem mem_places_iff {root : Node} (h : root.Sorted) (names : List String) (node : Node) :
    (names, node) ∈ root.places ↔ root.at? names = some node := by
  refine ⟨fun hmem => ?_, mem_places_of_at?⟩
  induction h generalizing names with
  | file w content =>
    obtain ⟨rfl, rfl⟩ := Prod.mk.inj (List.mem_singleton.1 hmem)
    exact at?_nil _
  | @directory w children hordered _ ih =>
    rw [places] at hmem
    rcases List.mem_cons.1 hmem with hroot | hbelow
    · obtain ⟨rfl, rfl⟩ := Prod.mk.inj hroot
      exact at?_nil _
    · obtain ⟨⟨name, child⟩, hpair, rest, hrest, rfl⟩ := mem_placesOf.1 hbelow
      rw [at?_cons, child?, hordered.find?_of_mem hpair, Option.bind_some]
      exact ih _ hpair rest hrest

/-- Where the names are in order, no place is listed twice. -/
theorem nodup_places {root : Node} (h : root.Sorted) : (root.places.map Prod.fst).Nodup := by
  induction h with
  | file w content => exact List.nodup_singleton _
  | @directory w children hordered _ ih =>
    have hbelow : (placesOf children).map Prod.fst =
        children.flatMap fun pair => (pair.2.places.map Prod.fst).map (pair.1 :: ·) := by
      rw [placesOf_eq_flatMap, List.map_flatMap]
      simp only [List.map_map, Function.comp_def]
    rw [places, List.map_cons, hbelow, List.nodup_cons, List.nodup_flatMap]
    refine ⟨by simp, fun pair hpair => ?_, hordered.imp fun {a b} hlt => ?_⟩
    · exact (ih pair hpair).map (List.cons_injective)
    · -- places below different children differ in the first name
      refine List.disjoint_left.2 fun names hfirst hsecond => ?_
      obtain ⟨_, -, rfl⟩ := List.mem_map.1 hfirst
      obtain ⟨_, -, heq⟩ := List.mem_map.1 hsecond
      exact String.lt_irrefl a.1 ((List.cons.inj heq).1 ▸ hlt)

/-- The location of a remote file is one of those of its tree. -/
theorem mem_remotes_of_at? {root : Node} {names : List String} {w : Bool} {location : String}
    (h : root.at? names = some (.file w (.remote location))) : location ∈ root.remotes :=
  List.mem_filterMap.2 ⟨_, List.mem_map_of_mem (mem_places_of_at? h), rfl⟩

/-! ### Places after a change -/

/-- A change of a node that leaves its remote files leaves those of the tree. -/
theorem remotes_update {f : Node → Node} {root found : Node} {names : List String}
    (h : root.at? names = some found) (hf : (f found).remotes = found.remotes) :
    (root.update f names).remotes = root.remotes := by
  induction names generalizing root with
  | nil =>
    rw [at?_nil] at h
    obtain rfl := Option.some.inj h
    cases root <;> exact hf
  | cons name names ih =>
    obtain ⟨w, children, child, rfl, hchild, hrest⟩ := exists_of_at?_cons h
    rw [update, remotes_directory, remotes_directory]
    exact NameMap.flatMap_modify remotes hchild (ih hrest)

theorem remotes_setWriteable (w : Bool) (node : Node) :
    (node.setWriteable w).remotes = node.remotes := by
  cases node with
  | directory _ children => rw [setWriteable, remotes_directory, remotes_directory]
  | file _ content =>
    rw [setWriteable, remotes_file, remotes_file]
    cases content <;> rfl

theorem Sorted.update {f : Node → Node} (hf : ∀ node, Sorted node → Sorted (f node)) {root : Node}
    (h : root.Sorted) (names : List String) : (root.update f names).Sorted := by
  induction names generalizing root with
  | nil => cases root <;> exact hf _ h
  | cons name names ih =>
    cases h with
    | file w content => exact .file w content
    | directory w hordered hchildren =>
      exact .directory w (hordered.modify name _) (NameMap.forall_modify hchildren fun _ => ih)

theorem Sorted.addChild {node new : Node} (h : node.Sorted) (name : String) (hnew : new.Sorted) :
    (Node.addChild name new node).Sorted := by
  cases h with
  | file w content => exact .file w content
  | directory w hordered hchildren =>
    exact .directory w (hordered.insert name new) (NameMap.forall_insert hchildren hnew)

theorem Sorted.setWriteable {node : Node} (h : node.Sorted) (w : Bool) :
    (node.setWriteable w).Sorted := by
  cases h with
  | file _ content => exact .file w content
  | directory _ hordered hchildren => exact .directory w hordered hchildren

/-- A directory made of any children has its names in order. -/
theorem Sorted.dir {children : List (String × Node)} (h : ∀ pair ∈ children, pair.2.Sorted)
    (w : Bool) : (Node.dir children w).Sorted :=
  .directory w (NameMap.ordered_ofList children) (NameMap.forall_ofList h)

end Node

namespace TreeChange

variable {root : Node} {c : TreeChange}

/-- No change adds a remote file or takes one away. -/
theorem remotes_apply (h : c.Allowed root) : (c.apply root).remotes = root.remotes := by
  cases c with
  | addFile parent name =>
    obtain ⟨children, hparent, hnone⟩ := h
    refine Node.remotes_update hparent ?_
    rw [Node.addChild, Node.remotes_directory, Node.remotes_directory]
    exact NameMap.flatMap_insert Node.remotes hnone rfl
  | setFlag names w =>
    obtain ⟨found, hfound⟩ := Option.isSome_iff_exists.1 h
    exact Node.remotes_update hfound (Node.remotes_setWriteable w found)
  | setText names body =>
    obtain ⟨old, hold⟩ := h
    exact Node.remotes_update hold rfl

/-- A change leaves the names in order. -/
theorem sorted_apply (h : root.Sorted) : (c.apply root).Sorted := by
  cases c with
  | addFile parent name => exact h.update (fun _ hnode => hnode.addChild name (.file _ _)) parent
  | setFlag names w => exact h.update (fun _ hnode => hnode.setWriteable w) names
  | setText names body => exact h.update (fun _ _ => .file _ _) names

end TreeChange

end MountShell
