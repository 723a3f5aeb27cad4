import Mathlib.Data.List.Perm.Basic
import MountShell.Proofs.Text.ByteOrder
import MountShell.Proofs.Tree.Places
import MountShell.Tree.Search

/-!
# What a search finds

A search takes the nodes from its stack one by one (`Search.Visits`).  At any time the nodes that
have been visited and those of the trees on the stack are together the nodes of the tree at the
start, each as often as it stands there (`Search.Visits.pending_perm`), and what has been found is
what the visited nodes have to give (`Search.Visits.found_eq`).  When the stack is empty, all nodes
have been visited.

Main statements: `Search.exists_visits`, a search ends; and `Node.surveyed`, what the search of a
tree comes to.
-/

namespace MountShell

namespace Node

/-- The nodes in a directory; a file has none. -/
def childNodes : Node → List Node
  | directory _ children => children.map Prod.snd
  | file _ _ => []

theorem nodes_eq (node : Node) : node.nodes = node :: node.childNodes.flatMap nodes := by
  cases node with
  | directory w children => rw [nodes_directory, childNodes, List.flatMap_map]
  | file w content => rfl

end Node

namespace Search

/-- The search goes on with a visit to each of the given nodes, one after the other, and comes to
the second state. -/
inductive Visits : Search → List Node → Search → Prop
  | nil (s : Search) : Visits s [] s
  | cons {node : Node} {rest visited : List Node} {found : List String} {next last : Search} :
      visit ⟨node :: rest, found⟩ = some next → Visits next visited last →
      Visits ⟨node :: rest, found⟩ (node :: visited) last

/-- What a visit does, whatever the node is. -/
theorem visit_cons (node : Node) (rest : List Node) (found : List String) :
    visit ⟨node :: rest, found⟩ =
      some ⟨node.childNodes.reverse ++ rest, found ++ node.location?.toList⟩ := by
  cases node with
  | directory w children => simp [visit, Node.childNodes, Node.location?]
  | file w content => cases content <;> simp [visit, Node.childNodes, Node.location?]

/-- The nodes of all trees on the stack. -/
def pending (s : Search) : List Node :=
  s.stack.flatMap Node.nodes

section

variable {node : Node} {rest : List Node} {found : List String} {next : Search}

/-- A visit takes the node from those that are left, and no other gets lost. -/
theorem pending_perm_of_visit (h : visit ⟨node :: rest, found⟩ = some next) :
    (pending ⟨node :: rest, found⟩).Perm (node :: next.pending) := by
  rw [visit_cons] at h
  obtain rfl := Option.some.inj h
  unfold pending
  rw [List.flatMap_cons, List.flatMap_append, Node.nodes_eq, List.cons_append]
  refine (List.Perm.append_right _ ?_).cons node
  -- the children stand on the stack in the other order
  exact (List.reverse_perm _).symm.flatMap_right _

theorem found_of_visit (h : visit ⟨node :: rest, found⟩ = some next) :
    next.found = found ++ node.location?.toList := by
  rw [visit_cons] at h
  rw [← Option.some.inj h]

end

namespace Visits

variable {s last : Search} {visited : List Node}

/-- The visited nodes and those that are left are the nodes that were there at the start. -/
theorem pending_perm (h : s.Visits visited last) : s.pending.Perm (visited ++ last.pending) := by
  induction h with
  | nil s => exact List.Perm.refl _
  | cons hvisit _ ih => exact (pending_perm_of_visit hvisit).trans (ih.cons _)

/-- What is found comes from the visited nodes. -/
theorem found_eq (h : s.Visits visited last) :
    last.found = s.found ++ visited.filterMap Node.location? := by
  induction h with
  | nil s => exact (List.append_nil _).symm
  | @cons node rest visited found next last hvisit _ ih =>
    rw [ih, found_of_visit hvisit, List.append_assoc]
    cases hlocation : node.location? <;> simp [hlocation]

/-- The trees on the stack lose one node with each visit. -/
theorem size_eq (h : s.Visits visited last) : s.size = visited.length + last.size := by
  induction h with
  | nil s => exact (Nat.zero_add _).symm
  | cons hvisit _ ih =>
    rw [size_of_visit hvisit, ih, List.length_cons]
    omega

end Visits

/-- A search ends: after some visits no node is left. -/
theorem exists_visits (s : Search) : ∃ visited, s.Visits visited ⟨[], s.finish⟩ := by
  fun_induction finish s with
  | case1 s after hvisit ih =>
    obtain ⟨visited, hvisits⟩ := ih
    obtain ⟨_ | ⟨node, rest⟩, found⟩ := s
    · exact absurd hvisit (by simp [visit])
    · exact ⟨node :: visited, .cons hvisit hvisits⟩
  | case2 s hvisit =>
    obtain ⟨_ | ⟨node, rest⟩, found⟩ := s
    · exact ⟨[], .nil _⟩
    · exact absurd hvisit (by simp [visit_cons])

/-- The search of a tree ends after one visit to each of its nodes, and finds what they have to
give. -/
theorem exists_visits_start (root : Node) :
    ∃ visited, (start root).Visits visited ⟨[], visited.filterMap Node.location?⟩ ∧
      (start root).finish = visited.filterMap Node.location? ∧ visited.Perm root.nodes ∧
      visited.length = root.size := by
  obtain ⟨visited, hvisits⟩ := exists_visits (start root)
  have hfound : (start root).finish = visited.filterMap Node.location? := hvisits.found_eq
  have hperm := hvisits.pending_perm
  have hsize := hvisits.size_eq
  refine ⟨visited, hfound ▸ hvisits, hfound, ?_, ?_⟩
  · simpa [pending, start] using hperm.symm
  · simpa [size, start, Node.sizes] using hsize.symm

end Search

namespace Node

/-- The locations found are those of the remote files. -/
theorem remoteLocations_perm (root : Node) : root.remoteLocations.Perm root.remotes := by
  obtain ⟨visited, -, hfound, hperm, -⟩ := Search.exists_visits_start root
  unfold remoteLocations
  rw [hfound]
  exact (List.mergeSort_perm _ _).trans (hperm.filterMap location?)

theorem mem_remoteLocations {root : Node} {location : String} :
    location ∈ root.remoteLocations ↔ location ∈ root.remotes :=
  root.remoteLocations_perm.mem_iff

/-- The locations found are sorted. -/
theorem pairwise_remoteLocations (root : Node) : root.remoteLocations.Pairwise (· ≤ ·) := by
  have hsorted : root.remoteLocations.Pairwise fun a b => decide (a ≤ b) = true :=
    List.pairwise_mergeSort (fun a b c => by simpa using String.le_trans)
      (fun a b => by simpa using String.le_total a b) _
  exact hsorted.imp of_decide_eq_true

/-- The locations found are the one sorted list of those of the remote files. -/
theorem remoteLocations_eq {root : Node} {locations : List String}
    (hperm : root.remotes.Perm locations) (hsorted : locations.Pairwise (· ≤ ·)) :
    root.remoteLocations = locations :=
  (root.remoteLocations_perm.trans hperm).eq_of_pairwise (fun _ _ _ _ => String.le_antisymm)
    root.pairwise_remoteLocations hsorted

/-- Trees with the same remote files have the same list of locations. -/
theorem remoteLocations_congr {root other : Node} (h : root.remotes.Perm other.remotes) :
    root.remoteLocations = other.remoteLocations :=
  remoteLocations_eq (h.trans other.remoteLocations_perm.symm) other.pairwise_remoteLocations

/-- What the search of a tree comes to. -/
structure Surveyed (root : Node) : Prop where
  /-- It ends after one visit to each node, and has found what the nodes have to give. -/
  ends : ∃ visited, (Search.start root).Visits visited ⟨[], visited.filterMap location?⟩ ∧
    (Search.start root).finish = visited.filterMap location? ∧ visited.Perm root.nodes ∧
    visited.length = root.size
  /-- The locations are in the order of their bytes. -/
  sorted : root.remoteLocations.Pairwise fun a b => Text.bytes a ≤ Text.bytes b
  /-- They are those of the remote files, each as often as there are such files. -/
  perm : root.remoteLocations.Perm root.remotes
  /-- Where the names in the directories are in order, the nodes are those that a list of names
  leads to, one for each of the lists. -/
  places : root.Sorted → (root.places.map Prod.fst).Nodup ∧
    ∀ names node, (names, node) ∈ root.places ↔ root.at? names = some node

theorem surveyed (root : Node) : root.Surveyed where
  ends := Search.exists_visits_start root
  sorted := root.pairwise_remoteLocations.imp (Text.le_iff_bytes_le _ _).1
  perm := root.remoteLocations_perm
  places h := ⟨nodup_places h, mem_places_iff h⟩

end Node

end MountShell
