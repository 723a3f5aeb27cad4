import MountShell.Tree.Node

/-!
# Searching a tree for remote files

The nodes of a tree are visited one after the other. Those that have still to be visited stand on a
stack: a directory puts its children there, and a remote file adds its location to those found.

Main definitions: `Search.visit`, one visit; `Search.finish`, the visits until no node is left; and
`Node.remoteLocations`, what a search of the whole tree finds.

Each visit takes one node off the trees on the stack (`Search.size_of_visit`). The stack itself may
grow, so that its length would not do.
-/

namespace MountShell

namespace Node

/-- The number of nodes of several trees. -/
def sizes : List Node → Nat
  | [] => 0
  | node :: rest => node.size + sizes rest

theorem sizes_append (nodes more : List Node) :
    sizes (nodes ++ more) = sizes nodes + sizes more := by
  induction nodes with
  | nil => exact (Nat.zero_add _).symm
  | cons node rest ih => rw [List.cons_append, sizes, sizes, ih, Nat.add_assoc]

theorem sizes_reverse (nodes : List Node) : sizes nodes.reverse = sizes nodes := by
  induction nodes with
  | nil => rfl
  | cons node rest ih =>
    simp only [List.reverse_cons, sizes_append, ih, sizes]
    omega

theorem sizeOfAll_eq_sizes (children : List (String × Node)) :
    sizeOfAll children = sizes (children.map Prod.snd) := by
  induction children with
  | nil => rfl
  | cons pair rest ih => rw [sizeOfAll, ih, List.map_cons, sizes]

end Node

/-- A search for remote files, between two visits. -/
structure Search where
  /-- The nodes that have still to be visited, the next one first. -/
  stack : List Node
  /-- The locations found so far. -/
  found : List String

namespace Search

/-- The search of a tree before the first visit. -/
def start (root : Node) : Search := ⟨[root], []⟩

/-- The search after one more visit; nothing if no node is left. The last child of a directory is
visited next. -/
def visit : Search → Option Search
  | ⟨[], _⟩ => none
  | ⟨.directory _ children :: rest, found⟩ =>
    some ⟨(children.map Prod.snd).reverse ++ rest, found⟩
  | ⟨.file _ (.remote location) :: rest, found⟩ => some ⟨rest, found ++ [location]⟩
  | ⟨.file _ _ :: rest, found⟩ => some ⟨rest, found⟩

/-- The number of nodes of the trees on the stack. -/
def size (s : Search) : Nat :=
  Node.sizes s.stack

/-- A visit leaves one node less. -/
theorem size_of_visit {s after : Search} (h : s.visit = some after) : s.size = after.size + 1 := by
  obtain ⟨stack, found⟩ := s
  cases stack with
  | nil => exact absurd h (by simp [visit])
  | cons node rest =>
    cases node with
    | directory w children =>
      obtain rfl := Option.some.inj h
      simp only [size, Node.sizes, Node.size, Node.sizes_append, Node.sizes_reverse,
        Node.sizeOfAll_eq_sizes]
      omega
    | file w content =>
      cases content <;>
      · obtain rfl := Option.some.inj h
        simp only [size, Node.sizes, Node.size]
        omega

/-- The locations that are found when no node is left. -/
def finish (s : Search) : List String :=
  match _h : s.visit with
  | some after => after.finish
  | none => s.found
termination_by s.size
decreasing_by
  have hless := size_of_visit ‹s.visit = some after›
  omega

end Search

/-- The locations of the remote files of a tree, sorted. -/
def Node.remoteLocations (root : Node) : List String :=
  (Search.start root).finish.mergeSort fun a b => decide (a ≤ b)

end MountShell
