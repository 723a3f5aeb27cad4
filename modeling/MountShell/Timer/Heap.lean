/-!
# Heaps

A binary tree in an array: the children of the entry at `i` are at `2 * i + 1` and `2 * i + 2`, and
no entry is before its parent in the order `before`. The entry at the root is then one that no other
is before.

An entry that is put in rises past the parents that it is before (`Heap.raise`). When the root is
taken out, the last entry takes its place, sinks along the earlier children to the bottom
(`Heap.sink`), and rises again from there. Among entries of which none is before the other, this
decides which comes out first.
-/

namespace MountShell.Heap

variable {α : Type}

/-- The place of the parent. -/
def parent (i : Nat) : Nat := (i - 1) / 2

/-- Lets the entry at `i` rise past the parents that it is before. -/
def raise (before : α → α → Bool) (heap : Array α) (i : Nat) : Array α :=
  if _h : i = 0 then heap
  else
    match heap[i]?, heap[parent i]? with
    | some x, some above =>
      if before x above then raise before (heap.swapIfInBounds i (parent i)) (parent i) else heap
    | _, _ => heap
termination_by i
decreasing_by
  unfold parent
  omega

/-- The earlier one of the two children of the entry at `i`, the second one if neither is before the
other. -/
def earlierChild (before : α → α → Bool) (heap : Array α) (i : Nat) : Nat :=
  match heap[2 * i + 1]?, heap[2 * i + 2]? with
  | some a, some b => if before a b then 2 * i + 1 else 2 * i + 2
  | _, _ => 2 * i + 1

/-- Lets the entry at `i` sink to the bottom along the earlier child of each two. Gives the place
where it ends. -/
def sink (before : α → α → Bool) (heap : Array α) (i : Nat) : Array α × Nat :=
  if _h : 2 * i + 1 < heap.size then
    let child := earlierChild before heap i
    if _hc : i < child ∧ child < heap.size then
      sink before (heap.swapIfInBounds i child) child
    else (heap, i)
  else (heap, i)
termination_by heap.size - i
decreasing_by
  simp only [Array.size_swapIfInBounds]
  omega

/-- Puts an entry in. -/
def push (before : α → α → Bool) (heap : Array α) (x : α) : Array α :=
  raise before (heap.push x) heap.size

/-- Takes the entry at the root out. -/
def pop (before : α → α → Bool) (heap : Array α) : Option (α × Array α) :=
  match heap[0]?, heap.back? with
  | some root, some last =>
    let rest := heap.pop
    if rest.isEmpty then some (root, rest)
    else
      let (rest, i) := sink before (rest.setIfInBounds 0 last) 0
      some (root, raise before rest i)
  | _, _ => none

end MountShell.Heap
