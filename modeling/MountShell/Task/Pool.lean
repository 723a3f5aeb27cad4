/-!
# Pools of tasks

Tasks that take turns. A task runs when it is polled, until it waits for something; it is polled
again after it has been woken. In one tick every task that was ready when the tick began is polled
once, in the order in which they became ready.

A task is known by the slot that it lives in. Slots of finished tasks are used again, the last freed
first, and a number may stand in the ready queue although its slot is empty.

What a task does when it is polled or dropped is a `Behavior`: it changes a shared state and wakes
tasks by their numbers.
-/

namespace MountShell

/-- What polling a task does: the task that remains, unless it is finished, the shared state, and
the tasks that are woken, in order. -/
structure Polled (α σ : Type) where
  next : Option α
  state : σ
  woken : List Nat := []

/-- What tasks of type `α` do to a state shared by all of them. -/
structure Behavior (α σ : Type) where
  /-- Polls the task in the given slot. -/
  poll : Nat → α → σ → Polled α σ
  /-- Drops a task that is not finished. -/
  drop : α → σ → σ × List Nat

/-- Tasks in slots, and those that are ready to be polled. -/
structure TaskPool (α : Type) where
  slots : List (Option α) := []
  /-- The empty slots, the last freed first. -/
  free : List Nat := []
  /-- The numbers of the tasks to poll, in order and each once. -/
  ready : List Nat := []
  deriving Repr

namespace TaskPool

variable {α σ : Type}

/-- Marks a task ready, unless it is already. -/
def wake (p : TaskPool α) (id : Nat) : TaskPool α :=
  if p.ready.contains id then p else { p with ready := p.ready ++ [id] }

/-- Marks tasks ready, one after the other. -/
def wakeAll (p : TaskPool α) (ids : List Nat) : TaskPool α :=
  ids.foldl wake p

theorem mem_ready_wake (p : TaskPool α) (id other : Nat) :
    other ∈ (p.wake id).ready ↔ other ∈ p.ready ∨ other = id := by
  unfold wake
  by_cases h : p.ready.contains id
  · rw [if_pos h]
    have hmem : id ∈ p.ready := List.contains_iff_mem.1 h
    exact ⟨Or.inl, fun hor => hor.elim (fun hin => hin) fun heq => heq ▸ hmem⟩
  · rw [if_neg h]
    simp

theorem nodup_ready_wake {p : TaskPool α} (h : p.ready.Nodup) (id : Nat) :
    (p.wake id).ready.Nodup := by
  unfold wake
  by_cases hmem : p.ready.contains id
  · rw [if_pos hmem]
    exact h
  · rw [if_neg hmem]
    have hnot : id ∉ p.ready := fun hin => hmem (List.contains_iff_mem.2 hin)
    refine List.nodup_append.2 ⟨h, List.pairwise_singleton _ _, fun a ha b hb => ?_⟩
    rw [List.mem_singleton.1 hb]
    exact fun heq => hnot (heq ▸ ha)

/-- However often tasks are woken, no number stands twice in the ready queue. -/
theorem nodup_ready_wakeAll {p : TaskPool α} (h : p.ready.Nodup) (ids : List Nat) :
    (p.wakeAll ids).ready.Nodup := by
  induction ids generalizing p with
  | nil => exact h
  | cons id ids ih => exact ih (nodup_ready_wake h id)

/-- The task in a slot. -/
def task? (p : TaskPool α) (id : Nat) : Option α :=
  (p.slots[id]?).join

/-- Puts a task into a slot and marks it ready. -/
def spawn (p : TaskPool α) (task : α) : Nat × TaskPool α :=
  match p.free with
  | [] =>
    let id := p.slots.length
    (id, { p with slots := p.slots ++ [some task] }.wake id)
  | id :: free => (id, { p with slots := p.slots.set id (some task), free }.wake id)

/-- Empties a slot. -/
def remove (p : TaskPool α) (id : Nat) : TaskPool α :=
  { p with slots := p.slots.set id none, free := id :: p.free }

/-- Polls the tasks with the given numbers in order, passing over empty slots. Gives the number of
tasks that were polled. -/
def pollAll (b : Behavior α σ) : List Nat → TaskPool α → σ → Nat × TaskPool α × σ
  | [], p, state => (0, p, state)
  | id :: ids, p, state =>
    match p.task? id with
    | none => pollAll b ids p state
    | some task =>
      let polled := b.poll id task state
      let p :=
        match polled.next with
        | some task => { p with slots := p.slots.set id (some task) }
        | none => p.remove id
      let (n, p, state) := pollAll b ids (p.wakeAll polled.woken) polled.state
      (n + 1, p, state)

/-- Polls every task that is ready. Gives the number of tasks that were polled. -/
def tick (b : Behavior α σ) (p : TaskPool α) (state : σ) : Nat × TaskPool α × σ :=
  pollAll b p.ready { p with ready := [] } state

/-- Drops the task in a slot, and tells whether there was one. -/
def cancel (b : Behavior α σ) (p : TaskPool α) (state : σ) (id : Nat) : Bool × TaskPool α × σ :=
  match p.task? id with
  | none => (false, p, state)
  | some task =>
    let (state, woken) := b.drop task state
    (true, (p.remove id).wakeAll woken, state)

/-- The number of tasks. -/
def taskCount (p : TaskPool α) : Nat :=
  (p.slots.filterMap id).length

/-- Is there a task? -/
def hasTasks (p : TaskPool α) : Bool :=
  p.slots.any Option.isSome

/-- Is a task waiting to be polled? -/
def hasReady (p : TaskPool α) : Bool :=
  !p.ready.isEmpty

end TaskPool

end MountShell
