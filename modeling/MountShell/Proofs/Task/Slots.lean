import MountShell.Task.Pool

/-!
# The slots of a pool

What the operations of a pool do to the task of each slot (`TaskPool.task?`), as long as the list of
free slots is right (`TaskPool.Slotted`).

Main statements: `task?_spawn`, a new task gets an empty slot and the others stay where they are;
`task?_remove`, and `Slotted.spawn` and `Slotted.remove`, the list of free slots stays right.
-/

namespace MountShell

namespace TaskPool

variable {α σ : Type} {p : TaskPool α}

/-- The list of free slots names slots that are empty, each once. -/
structure Slotted (p : TaskPool α) : Prop where
  empty : ∀ id ∈ p.free, p.slots[id]? = some none
  nodup : p.free.Nodup

/-- Waking leaves the slots. -/
theorem slots_wake (p : TaskPool α) (id : Nat) : (p.wake id).slots = p.slots := by
  unfold wake
  by_cases h : p.ready.contains id
  · rw [if_pos h]
  · rw [if_neg h]

/-- Waking leaves the free numbers. -/
theorem free_wake (p : TaskPool α) (id : Nat) : (p.wake id).free = p.free := by
  unfold wake
  by_cases h : p.ready.contains id
  · rw [if_pos h]
  · rw [if_neg h]

/-- Waking tasks moves none. -/
theorem slots_wakeAll (p : TaskPool α) (ids : List Nat) : (p.wakeAll ids).slots = p.slots := by
  induction ids generalizing p with
  | nil => rfl
  | cons id ids ih => exact (ih (p.wake id)).trans (p.slots_wake id)

/-- So does waking several. -/
theorem free_wakeAll (p : TaskPool α) (ids : List Nat) : (p.wakeAll ids).free = p.free := by
  induction ids generalizing p with
  | nil => rfl
  | cons id ids ih => exact (ih (p.wake id)).trans (p.free_wake id)

/-- A task has the number of a slot. -/
theorem lt_of_task? {id : Nat} {task : α} (h : p.task? id = some task) : id < p.slots.length := by
  refine Decidable.byContradiction fun hlt => ?_
  rw [task?, List.getElem?_eq_none (Nat.not_lt.1 hlt)] at h
  exact absurd h (by simp)

/-- A slot that is filled anew holds the new task. -/
theorem task?_set {id : Nat} (h : id < p.slots.length) (slot : Option α) (other : Nat) :
    task? { p with slots := p.slots.set id slot } other =
      if other = id then slot else p.task? other := by
  unfold task?
  by_cases hid : other = id
  · subst hid
    rw [if_pos rfl, List.getElem?_set_self h]
    rfl
  · rw [if_neg hid, List.getElem?_set_ne (Ne.symm hid)]

/-- A removal empties one slot and leaves the others. -/
theorem task?_remove {id : Nat} (h : id < p.slots.length) (other : Nat) :
    (p.remove id).task? other = if other = id then none else p.task? other :=
  task?_set h none other

/-- A task that takes the place of another leaves the free slots empty. -/
theorem Slotted.replace (h : Slotted p) {id : Nat} {task : α} (hid : p.task? id = some task)
    (new : α) : Slotted { p with slots := p.slots.set id (some new) } := by
  refine ⟨fun other hother => ?_, h.nodup⟩
  have hempty := h.empty other hother
  have hne : id ≠ other := by
    rintro rfl
    rw [task?, hempty] at hid
    exact absurd hid (by simp)
  show (p.slots.set id (some new))[other]? = some none
  rw [List.getElem?_set_ne hne]
  exact hempty

/-- A slot that has been freed is empty. -/
theorem Slotted.remove (h : Slotted p) {id : Nat} {task : α} (hid : p.task? id = some task) :
    Slotted (p.remove id) := by
  have hlt := lt_of_task? hid
  refine ⟨fun other hother => ?_, List.nodup_cons.2 ⟨fun hfree => ?_, h.nodup⟩⟩
  · show (p.slots.set id none)[other]? = some none
    by_cases hsame : other = id
    · rw [hsame]
      exact List.getElem?_set_self hlt
    · rw [List.getElem?_set_ne (Ne.symm hsame)]
      exact h.empty other (List.mem_of_ne_of_mem hsame hother)
  · rw [task?, h.empty id hfree] at hid
    exact absurd hid (by simp)

/-- A new task gets a slot that was empty, and the others stay where they are. -/
theorem task?_spawn (h : Slotted p) (task : α) :
    p.task? (p.spawn task).1 = none ∧ ∀ other, (p.spawn task).2.task? other =
      if other = (p.spawn task).1 then some task else p.task? other := by
  unfold spawn
  cases hfree : p.free with
  | nil =>
    refine ⟨by simp [task?], fun other => ?_⟩
    simp only [task?, slots_wake]
    by_cases hlast : other = p.slots.length
    · rw [if_pos hlast, hlast, List.getElem?_concat_length]
      rfl
    · rw [if_neg hlast]
      by_cases hlt : other < p.slots.length
      · rw [List.getElem?_append_left hlt]
      · rw [List.getElem?_eq_none (by simp; omega), List.getElem?_eq_none (Nat.not_lt.1 hlt)]
  | cons id free =>
    have hempty : p.slots[id]? = some none := h.empty id (hfree ▸ List.mem_cons_self)
    have hlt : id < p.slots.length := (List.getElem?_eq_some_iff.1 hempty).1
    refine ⟨by simp [task?, hempty], fun other => ?_⟩
    have hset := task?_set hlt (some task) other
    simp only [task?, slots_wake] at hset ⊢
    exact hset

/-- A new task gets a slot that is free, or a new one. -/
theorem Slotted.spawn (h : Slotted p) (task : α) : Slotted (p.spawn task).2 := by
  unfold TaskPool.spawn
  cases hfree : p.free with
  | nil =>
    refine ⟨fun id hid => ?_, ?_⟩
    · simp only [free_wake] at hid
      exact absurd hid List.not_mem_nil
    · simp only [free_wake]
      exact List.nodup_nil
  | cons id free =>
    have hnodup := h.nodup
    rw [hfree] at hnodup
    obtain ⟨hnot, hrest⟩ := List.nodup_cons.1 hnodup
    refine ⟨fun other hother => ?_, ?_⟩
    · simp only [free_wake] at hother
      have hne : id ≠ other := fun heq => hnot (heq ▸ hother)
      simp only [slots_wake]
      rw [List.getElem?_set_ne hne]
      exact h.empty other (hfree ▸ List.mem_cons_of_mem id hother)
    · simp only [free_wake]
      exact hrest

/-- Waking keeps the free numbers those of empty slots. -/
theorem Slotted.wakeAll (h : Slotted p) (ids : List Nat) : Slotted (p.wakeAll ids) := by
  refine ⟨?_, ?_⟩
  · rw [free_wakeAll, slots_wakeAll]
    exact h.empty
  · rw [free_wakeAll]
    exact h.nodup

/-- Waking leaves every task where it is. -/
theorem task?_wakeAll (p : TaskPool α) (ids : List Nat) (id : Nat) :
    (p.wakeAll ids).task? id = p.task? id := by
  rw [task?, task?, slots_wakeAll]

/-- Those that are woken become ready. -/
theorem mem_ready_wakeAll (p : TaskPool α) (ids : List Nat) (other : Nat) :
    other ∈ (p.wakeAll ids).ready ↔ other ∈ p.ready ∨ other ∈ ids := by
  induction ids generalizing p with
  | nil => exact ⟨Or.inl, fun h => h.resolve_right List.not_mem_nil⟩
  | cons id ids ih =>
    have hrest : other ∈ ((p.wake id).wakeAll ids).ready ↔ _ := ih (p.wake id)
    rw [mem_ready_wake, or_assoc, ← List.mem_cons] at hrest
    exact hrest

/-- A new task is ready, and what was ready stays so. -/
theorem mem_ready_spawn (p : TaskPool α) (task : α) (other : Nat) :
    other ∈ (p.spawn task).2.ready ↔ other ∈ p.ready ∨ other = (p.spawn task).1 := by
  unfold spawn
  cases p.free with
  | nil => exact mem_ready_wake _ _ other
  | cons id free => exact mem_ready_wake _ _ other

/-- A new task is ready once. -/
theorem nodup_ready_spawn (h : p.ready.Nodup) (task : α) : (p.spawn task).2.ready.Nodup := by
  unfold spawn
  cases p.free with
  | nil =>
    refine nodup_ready_wake ?_ _
    exact h
  | cons id free =>
    refine nodup_ready_wake ?_ _
    exact h

/-! ### Polling tasks in order -/

/-- The pool after a poll of the task in a slot, of which the given task remains. -/
def leave (p : TaskPool α) (id : Nat) : Option α → TaskPool α
  | some task => { p with slots := p.slots.set id (some task) }
  | none => p.remove id

/-- What a poll leaves is in the slot of its task. -/
theorem task?_leave {id : Nat} (h : id < p.slots.length) (slot : Option α) (other : Nat) :
    (p.leave id slot).task? other = if other = id then slot else p.task? other := by
  cases slot with
  | some task => exact task?_set h (some task) other
  | none => exact task?_remove h other

/-- Whatever a poll leaves, the free numbers are those of empty slots. -/
theorem Slotted.leave (h : Slotted p) {id : Nat} {task : α} (hid : p.task? id = some task)
    (slot : Option α) : Slotted (p.leave id slot) := by
  cases slot with
  | some new => exact h.replace hid new
  | none => exact h.remove hid

/-- The slots after a poll that has woken tasks. -/
theorem task?_polled {id : Nat} (h : id < p.slots.length) (slot : Option α) (ids : List Nat)
    (other : Nat) :
    ((p.leave id slot).wakeAll ids).task? other = if other = id then slot else p.task? other :=
  (task?_wakeAll _ ids other).trans (task?_leave h slot other)

/-- A number without a task is passed over. -/
theorem pollAll_of_none (b : Behavior α σ) {id : Nat} (h : p.task? id = none) (ids : List Nat)
    (state : σ) : pollAll b (id :: ids) p state = pollAll b ids p state := by
  rw [pollAll, h]

/-- A task that is there is polled first, and then the others. -/
theorem pollAll_of_task? (b : Behavior α σ) {id : Nat} {task : α} (h : p.task? id = some task)
    (ids : List Nat) (state : σ) :
    (pollAll b (id :: ids) p state).2 =
      (pollAll b ids
        ((p.leave id (b.poll id task state).next).wakeAll (b.poll id task state).woken)
        (b.poll id task state).state).2 := by
  rw [pollAll, h]
  simp only
  cases (b.poll id task state).next <;> rfl

/-- Leaving a task where it was wakes nobody. -/
theorem ready_leave (p : TaskPool α) (id : Nat) (slot : Option α) :
    (p.leave id slot).ready = p.ready := by
  cases slot <;> rfl

/-- When tasks are polled in order, the one with the given number is polled and finds a state. -/
def Polls (b : Behavior α σ) (ids : List Nat) (p : TaskPool α) (state : σ) (id : Nat) (task : α)
    (found : σ) : Prop :=
  ∃ before after, ids = before ++ id :: after ∧
    (pollAll b before p state).2.1.task? id = some task ∧ (pollAll b before p state).2.2 = found

/-- Nobody is polled when nobody is ready. -/
theorem not_polls_nil (b : Behavior α σ) (state : σ) (id : Nat) (task : α) (found : σ) :
    ¬Polls b [] p state id task found := by
  rintro ⟨before, after, hnil, -⟩
  exact absurd hnil (by simp)

/-- A number whose slot is empty is passed over. -/
theorem polls_cons_of_none (b : Behavior α σ) {first : Nat} (h : p.task? first = none)
    (ids : List Nat) (state : σ) (id : Nat) (task : α) (found : σ) :
    Polls b (first :: ids) p state id task found ↔ Polls b ids p state id task found := by
  constructor
  · rintro ⟨before, after, hids, htask, hfound⟩
    rcases List.cons_eq_append_iff.1 hids with ⟨rfl, hcons⟩ | ⟨rest, rfl, rfl⟩
    · obtain ⟨rfl, -⟩ := List.cons.inj hcons
      rw [pollAll, h] at htask
      exact nomatch htask
    · rw [pollAll_of_none b h] at htask hfound
      exact ⟨rest, after, rfl, htask, hfound⟩
  · rintro ⟨before, after, rfl, htask, hfound⟩
    refine ⟨first :: before, after, rfl, ?_⟩
    rw [pollAll_of_none b h]
    exact ⟨htask, hfound⟩

/-- The first task is polled as it is found, and the others afterwards. -/
theorem polls_cons_of_task? (b : Behavior α σ) {first : Nat} {a : α} (h : p.task? first = some a)
    (ids : List Nat) (state : σ) (id : Nat) (task : α) (found : σ) :
    Polls b (first :: ids) p state id task found ↔
      (id = first ∧ task = a ∧ found = state) ∨
        Polls b ids
          ((p.leave first (b.poll first a state).next).wakeAll (b.poll first a state).woken)
          (b.poll first a state).state id task found := by
  constructor
  · rintro ⟨before, after, hids, htask, hfound⟩
    rcases List.cons_eq_append_iff.1 hids with ⟨rfl, hcons⟩ | ⟨rest, rfl, rfl⟩
    · obtain ⟨rfl, -⟩ := List.cons.inj hcons
      exact .inl ⟨rfl, Option.some.inj (htask.symm.trans h), hfound.symm⟩
    · rw [pollAll_of_task? b h] at htask hfound
      exact .inr ⟨rest, after, rfl, htask, hfound⟩
  · rintro (⟨rfl, rfl, rfl⟩ | ⟨before, after, rfl, htask, hfound⟩)
    · exact ⟨[], ids, rfl, h, rfl⟩
    · refine ⟨first :: before, after, rfl, ?_⟩
      rw [pollAll_of_task? b h]
      exact ⟨htask, hfound⟩

end TaskPool

end MountShell
