import MountShell.Proofs.Task.History
import MountShell.Task.Script
import MountShell.Timer.Millis

/-!
# Numbers that are used again

A task is known by the number of its slot.  Whoever spawned it keeps the number, and whatever it
waited for keeps the means to wake it, also when it has ended.  What comes of that late depends on
whether a task that was spawned later lives under the same number: as long as there is none, a
cancellation is refused, and a wake-up makes no difference to which tasks are polled.

For the wake-up two histories are compared that differ in it.  Their pools have the same slots, and
their ready queues hold the same numbers of tasks that live (`TaskPool.Alike`); the number that was
woken may stand in one of them, but a task that gets it is ready anyway.

Main statement: `PoolLog.retired_of_reached`, at every point of a history, and so within ticks as
well as between them, for every task that has ended.
-/

namespace MountShell

/-! ### Pools that tasks cannot tell apart -/

namespace TaskPool

variable {α σ : Type} {p q : TaskPool α}

/-- The slots are the same, and the tasks that are ready; not so the numbers of empty slots that
are. -/
structure Alike (p q : TaskPool α) : Prop where
  slots : q.slots = p.slots
  free : q.free = p.free
  ready : ∀ id, (p.task? id).isSome = true → (id ∈ q.ready ↔ id ∈ p.ready)

theorem Alike.task? (h : Alike p q) (id : Nat) : q.task? id = p.task? id := by
  rw [TaskPool.task?, TaskPool.task?, h.slots]

/-- A number that is woken makes no difference when it is ready, or its slot is empty. -/
theorem alike_wake {id : Nat} (h : p.task? id = none ∨ id ∈ p.ready) : Alike p (p.wake id) where
  slots := p.slots_wake id
  free := p.free_wake id
  ready other hsome := by
    rw [mem_ready_wake]
    refine or_iff_left_of_imp ?_
    rintro rfl
    rcases h with hnone | hready
    · rw [hnone] at hsome
      exact absurd hsome (by simp)
    · exact hready

theorem Alike.wakeAll (h : Alike p q) (ids : List Nat) : Alike (p.wakeAll ids) (q.wakeAll ids) where
  slots := by rw [slots_wakeAll, slots_wakeAll, h.slots]
  free := by rw [free_wakeAll, free_wakeAll, h.free]
  ready id hsome := by
    rw [task?_wakeAll] at hsome
    rw [mem_ready_wakeAll, mem_ready_wakeAll, h.ready id hsome]

/-- A new task gets the same number in both pools, and is ready in both. -/
theorem Alike.spawn (h : Alike p q) (hslotted : p.Slotted) (task : α) :
    (q.spawn task).1 = (p.spawn task).1 ∧ Alike (p.spawn task).2 (q.spawn task).2 := by
  have hid : (q.spawn task).1 = (p.spawn task).1 := by
    unfold TaskPool.spawn
    rw [h.free, h.slots]
    cases p.free <;> rfl
  refine ⟨hid, ?_, ?_, fun id hsome => ?_⟩
  · unfold TaskPool.spawn
    rw [h.free, h.slots]
    cases p.free <;> simp only [slots_wake]
  · unfold TaskPool.spawn
    rw [h.free, h.slots]
    cases p.free <;> simp only [free_wake]
  · rw [mem_ready_spawn, mem_ready_spawn, hid]
    by_cases hnew : id = (p.spawn task).1
    · simp [hnew]
    · rw [(task?_spawn hslotted task).2 id, if_neg hnew] at hsome
      rw [h.ready id hsome]

theorem Alike.leave (h : Alike p q) {id : Nat} {task : α} (htask : p.task? id = some task)
    (slot : Option α) : Alike (p.leave id slot) (q.leave id slot) where
  slots := by cases slot <;> simp only [TaskPool.leave, TaskPool.remove, h.slots]
  free := by cases slot <;> simp only [TaskPool.leave, TaskPool.remove, h.free]
  ready other hsome := by
    rw [ready_leave, ready_leave]
    refine h.ready other ?_
    rw [task?_leave (lt_of_task? htask)] at hsome
    by_cases hsame : other = id
    · rw [hsame, htask]
      rfl
    · rwa [if_neg hsame] at hsome

end TaskPool

namespace PoolLog

variable {α σ : Type} {b : Behavior α σ} {state : σ} {l m : PoolLog α σ} {id : Nat}
  {ids ahead : List Nat}

/-- The pools are alike, the tasks share the same state, and the same polls have been made. -/
structure Alike (l m : PoolLog α σ) : Prop where
  pool : l.pool.Alike m.pool
  state : m.state = l.state
  made : polls m.past = polls l.past

/-- A poll of the same task leaves two pools alike. -/
theorem Alike.polled (h : l.Alike m) {task : α} (htask : l.pool.task? id = some task) :
    (l.polled b id task).Alike (m.polled b id task) where
  pool := by
    simp only [PoolLog.polled, h.state]
    exact (h.pool.leave htask _).wakeAll _
  state := by simp only [PoolLog.polled, h.state]
  made := by simp only [PoolLog.polled, h.state, polls_append, h.made]

/-- The polls of a tick leave two pools alike. -/
theorem Alike.pollAll (h : l.Alike m) (b : Behavior α σ) (ids : List Nat) :
    (l.pollAll b ids).Alike (m.pollAll b ids) := by
  induction ids generalizing l m with
  | nil => exact h
  | cons id ids ih =>
    have hsame := h.pool.task? id
    cases htask : l.pool.task? id with
    | none =>
      rw [pollAll_of_none htask, pollAll_of_none (hsame.trans htask)]
      exact ih h
    | some task =>
      rw [pollAll_of_task? htask, pollAll_of_task? (hsame.trans htask)]
      exact ih (h.polled htask)

/-- Every use but a tick leaves two pools alike. -/
theorem Alike.after (h : l.Alike m) (hsound : l.Sound []) {use : PoolUse α σ}
    (hno : use ≠ .tick) : (l.after b use).Alike (m.after b use) := by
  cases use with
  | tick => exact absurd rfl hno
  | spawn task =>
    obtain ⟨hid, hpool⟩ := h.pool.spawn hsound.slotted task
    refine ⟨hpool, h.state, ?_⟩
    show polls (m.past ++ [.spawned (m.pool.spawn task).1]) =
      polls (l.past ++ [.spawned (l.pool.spawn task).1])
    rw [hid, polls_append, polls_append, h.made]
  | cancel id =>
    have hsame := h.pool.task? id
    cases htask : l.pool.task? id with
    | none =>
      rw [after_cancel_of_none htask, after_cancel_of_none (hsame.trans htask)]
      exact h
    | some task =>
      rw [after_cancel_of_task? htask, after_cancel_of_task? (hsame.trans htask), h.state]
      exact ⟨(h.pool.leave htask none).wakeAll _, rfl, by simp only [polls_append, h.made]⟩
  | wake id =>
    refine ⟨h.pool.wakeAll [id], h.state, ?_⟩
    show polls (m.past ++ [.woken id]) = polls (l.past ++ [.woken id])
    rw [polls_append, polls_append, h.made]
  | outside state => exact ⟨h.pool, rfl, h.made⟩

/-- Until the next tick, two pools that are alike stay so. -/
theorem Alike.run (h : l.Alike m) (hsound : l.Sound []) {uses : List (PoolUse α σ)}
    (hno : ∀ use ∈ uses, use ≠ .tick) : (l.run b uses).Alike (m.run b uses) := by
  induction uses generalizing l m with
  | nil => exact h
  | cons use rest ih =>
    obtain ⟨hfirst, hrest⟩ := List.forall_mem_cons.1 hno
    exact ih (h.after hsound hfirst) (hsound.after use) hrest

/-- In two pools that are alike the next tick polls the same tasks. -/
theorem Alike.mem_polledNext (h : l.Alike m) (hl : l.Sound []) (hm : m.Sound []) :
    id ∈ m.polledNext b ↔ id ∈ l.polledNext b := by
  rw [polledNext_eq hl, polledNext_eq hm, List.mem_filter, List.mem_filter, h.pool.task?]
  exact and_congr_left (h.pool.ready id)

/-! ### Tasks that have ended -/

/-- The points of a history: between two uses, and in a tick that has still to poll the numbers
`ahead`. -/
inductive Reached (b : Behavior α σ) (state : σ) : List Nat → PoolLog α σ → Prop where
  | between (uses : List (PoolUse α σ)) : Reached b state [] (run b { state } uses)
  | within (uses : List (PoolUse α σ)) {before ahead : List Nat}
      (hready : (run b { state } uses).pool.ready = before ++ ahead) :
      Reached b state ahead ((run b { state } uses).begin.pollAll b before)

theorem Reached.sound (h : Reached b state ahead l) : l.Sound ahead := by
  cases h with
  | between uses => exact sound_run b state uses
  | within uses hready => exact (sound_run b state uses).within b hready

/-- What the number of a task that has ended is still good for, when a tick has still to poll the
numbers `ahead`.  It matters whether a task that was spawned later lives under the number
(`again`). -/
structure Retired (b : Behavior α σ) (id : Nat) (ahead : List Nat) (again : Prop)
    (l : PoolLog α σ) : Prop where
  /-- A cancellation is refused and changes nothing. -/
  refused : ¬again → l.pool.cancel b l.state id = (false, l.pool, l.state)
  /-- It drops the later task, if there is one, and no other. -/
  misled : again → (l.pool.cancel b l.state id).1 = true ∧
    ∀ other, (l.pool.cancel b l.state id).2.1.task? other =
      if other = id then none else l.pool.task? other
  /-- A wake-up makes no difference to what the tick polls, nor, whatever is done until then, to
  which tasks the next one does. -/
  unheard : ¬again ∨ id ∈ l.pool.ready →
    polls ((l.after b (.wake id)).pollAll b ahead).past = polls (l.pollAll b ahead).past ∧
      ∀ more : List (PoolUse α σ), (∀ use ∈ more, use ≠ .tick) → ∀ other,
        other ∈ (((l.after b (.wake id)).pollAll b ahead).run b more).polledNext b ↔
          other ∈ ((l.pollAll b ahead).run b more).polledNext b
  /-- It makes the next tick poll the later task, which it would not have done. -/
  heard : again → ahead = [] → id ∉ l.pool.ready →
    (l.after b (.wake id)).polledNext b = l.polledNext b ++ [id]

/-- A wake-up that makes no difference to the pool makes none to what is polled. -/
theorem Sound.unheard (h : l.Sound ahead) (hid : l.pool.task? id = none ∨ id ∈ l.pool.ready) :
    polls ((l.after b (.wake id)).pollAll b ahead).past = polls (l.pollAll b ahead).past ∧
      ∀ more : List (PoolUse α σ), (∀ use ∈ more, use ≠ .tick) → ∀ other,
        other ∈ (((l.after b (.wake id)).pollAll b ahead).run b more).polledNext b ↔
          other ∈ ((l.pollAll b ahead).run b more).polledNext b := by
  have hwoken : (l.after b (.wake id)).Sound ahead := TaskPool.Sound.wakeAll h [id]
  have halike : l.Alike (l.after b (.wake id)) :=
    ⟨TaskPool.alike_wake hid, rfl, polls_append.trans (List.append_nil _)⟩
  have hticked := halike.pollAll b ahead
  have hl : (l.pollAll b ahead).Sound [] := sound_pollAll (by rwa [List.append_nil])
  have hm : ((l.after b (.wake id)).pollAll b ahead).Sound [] :=
    sound_pollAll (by rwa [List.append_nil])
  exact ⟨hticked.made, fun more hno other =>
    (hticked.run hl hno).mem_polledNext (hl.run b more) (hm.run b more)⟩

/-- A task that is woken between two ticks, and was not ready, is polled after the others. -/
theorem Sound.heard (h : l.Sound []) {task : α} (htask : l.pool.task? id = some task)
    (hready : id ∉ l.pool.ready) :
    (l.after b (.wake id)).polledNext b = l.polledNext b ++ [id] := by
  have hwoken : (l.after b (.wake id)).Sound [] := TaskPool.Sound.wakeAll h [id]
  have hqueue : (l.after b (.wake id)).pool.ready = l.pool.ready ++ [id] := by
    show (l.pool.wake id).ready = _
    rw [TaskPool.wake, if_neg (by simpa using hready)]
  have htasks : ∀ other, (l.after b (.wake id)).pool.task? other = l.pool.task? other :=
    TaskPool.task?_wakeAll l.pool [id]
  rw [polledNext_eq h, polledNext_eq hwoken, hqueue]
  simp [htasks, htask]

/-- What the number of a task that has ended is still good for, at every point of a history.  As
long as no later task lives under the number it is good for nothing. -/
theorem retired_of_reached {before since : List TaskMark} (h : Reached b state ahead l)
    (hpast : l.past = before ++ .spawned id :: since) (hended : .ended id ∈ since) :
    Retired b id ahead (Living since id) l := by
  have hsound := h.sound
  have hagain : (l.pool.task? id).isSome = true ↔ Living since id := by
    rw [hsound.living, hpast, Living, List.append_cons, since_append]
    exact or_iff_left fun hor => hor.1 _ hended rfl
  have hnone : ¬Living since id → l.pool.task? id = none := fun hnot =>
    Option.not_isSome_iff_eq_none.1 (mt hagain.1 hnot)
  refine ⟨fun hnot => ?_, fun hliving => ?_, fun hor => ?_, fun hliving hahead hready => ?_⟩
  · rw [TaskPool.cancel, hnone hnot]
  · obtain ⟨task, htask⟩ := Option.isSome_iff_exists.1 (hagain.2 hliving)
    rw [TaskPool.cancel, htask]
    exact ⟨rfl, TaskPool.task?_polled (TaskPool.lt_of_task? htask) none (b.drop task l.state).2⟩
  · exact hsound.unheard (hor.imp_left hnone)
  · subst hahead
    obtain ⟨task, htask⟩ := Option.isSome_iff_exists.1 (hagain.2 hliving)
    exact hsound.heard htask hready

/-! ### A number that is used again -/

/-- A task waits for the flag and is cancelled, and another one gets its number and waits for
something else. -/
def reused : PoolLog (ScriptedTask Millis) (Shared Millis ScriptState) :=
  run ScriptedTask.behavior { state := { timers := TimerQueue.empty, state := {} } }
    [.spawn { name := "a", actions := [.waitSignal] }, .tick, .cancel 0,
      .spawn { name := "b", actions := [.pend] }, .tick]

/-- The second task lives under the number of the first, which has ended. -/
theorem retired_reused :
    reused.past = [.spawned 0, .polled 0, .ended 0, .spawned 0, .polled 0] ∧
      Living [.polled 0, .ended 0, .spawned 0, .polled 0] 0 ∧
      Retired ScriptedTask.behavior 0 []
        (Living [.polled 0, .ended 0, .spawned 0, .polled 0] 0) reused := by
  have hpast : reused.past = [] ++ .spawned 0 :: [.polled 0, .ended 0, .spawned 0, .polled 0] := rfl
  refine ⟨hpast, ⟨[.polled 0, .ended 0], .spawned 0, [.polled 0], rfl, rfl, by decide⟩, ?_⟩
  exact retired_of_reached (.between _) hpast (by decide)

/-- The flag still wakes the number of the first task when it is raised, which makes the next tick
poll the second; and a cancellation of the first drops the second. -/
theorem reused_misled :
    reused.past = [.spawned 0, .polled 0, .ended 0, .spawned 0, .polled 0] ∧
      reused.state.state.flag.raise.2 = some (.task 0) ∧
      reused.polledNext ScriptedTask.behavior = [] ∧
      (reused.after ScriptedTask.behavior (.wake 0)).polledNext ScriptedTask.behavior = [0] ∧
      (reused.pool.task? 0).isSome = true ∧
      (reused.pool.cancel ScriptedTask.behavior reused.state 0).1 = true ∧
      ((reused.pool.cancel ScriptedTask.behavior reused.state 0).2.1.task? 0).isSome = false := by
  refine ⟨?_, ?_, ?_, ?_, ?_, ?_, ?_⟩ <;> rfl

end PoolLog

end MountShell
