import MountShell.Proofs.Log
import MountShell.Proofs.Task.Slots

/-!
# The history of a pool

Everything that can be done to a pool of tasks from outside (`PoolUse`), and the marks that this
leaves in a log: a task is spawned, woken, polled, or ends (`TaskMark`).  The tasks themselves are
observed through their behavior, which is run with a log beside the state that they share
(`Behavior.noted`); what they do does not depend on it (`TaskPool.pollAll_noted`).

Two things can be read off the log alone: whether the task spawned last under a number lives
(`Living`), and whether it has been spawned or woken since its latest poll began (`Called`).  The
slots hold the tasks that live, and what has been called is ready, or lies ahead in the tick under
way (`TaskPool.Sound`).

Main statements: `TaskPool.Sound.leave` and `TaskPool.Sound.turn`, what one poll keeps;
`PoolLog.sound_pollAll`, what the polls of a tick keep, at every point in it; and
`PoolLog.sound_run`, what every history keeps.
-/

namespace MountShell

/-- What is done to a pool from outside, or to the state that its tasks share. -/
inductive PoolUse (α σ : Type) where
  | spawn (task : α)
  | cancel (id : Nat)
  | wake (id : Nat)
  | tick
  | outside (state : σ)

/-- What happens to the task in a slot. -/
inductive TaskMark where
  | spawned (id : Nat)
  | woken (id : Nat)
  /-- A poll begins. -/
  | polled (id : Nat)
  /-- The task has finished or has been cancelled. -/
  | ended (id : Nat)
  deriving DecidableEq, Repr

/-- The mark of a poll that leaves nothing of a task. -/
def TaskMark.ending {α : Type} (id : Nat) : Option α → List TaskMark
  | some _ => []
  | none => [.ended id]

/-- The same behavior, with what happens to the tasks noted down. -/
def Behavior.noted {α σ : Type} (b : Behavior α σ) : Behavior α (σ × List TaskMark) where
  poll id task k :=
    let polled := b.poll id task k.1
    { next := polled.next
      state := (polled.state,
        k.2 ++ [.polled id] ++ (polled.woken.map .woken ++ TaskMark.ending id polled.next))
      woken := polled.woken }
  drop task k :=
    let (state, woken) := b.drop task k.1
    ((state, k.2 ++ woken.map .woken), woken)

/-! ### What a log says -/

/-- The task spawned last under a number has not ended. -/
def Living (past : List TaskMark) (id : Nat) : Prop :=
  Since (fun mark => mark = .spawned id) (fun mark => mark = .ended id) past

/-- A task has been spawned or woken under a number, and none polled since. -/
def Called (past : List TaskMark) (id : Nat) : Prop :=
  Since (fun mark => mark = .spawned id ∨ mark = .woken id) (fun mark => mark = .polled id) past

/-- The numbers that have been polled, in order. -/
def polls (past : List TaskMark) : List Nat :=
  past.filterMap fun mark =>
    match mark with
    | .polled id => some id
    | _ => none

section Log

variable {past more : List TaskMark} {id other : Nat} {ids : List Nat}

/-- Spawning brings a task to life and leaves the others. -/
theorem living_spawned : Living (past ++ [.spawned id]) other ↔ other = id ∨ Living past other := by
  unfold Living
  rw [since_concat, TaskMark.spawned.injEq, eq_comm]
  simp

/-- An end takes one task away. -/
theorem living_ended : Living (past ++ [.ended id]) other ↔ other ≠ id ∧ Living past other := by
  unfold Living
  rw [since_concat, ne_comm]
  simp

/-- Polling and waking neither makes a task live nor ends it. -/
theorem living_append_of_forall (h : ∀ mark ∈ more, ∃ id, mark = .woken id ∨ mark = .polled id) :
    Living (past ++ more) other ↔ Living past other := by
  refine since_append_of_forall fun mark hmark => ?_
  obtain ⟨id, rfl | rfl⟩ := h mark hmark
  · exact ⟨nofun, nofun⟩
  · exact ⟨nofun, nofun⟩

/-- Waking brings no task to life. -/
theorem living_woken : Living (past ++ ids.map .woken) other ↔ Living past other := by
  refine living_append_of_forall fun mark hmark => ?_
  obtain ⟨id, -, rfl⟩ := List.mem_map.1 hmark
  exact ⟨id, .inl rfl⟩

/-- Nor does a poll. -/
theorem living_polled : Living (past ++ [.polled id]) other ↔ Living past other := by
  refine living_append_of_forall fun mark hmark => ?_
  exact ⟨id, .inr (List.mem_singleton.1 hmark)⟩

/-- A new task is called at once. -/
theorem called_spawned : Called (past ++ [.spawned id]) other ↔ other = id ∨ Called past other := by
  unfold Called
  rw [since_concat, TaskMark.spawned.injEq, eq_comm]
  simp

/-- An end calls nobody. -/
theorem called_ended : Called (past ++ [.ended id]) other ↔ Called past other := by
  unfold Called
  rw [since_concat]
  simp

/-- A poll answers the call of its task. -/
theorem called_polled : Called (past ++ [.polled id]) other ↔ other ≠ id ∧ Called past other := by
  unfold Called
  rw [since_concat, ne_comm]
  simp

/-- Waking calls the tasks that it names. -/
theorem called_woken : Called (past ++ ids.map .woken) other ↔ other ∈ ids ∨ Called past other := by
  induction ids generalizing past with
  | nil => simp
  | cons id ids ih =>
    have hfirst : Called (past ++ [.woken id]) other ↔ other = id ∨ Called past other := by
      unfold Called
      rw [since_concat]
      simp [eq_comm]
    rw [List.map_cons, List.append_cons, ih, hfirst, List.mem_cons, or_left_comm, or_assoc]

/-- The polls of a history, cut in two. -/
theorem polls_append : polls (past ++ more) = polls past ++ polls more :=
  List.filterMap_append

/-- Waking polls nobody. -/
theorem polls_woken : polls (ids.map .woken) = [] := by
  unfold polls
  rw [List.filterMap_map]
  exact List.filterMap_eq_nil_iff.2 fun id _ => rfl

/-- Neither does an end. -/
theorem polls_ending {α : Type} (slot : Option α) : polls (TaskMark.ending id slot) = [] := by
  cases slot <;> rfl

end Log

/-! ### What every step keeps -/

namespace TaskPool

variable {α σ : Type} {p : TaskPool α} {past : List TaskMark} {ahead : List Nat} {id : Nat}
  {task : α}

/-- A pool and its log, when a tick has still to poll the numbers `ahead`: no number is ready twice,
the slots hold the tasks that live, and one that has been spawned or woken since its latest poll
will be polled. -/
structure Sound (ahead : List Nat) (past : List TaskMark) (p : TaskPool α) : Prop where
  slotted : p.Slotted
  nodup : p.ready.Nodup
  living : ∀ id, (p.task? id).isSome = true ↔ Living past id
  heard : ∀ id, (p.task? id).isSome = true → Called past id → id ∈ p.ready ∨ id ∈ ahead

/-- An empty pool with nothing behind it is sound. -/
theorem sound_empty : Sound [] [] ({} : TaskPool α) where
  slotted := ⟨fun _ hid => absurd hid List.not_mem_nil, List.nodup_nil⟩
  nodup := List.nodup_nil
  living id := ⟨fun hsome => by simp [task?] at hsome, fun hliving => absurd hliving not_since_nil⟩
  heard _ _ hcalled := absurd hcalled not_since_nil

/-- Tasks that are woken are ready. -/
theorem Sound.wakeAll (h : Sound ahead past p) (ids : List Nat) :
    Sound ahead (past ++ ids.map .woken) (p.wakeAll ids) where
  slotted := h.slotted.wakeAll ids
  nodup := nodup_ready_wakeAll h.nodup ids
  living other := by
    rw [task?_wakeAll, living_woken]
    exact h.living other
  heard other hsome hcalled := by
    rw [task?_wakeAll] at hsome
    rw [mem_ready_wakeAll]
    rcases called_woken.1 hcalled with hwoken | hcalled
    · exact .inl (.inr hwoken)
    · exact (h.heard other hsome hcalled).imp_left .inl

/-- Spawning keeps a pool sound. -/
theorem Sound.spawn (h : Sound ahead past p) (task : α) :
    Sound ahead (past ++ [.spawned (p.spawn task).1]) (p.spawn task).2 where
  slotted := h.slotted.spawn task
  nodup := nodup_ready_spawn h.nodup task
  living other := by
    rw [(task?_spawn h.slotted task).2 other, living_spawned]
    by_cases heq : other = (p.spawn task).1
    · simp [heq]
    · rw [if_neg heq, h.living other]
      exact (or_iff_right heq).symm
  heard other hsome hcalled := by
    rw [(task?_spawn h.slotted task).2 other] at hsome
    rw [mem_ready_spawn]
    by_cases heq : other = (p.spawn task).1
    · exact .inl (.inr heq)
    · rw [if_neg heq] at hsome
      exact (h.heard other hsome ((called_spawned.1 hcalled).resolve_left heq)).imp_left .inl

/-- A tick takes all that is ready. -/
theorem Sound.begin (h : Sound [] past p) : Sound p.ready past { p with ready := [] } where
  slotted := ⟨h.slotted.empty, h.slotted.nodup⟩
  nodup := List.nodup_nil
  living := h.living
  heard other hsome hcalled := .inr ((h.heard other hsome hcalled).resolve_right List.not_mem_nil)

/-- A number whose slot is empty is passed over. -/
theorem Sound.pass (h : Sound (id :: ahead) past p) (hnone : p.task? id = none) :
    Sound ahead past p where
  slotted := h.slotted
  nodup := h.nodup
  living := h.living
  heard other hsome hcalled := by
    have hne : other ≠ id := by
      rintro rfl
      rw [hnone] at hsome
      exact absurd hsome (by simp)
    exact (h.heard other hsome hcalled).imp_right fun hmem => List.mem_of_ne_of_mem hne hmem

/-- A poll begins. -/
theorem Sound.turn (h : Sound (id :: ahead) past p) : Sound ahead (past ++ [.polled id]) p where
  slotted := h.slotted
  nodup := h.nodup
  living other := by
    rw [living_polled]
    exact h.living other
  heard other hsome hcalled := by
    obtain ⟨hne, hcalled⟩ := called_polled.1 hcalled
    exact (h.heard other hsome hcalled).imp_right fun hmem => List.mem_of_ne_of_mem hne hmem

/-- A task is replaced by what is left of it, or ends, and wakes others. -/
theorem Sound.leave (h : Sound ahead past p) (htask : p.task? id = some task) (slot : Option α)
    (woken : List Nat) :
    Sound ahead (past ++ (woken.map .woken ++ TaskMark.ending id slot))
      ((p.leave id slot).wakeAll woken) := by
  have htasks := task?_polled (lt_of_task? htask) slot woken
  -- only the slot of the task changes, and a task that is there afterwards was there before
  have hsame : ∀ other, other ≠ id →
      ((p.leave id slot).wakeAll woken).task? other = p.task? other := fun other hne => by
    rw [htasks, if_neg hne]
  have hwas : ∀ other, (((p.leave id slot).wakeAll woken).task? other).isSome = true →
      (p.task? other).isSome = true := fun other hsome => by
    by_cases heq : other = id
    · rw [heq, htask]
      rfl
    · rwa [hsame other heq] at hsome
  refine ⟨(h.slotted.leave htask slot).wakeAll woken, ?_, fun other => ?_,
    fun other hsome hcalled => ?_⟩
  · exact nodup_ready_wakeAll (by rw [ready_leave]; exact h.nodup) woken
  · rw [← List.append_assoc]
    cases slot with
    | some left =>
      rw [TaskMark.ending, List.append_nil, living_woken, ← h.living other]
      by_cases heq : other = id
      · subst heq
        rw [htasks, if_pos rfl, htask]
        rfl
      · rw [hsame other heq]
    | none =>
      rw [TaskMark.ending, living_ended, living_woken, ← h.living other, htasks]
      by_cases heq : other = id <;> simp [heq]
  · rw [← List.append_assoc] at hcalled
    have hwoken : Called (past ++ woken.map .woken) other := by
      cases slot with
      | some left => rwa [TaskMark.ending, List.append_nil] at hcalled
      | none => exact called_ended.1 hcalled
    rw [mem_ready_wakeAll, ready_leave]
    rcases called_woken.1 hwoken with hmem | hcalled
    · exact .inl (.inr hmem)
    · exact (h.heard other (hwas other hsome) hcalled).imp_left .inl

/-! ### What a tick polls -/

/-- A poll of one task leaves alone which of the others live. -/
theorem filter_polled (htask : p.task? id = some task) (slot : Option α) (woken : List Nat)
    {ids : List Nat} (hnot : id ∉ ids) :
    (ids.filter fun other => (((p.leave id slot).wakeAll woken).task? other).isSome) =
      ids.filter fun other => (p.task? other).isSome := by
  refine List.filter_congr fun other hother => ?_
  have hne : other ≠ id := fun heq => hnot (heq ▸ hother)
  rw [task?_polled (lt_of_task? htask), if_neg hne]

/-- The number of polls of a tick is that of the numbers whose slots hold a task. -/
theorem pollAll_fst (b : Behavior α σ) {ids : List Nat} (hnodup : ids.Nodup) (p : TaskPool α)
    (state : σ) :
    (pollAll b ids p state).1 = (ids.filter fun id => (p.task? id).isSome).length := by
  induction ids generalizing p state with
  | nil => rfl
  | cons id ids ih =>
    obtain ⟨hnot, hrest⟩ := List.nodup_cons.1 hnodup
    cases htask : p.task? id with
    | none =>
      rw [pollAll_of_none b htask, ih hrest, List.filter_cons_of_neg (by simp [htask])]
    | some task =>
      have hone : (pollAll b (id :: ids) p state).1 =
          (pollAll b ids
            ((p.leave id (b.poll id task state).next).wakeAll (b.poll id task state).woken)
            (b.poll id task state).state).1 + 1 := by
        rw [pollAll, htask]
        simp only
        cases (b.poll id task state).next <;> rfl
      rw [hone, ih hrest, filter_polled htask _ _ hnot, List.filter_cons_of_pos (by simp [htask]),
        List.length_cons]

/-! ### The log does not matter -/

/-- Tasks do the same whether or not it is noted down. -/
theorem pollAll_noted (b : Behavior α σ) (ids : List Nat) (p : TaskPool α) (state : σ)
    (past : List TaskMark) :
    ((pollAll b.noted ids p (state, past)).1, (pollAll b.noted ids p (state, past)).2.1,
      (pollAll b.noted ids p (state, past)).2.2.1) = pollAll b ids p state := by
  induction ids generalizing p state past with
  | nil => rfl
  | cons id ids ih =>
    rw [pollAll, pollAll]
    cases p.task? id with
    | none => exact ih p state past
    | some task =>
      simp only [Behavior.noted]
      rw [← ih _ _ (past ++ [.polled id] ++ ((b.poll id task state).woken.map .woken ++
        TaskMark.ending id (b.poll id task state).next))]
      rfl

end TaskPool

/-! ### Histories -/

/-- A pool, the state that its tasks share, and the log. -/
structure PoolLog (α σ : Type) where
  pool : TaskPool α := {}
  state : σ
  past : List TaskMark := []

namespace PoolLog

variable {α σ : Type} {b : Behavior α σ} {l : PoolLog α σ} {ids ahead : List Nat}

/-- What the polls of a tick make of a pool. -/
def pollAll (b : Behavior α σ) (ids : List Nat) (l : PoolLog α σ) : PoolLog α σ :=
  let (_, pool, state, past) := l.pool.pollAll b.noted ids (l.state, l.past)
  { pool, state, past }

/-- A tick begins: it takes all that is ready. -/
def begin (l : PoolLog α σ) : PoolLog α σ :=
  { l with pool := { l.pool with ready := [] } }

/-- What a use makes of a pool. -/
def after (b : Behavior α σ) (l : PoolLog α σ) : PoolUse α σ → PoolLog α σ
  | .spawn task =>
    let (id, pool) := l.pool.spawn task
    { l with pool, past := l.past ++ [.spawned id] }
  | .cancel id =>
    let (found, pool, state, past) := l.pool.cancel b.noted (l.state, l.past) id
    { pool, state, past := if found then past ++ [.ended id] else past }
  | .wake id => { l with pool := l.pool.wake id, past := l.past ++ [.woken id] }
  | .tick =>
    let (_, pool, state, past) := l.pool.tick b.noted (l.state, l.past)
    { pool, state, past }
  | .outside state => { l with state }

/-- What comes after a list of uses. -/
def run (b : Behavior α σ) (l : PoolLog α σ) (uses : List (PoolUse α σ)) : PoolLog α σ :=
  uses.foldl (after b) l

/-- The numbers that the next tick polls, in order. -/
def polledNext (b : Behavior α σ) (l : PoolLog α σ) : List Nat :=
  polls ((l.after b .tick).past.drop l.past.length)

/-- A tick polls the tasks that were ready when it began. -/
theorem after_tick : l.after b .tick = l.begin.pollAll b l.pool.ready :=
  rfl

/-- Cancelling nobody changes nothing. -/
theorem after_cancel_of_none {id : Nat} (h : l.pool.task? id = none) :
    l.after b (.cancel id) = l := by
  unfold after TaskPool.cancel
  simp only [h]
  rfl

/-- Cancelling a task ends it. -/
theorem after_cancel_of_task? {id : Nat} {task : α} (h : l.pool.task? id = some task) :
    l.after b (.cancel id) =
      { pool := (l.pool.leave id none).wakeAll (b.drop task l.state).2
        state := (b.drop task l.state).1
        past := l.past ++ ((b.drop task l.state).2.map .woken ++ [.ended id]) } := by
  unfold after TaskPool.cancel
  simp only [h, ← List.append_assoc]
  rfl

/-- A number without a task is passed over. -/
theorem pollAll_of_none {id : Nat} (h : l.pool.task? id = none) :
    l.pollAll b (id :: ids) = l.pollAll b ids := by
  unfold pollAll
  rw [TaskPool.pollAll_of_none _ h]

/-- The pool after a poll of the task in a slot. -/
def polled (b : Behavior α σ) (id : Nat) (task : α) (l : PoolLog α σ) : PoolLog α σ :=
  let result := b.poll id task l.state
  { pool := (l.pool.leave id result.next).wakeAll result.woken
    state := result.state
    past := l.past ++ [.polled id] ++ (result.woken.map .woken ++ TaskMark.ending id result.next) }

/-- A task is polled, and then the others in their order. -/
theorem pollAll_of_task? {id : Nat} {task : α} (h : l.pool.task? id = some task) :
    l.pollAll b (id :: ids) = (l.polled b id task).pollAll b ids := by
  have hpoll := TaskPool.pollAll_of_task? b.noted h ids (l.state, l.past)
  unfold pollAll
  simp only [hpoll]
  rfl

/-- The pool and its log are sound, when a tick has still to poll the numbers `ahead`. -/
def Sound (ahead : List Nat) (l : PoolLog α σ) : Prop := l.pool.Sound ahead l.past

/-- A poll keeps a pool and its log sound. -/
theorem Sound.polled {id : Nat} {task : α} (h : l.Sound (id :: ahead))
    (htask : l.pool.task? id = some task) : (l.polled b id task).Sound ahead :=
  TaskPool.Sound.leave (TaskPool.Sound.turn h) htask _ _

/-- At every point of a tick the pool and its log are sound. -/
theorem sound_pollAll (h : l.Sound (ids ++ ahead)) : (l.pollAll b ids).Sound ahead := by
  induction ids generalizing l with
  | nil => exact h
  | cons id ids ih =>
    cases htask : l.pool.task? id with
    | none =>
      rw [pollAll_of_none htask]
      exact ih (TaskPool.Sound.pass h htask)
    | some task =>
      rw [pollAll_of_task? htask]
      exact ih (Sound.polled h htask)

/-- What one use keeps. -/
theorem Sound.after (h : l.Sound []) (use : PoolUse α σ) : (l.after b use).Sound [] := by
  cases use with
  | spawn task => exact TaskPool.Sound.spawn h task
  | cancel id =>
    cases htask : l.pool.task? id with
    | none =>
      rw [after_cancel_of_none htask]
      exact h
    | some task =>
      rw [after_cancel_of_task? htask]
      exact TaskPool.Sound.leave h htask none (b.drop task l.state).2
  | wake id => exact TaskPool.Sound.wakeAll h [id]
  | tick =>
    rw [after_tick]
    refine sound_pollAll ?_
    rw [List.append_nil]
    exact TaskPool.Sound.begin h
  | outside state => exact h

/-- What a history keeps. -/
theorem Sound.run (h : l.Sound []) (b : Behavior α σ) (uses : List (PoolUse α σ)) :
    (l.run b uses).Sound [] := by
  induction uses generalizing l with
  | nil => exact h
  | cons use rest ih => exact ih (h.after use)

/-- Whatever is done to an empty pool, it and its log are sound. -/
theorem sound_run (b : Behavior α σ) (state : σ) (uses : List (PoolUse α σ)) :
    (run b { state } uses).Sound [] :=
  Sound.run (l := { state }) TaskPool.sound_empty b uses

/-- A pool and its log that are sound between two ticks are so at every point of the next one. -/
theorem Sound.within (h : l.Sound []) (b : Behavior α σ) {before : List Nat}
    (hready : l.pool.ready = before ++ ahead) : (l.begin.pollAll b before).Sound ahead := by
  refine sound_pollAll ?_
  rw [← hready]
  exact TaskPool.Sound.begin h

/-! ### What a tick polls -/

/-- In order and each once, the polls of a tick reach the numbers whose slots hold a task. -/
theorem past_pollAll (hnodup : ids.Nodup) :
    ∃ marks, (l.pollAll b ids).past = l.past ++ marks ∧
      polls marks = ids.filter fun id => (l.pool.task? id).isSome := by
  induction ids generalizing l with
  | nil => exact ⟨[], (List.append_nil _).symm, rfl⟩
  | cons id ids ih =>
    obtain ⟨hnot, hrest⟩ := List.nodup_cons.1 hnodup
    cases htask : l.pool.task? id with
    | none =>
      obtain ⟨marks, hmarks, hpolls⟩ := ih (l := l) hrest
      rw [pollAll_of_none htask, List.filter_cons_of_neg (by simp [htask])]
      exact ⟨marks, hmarks, hpolls⟩
    | some task =>
      obtain ⟨marks, hmarks, hpolls⟩ := ih (l := l.polled b id task) hrest
      have hlive := TaskPool.filter_polled htask (b.poll id task l.state).next
        (b.poll id task l.state).woken hnot
      rw [pollAll_of_task? htask, List.filter_cons_of_pos (by simp [htask]), hmarks]
      refine ⟨[.polled id] ++ ((b.poll id task l.state).woken.map .woken ++
        TaskMark.ending id (b.poll id task l.state).next) ++ marks, by simp [polled], ?_⟩
      rw [polls_append, polls_append, polls_append, polls_woken, polls_ending, hpolls, ← hlive]
      rfl

/-- The next tick polls the tasks that are ready, in order. -/
theorem polledNext_eq (h : l.Sound []) :
    l.polledNext b = l.pool.ready.filter fun id => (l.pool.task? id).isSome := by
  obtain ⟨marks, hmarks, hpolls⟩ := past_pollAll (b := b) (l := l.begin) h.nodup
  have hpast : (l.after b .tick).past = l.past ++ marks := hmarks
  rw [polledNext, hpast, List.drop_left, hpolls]
  rfl

end PoolLog

end MountShell
