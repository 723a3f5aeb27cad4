import Mathlib.Algebra.Order.Group.Int
import Mathlib.Data.List.Induction
import Mathlib.Order.Bounds.Basic
import MountShell.Proofs.Task.Sleepers

/-!
# A pool with a clock of its own is an exact simulation

The tasks of this module sleep, give way and wake each other (`Sleeper.Program`), and nobody but the
pool itself moves the clock.  Then time is exact.  Every poll finds the timers at the time of the
clock; a task that is polled while it sleeps has its deadline ahead or right now, and its sleep is
over exactly if it is right now.  Time stands still while anything is ready.  When nothing is, and a
result is waited for, the clock moves to the next deadline, neither before nor behind it.

Waiting for a result goes in rounds, each of which is a tick and what follows from it
(`TimedPool.waitFor_one`).  A round ends the waiting with the value of the task if the task has
finished in its tick, and without one if nothing is ready and no timer is pending; the task is then
dropped (`Sleeper.Program.Round`).

Main statement: `Sleeper.onTime_after`, all this holds whatever has been spawned, ticked,
settled and waited for before.
-/

namespace MountShell

namespace TimedPool

variable {τ α σ β : Type} [LT τ] [DecidableLT τ]

/-- A tick polls a task, which finds a state. -/
def Polls (b : Behavior α (Shared τ σ)) (p : TimedPool τ α σ) (id : Nat) (task : α)
    (found : Shared τ σ) : Prop :=
  let woken := (p.wakeTimers p.clock).2
  TaskPool.Polls b woken.pool.ready { woken.pool with ready := [] } woken.shared id task found

variable {b : Behavior α (Shared τ σ)} {id n : Nat} {take : σ → Option β × σ}
  {p p' : TimedPool τ α σ}

/-- One round of waiting for a result. -/
theorem waitFor_one (b : Behavior α (Shared τ σ)) (id : Nat) (take : σ → Option β × σ)
    (p : TimedPool τ α σ) :
    waitFor b id take 1 p =
      let ticked := (p.tick b).2
      match take ticked.shared.state with
      | (some result, state) =>
        (.value result, { ticked with shared := { ticked.shared with state } })
      | (none, _) =>
        if ticked.pool.hasReady then (.unfinished, ticked)
        else
          match ticked.shared.timers.nextDeadline with
          | some d =>
            (.unfinished, if ticked.clock < d then { ticked with clock := d } else ticked)
          | none => (.stalled, (ticked.cancel b id).2) := by
  rw [waitFor]
  simp only
  rcases take (p.tick b).2.shared.state with ⟨_ | result, state⟩
  · cases (p.tick b).2.shared.timers.nextDeadline <;> rfl
  · rfl

/-- Waiting begins with one round. -/
theorem waitFor_succ (b : Behavior α (Shared τ σ)) (id : Nat) (take : σ → Option β × σ) (n : Nat)
    (p : TimedPool τ α σ) :
    waitFor b id take (n + 1) p =
      match waitFor b id take 1 p with
      | (.unfinished, p') => waitFor b id take n p'
      | ended => ended := by
  rw [waitFor_one, waitFor]
  simp only
  rcases take (p.tick b).2.shared.state with ⟨_ | result, state⟩
  · by_cases hready : (p.tick b).2.pool.hasReady = true
    · simp only [if_pos hready]
    · simp only [if_neg hready]
      cases (p.tick b).2.shared.timers.nextDeadline <;> rfl
  · rfl

/-- Waiting that is not over goes on with one round. -/
theorem waitFor_succ_of_unfinished (h : waitFor b id take n p = (.unfinished, p')) :
    waitFor b id take (n + 1) p = waitFor b id take 1 p' := by
  induction n generalizing p with
  | zero =>
    obtain rfl : p = p' := congrArg Prod.snd h
    rfl
  | succ n ih =>
    rw [waitFor_succ] at h ⊢
    revert h
    rcases waitFor b id take 1 p with ⟨_ | _ | _, next⟩
    · exact fun h => nomatch congrArg Prod.fst h
    · exact fun h => nomatch congrArg Prod.fst h
    · exact fun h => ih h

/-- Waiting that is over changes nothing any more. -/
theorem waitFor_succ_of_ne (h : (waitFor b id take n p).1 ≠ .unfinished) :
    waitFor b id take (n + 1) p = waitFor b id take n p := by
  induction n generalizing p with
  | zero => exact absurd rfl h
  | succ n ih =>
    rw [waitFor_succ b id take n] at h ⊢
    rw [waitFor_succ]
    revert h
    rcases waitFor b id take 1 p with ⟨_ | _ | _, next⟩
    · exact fun _ => rfl
    · exact fun _ => rfl
    · exact fun h => ih h

end TimedPool

namespace Sleeper

/-- What can be done to a pool. Its loops may use up a number of ticks. -/
inductive Use (α : Type) where
  | spawn (task : α)
  | tick
  | settle (ticks : Nat)
  | blockOn (task : α) (ticks : Nat)

variable {τ α σ β : Type}

/-- A pool opens a channel, which has the next number. -/
def openChannel (p : TimedPool τ (Sleeper τ α) (Ledger σ β)) :
    TimedPool τ (Sleeper τ α) (Ledger σ β) :=
  { p with
    shared :=
      { p.shared with
        state := { p.shared.state with results := p.shared.state.results ++ [none] } } }

/-- The number of the next channel. -/
def nextChannel (p : TimedPool τ (Sleeper τ α) (Ledger σ β)) : Nat := p.shared.state.results.length

/-- Adds a task with a channel of its own, and gives its slot. -/
def spawn (p : TimedPool τ (Sleeper τ α) (Ledger σ β)) (task : α) :
    Nat × TimedPool τ (Sleeper τ α) (Ledger σ β) :=
  (openChannel p).spawn { rest := task, channel := nextChannel p }

section Blocking

variable [LinearOrder τ] {slot channel : Nat} {p : TimedPool τ (Sleeper τ α) (Ledger σ β)}

/-- A task that is waited for is in its slot. -/
structure Blocking (slot channel : Nat) (p : TimedPool τ (Sleeper τ α) (Ledger σ β)) : Prop where
  timely : Timely p.clock [] p.pool p.shared
  there : ∃ a, p.pool.task? slot = some a ∧ a.channel = channel

/-- A task that is in its slot has not finished. -/
theorem Blocking.result?_eq_none (h : Blocking slot channel p) :
    p.shared.state.result? channel = none := by
  obtain ⟨a, ha, rfl⟩ := h.there
  rw [Ledger.result?, h.timely.unfinished slot a ha]
  rfl

theorem blocking_spawn (h : Timely p.clock [] p.pool p.shared) (task : α) :
    Blocking (spawn p task).1 (nextChannel p) (spawn p task).2 where
  timely := h.spawn task
  there := ⟨_, ((TaskPool.task?_spawn h.slotted _).2 _).trans (if_pos rfl), rfl⟩

end Blocking

variable [AddZeroClass τ] [LinearOrder τ]

/-- Adds a task and waits for its value. -/
def Program.blockOn (prog : Program τ α σ β) (p : TimedPool τ (Sleeper τ α) (Ledger σ β)) (task : α)
    (ticks : Nat) : Blocked β × TimedPool τ (Sleeper τ α) (Ledger σ β) :=
  (openChannel p).blockOn prog.behavior { rest := task, channel := nextChannel p }
    (fun ledger => (ledger.result? (nextChannel p), ledger)) ticks

/-- What a use makes of a pool. -/
def Program.apply (prog : Program τ α σ β) (p : TimedPool τ (Sleeper τ α) (Ledger σ β)) :
    Use α → TimedPool τ (Sleeper τ α) (Ledger σ β)
  | .spawn task => (spawn p task).2
  | .tick => (p.tick prog.behavior).2
  | .settle ticks => (p.settle prog.behavior ticks).2
  | .blockOn task ticks => (prog.blockOn p task ticks).2

/-- The pool after a number of uses. -/
def Program.after (prog : Program τ α σ β) (state : σ) (uses : List (Use α)) :
    TimedPool τ (Sleeper τ α) (Ledger σ β) :=
  uses.foldl prog.apply (.new { state })

/-- A tick finishes the task with a channel. -/
def Program.Finishes (prog : Program τ α σ β) (p : TimedPool τ (Sleeper τ α) (Ledger σ β))
    (channel : Nat) (value : β) : Prop :=
  ∃ id a found, p.Polls prog.behavior id a found ∧ a.channel = channel ∧
    prog.value? id a found = some value

/-- What one round of waiting for a task makes of a pool: the tick of the round, how it ends, and
the pool that it leaves. -/
structure Program.Round (prog : Program τ α σ β) (slot channel : Nat)
    (p ticked : TimedPool τ (Sleeper τ α) (Ledger σ β)) (outcome : Blocked β)
    (after : TimedPool τ (Sleeper τ α) (Ledger σ β)) : Prop where
  /-- The value of the task is given if the task has finished. -/
  value_iff : ∀ v, outcome = .value v ↔ prog.Finishes p channel v
  /-- Otherwise the waiting is given up if nothing can go on. -/
  stalled_iff : outcome = .stalled ↔ (∀ v, ¬prog.Finishes p channel v) ∧
    ticked.pool.hasReady = false ∧ ticked.shared.timers.pendingCount = 0
  /-- The task that is waited for is dropped then. -/
  dropped : outcome = .stalled →
    (∃ a, ticked.pool.task? slot = some a ∧ a.channel = channel) ∧
      after = (ticked.cancel prog.behavior slot).2 ∧ after.pool.task? slot = none
  /-- The clock moves to the next deadline if the waiting goes on and nothing is ready. -/
  jumps : outcome = .unfinished → ticked.pool.hasReady = false →
    IsLeast {d | ∃ t ∈ ticked.shared.timers.pending, t.deadline = d} after.clock
  /-- It does not move otherwise. -/
  stays : (outcome = .unfinished → ticked.pool.hasReady = true) → after.clock = p.clock
  le : p.clock ≤ after.clock

/-- Whatever is done to a pool happens on time. -/
structure Program.OnTime (prog : Program τ α σ β) (p : TimedPool τ (Sleeper τ α) (Ledger σ β)) :
    Prop where
  /-- The clock never goes back. -/
  le_apply : ∀ use, p.clock ≤ (prog.apply p use).clock
  /-- It stands still except when a value is waited for. -/
  clock_apply : ∀ use, (∀ task ticks, use ≠ .blockOn task ticks) →
    (prog.apply p use).clock = p.clock
  /-- While a value is waited for, it moves at the end of a round. -/
  round : ∀ task ticks blocked, prog.blockOn p task ticks = (.unfinished, blocked) →
    prog.Round (spawn p task).1 (nextChannel p) blocked (blocked.tick prog.behavior).2
      (prog.blockOn p task (ticks + 1)).1 (prog.blockOn p task (ticks + 1)).2
  /-- Waiting that is over remains over. -/
  returned : ∀ task ticks, (prog.blockOn p task ticks).1 ≠ .unfinished →
    prog.blockOn p task (ticks + 1) = prog.blockOn p task ticks
  /-- A task that sleeps is never polled after its deadline, and its sleep is over exactly at the
  deadline. -/
  sleeps : ∀ id a found, p.Polls prog.behavior id a found → found.timers.now = p.clock ∧
    ∀ s, a.sleep = some s → ∃ t ∈ found.timers.timers, s.timer = some t.id ∧
      p.clock ≤ t.deadline ∧
      ((s.poll found.timers (.task id)).1 = true ↔ t.deadline = p.clock)
  /-- The deadline is the time at which the sleep begins, and its delay. -/
  begins : ∀ id a found turn delay rest, p.Polls prog.behavior id a found →
    prog.turn? id a found = some turn → turn.pause = .sleep delay rest →
    ∃ a' s, (prog.poll id a found).next = some a' ∧ a'.sleep = some s ∧
      ∃ t ∈ (prog.poll id a found).state.timers.timers, s.timer = some t.id ∧
        t.deadline = p.clock + max delay 0

variable {prog : Program τ α σ β} {slot channel id : Nat} {a : Sleeper τ α}
  {p ticked : TimedPool τ (Sleeper τ α) (Ledger σ β)} {found : Shared τ (Ledger σ β)}

/-! ### How a round ends -/

/-- Dropping a task empties its slot. -/
theorem cancel_of_task? (prog : Program τ α σ β) (ha : p.pool.task? id = some a) :
    (p.cancel prog.behavior id).2 =
      { p with
        pool := (p.pool.remove id).wakeAll (prog.drop a p.shared).2
        shared := (prog.drop a p.shared).1 } := by
  unfold TimedPool.cancel TaskPool.cancel
  simp only [ha]
  rfl

/-- Waiting that is not over goes on with one round. -/
theorem blockOn_succ_of_unfinished {task : α} {n : Nat}
    {blocked : TimedPool τ (Sleeper τ α) (Ledger σ β)}
    (h : prog.blockOn p task n = (.unfinished, blocked)) :
    prog.blockOn p task (n + 1) =
      blocked.waitFor prog.behavior (spawn p task).1
        (fun ledger => (ledger.result? (nextChannel p), ledger)) 1 :=
  TimedPool.waitFor_succ_of_unfinished h

/-- Waiting that is over changes nothing any more. -/
theorem blockOn_succ_of_ne {task : α} {n : Nat} (h : (prog.blockOn p task n).1 ≠ .unfinished) :
    prog.blockOn p task (n + 1) = prog.blockOn p task n :=
  TimedPool.waitFor_succ_of_ne h

/-- What a tick makes of a pool while a task is waited for. -/
structure Program.Ticked (prog : Program τ α σ β) (slot channel : Nat)
    (p ticked : TimedPool τ (Sleeper τ α) (Ledger σ β)) : Prop where
  timely : Timely p.clock [] ticked.pool ticked.shared
  clock : ticked.clock = p.clock
  result : ∀ v, ticked.shared.state.result? channel = some v ↔ prog.Finishes p channel v
  there : ticked.shared.state.result? channel = none →
    ∃ a, ticked.pool.task? slot = some a ∧ a.channel = channel

/-- As long as there is no value, the task has not finished. -/
theorem Program.Ticked.not_finishes (h : prog.Ticked slot channel p ticked)
    (hnone : ticked.shared.state.result? channel = none) (v : β) : ¬prog.Finishes p channel v := by
  rw [← h.result, hnone]
  simp

theorem Program.Ticked.value (h : prog.Ticked slot channel p ticked) {v : β}
    (hv : ticked.shared.state.result? channel = some v) :
    prog.Round slot channel p ticked (.value v) ticked where
  value_iff w := by
    rw [← h.result, hv, Blocked.value.injEq, Option.some.injEq]
  stalled_iff := iff_of_false nofun fun hboth => hboth.1 v ((h.result v).1 hv)
  dropped := nofun
  jumps := nofun
  stays _ := h.clock
  le := h.clock.ge

theorem Program.Ticked.busy (h : prog.Ticked slot channel p ticked)
    (hnone : ticked.shared.state.result? channel = none) (hready : ticked.pool.hasReady = true) :
    prog.Round slot channel p ticked .unfinished ticked where
  value_iff w := iff_of_false nofun (h.not_finishes hnone w)
  stalled_iff := iff_of_false nofun fun hboth => absurd (hready.symm.trans hboth.2.1) (by simp)
  dropped := nofun
  jumps _ hidle := absurd (hready.symm.trans hidle) (by simp)
  stays _ := h.clock
  le := h.clock.ge

theorem Program.Ticked.jump (h : prog.Ticked slot channel p ticked)
    (hnone : ticked.shared.state.result? channel = none) (hready : ticked.pool.hasReady = false)
    {d : τ} (hd : ticked.shared.timers.nextDeadline = some d) :
    p.clock ≤ d ∧ Timely d [] ticked.pool ticked.shared ∧
      prog.Round slot channel p ticked .unfinished { ticked with clock := d } := by
  obtain ⟨⟨t, ht, hstate, rfl⟩, hleast⟩ := TimerQueue.nextDeadline_eq_some_iff.1 hd
  have hle : p.clock ≤ t.deadline := h.timely.attended.le_deadline ht (by simp [hstate])
  refine ⟨hle, h.timely.jump hle hleast, fun w => iff_of_false nofun (h.not_finishes hnone w),
    iff_of_false nofun fun hboth => ?_, nofun, fun _ _ => ?_, fun hbusy => ?_, hle⟩
  · rw [← TimerQueue.nextDeadline_eq_none_iff_pendingCount, hd] at hboth
    exact nomatch hboth.2.2
  · refine ⟨⟨t, TimerQueue.mem_pending.2 ⟨ht, hstate⟩, rfl⟩, ?_⟩
    rintro _ ⟨u, hu, rfl⟩
    exact hleast u (TimerQueue.mem_pending.1 hu).1 (TimerQueue.mem_pending.1 hu).2
  · exact absurd ((hbusy rfl).symm.trans hready) (by simp)

theorem Program.Ticked.stalled (h : prog.Ticked slot channel p ticked)
    (hnone : ticked.shared.state.result? channel = none) (hready : ticked.pool.hasReady = false)
    (hd : ticked.shared.timers.nextDeadline = none) :
    Timely p.clock [] (ticked.cancel prog.behavior slot).2.pool
        (ticked.cancel prog.behavior slot).2.shared ∧
      prog.Round slot channel p ticked .stalled (ticked.cancel prog.behavior slot).2 := by
  obtain ⟨a, ha, hchannel⟩ := h.there hnone
  have hcancel := cancel_of_task? prog ha
  refine ⟨by rw [hcancel]; exact h.timely.drop ha prog,
    fun w => iff_of_false nofun (h.not_finishes hnone w), ?_, fun _ => ⟨⟨a, ha, hchannel⟩, rfl, ?_⟩,
    nofun, fun _ => ?_, ?_⟩
  · exact iff_of_true rfl ⟨h.not_finishes hnone, hready,
      TimerQueue.nextDeadline_eq_none_iff_pendingCount.1 hd⟩
  · rw [hcancel]
    exact (TaskPool.task?_wakeAll ..).trans
      ((TaskPool.task?_remove (TaskPool.lt_of_task? ha) slot).trans (if_pos rfl))
  · rw [hcancel]
    exact h.clock
  · rw [hcancel]
    exact h.clock.ge

variable [AddLeftMono τ]

/-! ### One tick -/

theorem timely_tick (h : Timely p.clock [] p.pool p.shared) (prog : Program τ α σ β) :
    Timely p.clock [] (p.tick prog.behavior).2.pool (p.tick prog.behavior).2.shared := by
  obtain ⟨hwoken, hnow⟩ := h.wake
  have hnodup := TaskPool.nodup_ready_wakeAll h.nodup (Waker.tasks (p.shared.timers.tick p.clock).1)
  rw [← List.append_nil (TaskPool.ready _)] at hwoken hnodup
  exact (hwoken.pollAll hnodup hnow prog).1

/-- What a task finds that is polled in a tick. -/
theorem timely_of_polls (h : Timely p.clock [] p.pool p.shared)
    (hpolls : p.Polls prog.behavior id a found) :
    ∃ pool rest, Timely p.clock (id :: rest) pool found ∧ pool.task? id = some a ∧ id ∉ rest ∧
      found.timers.now = p.clock := by
  obtain ⟨hwoken, hnow⟩ := h.wake
  exact hwoken.of_polls (TaskPool.nodup_ready_wakeAll h.nodup _) hnow hpolls

/-- The value under a channel, after a tick. -/
theorem result?_tick (h : Timely p.clock [] p.pool p.shared) (prog : Program τ α σ β) {v : β} :
    (p.tick prog.behavior).2.shared.state.result? channel = some v ↔
      p.shared.state.result? channel = some v ∨ prog.Finishes p channel v := by
  obtain ⟨hwoken, hnow⟩ := h.wake
  exact hwoken.result?_pollAll (TaskPool.nodup_ready_wakeAll h.nodup _) hnow prog

/-- A task that has not finished is where it was before the tick. -/
theorem task?_tick (h : Timely p.clock [] p.pool p.shared) (prog : Program τ α σ β)
    (hthere : ∃ a, p.pool.task? slot = some a ∧ a.channel = channel)
    (hnone : (p.tick prog.behavior).2.shared.state.result? channel = none) :
    ∃ a, (p.tick prog.behavior).2.pool.task? slot = some a ∧ a.channel = channel := by
  obtain ⟨hwoken, hnow⟩ := h.wake
  refine hwoken.task?_pollAll (TaskPool.nodup_ready_wakeAll h.nodup _) hnow prog (fun _ => ?_) hnone
  obtain ⟨a, ha, hchannel⟩ := hthere
  exact ⟨a, (TaskPool.task?_wakeAll ..).trans ha, hchannel⟩

/-! ### Rounds of waiting -/

theorem Blocking.after_tick (h : Blocking slot channel p) (prog : Program τ α σ β) :
    prog.Ticked slot channel p (p.tick prog.behavior).2 where
  timely := timely_tick h.timely prog
  clock := rfl
  result v := by
    rw [result?_tick h.timely prog, h.result?_eq_none, or_iff_right (by simp)]
  there := task?_tick h.timely prog h.there

/-- A round of waiting, and what it keeps. -/
theorem Blocking.round (h : Blocking slot channel p) (prog : Program τ α σ β) :
    let next := p.waitFor prog.behavior slot (fun ledger => (ledger.result? channel, ledger)) 1
    prog.Round slot channel p (p.tick prog.behavior).2 next.1 next.2 ∧
      Timely next.2.clock [] next.2.pool next.2.shared ∧
      (next.1 = .unfinished → Blocking slot channel next.2) := by
  have hticked := h.after_tick prog
  rw [TimedPool.waitFor_one]
  revert hticked
  generalize (p.tick prog.behavior).2 = ticked
  intro hticked
  have htimely : Timely ticked.clock [] ticked.pool ticked.shared := by
    rw [hticked.clock]
    exact hticked.timely
  cases hresult : ticked.shared.state.result? channel with
  | some v =>
    simp only [hresult]
    exact ⟨hticked.value hresult, htimely, nofun⟩
  | none =>
    have hthere := hticked.there hresult
    cases hready : ticked.pool.hasReady with
    | true =>
      simp only [hresult, hready, if_true]
      exact ⟨hticked.busy hresult hready, htimely, fun _ => ⟨htimely, hthere⟩⟩
    | false =>
      simp only [hresult, hready, Bool.false_eq_true, if_false]
      cases hd : ticked.shared.timers.nextDeadline with
      | some d =>
        obtain ⟨hle, htimely', hround⟩ := hticked.jump hresult hready hd
        -- the deadline is not before the clock, as the timers have caught up with it
        have hclock : (if ticked.clock < d then { ticked with clock := d } else ticked) =
            { ticked with clock := d } := by
          split
          · rfl
          · next hlt =>
            have heq : ticked.clock = d := le_antisymm (hticked.clock.trans_le hle) (not_lt.1 hlt)
            rw [← heq]
        simp only [hclock]
        exact ⟨hround, htimely', fun _ => ⟨htimely', hthere⟩⟩
      | none =>
        obtain ⟨htimely', hround⟩ := hticked.stalled hresult hready hd
        refine ⟨hround, ?_, nofun⟩
        rw [hround.stays nofun]
        exact htimely'

/-- What any number of rounds keeps. -/
theorem blockOn_keeps (h : Timely p.clock [] p.pool p.shared) (prog : Program τ α σ β) (task : α)
    (ticks : Nat) :
    let next := prog.blockOn p task ticks
    Timely next.2.clock [] next.2.pool next.2.shared ∧ p.clock ≤ next.2.clock ∧
      (next.1 = .unfinished → Blocking (spawn p task).1 (nextChannel p) next.2) := by
  induction ticks with
  | zero =>
    have hspawn := blocking_spawn h task
    exact ⟨hspawn.timely, le_refl _, fun _ => hspawn⟩
  | succ n ih =>
    obtain ⟨htimely, hle, hblocking⟩ := ih
    by_cases hover : (prog.blockOn p task n).1 = .unfinished
    · obtain ⟨hround, htimely', hblocking'⟩ := (hblocking hover).round prog
      rw [← blockOn_succ_of_unfinished (Prod.ext hover rfl)] at hround htimely' hblocking'
      exact ⟨htimely', hle.trans hround.le, hblocking'⟩
    · rw [blockOn_succ_of_ne hover]
      exact ⟨htimely, hle, hblocking⟩

/-! ### Whatever is done to a pool -/

/-- Settling ticks while the clock stands still. -/
theorem settle_keeps (h : Timely p.clock [] p.pool p.shared) (prog : Program τ α σ β)
    (ticks : Nat) :
    Timely p.clock [] (p.settle prog.behavior ticks).2.pool
        (p.settle prog.behavior ticks).2.shared ∧
      (p.settle prog.behavior ticks).2.clock = p.clock := by
  induction ticks generalizing p with
  | zero => exact ⟨h, rfl⟩
  | succ n ih =>
    have htick := timely_tick h prog
    rw [TimedPool.settle]
    simp only
    split
    · exact ih (p := (p.tick prog.behavior).2) htick
    · exact ⟨htick, rfl⟩

/-- What every use keeps. -/
theorem timely_apply (h : Timely p.clock [] p.pool p.shared) (prog : Program τ α σ β)
    (use : Use α) :
    Timely (prog.apply p use).clock [] (prog.apply p use).pool (prog.apply p use).shared := by
  cases use with
  | spawn task => exact (blocking_spawn h task).timely
  | tick => exact timely_tick h prog
  | settle ticks =>
    obtain ⟨htimely, hclock⟩ := settle_keeps h prog ticks
    rw [Program.apply, hclock]
    exact htimely
  | blockOn task ticks => exact (blockOn_keeps h prog task ticks).1

/-- What any uses keep. -/
theorem timely_after (prog : Program τ α σ β) (state : σ) (uses : List (Use α)) :
    Timely (prog.after state uses).clock [] (prog.after state uses).pool
      (prog.after state uses).shared := by
  induction uses using List.reverseRecOn with
  | nil =>
    refine ⟨⟨fun _ hfree => absurd hfree List.not_mem_nil, List.nodup_nil⟩, List.nodup_nil,
      TimerQueue.attended_empty le_rfl, ?_, ?_, ?_⟩
    · exact fun id a ha => absurd ha (by simp [Program.after, TimedPool.new, TaskPool.task?])
    · exact fun id a ha => absurd ha (by simp [Program.after, TimedPool.new, TaskPool.task?])
    · exact fun id a _ _ ha => absurd ha (by simp [Program.after, TimedPool.new, TaskPool.task?])
  | append_singleton uses use ih =>
    have hafter : prog.after state (uses ++ [use]) = prog.apply (prog.after state uses) use := by
      unfold Program.after
      rw [List.foldl_append]
      rfl
    rw [hafter]
    exact timely_apply ih prog use

theorem clock_apply (h : Timely p.clock [] p.pool p.shared) (prog : Program τ α σ β) (use : Use α)
    (hne : ∀ task ticks, use ≠ .blockOn task ticks) : (prog.apply p use).clock = p.clock := by
  cases use with
  | spawn task => rfl
  | tick => rfl
  | settle ticks => exact (settle_keeps h prog ticks).2
  | blockOn task ticks => exact absurd rfl (hne task ticks)

/-- A task that sleeps is polled at its deadline or before. -/
theorem sleeps_of_polls (h : Timely p.clock [] p.pool p.shared)
    (hpolls : p.Polls prog.behavior id a found) {s : Sleep τ} (hs : a.sleep = some s) :
    ∃ t ∈ found.timers.timers, s.timer = some t.id ∧ p.clock ≤ t.deadline ∧
      ((s.poll found.timers (.task id)).1 = true ↔ t.deadline = p.clock) := by
  obtain ⟨pool, rest, htimely, ha, -, -⟩ := timely_of_polls h hpolls
  obtain ⟨x, hx⟩ := Option.ne_none_iff_exists'.1 (htimely.begun id a ha s hs)
  have hheld : held pool id = some x := by
    rw [held_of_task? ha, timer?, hs]
    exact hx
  obtain ⟨t, ht, rfl, hawaited⟩ := htimely.attended.awaited id x hheld
  refine ⟨t, ht, hx, hawaited.le, ?_⟩
  rw [← htimely.attended.over_iff hheld ht List.mem_cons_self]
  unfold Sleep.poll
  simp only [hx]
  rcases found.timers.takeFired t.id with ⟨_ | _, after⟩ <;> rfl

/-- A sleep begins at the time of the clock. -/
theorem begins_of_polls (h : Timely p.clock [] p.pool p.shared)
    (hpolls : p.Polls prog.behavior id a found) {turn : Turn τ α σ β} {delay : τ} {rest : α}
    (hturn : prog.turn? id a found = some turn) (hpause : turn.pause = .sleep delay rest) :
    ∃ a' s, (prog.poll id a found).next = some a' ∧ a'.sleep = some s ∧
      ∃ t ∈ (prog.poll id a found).state.timers.timers, s.timer = some t.id ∧
        t.deadline = p.clock + max delay 0 := by
  obtain ⟨pool, after, htimely, ha, -, hnow⟩ := timely_of_polls h hpolls
  obtain ⟨-, -, hsame⟩ :=
    attended_look htimely.attended (held_of_task? ha) (htimely.begun id a ha)
  unfold Program.turn? at hturn
  unfold Program.poll
  revert hturn hsame
  rcases a.look id found.timers with ⟨_ | _, sleep, timers⟩
  · exact fun hturn => nomatch hturn
  · intro hturn hsame
    obtain rfl := Option.some.inj hturn
    simp only [pause, hpause]
    refine ⟨_, _, rfl, rfl, ⟨timers.nextId, timers.now + max delay 0, some (.task id), .pending⟩,
      ?_, rfl, ?_⟩
    · show _ ∈ (timers.schedule delay (some (.task id))).2.timers
      rw [TimerQueue.timers_schedule]
      exact List.mem_append_right _ List.mem_cons_self
    · show timers.now + max delay 0 = p.clock + max delay 0
      rw [hsame.trans hnow]

/-- Whatever has been done to a pool, what is done next happens on time. -/
theorem onTime_after (prog : Program τ α σ β) (state : σ) (uses : List (Use α)) :
    prog.OnTime (prog.after state uses) := by
  have h := timely_after prog state uses
  refine ⟨fun use => ?_, clock_apply h prog, fun task ticks blocked hblocked => ?_,
    fun task ticks => blockOn_succ_of_ne, fun id a found hpolls => ?_,
    fun id a found turn delay rest hpolls => begins_of_polls h hpolls⟩
  · by_cases hblock : ∃ task ticks, use = .blockOn task ticks
    · obtain ⟨task, ticks, rfl⟩ := hblock
      exact (blockOn_keeps h prog task ticks).2.1
    · exact (clock_apply h prog use fun task ticks heq => hblock ⟨task, ticks, heq⟩).ge
  · have hblocking := (blockOn_keeps h prog task ticks).2.2 (by rw [hblocked])
    rw [blockOn_succ_of_unfinished hblocked]
    rw [hblocked] at hblocking
    exact (hblocking.round prog).1
  · obtain ⟨-, -, -, -, -, hnow⟩ := timely_of_polls h hpolls
    exact ⟨hnow, fun s hs => sleeps_of_polls h hpolls hs⟩

/-- Tasks that sleep for some delays, one after the other, and finish with the time. -/
def sleepThrough : Program ℤ (List ℤ) Unit ℤ where
  turn _ timers delays _ :=
    match delays with
    | [] => { pause := .finish timers.now, state := () }
    | delay :: rest => { pause := .sleep delay rest, state := () }
  dispose _ _ := ((), [])

/-- While a task sleeps twice, another one wakes up in between. -/
theorem onTime_after_sleeps :
    (sleepThrough.after () [.spawn [5], .tick, .blockOn [3, 4] 4]).clock = 7 ∧
      sleepThrough.OnTime (sleepThrough.after () [.spawn [5], .tick, .blockOn [3, 4] 4]) :=
  ⟨by decide +kernel, onTime_after sleepThrough () _⟩

end Sleeper

end MountShell
