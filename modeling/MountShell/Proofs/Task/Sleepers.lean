import MountShell.Proofs.Task.Attended
import MountShell.Proofs.Task.Slots

/-!
# Tasks that sleep, give way and wake each other

A task of this module runs in turns.  A turn may look at the timers and at the time, change a state
that all tasks share and wake any tasks, and it ends in one of four ways (`Sleeper.Pause`): the task
awaits a sleep, gives way to the others, waits until somebody wakes it, or finishes with a value.
What a turn does is otherwise arbitrary: a `Sleeper.Program` is any function that says it, and
another one says what happens when a task is dropped.

A task that awaits a sleep and is polled looks whether the sleep is over, and takes its next turn
only then.  The value that a task finishes with is written down under the channel of the task
(`Sleeper.Ledger.results`).

The invariant `Sleeper.Timely` holds of a pool of such tasks, together with their timers, before
every poll: the timers are those that the tasks wait for (`TimerQueue.Attended`), and tasks that are
there have different channels without a value.  One poll keeps it (`Timely.poll`), and so do all
polls of a tick (`Timely.pollAll`).
-/

namespace MountShell

/-- A task: what it does next, the sleep that it awaits first, and its channel. -/
structure Sleeper (τ α : Type) where
  rest : α
  sleep : Option (Sleep τ) := none
  channel : Nat

namespace Sleeper

/-- The state that tasks share, and the values that tasks have finished with, by their channels. -/
structure Ledger (σ β : Type) where
  state : σ
  results : List (Option β) := []

/-- The value under a channel. -/
def Ledger.result? {σ β : Type} (l : Ledger σ β) (channel : Nat) : Option β :=
  (l.results[channel]?).join

/-- How a turn ends. -/
inductive Pause (τ α β : Type) where
  | sleep (delay : τ) (rest : α)
  | giveWay (rest : α)
  /-- The task goes on when another task has woken it. -/
  | wait (rest : α)
  | finish (value : β)

/-- What a turn does. -/
structure Turn (τ α σ β : Type) where
  pause : Pause τ α β
  state : σ
  woken : List Nat := []

/-- What tasks do. -/
structure Program (τ α σ β : Type) where
  /-- A turn of the task in the given slot. -/
  turn : Nat → TimerQueue τ Waker → α → σ → Turn τ α σ β
  /-- What dropping a task does to the shared state, and whom it wakes. -/
  dispose : α → σ → σ × List Nat

variable {τ α σ β : Type}

/-- The timer of the sleep that a task awaits. -/
def timer? (a : Sleeper τ α) : Option Nat :=
  a.sleep.bind Sleep.timer

/-- The timers that the tasks of a pool wait for. -/
def held (p : TaskPool (Sleeper τ α)) (id : Nat) : Option Nat :=
  (p.task? id).bind timer?

theorem held_of_task? {p : TaskPool (Sleeper τ α)} {id : Nat} {a : Sleeper τ α}
    (h : p.task? id = some a) : held p id = a.timer? := by
  rw [held, h]
  rfl

section Behavior

variable [Zero τ] [Add τ] [LT τ] [DecidableLT τ]

/-- Looks whether the sleep that a task awaits is over. -/
def look (id : Nat) (a : Sleeper τ α) (timers : TimerQueue τ Waker) :
    Bool × Option (Sleep τ) × TimerQueue τ Waker :=
  match a.sleep with
  | none => (true, none, timers)
  | some s =>
    let (ended, s, timers) := s.poll timers (.task id)
    (ended, some s, timers)

/-- What a turn leaves. A sleep is begun at once. -/
def pause (id : Nat) (a : Sleeper τ α) (timers : TimerQueue τ Waker) (results : List (Option β))
    (turn : Turn τ α σ β) : Polled (Sleeper τ α) (Shared τ (Ledger σ β)) :=
  match turn.pause with
  | .sleep delay rest =>
    let (_, s, timers) := ({ delay } : Sleep τ).poll timers (.task id)
    { next := some { a with rest, sleep := some s }
      state := { timers, state := { state := turn.state, results } }
      woken := turn.woken }
  | .giveWay rest =>
    { next := some { a with rest, sleep := none }
      state := { timers, state := { state := turn.state, results } }
      woken := turn.woken ++ [id] }
  | .wait rest =>
    { next := some { a with rest, sleep := none }
      state := { timers, state := { state := turn.state, results } }
      woken := turn.woken }
  | .finish value =>
    { next := none
      state :=
        { timers, state := { state := turn.state, results := results.set a.channel (some value) } }
      woken := turn.woken }

/-- The turn that a task takes when it is polled, if its sleep is over. -/
def Program.turn? (prog : Program τ α σ β) (id : Nat) (a : Sleeper τ α)
    (k : Shared τ (Ledger σ β)) : Option (Turn τ α σ β) :=
  match a.look id k.timers with
  | (true, _, timers) => some (prog.turn id timers a.rest k.state.state)
  | (false, _, _) => none

/-- Polls a task. -/
def Program.poll (prog : Program τ α σ β) (id : Nat) (a : Sleeper τ α)
    (k : Shared τ (Ledger σ β)) : Polled (Sleeper τ α) (Shared τ (Ledger σ β)) :=
  match a.look id k.timers with
  | (true, _, timers) =>
    a.pause id timers k.state.results (prog.turn id timers a.rest k.state.state)
  | (false, sleep, timers) => { next := some { a with sleep }, state := { k with timers } }

/-- Drops a task, and with it the sleep that it awaits. -/
def Program.drop (prog : Program τ α σ β) (a : Sleeper τ α) (k : Shared τ (Ledger σ β)) :
    Shared τ (Ledger σ β) × List Nat :=
  let timers := (a.sleep.map fun s => s.drop k.timers).getD k.timers
  let (state, woken) := prog.dispose a.rest k.state.state
  ({ timers, state := { k.state with state } }, woken)

/-- What tasks do when they are polled or dropped. -/
def Program.behavior (prog : Program τ α σ β) :
    Behavior (Sleeper τ α) (Shared τ (Ledger σ β)) where
  poll := prog.poll
  drop := prog.drop

/-- The value with which a poll finishes a task. -/
def Program.value? (prog : Program τ α σ β) (id : Nat) (a : Sleeper τ α)
    (k : Shared τ (Ledger σ β)) : Option β :=
  (prog.turn? id a k).bind fun turn =>
    match turn.pause with
    | .finish value => some value
    | _ => none

end Behavior

variable [LinearOrder τ]
variable {prog : Program τ α σ β} {clock : τ} {id : Nat} {ids : List Nat} {a : Sleeper τ α}

/-! ### Between ticks -/

/-- The tasks of a pool, their timers and their channels. The batch holds the tasks that are still
to be polled. -/
structure Timely (clock : τ) (batch : List Nat) (p : TaskPool (Sleeper τ α))
    (k : Shared τ (Ledger σ β)) : Prop where
  slotted : p.Slotted
  nodup : p.ready.Nodup
  attended : k.timers.Attended clock batch (held p)
  begun : ∀ id a, p.task? id = some a → ∀ s, a.sleep = some s → s.timer ≠ none
  unfinished : ∀ id a, p.task? id = some a → k.state.results[a.channel]? = some none
  channels : ∀ id a id' a', p.task? id = some a → p.task? id' = some a' →
    a.channel = a'.channel → id = id'

variable {p : TaskPool (Sleeper τ α)} {k : Shared τ (Ledger σ β)}

theorem Timely.pass (h : Timely clock (id :: ids) p k) (hnone : p.task? id = none) :
    Timely clock ids p k :=
  { h with attended := h.attended.pass (by rw [held, hnone]; rfl) }

/-- A new task gets a slot that was empty and the next channel. -/
theorem Timely.spawn (h : Timely clock [] p k) (rest : α) :
    Timely clock [] (p.spawn { rest, channel := k.state.results.length }).2
      { k with state := { k.state with results := k.state.results ++ [none] } } := by
  obtain ⟨hempty, htask⟩ :=
    TaskPool.task?_spawn h.slotted { rest, channel := k.state.results.length }
  have hlt : ∀ {i a}, p.task? i = some a → a.channel < k.state.results.length :=
    fun hi => (List.getElem?_eq_some_iff.1 (h.unfinished _ _ hi)).1
  refine ⟨h.slotted.spawn _, TaskPool.nodup_ready_spawn h.nodup _, ?_, fun i a hi => ?_,
    fun i a hi => ?_, fun i a j b hi hj hchannel => ?_⟩
  · -- the new task has no sleep yet, so that the timers are held as before
    have hheld : held (p.spawn { rest, channel := k.state.results.length }).2 = held p := by
      funext i
      rw [held, held, htask]
      split
      · next heq => rw [heq, hempty]; rfl
      · rfl
    rw [hheld]
    exact h.attended
  · rw [htask] at hi
    split at hi
    · obtain rfl := Option.some.inj hi
      exact fun s hs => nomatch hs
    · exact h.begun i a hi
  · rw [htask] at hi
    split at hi
    · obtain rfl := Option.some.inj hi
      exact List.getElem?_concat_length
    · show (k.state.results ++ [none])[a.channel]? = some none
      rw [List.getElem?_append_left (hlt hi)]
      exact h.unfinished i a hi
  · rw [htask] at hi hj
    split at hi <;> split at hj
    · next hinew hjnew => rw [hinew, hjnew]
    · obtain rfl := Option.some.inj hi
      exact absurd hchannel.symm (Nat.ne_of_lt (hlt hj))
    · obtain rfl := Option.some.inj hj
      exact absurd hchannel (Nat.ne_of_lt (hlt hi))
    · exact h.channels i a j b hi hj hchannel

/-- A task that is dropped takes its timer with it. -/
theorem Timely.drop (h : Timely clock [] p k) (ha : p.task? id = some a)
    (prog : Program τ α σ β) :
    Timely clock [] ((p.remove id).wakeAll (prog.drop a k).2) (prog.drop a k).1 := by
  have hlt := TaskPool.lt_of_task? ha
  have htask := TaskPool.task?_polled hlt none (prog.drop a k).2
  have hold : ∀ {i a'}, ((p.remove id).wakeAll (prog.drop a k).2).task? i = some a' →
      p.task? i = some a' := by
    intro i a' hi
    have hslot := (htask i).symm.trans hi
    split at hslot
    · exact nomatch hslot
    · exact hslot
  have hnodup : (p.remove id).ready.Nodup := h.nodup
  refine ⟨(h.slotted.remove ha).wakeAll _, TaskPool.nodup_ready_wakeAll hnodup _, ?_,
    fun i a' hi => h.begun i a' (hold hi), fun i a' hi => h.unfinished i a' (hold hi),
    fun i a' j b' hi hj => h.channels i a' j b' (hold hi) (hold hj)⟩
  -- no one holds the timer of the task any more, and giving the sleep up takes it out of the queue
  have hheld : held ((p.remove id).wakeAll (prog.drop a k).2) =
      Function.update (held p) id none := by
    funext i
    rw [held, Function.update_apply]
    refine (congrArg (Option.bind · timer?) (htask i)).trans ?_
    split <;> rfl
  rw [hheld]
  unfold Program.drop
  simp only
  cases hsleep : a.sleep with
  | none =>
    have hnone : held p id = none := by rw [held_of_task? ha, timer?, hsleep]; rfl
    rw [Function.update_eq_self_iff.2 hnone.symm]
    exact h.attended
  | some s =>
    obtain ⟨delay, timer⟩ := s
    obtain ⟨x, rfl⟩ := Option.ne_none_iff_exists'.1 (h.begun id a ha _ hsleep)
    exact h.attended.giveUp (by rw [held_of_task? ha, timer?, hsleep]; rfl) delay

/-- Time may go on up to the next deadline. -/
theorem Timely.jump (h : Timely clock [] p k) {later : τ} (hle : clock ≤ later)
    (hdeadlines : ∀ t ∈ k.timers.timers, t.state = .pending → later ≤ t.deadline) :
    Timely later [] p k :=
  { h with attended := h.attended.jump hle hdeadlines }

/-- A tick begins with the timers that are due, and the batch is what is ready then. -/
theorem Timely.wake (h : Timely clock [] p k) :
    Timely clock (p.wakeAll (Waker.tasks (k.timers.tick clock).1)).ready
      { p.wakeAll (Waker.tasks (k.timers.tick clock).1) with ready := [] }
      { k with timers := (k.timers.tick clock).2 } ∧ (k.timers.tick clock).2.now = clock := by
  have hslotted := h.slotted.wakeAll (Waker.tasks (k.timers.tick clock).1)
  have htask : ∀ i, TaskPool.task?
      { p.wakeAll (Waker.tasks (k.timers.tick clock).1) with ready := [] } i = p.task? i :=
    TaskPool.task?_wakeAll p _
  have hheld : held { p.wakeAll (Waker.tasks (k.timers.tick clock).1) with ready := [] } = held p :=
    funext fun i => congrArg (Option.bind · timer?) (htask i)
  have hbatch : ∀ id ∈ Waker.tasks (k.timers.tick clock).1,
      id ∈ (p.wakeAll (Waker.tasks (k.timers.tick clock).1)).ready := fun id hid =>
    (TaskPool.mem_ready_wakeAll p _ id).2 (.inr hid)
  obtain ⟨hattended, hnow⟩ := h.attended.tick hbatch
  refine ⟨⟨⟨hslotted.empty, hslotted.nodup⟩, List.nodup_nil, ?_, ?_, ?_, ?_⟩, hnow⟩
  · rw [hheld]
    exact hattended
  · simpa only [htask] using h.begun
  · simpa only [htask] using h.unfinished
  · simpa only [htask] using h.channels

variable [AddZeroClass τ]

/-! ### One poll -/

/-- A sleep that has a timer is over or goes on. -/
theorem attended_look {held : Nat → Option Nat} {q : TimerQueue τ Waker}
    (h : q.Attended clock (id :: ids) held) (hheld : held id = a.timer?)
    (hbegun : ∀ s, a.sleep = some s → s.timer ≠ none) :
    ((a.look id q).1 = true → (a.look id q).2.2.Attended clock ids (Function.update held id none)) ∧
      ((a.look id q).1 = false → (a.look id q).2.1 = a.sleep ∧ a.sleep ≠ none ∧
        (a.look id q).2.2.Attended clock ids held) ∧
      (a.look id q).2.2.now = q.now := by
  unfold look
  cases hsleep : a.sleep with
  | none =>
    have hnone : held id = none := by rw [hheld, timer?, hsleep]; rfl
    refine ⟨fun _ => ?_, fun hfalse => absurd hfalse (by simp), rfl⟩
    rw [Function.update_eq_self_iff.2 hnone.symm]
    exact h.pass hnone
  | some s =>
    obtain ⟨x, hx⟩ := Option.ne_none_iff_exists'.1 (hbegun s hsleep)
    have hsome : held id = some x := by rw [hheld, timer?, hsleep]; exact hx
    unfold Sleep.poll
    simp only [hx]
    have hnow : (q.takeFired x).2.now = q.now := by rw [h.coherent.takeFired_eq]
    have htake := h.take hsome
    have hkeep := h.keep hsome
    have hsame : (q.takeFired x).1 = false → (q.takeFired x).2 = q :=
      TimerQueue.takeFired_of_false
    revert hnow htake hkeep hsame
    rcases q.takeFired x with ⟨_ | _, after⟩
    · intro hnow _ hkeep hsame
      obtain rfl : after = q := hsame rfl
      exact ⟨fun htrue => absurd htrue (by simp), fun _ => ⟨rfl, by simp, hkeep rfl⟩, rfl⟩
    · intro hnow htake _ _
      exact ⟨fun _ => htake rfl, fun hfalse => absurd hfalse (by simp), hnow⟩

/-- The results once a task with the given channel has finished with a value, if it has. -/
def recorded (results : List (Option β)) (channel : Nat) : Option β → List (Option β)
  | some v => results.set channel (some v)
  | none => results

/-- What a poll makes of one task: the timers are still those that the tasks wait for, and the value
that the task finishes with is written down. -/
structure Leaves (clock : τ) (ids : List Nat) (held : Nat → Option Nat) (id : Nat)
    (a : Sleeper τ α) (results : List (Option β)) (value : Option β)
    (polled : Polled (Sleeper τ α) (Shared τ (Ledger σ β))) : Prop where
  attended : polled.state.timers.Attended clock ids
    (Function.update held id (polled.next.bind timer?))
  now : polled.state.timers.now = clock
  begun : ∀ a', polled.next = some a' → ∀ s, a'.sleep = some s → s.timer ≠ none
  channel : ∀ a', polled.next = some a' → a'.channel = a.channel
  next_eq_none_iff : polled.next = none ↔ value ≠ none
  results : polled.state.state.results = recorded results a.channel value

variable [AddLeftMono τ]

/-- A turn of a task that waits for no timer. -/
theorem leaves_pause {held : Nat → Option Nat} {q : TimerQueue τ Waker}
    (h : q.Attended clock ids held) (hheld : held id = none) (hnot : id ∉ ids)
    (hnow : q.now = clock) (results : List (Option β)) (turn : Turn τ α σ β) :
    Leaves clock ids held id a results
      (match turn.pause with
        | .finish value => some value
        | _ => none) (a.pause id q results turn) := by
  have hsame : q.Attended clock ids (Function.update held id none) := by
    rwa [Function.update_eq_self_iff.2 hheld.symm]
  unfold pause
  cases turn.pause with
  | sleep delay rest =>
    refine ⟨h.begin hheld hnot hnow delay, hnow, ?_, ?_, by simp, rfl⟩
    · rintro _ ⟨⟩ _ ⟨⟩
      simp
    · rintro _ ⟨⟩
      rfl
  | giveWay rest =>
    refine ⟨hsame, hnow, ?_, ?_, by simp, rfl⟩
    · rintro _ ⟨⟩ _ ⟨⟩
    · rintro _ ⟨⟩
      rfl
  | wait rest =>
    refine ⟨hsame, hnow, ?_, ?_, by simp, rfl⟩
    · rintro _ ⟨⟩ _ ⟨⟩
    · rintro _ ⟨⟩
      rfl
  | finish value => exact ⟨hsame, hnow, nofun, nofun, by simp, rfl⟩

/-- A poll of the first task of the batch. -/
theorem leaves_poll {held : Nat → Option Nat} {k : Shared τ (Ledger σ β)}
    (h : k.timers.Attended clock (id :: ids) held) (hheld : held id = a.timer?)
    (hbegun : ∀ s, a.sleep = some s → s.timer ≠ none) (hnot : id ∉ ids)
    (hnow : k.timers.now = clock) (prog : Program τ α σ β) :
    Leaves clock ids held id a k.state.results (prog.value? id a k) (prog.poll id a k) := by
  obtain ⟨hover, hkeep, hsame⟩ := attended_look h hheld hbegun
  unfold Program.value? Program.turn? Program.poll
  revert hover hkeep hsame
  rcases a.look id k.timers with ⟨_ | _, sleep, timers⟩
  · intro _ hkeep hsame
    obtain ⟨rfl, hsleeps, hattended⟩ := hkeep rfl
    refine ⟨?_, hsame.trans hnow, ?_, ?_, by simp, rfl⟩
    · have hid : held id = (some { a with sleep := a.sleep }).bind timer? := hheld
      rwa [Function.update_eq_self_iff.2 hid.symm]
    · rintro _ ⟨⟩
      exact hbegun
    · rintro _ ⟨⟩
      rfl
  · intro hover _ hsame
    have hleaves := leaves_pause (a := a) (hover rfl) (Function.update_self ..) hnot
      (hsame.trans hnow) k.state.results (prog.turn id timers a.rest k.state.state)
    obtain ⟨hattended, hnow', hbegun', hchannel, hnext, hresults⟩ := hleaves
    rw [Function.update_idem] at hattended
    exact ⟨hattended, hnow', hbegun', hchannel, hnext, hresults⟩

/-! ### The polls of a tick -/

/-- What every poll keeps. -/
theorem Timely.poll (h : Timely clock (id :: ids) p k) (ha : p.task? id = some a)
    (hnot : id ∉ ids) (hnow : k.timers.now = clock) (prog : Program τ α σ β) :
    Timely clock ids ((p.leave id (prog.poll id a k).next).wakeAll (prog.poll id a k).woken)
      (prog.poll id a k).state ∧ (prog.poll id a k).state.timers.now = clock := by
  have hleaves := leaves_poll h.attended (held_of_task? ha) (h.begun id a ha) hnot hnow prog
  have hlt := TaskPool.lt_of_task? ha
  have htask := TaskPool.task?_polled hlt (prog.poll id a k).next (prog.poll id a k).woken
  -- a task that is there afterwards was there before, with the same channel
  have hold : ∀ {i a'},
      ((p.leave id (prog.poll id a k).next).wakeAll (prog.poll id a k).woken).task? i = some a' →
      ∃ old, p.task? i = some old ∧ a'.channel = old.channel := by
    intro i a' hi
    rw [htask] at hi
    by_cases heq : i = id
    · rw [if_pos heq] at hi
      exact ⟨a, heq ▸ ha, hleaves.channel a' hi⟩
    · rw [if_neg heq] at hi
      exact ⟨a', hi, rfl⟩
  refine ⟨⟨(h.slotted.leave ha _).wakeAll _, ?_, ?_, fun i a' hi => ?_, fun i a' hi => ?_,
    fun i a' j b' hi hj hchannel => ?_⟩, hleaves.now⟩
  · exact TaskPool.nodup_ready_wakeAll (by rw [TaskPool.ready_leave]; exact h.nodup) _
  · have hheld : held ((p.leave id (prog.poll id a k).next).wakeAll (prog.poll id a k).woken) =
        Function.update (held p) id ((prog.poll id a k).next.bind timer?) := by
      funext i
      rw [held, htask, Function.update_apply]
      split <;> rfl
    rw [hheld]
    exact hleaves.attended
  · rw [htask] at hi
    by_cases heq : i = id
    · rw [if_pos heq] at hi
      exact hleaves.begun a' hi
    · rw [if_neg heq] at hi
      exact h.begun i a' hi
  · obtain ⟨old, hwas, hchannel⟩ := hold hi
    rw [hleaves.results, hchannel]
    cases hvalue : prog.value? id a k with
    | none => exact h.unfinished i old hwas
    | some v =>
      have hne : a.channel ≠ old.channel := by
        intro heq
        obtain rfl := h.channels id a i old ha hwas heq
        rw [htask, if_pos rfl, hleaves.next_eq_none_iff.2 (by simp [hvalue])] at hi
        exact nomatch hi
      rw [recorded, List.getElem?_set_ne hne]
      exact h.unfinished i old hwas
  · obtain ⟨old, hwas, hold'⟩ := hold hi
    obtain ⟨old', hwas', hold''⟩ := hold hj
    exact h.channels i old j old' hwas hwas' (hold' ▸ hold'' ▸ hchannel)

/-- What the polls of a tick keep. -/
theorem Timely.pollAll {rest : List Nat} (h : Timely clock (ids ++ rest) p k)
    (hnodup : (ids ++ rest).Nodup) (hnow : k.timers.now = clock) (prog : Program τ α σ β) :
    Timely clock rest (TaskPool.pollAll prog.behavior ids p k).2.1
        (TaskPool.pollAll prog.behavior ids p k).2.2 ∧
      (TaskPool.pollAll prog.behavior ids p k).2.2.timers.now = clock := by
  induction ids generalizing p k with
  | nil => exact ⟨h, hnow⟩
  | cons id ids ih =>
    obtain ⟨hnot, hrest⟩ := List.nodup_cons.1 hnodup
    cases ha : p.task? id with
    | none =>
      rw [TaskPool.pollAll_of_none _ ha]
      exact ih (h.pass ha) hrest hnow
    | some a =>
      rw [TaskPool.pollAll_of_task? _ ha]
      obtain ⟨hpoll, hnow'⟩ := h.poll ha hnot hnow prog
      exact ih hpoll hrest hnow'

/-- What a task finds that is polled in a tick. -/
theorem Timely.of_polls (h : Timely clock ids p k) (hnodup : ids.Nodup)
    (hnow : k.timers.now = clock) {found : Shared τ (Ledger σ β)}
    (hpolls : TaskPool.Polls prog.behavior ids p k id a found) :
    ∃ pool rest, Timely clock (id :: rest) pool found ∧ pool.task? id = some a ∧ id ∉ rest ∧
      found.timers.now = clock := by
  obtain ⟨before, after, rfl, htask, rfl⟩ := hpolls
  obtain ⟨htimely, hnow'⟩ := h.pollAll hnodup hnow prog
  have hnot : id ∉ after :=
    (List.nodup_cons.1 (hnodup.sublist (List.sublist_append_right _ _))).1
  exact ⟨_, after, htimely, htask, hnot, hnow'⟩

/-! ### The values of finished tasks -/

variable {channel : Nat} {v : β}

/-- A poll that finishes a task writes its value down, and no other does. -/
theorem Timely.result?_poll (h : Timely clock (id :: ids) p k)
    (ha : p.task? id = some a) (hnot : id ∉ ids) (hnow : k.timers.now = clock)
    (prog : Program τ α σ β) :
    (prog.poll id a k).state.state.result? channel = some v ↔
      k.state.result? channel = some v ∨ (a.channel = channel ∧ prog.value? id a k = some v) := by
  have hopen := h.unfinished id a ha
  have hlt := (List.getElem?_eq_some_iff.1 hopen).1
  have hleaves := leaves_poll h.attended (held_of_task? ha) (h.begun id a ha) hnot hnow prog
  unfold Ledger.result?
  rw [hleaves.results]
  cases prog.value? id a k with
  | none => simp [recorded]
  | some w =>
    by_cases hchannel : a.channel = channel
    · subst hchannel
      rw [recorded, List.getElem?_set_self hlt, hopen]
      simp
    · rw [recorded, List.getElem?_set_ne hchannel]
      simp [hchannel]

/-- A value is there after the polls of a tick if it was there before, or if one of the polls has
finished the task with its channel. -/
theorem Timely.result?_pollAll (h : Timely clock ids p k) (hnodup : ids.Nodup)
    (hnow : k.timers.now = clock) (prog : Program τ α σ β) :
    (TaskPool.pollAll prog.behavior ids p k).2.2.state.result? channel = some v ↔
      k.state.result? channel = some v ∨
        ∃ id a found, TaskPool.Polls prog.behavior ids p k id a found ∧ a.channel = channel ∧
          prog.value? id a found = some v := by
  induction ids generalizing p k with
  | nil =>
    refine ⟨.inl, ?_⟩
    rintro (hresult | ⟨id, a, found, hpolls, -⟩)
    · exact hresult
    · exact absurd hpolls (TaskPool.not_polls_nil _ _ _ _ _)
  | cons id ids ih =>
    obtain ⟨hnot, hrest⟩ := List.nodup_cons.1 hnodup
    cases ha : p.task? id with
    | none =>
      rw [TaskPool.pollAll_of_none _ ha, ih (h.pass ha) hrest hnow]
      simp only [TaskPool.polls_cons_of_none _ ha]
    | some a =>
      obtain ⟨hpoll, hnow'⟩ := h.poll ha hnot hnow prog
      rw [TaskPool.pollAll_of_task? _ ha]
      refine (ih hpoll hrest hnow').trans ?_
      rw [h.result?_poll ha hnot hnow prog, or_assoc]
      -- a poll of the tick is the first one or one of those after it
      refine or_congr_right ⟨?_, ?_⟩
      · rintro (⟨hchannel, hvalue⟩ | ⟨i, b, found, hpolls, hboth⟩)
        · exact ⟨id, a, k, (TaskPool.polls_cons_of_task? _ ha ..).2 (.inl ⟨rfl, rfl, rfl⟩),
            hchannel, hvalue⟩
        · exact ⟨i, b, found, (TaskPool.polls_cons_of_task? _ ha ..).2 (.inr hpolls), hboth⟩
      · rintro ⟨i, b, found, hpolls, hboth⟩
        rcases (TaskPool.polls_cons_of_task? _ ha ..).1 hpolls with ⟨rfl, rfl, rfl⟩ | hlater
        · exact .inl hboth
        · exact .inr ⟨i, b, found, hlater, hboth⟩

/-- A task that has not finished is where it was. -/
theorem Timely.task?_pollAll (h : Timely clock ids p k) (hnodup : ids.Nodup)
    (hnow : k.timers.now = clock) (prog : Program τ α σ β) {slot : Nat}
    (hthere : k.state.result? channel = none → ∃ a, p.task? slot = some a ∧ a.channel = channel)
    (hnone : (TaskPool.pollAll prog.behavior ids p k).2.2.state.result? channel = none) :
    ∃ a, (TaskPool.pollAll prog.behavior ids p k).2.1.task? slot = some a ∧
      a.channel = channel := by
  induction ids generalizing p k with
  | nil => exact hthere hnone
  | cons id ids ih =>
    obtain ⟨hnot, hrest⟩ := List.nodup_cons.1 hnodup
    cases ha : p.task? id with
    | none =>
      rw [TaskPool.pollAll_of_none _ ha] at hnone ⊢
      exact ih (h.pass ha) hrest hnow hthere hnone
    | some a =>
      obtain ⟨hpoll, hnow'⟩ := h.poll ha hnot hnow prog
      have hleaves := leaves_poll h.attended (held_of_task? ha) (h.begun id a ha) hnot hnow prog
      rw [TaskPool.pollAll_of_task? _ ha] at hnone ⊢
      refine ih hpoll hrest hnow' (fun hstill => ?_) hnone
      -- the result that is missing at the end has not been given by this poll, nor before it
      have hvalue : ∀ v, ¬(a.channel = channel ∧ prog.value? id a k = some v) := fun v hboth =>
        absurd (((h.result?_poll ha hnot hnow prog).2 (.inr hboth)).symm.trans hstill) (by simp)
      have hwas : k.state.result? channel = none := Option.eq_none_iff_forall_ne_some.2 fun v hv =>
        absurd (((h.result?_poll ha hnot hnow prog).2 (.inl hv)).symm.trans hstill) (by simp)
      obtain ⟨old, hold, hchannel⟩ := hthere hwas
      rw [TaskPool.task?_polled (TaskPool.lt_of_task? ha)]
      by_cases heq : slot = id
      · subst heq
        obtain rfl : a = old := Option.some.inj (ha.symm.trans hold)
        rw [if_pos rfl]
        cases hnext : (prog.poll slot a k).next with
        | none =>
          obtain ⟨v, hv⟩ := Option.ne_none_iff_exists'.1 (hleaves.next_eq_none_iff.1 hnext)
          exact absurd ⟨hchannel, hv⟩ (hvalue v)
        | some a' => exact ⟨a', hnext, (hleaves.channel a' hnext).trans hchannel⟩
      · rw [if_neg heq]
        exact ⟨old, hold, hchannel⟩

end Sleeper

end MountShell
