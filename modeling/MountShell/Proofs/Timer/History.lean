import Mathlib.Data.Set.Card
import Mathlib.Order.Bounds.Basic
import MountShell.Proofs.Timer.Operations

/-!
# What a queue of timers answers after any history

A history is the list of everything that has been done to a queue (`TimerUse`).  Which timers wait
for their deadlines after a history can be read off it without looking at any queue: those that it
has scheduled, that it has not cancelled since, and whose deadlines the time has not reached in any
tick since (`waiting`).  A tick fires the waiting timers whose deadlines it reaches (`FiresAt`), and
so each timer fires in the first tick that reaches its deadline, if it is still there.

The queue keeps less than its history and more than the set of these timers: a heap, in which
cancelled timers stay until their deadlines, and a table, in which timers that have fired stay until
somebody asks.  It is kept right by every use (`Tracks.apply`).

Main statement: `answers_after`, after any history the queue answers as its history says.
-/

namespace MountShell

/-- One thing that is done to a queue of timers. -/
inductive TimerUse (τ ω : Type) where
  | schedule (delay : τ) (waker : Option ω)
  | setWaker (id : Nat) (waker : ω)
  | cancel (id : Nat)
  | tick (now : τ)
  | takeFired (id : Nat)

namespace TimerUse

variable {τ ω : Type}

/-- The time that a tick tells. -/
def time? : TimerUse τ ω → Option τ
  | tick now => some now
  | _ => none

/-- Is a timer scheduled? -/
def isSchedule : TimerUse τ ω → Bool
  | schedule _ _ => true
  | _ => false

/-- The waker that a timer with the given number has afterwards. -/
def waker (id : Nat) (had : Option ω) : TimerUse τ ω → Option ω
  | setWaker other waker => if other = id then some waker else had
  | _ => had

end TimerUse

/-- A timer that waits for its deadline. -/
@[ext]
structure Waiting (τ ω : Type) where
  id : Nat
  deadline : τ
  waker : Option ω

/-- What a timer waits for, if it is pending. -/
def Timer.waiting {τ ω : Type} (t : Timer τ ω) : Waiting τ ω := ⟨t.id, t.deadline, t.waker⟩

namespace TimerQueue

variable {τ ω : Type}

/-! ### Uses and their numbers -/

/-- The number of timers that a history schedules, which is the number of the next one. -/
def scheduled (uses : List (TimerUse τ ω)) : Nat := uses.countP TimerUse.isSchedule

/-- The last use of a history is the one that is looked for, or it comes after it. -/
theorem concat_eq_append_cons_iff {α : Type} {uses front back : List α} {last mid : α} :
    uses ++ [last] = front ++ mid :: back ↔
      (uses = front ∧ last = mid ∧ back = []) ∨
        ∃ init, uses = front ++ mid :: init ∧ back = init ++ [last] := by
  rcases List.eq_nil_or_concat' back with rfl | ⟨init, final, rfl⟩
  · simp [List.append_singleton_inj]
  · have hsplit : front ++ mid :: (init ++ [final]) = front ++ mid :: init ++ [final] := by simp
    rw [hsplit, List.append_singleton_inj]
    simp only [List.append_singleton_inj]
    constructor
    · rintro ⟨rfl, rfl⟩
      exact .inr ⟨init, rfl, rfl, rfl⟩
    · rintro (⟨-, -, hnil⟩ | ⟨init, rfl, rfl, rfl⟩)
      · exact absurd hnil (by simp)
      · exact ⟨rfl, rfl⟩

/-- One more use may schedule one more timer. -/
theorem scheduled_concat (uses : List (TimerUse τ ω)) (use : TimerUse τ ω) :
    scheduled (uses ++ [use]) = scheduled uses + if use.isSchedule then 1 else 0 := by
  unfold scheduled
  rw [List.countP_append, List.countP_singleton]

/-! ### The time -/

section Time

variable [Zero τ] [LinearOrder τ]

/-- The time after a history: the latest one that a tick has told. -/
def timeAfter (uses : List (TimerUse τ ω)) : τ := (uses.filterMap TimerUse.time?).foldl max 0

/-- One more use may bring a later time. -/
theorem timeAfter_concat (uses : List (TimerUse τ ω)) (use : TimerUse τ ω) :
    timeAfter (uses ++ [use]) = use.time?.toList.foldl max (timeAfter uses) := by
  unfold timeAfter
  rw [List.filterMap_append, List.foldl_append]
  cases use <;> rfl

/-- A tick brings its time, if it is later. -/
theorem timeAfter_tick (uses : List (TimerUse τ ω)) (now : τ) :
    timeAfter (uses ++ [.tick now]) = max (timeAfter uses) now :=
  timeAfter_concat uses _

/-- The time is the latest one that a tick has brought. -/
theorem isGreatest_timeAfter (uses : List (TimerUse τ ω)) :
    IsGreatest {t | t = 0 ∨ .tick t ∈ uses} (timeAfter uses) := by
  induction uses using List.reverseRecOn with
  | nil => exact ⟨.inl rfl, fun t ht => (ht.resolve_right List.not_mem_nil).le⟩
  | append_singleton uses use ih =>
    have hset : {t | t = 0 ∨ .tick t ∈ uses ++ [use]} =
        {t | t = 0 ∨ .tick t ∈ uses} ∪ {t | use.time? = some t} := by
      ext t
      cases use <;> simp [TimerUse.time?, or_comm, or_left_comm, eq_comm]
    rw [hset, timeAfter_concat]
    cases htime : use.time? with
    | none => simpa using ih
    | some t => simpa [eq_comm] using ih.union (isGreatest_singleton (a := t))

end Time

/-! ### What a history says -/

variable [Zero τ] [Add τ] [LinearOrder τ]

/-- The timers that wait for their deadlines after a history. -/
def waiting (uses : List (TimerUse τ ω)) : Set (Waiting τ ω) :=
  {p | ∃ before delay first since, uses = before ++ .schedule delay first :: since ∧
    p.id = scheduled before ∧
    p.deadline = timeAfter before + max delay 0 ∧
    p.waker = since.foldl (TimerUse.waker p.id) first ∧
    .cancel p.id ∉ since ∧
    ∀ early now late, since = early ++ .tick now :: late →
      timeAfter (before ++ .schedule delay first :: early ++ [.tick now]) < p.deadline}

/-- A tick after a history fires a timer. -/
def FiresAt (uses : List (TimerUse τ ω)) (now : τ) (p : Waiting τ ω) : Prop :=
  p ∈ waiting uses ∧ p.deadline ≤ timeAfter (uses ++ [.tick now])

/-- A timer has fired, and nobody has asked for it since. -/
def Unobserved (uses : List (TimerUse τ ω)) (id : Nat) : Prop :=
  ∃ before now since p, uses = before ++ .tick now :: since ∧ FiresAt before now p ∧ p.id = id ∧
    .takeFired id ∉ since

/-- What a use makes of a queue. -/
def apply (q : TimerQueue τ ω) : TimerUse τ ω → TimerQueue τ ω
  | .schedule delay waker => (q.schedule delay waker).2
  | .setWaker id waker => q.setWaker id waker
  | .cancel id => (q.cancel id).2
  | .tick now => (q.tick now).2
  | .takeFired id => (q.takeFired id).2

/-- The queue after a history. -/
def after (uses : List (TimerUse τ ω)) : TimerQueue τ ω := uses.foldl apply empty

/-- A queue answers as a history says. -/
structure Answers (uses : List (TimerUse τ ω)) (q : TimerQueue τ ω) : Prop where
  /-- The time is the largest of zero and the times of the ticks. -/
  now : q.now = timeAfter uses ∧ IsGreatest {t | t = 0 ∨ .tick t ∈ uses} (timeAfter uses)
  /-- Timers are numbered in the order in which they are scheduled. -/
  schedule : ∀ delay waker, (q.schedule delay waker).1 = scheduled uses
  /-- A tick gives the wakers of the timers that it fires, in the order of their deadlines. -/
  tick : ∀ now, ∃ fired : List (Waiting τ ω), fired.Nodup ∧
    (∀ p, p ∈ fired ↔ FiresAt uses now p) ∧
    fired.Pairwise (fun p p' => p.deadline ≤ p'.deadline) ∧
    (q.tick now).1 = fired.filterMap Waiting.waker
  /-- A timer that has fired never waits again, and so it never fires again. -/
  once : ∀ now p, FiresAt uses now p → ∀ since,
    ∀ p' ∈ waiting (uses ++ .tick now :: since), p'.id ≠ p.id
  /-- A timer can be cancelled if it waits. -/
  cancel : ∀ id, (q.cancel id).1 = true ↔ ∃ p ∈ waiting uses, p.id = id
  /-- That a timer has fired is told to the first who asks. -/
  takeFired : ∀ id, (q.takeFired id).1 = true ↔ Unobserved uses id
  isPending : ∀ id, q.isPending id = true ↔ ∃ p ∈ waiting uses, p.id = id
  pendingCount : q.pendingCount = (waiting uses).ncard
  nextDeadline : ∀ d, q.nextDeadline = some d ↔ IsLeast (Waiting.deadline '' waiting uses) d
  nextDeadline_none : q.nextDeadline = none ↔ waiting uses = ∅

variable {uses : List (TimerUse τ ω)} {use : TimerUse τ ω} {p : Waiting τ ω} {id : Nat} {now : τ}

/-! ### Histories that go on -/

/-- Before any use nobody waits. -/
theorem waiting_nil : waiting ([] : List (TimerUse τ ω)) = ∅ := by
  refine Set.eq_empty_of_forall_notMem fun p hp => ?_
  obtain ⟨before, delay, first, since, huses, -⟩ := hp
  exact absurd huses (by simp)

/-- After one more use, a timer waits that has just been scheduled, or that has waited before and is
neither cancelled nor due. -/
theorem mem_waiting_concat : p ∈ waiting (uses ++ [use]) ↔
    (∃ delay first, use = .schedule delay first ∧
      p = ⟨scheduled uses, timeAfter uses + max delay 0, first⟩) ∨
    ∃ old ∈ waiting uses, use ≠ .cancel old.id ∧
      (∀ now, use = .tick now → timeAfter (uses ++ [.tick now]) < old.deadline) ∧
      p = { old with waker := use.waker old.id old.waker } := by
  constructor
  · rintro ⟨before, delay, first, since, huses, hid, hdeadline, hwaker, hcancel, htick⟩
    rcases concat_eq_append_cons_iff.1 huses with ⟨rfl, rfl, rfl⟩ | ⟨init, rfl, rfl⟩
    · exact .inl ⟨delay, first, rfl, Waiting.ext hid hdeadline hwaker⟩
    · rw [List.foldl_append] at hwaker
      rw [List.mem_append, List.mem_singleton, not_or] at hcancel
      refine .inr ⟨⟨p.id, p.deadline, init.foldl (TimerUse.waker p.id) first⟩,
        ⟨before, delay, first, init, rfl, hid, hdeadline, rfl, hcancel.1, ?_⟩, Ne.symm hcancel.2,
        ?_, Waiting.ext rfl rfl hwaker⟩
      · rintro early now late rfl
        exact htick early now (late ++ [use]) (by simp)
      · rintro now rfl
        exact htick init now [] rfl
  · rintro (⟨delay, first, rfl, rfl⟩ | ⟨old, hold, hcancel, htick, rfl⟩)
    · refine ⟨uses, delay, first, [], rfl, rfl, rfl, rfl, List.not_mem_nil, ?_⟩
      intro early now late hnil
      exact absurd hnil (by simp)
    · obtain ⟨before, delay, first, since, rfl, hid, hdeadline, hwaker, hnot, hticks⟩ := hold
      refine ⟨before, delay, first, since ++ [use], by simp, hid, hdeadline, ?_, ?_, ?_⟩
      · rw [List.foldl_append, ← hwaker]
        rfl
      · rw [List.mem_append, List.mem_singleton, not_or]
        exact ⟨hnot, Ne.symm hcancel⟩
      · intro early now late hsince
        rcases concat_eq_append_cons_iff.1 hsince with ⟨rfl, rfl, rfl⟩ | ⟨init, hinit, -⟩
        · exact htick now rfl
        · exact hticks early now init hinit

/-- After one more use, a timer has fired unobserved that fires just now, or that had before and has
not been asked for. -/
theorem unobserved_concat : Unobserved (uses ++ [use]) id ↔
    (∃ now p, use = .tick now ∧ FiresAt uses now p ∧ p.id = id) ∨
      (Unobserved uses id ∧ use ≠ .takeFired id) := by
  constructor
  · rintro ⟨before, now, since, p, huses, hfires, hid, htaken⟩
    rcases concat_eq_append_cons_iff.1 huses with ⟨rfl, rfl, rfl⟩ | ⟨init, rfl, rfl⟩
    · exact .inl ⟨now, p, rfl, hfires, hid⟩
    · rw [List.mem_append, List.mem_singleton, not_or] at htaken
      exact .inr ⟨⟨before, now, init, p, rfl, hfires, hid, htaken.1⟩, Ne.symm htaken.2⟩
  · rintro (⟨now, p, rfl, hfires, hid⟩ | ⟨⟨before, now, since, p, rfl, hfires, hid, htaken⟩, hne⟩)
    · exact ⟨uses, now, [], p, rfl, hfires, hid, List.not_mem_nil⟩
    · refine ⟨before, now, since ++ [use], p, by simp, hfires, hid, ?_⟩
      rw [List.mem_append, List.mem_singleton, not_or]
      exact ⟨htaken, Ne.symm hne⟩

/-- The numbers of the timers that wait are smaller than the next one. -/
theorem id_lt_scheduled (hp : p ∈ waiting uses) : p.id < scheduled uses := by
  obtain ⟨before, delay, first, since, rfl, hid, -⟩ := hp
  rw [hid]
  unfold scheduled
  rw [List.countP_append, List.countP_cons]
  simp [TimerUse.isSchedule]

/-- The timers that wait have different numbers. -/
theorem eq_of_id_eq {p' : Waiting τ ω} (hp : p ∈ waiting uses) (hp' : p' ∈ waiting uses)
    (hid : p.id = p'.id) : p = p' := by
  induction uses using List.reverseRecOn generalizing p p' with
  | nil => exact absurd hp (by simp [waiting_nil])
  | append_singleton uses use ih =>
    rcases mem_waiting_concat.1 hp with ⟨_, _, huse, rfl⟩ | ⟨old, hold, -, -, rfl⟩
    · rcases mem_waiting_concat.1 hp' with ⟨_, _, huse', rfl⟩ | ⟨old', hold', -, -, rfl⟩
      · obtain ⟨rfl, rfl⟩ := TimerUse.schedule.inj (huse.symm.trans huse')
        rfl
      · have hlt := id_lt_scheduled hold'
        exact absurd hid.symm (Nat.ne_of_lt hlt)
    · rcases mem_waiting_concat.1 hp' with ⟨_, _, huse', rfl⟩ | ⟨old', hold', -, -, rfl⟩
      · have hlt := id_lt_scheduled hold
        exact absurd hid (Nat.ne_of_lt hlt)
      · obtain rfl := ih hold hold' hid
        rfl

/-- A timer that does not wait, although its number has been given, never does again. -/
theorem ne_of_mem_waiting_append (hlt : id < scheduled uses) (hnone : ∀ p ∈ waiting uses, p.id ≠ id)
    (since : List (TimerUse τ ω)) : ∀ p ∈ waiting (uses ++ since), p.id ≠ id := by
  induction since using List.reverseRecOn with
  | nil => rwa [List.append_nil]
  | append_singleton since use ih =>
    intro p hp
    rw [← List.append_assoc] at hp
    rcases mem_waiting_concat.1 hp with ⟨delay, first, -, rfl⟩ | ⟨old, hold, -, -, rfl⟩
    · refine Nat.ne_of_gt (Nat.lt_of_lt_of_le hlt ?_)
      unfold scheduled
      rw [List.countP_append]
      exact Nat.le_add_right _ _
    · exact ih old hold

/-! ### The queue along a history -/

/-- A queue holds the timers that wait after a history and those that have fired unobserved. -/
structure Tracks (uses : List (TimerUse τ ω)) (q : TimerQueue τ ω) : Prop where
  coherent : q.Coherent
  now : q.now = timeAfter uses
  nextId : q.nextId = scheduled uses
  waiting : ∀ p, p ∈ waiting uses ↔ ∃ t ∈ q.timers, t.state = .pending ∧ t.waiting = p
  fired : ∀ id, Unobserved uses id ↔ ∃ t ∈ q.timers, t.state = .fired ∧ t.id = id

variable {q : TimerQueue τ ω}

/-- An empty queue has nothing behind it. -/
theorem tracks_empty : Tracks [] (empty : TimerQueue τ ω) where
  coherent := coherent_empty
  now := rfl
  nextId := rfl
  waiting p := by simp [waiting_nil, empty]
  fired id := by
    refine ⟨fun h => ?_, fun h => ?_⟩
    · obtain ⟨before, now, since, p, huses, -⟩ := h
      exact absurd huses (by simp)
    · obtain ⟨t, ht, -⟩ := h
      exact absurd ht List.not_mem_nil

/-- A new timer waits from then on. -/
theorem Tracks.schedule (h : Tracks uses q) (delay : τ) (waker : Option ω) :
    Tracks (uses ++ [.schedule delay waker]) (q.schedule delay waker).2 where
  coherent := h.coherent.schedule delay waker
  now := by
    rw [timeAfter_concat]
    exact h.now
  nextId := by
    rw [scheduled_concat, ← h.nextId]
    rfl
  waiting p := by
    rw [mem_waiting_concat, timers_schedule, ← h.now, ← h.nextId]
    constructor
    · rintro (⟨delay', first, huse, rfl⟩ | ⟨old, hold, -, -, rfl⟩)
      · obtain ⟨rfl, rfl⟩ := TimerUse.schedule.inj huse
        exact ⟨_, List.mem_append_right _ List.mem_cons_self, rfl, rfl⟩
      · obtain ⟨t, ht, hstate, rfl⟩ := (h.waiting old).1 hold
        exact ⟨t, List.mem_append_left _ ht, hstate, rfl⟩
    · rintro ⟨t, ht, hstate, rfl⟩
      rcases List.mem_append.1 ht with hold | hlast
      · exact .inr ⟨t.waiting, (h.waiting _).2 ⟨t, hold, hstate, rfl⟩, by simp, by simp, rfl⟩
      · rw [List.mem_singleton.1 hlast]
        exact .inl ⟨delay, waker, rfl, rfl⟩
  fired id := by
    rw [unobserved_concat, h.fired, timers_schedule]
    simp

/-- The timers that wait after a use that schedules none and changes every timer as it says. -/
theorem Tracks.waiting_map (h : Tracks uses q) {f : Timer τ ω → Timer τ ω}
    (hschedule : use.isSchedule = false)
    (hstill : ∀ t ∈ q.timers, (f t).state = .pending ↔ t.state = .pending ∧ use ≠ .cancel t.id ∧
      ∀ now, use = .tick now → timeAfter (uses ++ [.tick now]) < t.deadline)
    (hsame : ∀ t ∈ q.timers, (f t).state = .pending →
      (f t).waiting = { t.waiting with waker := use.waker t.id t.waker }) (p : Waiting τ ω) :
    p ∈ TimerQueue.waiting (uses ++ [use]) ↔
      ∃ t ∈ q.timers.map f, t.state = .pending ∧ t.waiting = p := by
  rw [mem_waiting_concat]
  constructor
  · rintro (⟨delay, first, rfl, -⟩ | ⟨old, hold, hcancel, htick, rfl⟩)
    · exact absurd hschedule (by simp [TimerUse.isSchedule])
    · obtain ⟨t, ht, hstate, rfl⟩ := (h.waiting old).1 hold
      have hpending := (hstill t ht).2 ⟨hstate, hcancel, htick⟩
      exact ⟨f t, List.mem_map_of_mem ht, hpending, hsame t ht hpending⟩
  · rintro ⟨_, hmem, hpending, rfl⟩
    obtain ⟨t, ht, rfl⟩ := List.mem_map.1 hmem
    obtain ⟨hstate, hcancel, htick⟩ := (hstill t ht).1 hpending
    exact .inr ⟨t.waiting, (h.waiting _).2 ⟨t, ht, hstate, rfl⟩, hcancel, htick,
      hsame t ht hpending⟩

/-- The timers that have fired unobserved after a use that asks for none and fires those that are
due. -/
theorem Tracks.fired_map (h : Tracks uses q) {f : Timer τ ω → Timer τ ω}
    (htaken : ∀ id, use ≠ .takeFired id) (hid : ∀ t, (f t).id = t.id)
    (hfired : ∀ t ∈ q.timers, (f t).state = .fired ↔ t.state = .fired ∨
      (t.state = .pending ∧ ∃ now, use = .tick now ∧
        t.deadline ≤ timeAfter (uses ++ [.tick now]))) (id : Nat) :
    Unobserved (uses ++ [use]) id ↔ ∃ t ∈ q.timers.map f, t.state = .fired ∧ t.id = id := by
  rw [unobserved_concat, h.fired]
  constructor
  · rintro (⟨now, p, huse, ⟨hp, hle⟩, rfl⟩ | ⟨⟨t, ht, hstate, rfl⟩, -⟩)
    · obtain ⟨t, ht, hstate, rfl⟩ := (h.waiting p).1 hp
      exact ⟨f t, List.mem_map_of_mem ht, (hfired t ht).2 (.inr ⟨hstate, now, huse, hle⟩), hid t⟩
    · exact ⟨f t, List.mem_map_of_mem ht, (hfired t ht).2 (.inl hstate), hid t⟩
  · rintro ⟨_, hmem, hstate, rfl⟩
    obtain ⟨t, ht, rfl⟩ := List.mem_map.1 hmem
    rw [hid]
    rcases (hfired t ht).1 hstate with hwas | ⟨hpending, now, huse, hle⟩
    · exact .inr ⟨⟨t, ht, hwas, rfl⟩, htaken t.id⟩
    · exact .inl ⟨now, t.waiting, huse, ⟨(h.waiting _).2 ⟨t, ht, hpending, rfl⟩, hle⟩, rfl⟩

/-- Another waker replaces the one before, for who still waits. -/
theorem Tracks.setWaker (h : Tracks uses q) (id : Nat) (waker : ω) :
    Tracks (uses ++ [.setWaker id waker]) (q.setWaker id waker) := by
  have hstate : ∀ t : Timer τ ω, (if t.id = id then t.rewake waker else t).state = t.state := by
    intro t
    rw [apply_ite Timer.state, Timer.state_rewake, ite_self]
  rw [setWaker_eq]
  refine ⟨h.coherent.modify id (Timer.continues_rewake waker), ?_, ?_,
    h.waiting_map rfl (fun t _ => ?_) fun t _ hpending => ?_,
    h.fired_map (by simp) (fun t => ?_) fun t _ => ?_⟩
  · rw [timeAfter_concat]
    exact h.now
  · rw [scheduled_concat]
    exact h.nextId
  · rw [hstate]
    simp
  · rw [hstate] at hpending
    show _ = (⟨t.id, t.deadline, if id = t.id then some waker else t.waker⟩ : Waiting τ ω)
    by_cases hid : t.id = id
    · rw [if_pos hid, if_pos hid.symm, Timer.rewake_of_pending hpending]
      rfl
    · rw [if_neg hid, if_neg (Ne.symm hid)]
      rfl
  · rw [apply_ite Timer.id, (Timer.continues_rewake waker t).id, ite_self]
  · rw [hstate]
    simp

/-- Who is called off does not wait any more. -/
theorem Tracks.cancel (h : Tracks uses q) (id : Nat) :
    Tracks (uses ++ [.cancel id]) (q.cancel id).2 := by
  rw [h.coherent.cancel_eq]
  refine ⟨h.coherent.modify id Timer.continues_callOff, ?_, ?_,
    h.waiting_map rfl (fun t _ => ?_) fun t _ hpending => ?_,
    h.fired_map (by simp) (fun t => ?_) fun t _ => ?_⟩
  · rw [timeAfter_concat]
    exact h.now
  · rw [scheduled_concat]
    exact h.nextId
  · by_cases hid : t.id = id
    · simp [hid, t.state_callOff_ne_pending]
    · simp [hid, Ne.symm hid]
  · by_cases hid : t.id = id
    · rw [if_pos hid] at hpending
      exact absurd hpending t.state_callOff_ne_pending
    · rw [if_neg hid]
      rfl
  · rw [apply_ite Timer.id, (Timer.continues_callOff t).id, ite_self]
  · by_cases hid : t.id = id
    · simp [hid, t.state_callOff_eq_fired_iff]
    · simp [hid]

/-- Those that are due do not wait any more. -/
theorem Tracks.tick (h : Tracks uses q) (now : τ) :
    Tracks (uses ++ [.tick now]) (q.tick now).2 := by
  obtain ⟨hcoherent, hnow, hnextId, htimers, -⟩ := h.coherent.tick now
  have htime : max q.now now = timeAfter (uses ++ [.tick now]) := by
    rw [timeAfter_tick, h.now]
  rw [htime] at hnow htimers
  have hmem : ∀ {s : TimerState}, s ≠ .cancelled → ∀ {P : Timer τ ω → Prop},
      (∃ t ∈ (q.tick now).2.timers, t.state = s ∧ P t) ↔
        ∃ t ∈ q.timers.map (Timer.expire (timeAfter (uses ++ [.tick now]))), t.state = s ∧ P t := by
    intro s hs P
    rw [htimers]
    constructor
    · rintro ⟨t, ht, hboth⟩
      exact ⟨t, (List.mem_filter.1 ht).1, hboth⟩
    · rintro ⟨t, ht, hstate, hp⟩
      exact ⟨t, List.mem_filter.2 ⟨ht, decide_eq_true (hstate ▸ hs)⟩, hstate, hp⟩
  refine ⟨hcoherent, hnow, ?_, fun p => ?_, fun id => ?_⟩
  · rw [scheduled_concat, hnextId]
    exact h.nextId
  · rw [hmem (by simp)]
    refine h.waiting_map rfl (fun t _ => ?_) (fun t _ hpending => ?_) p
    · rw [Timer.state_expire_eq_pending_iff]
      simp
    · rw [Timer.expire_of_lt (Timer.state_expire_eq_pending_iff.1 hpending).2]
      rfl
  · rw [hmem (by simp)]
    refine h.fired_map (by simp) (fun t => (Timer.continues_expire _ t).id) (fun t _ => ?_) id
    rw [Timer.state_expire_eq_fired_iff]
    simp

/-- Taking a firing changes nobody who waits. -/
theorem Tracks.takeFired (h : Tracks uses q) (id : Nat) :
    Tracks (uses ++ [.takeFired id]) (q.takeFired id).2 := by
  have hcoherent := h.coherent.takeFired id
  rw [h.coherent.takeFired_eq] at hcoherent ⊢
  refine ⟨hcoherent, ?_, ?_, fun p => ?_, fun other => ?_⟩
  · rw [timeAfter_concat]
    exact h.now
  · rw [scheduled_concat]
    exact h.nextId
  · rw [h.waiting_map (f := fun t => t) rfl (by simp) (fun _ _ _ => rfl), List.map_id']
    constructor
    · rintro ⟨t, ht, hstate, hp⟩
      exact ⟨t, List.mem_filter.2 ⟨ht, by simp [hstate]⟩, hstate, hp⟩
    · rintro ⟨t, ht, hboth⟩
      exact ⟨t, (List.mem_filter.1 ht).1, hboth⟩
  · rw [unobserved_concat, h.fired]
    constructor
    · rintro (⟨now, p, huse, -⟩ | ⟨⟨t, ht, hstate, rfl⟩, hne⟩)
      · exact absurd huse (by simp)
      · refine ⟨t, List.mem_filter.2 ⟨ht, decide_eq_true fun hboth => hne ?_⟩, hstate, rfl⟩
        rw [hboth.1]
    · rintro ⟨t, ht, hstate, rfl⟩
      obtain ⟨ht, hkept⟩ := List.mem_filter.1 ht
      refine .inr ⟨⟨t, ht, hstate, rfl⟩, fun huse => of_decide_eq_true hkept ⟨?_, hstate⟩⟩
      exact (TimerUse.takeFired.inj huse).symm

/-- What every use keeps. -/
theorem Tracks.apply (h : Tracks uses q) (use : TimerUse τ ω) :
    Tracks (uses ++ [use]) (q.apply use) := by
  cases use with
  | schedule delay waker => exact h.schedule delay waker
  | setWaker id waker => exact h.setWaker id waker
  | cancel id => exact h.cancel id
  | tick now => exact h.tick now
  | takeFired id => exact h.takeFired id

/-- What any history keeps. -/
theorem tracks_after (uses : List (TimerUse τ ω)) : Tracks uses (after uses) := by
  induction uses using List.reverseRecOn with
  | nil => exact tracks_empty
  | append_singleton uses use ih =>
    have hafter : after (uses ++ [use]) = (after uses).apply use := by
      unfold after
      rw [List.foldl_append]
      rfl
    rw [hafter]
    exact ih.apply use

/-! ### What the queue answers -/

/-- A number waits just when its timer is pending. -/
theorem Tracks.exists_waiting_iff (h : Tracks uses q) (id : Nat) :
    (∃ p ∈ TimerQueue.waiting uses, p.id = id) ↔
      ∃ t ∈ q.timers, t.id = id ∧ t.state = .pending := by
  constructor
  · rintro ⟨p, hp, rfl⟩
    obtain ⟨t, ht, hstate, rfl⟩ := (h.waiting p).1 hp
    exact ⟨t, ht, rfl, hstate⟩
  · rintro ⟨t, ht, rfl, hstate⟩
    exact ⟨t.waiting, (h.waiting _).2 ⟨t, ht, hstate, rfl⟩, rfl⟩

/-- A tick fires the timers that the history says. -/
theorem Tracks.exists_fired (h : Tracks uses q) (now : τ) :
    ∃ fired : List (Waiting τ ω), fired.Nodup ∧ (∀ p, p ∈ fired ↔ FiresAt uses now p) ∧
      fired.Pairwise (fun p p' => p.deadline ≤ p'.deadline) ∧
      (q.tick now).1 = fired.filterMap Waiting.waker := by
  obtain ⟨-, -, -, -, fired, hmem, hnodup, hsorted, hwakers⟩ := h.coherent.tick now
  refine ⟨fired.map Timer.waiting, ?_, fun p => ?_, List.pairwise_map.2 hsorted, ?_⟩
  · refine (List.nodup_map_iff_inj_on hnodup).2 fun t ht t' ht' heq => ?_
    exact h.coherent.eq_of_id_eq ((hmem t).1 ht).1 ((hmem t').1 ht').1 (congrArg Waiting.id heq)
  · unfold FiresAt
    rw [List.mem_map, timeAfter_tick, h.waiting, ← h.now]
    constructor
    · rintro ⟨t, ht, rfl⟩
      obtain ⟨ht, hstate, hle⟩ := (hmem t).1 ht
      exact ⟨⟨t, ht, hstate, rfl⟩, hle⟩
    · rintro ⟨⟨t, ht, hstate, rfl⟩, hle⟩
      exact ⟨t, (hmem t).2 ⟨ht, hstate, hle⟩, rfl⟩
  · rw [hwakers, List.filterMap_map]
    rfl

/-- The timers that wait are those that are counted. -/
theorem Tracks.ncard_waiting (h : Tracks uses q) :
    q.pendingCount = (TimerQueue.waiting uses).ncard := by
  classical
  have hnodup : (q.pending.map Timer.waiting).Nodup := by
    refine List.Nodup.of_map Waiting.id ?_
    rw [List.map_map]
    exact h.coherent.nodup.sublist (List.filter_sublist.map _)
  have hset : TimerQueue.waiting uses = ((q.pending.map Timer.waiting).toFinset : Set _) := by
    ext p
    rw [h.waiting, List.coe_toFinset, Set.mem_ofPred_eq, List.mem_map]
    simp only [mem_pending, and_assoc]
  rw [hset, Set.ncard_coe_finset, List.toFinset_card_of_nodup hnodup, List.length_map]
  rfl

/-- The deadlines that are waited for. -/
theorem Tracks.mem_image_deadline (h : Tracks uses q) (d : τ) :
    d ∈ Waiting.deadline '' TimerQueue.waiting uses ↔
      ∃ t ∈ q.timers, t.state = .pending ∧ t.deadline = d := by
  constructor
  · rintro ⟨p, hp, rfl⟩
    obtain ⟨t, ht, hstate, rfl⟩ := (h.waiting p).1 hp
    exact ⟨t, ht, hstate, rfl⟩
  · rintro ⟨t, ht, hstate, rfl⟩
    exact ⟨t.waiting, (h.waiting _).2 ⟨t, ht, hstate, rfl⟩, rfl⟩

/-- After any history the queue answers as the history says. -/
theorem answers_after (uses : List (TimerUse τ ω)) : Answers uses (after uses) := by
  have h := tracks_after uses
  refine ⟨⟨h.now, isGreatest_timeAfter uses⟩, fun _ _ => h.nextId, h.exists_fired, ?_, fun id => ?_,
    fun id => ?_, fun id => ?_, h.ncard_waiting, fun d => ?_, ?_⟩
  case refine_1 =>
    intro now p hfires since
    rw [List.append_cons]
    refine ne_of_mem_waiting_append ?_ (fun other hother heq => ?_) since
    · rw [scheduled_concat]
      exact id_lt_scheduled hfires.1
    · rcases mem_waiting_concat.1 hother with ⟨_, _, huse, -⟩ | ⟨old, hold, -, htick, rfl⟩
      · exact absurd huse (by simp)
      · obtain rfl := eq_of_id_eq hold hfires.1 heq
        exact absurd (htick now rfl) (not_lt.2 hfires.2)
  case refine_2 => rw [h.coherent.cancel_eq, h.exists_waiting_iff, h.coherent.isPending_iff]
  case refine_3 =>
    rw [h.coherent.takeFired_iff, h.fired]
    simp only [and_comm]
  case refine_4 => rw [h.exists_waiting_iff, h.coherent.isPending_iff]
  case refine_5 =>
    rw [nextDeadline_eq_some_iff, IsLeast, mem_lowerBounds, h.mem_image_deadline]
    simp only [h.mem_image_deadline]
    refine and_congr_right fun _ => ⟨?_, fun hle t ht hstate => hle _ ⟨t, ht, hstate, rfl⟩⟩
    rintro hle _ ⟨t, ht, hstate, rfl⟩
    exact hle t ht hstate
  case refine_6 =>
    rw [nextDeadline_eq_none_iff, Set.eq_empty_iff_forall_notMem]
    simp only [h.waiting, not_exists, not_and]
    exact ⟨fun hnone p t ht hstate _ => hnone t ht hstate,
      fun hnone t ht hstate => hnone t.waiting t ht hstate rfl⟩

end TimerQueue

end MountShell
