import MountShell.Proofs.Timer.History

/-!
# Sleeps that share a queue

Any number of waits for a delay (`Sleep`) are made with one queue of timers.  They are polled by
whomever likes, given up at any time, and time goes by in between (`SleepUse`).  Nobody polls a wait
that has told that it is over, and nobody has a wait that has been given up (`Legal`).

What can be seen of a wait is told by the history.  Its first poll sets its deadline (`Starts`); it
is over once a tick since then has reached that (`Due`); and what is to be woken is whoever polled
last (`LastPoll`).  A wait is live from its first poll until it tells that it is over or is given up
(`Live`).  The queue has a timer for each live wait and no other timers (`Kept`), whichever way a
wait ends: seen, given up before its deadline, or given up after it and not seen.

Main statements: `Kept.begin`, `Kept.observe`, `Kept.renew`, `Kept.drop` and `Kept.tick`, what each
use leaves of this, and `kept_after`, that it holds after any legal history.
-/

namespace MountShell

/-- Something that is done with sleeps that share a queue. -/
inductive SleepUse (ι τ ω : Type) where
  | poll (i : ι) (waker : ω)
  | drop (i : ι)
  | tick (now : τ)
  deriving DecidableEq

/-- Sleeps that share a queue. -/
structure Sleeps (ι τ ω : Type) where
  queue : TimerQueue τ ω
  sleep : ι → Sleep τ
  /-- The sleeps that have told that they are over. -/
  returned : List ι

namespace Sleeps

section Polls

variable {ι τ ω : Type} {uses : List (SleepUse ι τ ω)} {use : SleepUse ι τ ω} {i : ι}

/-- A sleep has been polled. -/
def Polled (uses : List (SleepUse ι τ ω)) (i : ι) : Prop :=
  ∃ waker, .poll i waker ∈ uses

/-- The most recent poll of a sleep is on behalf of a waker. -/
def LastPoll (uses : List (SleepUse ι τ ω)) (i : ι) (waker : ω) : Prop :=
  ∃ before since, uses = before ++ .poll i waker :: since ∧ ¬ Polled since i

/-- A poll of one sleep is none of another. -/
theorem not_poll {j : ι} (hne : j ≠ i) {waker : ω} (other : ω) :
    SleepUse.poll i waker ≠ (.poll j other : SleepUse ι τ ω) :=
  fun heq => hne (SleepUse.poll.inj heq).1.symm

/-- A sleep has been polled if it was before, or is now. -/
theorem polled_concat :
    Polled (uses ++ [use]) i ↔ Polled uses i ∨ ∃ waker, use = .poll i waker := by
  unfold Polled
  simp only [List.mem_append, List.mem_singleton, exists_or, eq_comm]

/-- The last poll is the one now, or the last before as long as there is none now. -/
theorem lastPoll_concat {waker : ω} : LastPoll (uses ++ [use]) i waker ↔
    use = .poll i waker ∨ (LastPoll uses i waker ∧ ∀ other, use ≠ .poll i other) := by
  constructor
  · rintro ⟨before, since, huses, hlast⟩
    rcases TimerQueue.concat_eq_append_cons_iff.1 huses with ⟨rfl, rfl, rfl⟩ | ⟨init, rfl, rfl⟩
    · exact .inl rfl
    · rw [polled_concat, not_or, not_exists] at hlast
      exact .inr ⟨⟨before, init, rfl, hlast.1⟩, hlast.2⟩
  · rintro (rfl | ⟨⟨before, since, rfl, hlast⟩, hnot⟩)
    · exact ⟨uses, [], rfl, fun ⟨_, hmem⟩ => absurd hmem List.not_mem_nil⟩
    · refine ⟨before, since ++ [use], by simp, ?_⟩
      rw [polled_concat, not_or, not_exists]
      exact ⟨hlast, hnot⟩

end Polls

variable {ι τ ω : Type} [DecidableEq ι] [Zero τ] [Add τ] [LinearOrder τ]

/-- Sleeps for the given delays that nobody has polled yet. -/
def start (delay : ι → τ) : Sleeps ι τ ω where
  queue := .empty
  sleep i := { delay := delay i }
  returned := []

/-- Does a sleep tell that it is over when it is polled on behalf of a waker? -/
def answer (s : Sleeps ι τ ω) (i : ι) (waker : ω) : Bool :=
  ((s.sleep i).poll s.queue waker).1

/-- What a use makes of the sleeps. -/
def apply (s : Sleeps ι τ ω) : SleepUse ι τ ω → Sleeps ι τ ω
  | .poll i waker =>
    { queue := ((s.sleep i).poll s.queue waker).2.2
      sleep := Function.update s.sleep i ((s.sleep i).poll s.queue waker).2.1
      returned := if s.answer i waker then s.returned ++ [i] else s.returned }
  | .drop i =>
    { queue := (s.sleep i).drop s.queue
      sleep := Function.update s.sleep i { s.sleep i with timer := none }
      returned := s.returned }
  | .tick now => { s with queue := (s.queue.tick now).2 }

variable (delay : ι → τ)

/-- The sleeps after a history. -/
def after (uses : List (SleepUse ι τ ω)) : Sleeps ι τ ω :=
  uses.foldl apply (start delay)

/-- A sleep is polled only if it has not told that it is over, and after it has been given up
nothing is done with it. -/
def Allowed (uses : List (SleepUse ι τ ω)) : SleepUse ι τ ω → Prop
  | .poll i _ => i ∉ (after delay uses).returned ∧ .drop i ∉ uses
  | .drop i => .drop i ∉ uses
  | .tick _ => True

instance [DecidableEq ω] (uses : List (SleepUse ι τ ω)) (use : SleepUse ι τ ω) :
    Decidable (Allowed delay uses use) :=
  match use with
  | .poll i _ => inferInstanceAs (Decidable (i ∉ (after delay uses).returned ∧ .drop i ∉ uses))
  | .drop i => inferInstanceAs (Decidable (.drop i ∉ uses))
  | .tick _ => inferInstanceAs (Decidable True)

/-- A history in which every use is allowed by those before it. -/
def Legal (uses : List (SleepUse ι τ ω)) : Prop :=
  ∀ (n : Nat) (h : n < uses.length), Allowed delay (uses.take n) uses[n]

instance [DecidableEq ω] (uses : List (SleepUse ι τ ω)) : Decidable (Legal delay uses) :=
  inferInstanceAs (Decidable (∀ (n : Nat) (h : n < uses.length),
    Allowed delay (uses.take n) uses[n]))

/-! ### What a history says -/

/-- The first poll of a sleep sets its deadline: its delay from the time of the queue, and nothing
for a delay below zero. -/
def Starts (uses : List (SleepUse ι τ ω)) (i : ι) (deadline : τ) : Prop :=
  ∃ before waker since, uses = before ++ .poll i waker :: since ∧ ¬ Polled before i ∧
    deadline = (after delay before).queue.now + max (delay i) 0

/-- Since the first poll of a sleep a tick has left the queue at its deadline or beyond. -/
def Due (uses : List (SleepUse ι τ ω)) (i : ι) : Prop :=
  ∃ before now since deadline, uses = before ++ .tick now :: since ∧
    Starts delay before i deadline ∧ deadline ≤ (after delay (before ++ [.tick now])).queue.now

/-- A sleep has been polled, and has neither told that it is over nor been given up. -/
def Live (uses : List (SleepUse ι τ ω)) (i : ι) : Prop :=
  Polled uses i ∧ i ∉ (after delay uses).returned ∧ .drop i ∉ uses

/-! ### Histories that go on -/

variable {delay} {uses : List (SleepUse ι τ ω)} {use : SleepUse ι τ ω} {i j : ι}

/-- One more use. -/
theorem after_concat (uses : List (SleepUse ι τ ω)) (use : SleepUse ι τ ω) :
    after delay (uses ++ [use]) = (after delay uses).apply use := by
  unfold after
  rw [List.foldl_append]
  rfl

/-- Uses are legal one by one. -/
theorem legal_concat : Legal delay (uses ++ [use]) ↔
    Legal delay uses ∧ Allowed delay uses use := by
  have hlast : (uses ++ [use])[uses.length]? = some use := by simp
  constructor
  · intro h
    refine ⟨fun n hn => ?_, ?_⟩
    · have hallowed := h n (by simp; omega)
      rwa [List.take_append_of_le_length hn.le, List.getElem_append_left hn] at hallowed
    · have hallowed := h uses.length (by simp)
      rwa [List.take_left, List.getElem_concat_length rfl] at hallowed
  · rintro ⟨h, hallowed⟩ n hn
    rcases Nat.lt_or_ge n uses.length with hlt | hge
    · rw [List.take_append_of_le_length hlt.le, List.getElem_append_left hlt]
      exact h n hlt
    · obtain rfl : n = uses.length := by
        rw [List.length_append, List.length_singleton] at hn
        omega
      rwa [List.take_left, List.getElem_concat_length rfl]

/-- A sleep has returned if it had before, or its poll now says so. -/
theorem returned_concat : i ∈ (after delay (uses ++ [use])).returned ↔
    i ∈ (after delay uses).returned ∨
      ∃ waker, use = .poll i waker ∧ (after delay uses).answer i waker = true := by
  rw [after_concat]
  cases use with
  | poll j waker =>
    simp only [apply, SleepUse.poll.injEq]
    by_cases hanswer : (after delay uses).answer j waker = true
    · rw [if_pos hanswer, List.mem_append, List.mem_singleton]
      refine or_congr_right ⟨?_, ?_⟩
      · rintro rfl
        exact ⟨waker, ⟨rfl, rfl⟩, hanswer⟩
      · rintro ⟨_, ⟨rfl, -⟩, -⟩
        rfl
    · rw [if_neg hanswer]
      refine (or_iff_left ?_).symm
      rintro ⟨_, ⟨rfl, rfl⟩, hyes⟩
      exact hanswer hyes
  | drop j => simp [apply]
  | tick now => simp [apply]

/-- A sleep starts at its first poll, for the time of the queue and its delay. -/
theorem starts_concat {d : τ} : Starts delay (uses ++ [use]) i d ↔
    Starts delay uses i d ∨ ((∃ waker, use = .poll i waker) ∧ ¬ Polled uses i ∧
      d = (after delay uses).queue.now + max (delay i) 0) := by
  constructor
  · rintro ⟨before, waker, since, huses, hfirst, hd⟩
    rcases TimerQueue.concat_eq_append_cons_iff.1 huses with ⟨rfl, rfl, rfl⟩ | ⟨init, rfl, rfl⟩
    · exact .inr ⟨⟨waker, rfl⟩, hfirst, hd⟩
    · exact .inl ⟨before, waker, init, rfl, hfirst, hd⟩
  · rintro (⟨before, waker, since, rfl, hfirst, hd⟩ | ⟨⟨waker, rfl⟩, hfirst, hd⟩)
    · exact ⟨before, waker, since ++ [use], by simp, hfirst, hd⟩
    · exact ⟨uses, waker, [], rfl, hfirst, hd⟩

/-- A sleep becomes due by a tick that brings the queue to its deadline. -/
theorem due_concat : Due delay (uses ++ [use]) i ↔
    Due delay uses i ∨ ∃ now d, use = .tick now ∧ Starts delay uses i d ∧
      d ≤ (after delay (uses ++ [use])).queue.now := by
  constructor
  · rintro ⟨before, now, since, d, huses, hstarts, hd⟩
    rcases TimerQueue.concat_eq_append_cons_iff.1 huses with ⟨rfl, rfl, rfl⟩ | ⟨init, rfl, rfl⟩
    · exact .inr ⟨now, d, rfl, hstarts, hd⟩
    · exact .inl ⟨before, now, init, d, rfl, hstarts, hd⟩
  · rintro (⟨before, now, since, d, rfl, hstarts, hd⟩ | ⟨now, d, rfl, hstarts, hd⟩)
    · exact ⟨before, now, since ++ [use], d, by simp, hstarts, hd⟩
    · exact ⟨uses, now, [], d, rfl, hstarts, hd⟩

/-- Only a poll starts a sleep. -/
theorem Starts.polled {d : τ} (h : Starts delay uses i d) : Polled uses i := by
  obtain ⟨before, waker, since, rfl, -⟩ := h
  exact ⟨waker, List.mem_append_right _ List.mem_cons_self⟩

/-- Only a sleep that has been polled can be due. -/
theorem Due.polled (h : Due delay uses i) : Polled uses i := by
  obtain ⟨before, now, since, d, rfl, hstarts, -⟩ := h
  obtain ⟨waker, hmem⟩ := hstarts.polled
  exact ⟨waker, List.mem_append_left _ hmem⟩

/-- The deadline is set once. -/
theorem Starts.unique {d d' : τ} (h : Starts delay uses i d) (h' : Starts delay uses i d') :
    d = d' := by
  induction uses using List.reverseRecOn with
  | nil =>
    obtain ⟨before, waker, since, huses, -⟩ := h
    exact absurd huses (by simp)
  | append_singleton uses use ih =>
    rcases starts_concat.1 h with h | ⟨-, hfirst, hd⟩
    · rcases starts_concat.1 h' with h' | ⟨-, hfirst, -⟩
      · exact ih h h'
      · exact absurd h.polled hfirst
    · rcases starts_concat.1 h' with h' | ⟨-, -, hd'⟩
      · exact absurd h'.polled hfirst
      · exact hd.trans hd'.symm

/-- What is not about a sleep does not end it and does not make it live. -/
theorem live_concat (hpoll : ∀ waker, use ≠ .poll i waker) (hdrop : use ≠ .drop i) :
    Live delay (uses ++ [use]) i ↔ Live delay uses i := by
  have hreturned : i ∈ (after delay (uses ++ [use])).returned ↔ i ∈ (after delay uses).returned :=
    returned_concat.trans (or_iff_left fun ⟨waker, huse, _⟩ => hpoll waker huse)
  unfold Live
  rw [polled_concat, or_iff_left (not_exists.2 hpoll), hreturned, List.mem_append,
    List.mem_singleton, or_iff_left (Ne.symm hdrop)]

end Sleeps

/-! ### What a poll and a drop do to the queue -/

/-- Asking for a timer that is not pending leaves the others. -/
theorem TimerQueue.Coherent.mem_takeFired {τ ω : Type} [LinearOrder τ] {q : TimerQueue τ ω}
    (hq : q.Coherent) {id : Nat} (hnot : ∀ t ∈ q.timers, t.id = id → t.state ≠ .pending)
    {t : Timer τ ω} (hstate : t.state ≠ .cancelled) :
    t ∈ (q.takeFired id).2.timers ↔ t ∈ q.timers ∧ some id ≠ some t.id := by
  rw [hq.takeFired_eq]
  simp only [List.mem_filter, ne_eq, Option.some.injEq, decide_eq_true_eq]
  refine and_congr_right fun hold => not_congr ⟨fun hboth => hboth.1.symm, fun heq => ?_⟩
  refine ⟨heq.symm, ?_⟩
  cases htimer : t.state with
  | pending => exact absurd htimer (hnot t hold heq.symm)
  | fired => rfl
  | cancelled => exact absurd htimer hstate

namespace Sleep

variable {τ ω : Type} [Zero τ] [Add τ] [LinearOrder τ] {s : Sleep τ} {q : TimerQueue τ ω}

/-- The first poll of a sleep schedules its timer. -/
theorem poll_of_none (h : s.timer = none) (waker : ω) :
    s.poll q waker =
      (false, { s with timer := some q.nextId }, (q.schedule s.delay (some waker)).2) := by
  unfold poll
  rw [h]
  rfl

/-- A later poll takes the firing of the timer, or leaves another waker there. -/
theorem poll_of_some {id : Nat} (h : s.timer = some id) (waker : ω) :
    s.poll q waker =
      if (q.takeFired id).1 then (true, { delay := 0 }, (q.takeFired id).2)
      else (false, s, q.setWaker id waker) := by
  have hsame : (q.takeFired id).1 = false → (q.takeFired id).2 = q := q.takeFired_of_false
  unfold poll
  rw [h]
  simp only
  rcases hfired : q.takeFired id with ⟨_ | _, after⟩
  · obtain rfl : after = q := by simpa [hfired] using hsame
    rfl
  · rfl

omit [Zero τ] [Add τ] in
/-- Giving a sleep up takes its timer away, whether it is pending or has fired. -/
theorem drop_spec (hq : q.Coherent) (s : Sleep τ) :
    (s.drop q).Coherent ∧ (s.drop q).now = q.now ∧
      ∀ t : Timer τ ω, t.state ≠ .cancelled →
        (t ∈ (s.drop q).timers ↔ t ∈ q.timers ∧ s.timer ≠ some t.id) := by
  unfold drop
  cases htimer : s.timer with
  | none => exact ⟨hq, rfl, fun t _ => by simp⟩
  | some id =>
    simp only [hq.cancel_eq]
    -- A timer that was called off is cancelled, so the others are those of before.
    have hcalled : ∀ t : Timer τ ω, t.state ≠ .cancelled → t ∈ (q.modify id Timer.callOff).timers →
        t ∈ q.timers ∧ (t.id = id → t.state ≠ .pending) := by
      intro t hstate ht
      obtain ⟨old, hold, rfl⟩ := List.mem_map.1 ht
      by_cases hid : old.id = id
      · rw [if_pos hid] at hstate ⊢
        by_cases hpending : old.state = .pending
        · rw [Timer.callOff_of_pending hpending] at hstate
          exact absurd rfl hstate
        · rw [Timer.callOff_of_ne hpending]
          exact ⟨hold, fun _ => hpending⟩
      · rw [if_neg hid]
        exact ⟨hold, fun h => absurd h hid⟩
    cases hpending : q.isPending id with
    | true =>
      obtain ⟨own, hown, hid, hstate⟩ := hq.isPending_iff.1 hpending
      refine ⟨hq.modify id Timer.continues_callOff, rfl, fun t ht => ?_⟩
      simp only [ne_eq, Option.some.injEq]
      constructor
      · intro hmem
        obtain ⟨hold, hnot⟩ := hcalled t ht hmem
        refine ⟨hold, fun heq => hnot heq.symm ?_⟩
        rw [hq.eq_of_id_eq hold hown (heq.symm.trans hid.symm), hstate]
      · rintro ⟨hold, hne⟩
        exact List.mem_map.2 ⟨t, hold, if_neg (Ne.symm hne)⟩
    | false =>
      have hnone : ∀ t ∈ q.timers, t.id = id → t.state ≠ .pending := fun t ht hid hstate =>
        Bool.false_ne_true (hpending.symm.trans (hq.isPending_iff.2 ⟨t, ht, hid, hstate⟩))
      simp only [TimerQueue.modify_eq_self (fun _ => Timer.callOff_of_ne) hnone]
      exact ⟨hq.takeFired id, by rw [hq.takeFired_eq], fun t ht => hq.mem_takeFired hnone ht⟩

end Sleep

namespace Sleeps

variable {ι τ ω : Type} [DecidableEq ι] [Zero τ] [Add τ] [LinearOrder τ] {delay : ι → τ}
  {uses : List (SleepUse ι τ ω)} {use : SleepUse ι τ ω} {i j : ι}

/-! ### The queue along a history -/

/-- A timer does what a sleep asks of it. -/
inductive Times (delay : ι → τ) (uses : List (SleepUse ι τ ω)) (i : ι) (t : Timer τ ω) : Prop
  | pending (starts : Starts delay uses i t.deadline) (state : t.state = .pending)
      (ahead : ¬ Due delay uses i) (waker : ∃ w, t.waker = some w ∧ LastPoll uses i w)
  | fired (starts : Starts delay uses i t.deadline) (state : t.state = .fired)
      (reached : Due delay uses i)

/-- The live sleeps have a timer each, and there are no others that are not cancelled. -/
structure Kept (delay : ι → τ) (uses : List (SleepUse ι τ ω)) : Prop where
  coherent : (after delay uses).queue.Coherent
  fresh : ∀ i, ¬ Polled uses i → ((after delay uses).sleep i).delay = delay i
  live : ∀ i, Live delay uses i ↔ ∃ id, ((after delay uses).sleep i).timer = some id
  owned : ∀ t ∈ (after delay uses).queue.timers, t.state ≠ .cancelled →
    ∃ i, ((after delay uses).sleep i).timer = some t.id
  timed : ∀ i id, ((after delay uses).sleep i).timer = some id →
    ∃ t ∈ (after delay uses).queue.timers, t.id = id ∧ Times delay uses i t
  alone : ∀ i j id, ((after delay uses).sleep i).timer = some id →
    ((after delay uses).sleep j).timer = some id → i = j

/-- The timer of a live sleep has not been called off. -/
theorem Times.state_ne {t : Timer τ ω} (h : Times delay uses i t) : t.state ≠ .cancelled := by
  cases h with
  | pending _ hstate => simp [hstate]
  | fired _ hstate => simp [hstate]

/-- It has the deadline for which the sleep has started. -/
theorem Times.starts {t : Timer τ ω} (h : Times delay uses i t) :
    Starts delay uses i t.deadline := by
  cases h with
  | pending hstarts => exact hstarts
  | fired hstarts => exact hstarts

/-- It is pending as long as the sleep is not due. -/
theorem Times.pending_iff {t : Timer τ ω} (h : Times delay uses i t) :
    t.state = .pending ↔ ¬ Due delay uses i := by
  cases h with
  | pending _ hstate hahead => exact iff_of_true hstate hahead
  | fired _ hstate hreached => exact iff_of_false (by simp [hstate]) (not_not_intro hreached)

/-- It has fired as soon as the sleep is due. -/
theorem Times.fired_iff {t : Timer τ ω} (h : Times delay uses i t) :
    t.state = .fired ↔ Due delay uses i := by
  cases h with
  | pending _ hstate hahead => exact iff_of_false (by simp [hstate]) hahead
  | fired _ hstate hreached => exact iff_of_true hstate hreached

/-- A timer does still what a sleep asks of it after what is neither a poll of the sleep nor a
tick. -/
theorem Times.concat {t : Timer τ ω} (h : Times delay uses i t)
    (hpoll : ∀ waker, use ≠ .poll i waker) (htick : ∀ now, use ≠ .tick now) :
    Times delay (uses ++ [use]) i t := by
  have hdue : Due delay (uses ++ [use]) i ↔ Due delay uses i :=
    due_concat.trans (or_iff_left fun ⟨now, _, huse, _⟩ => htick now huse)
  cases h with
  | pending hstarts hstate hahead hwaker =>
    obtain ⟨w, hw, hlast⟩ := hwaker
    exact .pending (starts_concat.2 (.inl hstarts)) hstate (fun h => hahead (hdue.1 h))
      ⟨w, hw, lastPoll_concat.2 (.inr ⟨hlast, hpoll⟩)⟩
  | fired hstarts hstate hreached =>
    exact .fired (starts_concat.2 (.inl hstarts)) hstate (hdue.2 hreached)

/-- Before any use there are no timers. -/
theorem kept_nil : Kept delay ([] : List (SleepUse ι τ ω)) where
  coherent := TimerQueue.coherent_empty
  fresh _ _ := rfl
  live i := by
    refine iff_of_false (fun h => ?_) fun ⟨id, hid⟩ => absurd hid (by simp [after, start])
    obtain ⟨waker, hmem⟩ := h.1
    exact absurd hmem List.not_mem_nil
  owned t ht := absurd ht List.not_mem_nil
  timed i id hid := absurd hid (by simp [after, start])
  alone i j id hid := absurd hid (by simp [after, start])

namespace Kept

/-- A sleep that is not live has no timer. -/
theorem timer_eq_none (h : Kept delay uses) (hnot : ¬ Live delay uses i) :
    ((after delay uses).sleep i).timer = none :=
  Option.eq_none_iff_forall_not_mem.2 fun id hid => hnot ((h.live i).2 ⟨id, hid⟩)

/-- A sleep tells that it is over just when it is live and its deadline has been reached. -/
theorem answer_iff (h : Kept delay uses) (i : ι) (waker : ω) :
    (after delay uses).answer i waker = true ↔ Live delay uses i ∧ Due delay uses i := by
  unfold answer
  cases htimer : ((after delay uses).sleep i).timer with
  | none =>
    rw [Sleep.poll_of_none htimer]
    refine iff_of_false Bool.false_ne_true fun hboth => ?_
    obtain ⟨id, hid⟩ := (h.live i).1 hboth.1
    exact absurd (htimer.symm.trans hid) (by simp)
  | some id =>
    have hanswer : (((after delay uses).sleep i).poll (after delay uses).queue waker).1 =
        ((after delay uses).queue.takeFired id).1 := by
      rw [Sleep.poll_of_some htimer]
      cases ((after delay uses).queue.takeFired id).1 <;> rfl
    obtain ⟨t, ht, hid, htimes⟩ := h.timed i id htimer
    rw [hanswer, h.coherent.takeFired_iff, and_iff_right ((h.live i).2 ⟨id, htimer⟩)]
    constructor
    · rintro ⟨other, hother, hotherid, hfired⟩
      obtain rfl := h.coherent.eq_of_id_eq hother ht (hotherid.trans hid.symm)
      exact htimes.fired_iff.1 hfired
    · intro hdue
      exact ⟨t, ht, hid, htimes.fired_iff.2 hdue⟩

/-- The timer that a live sleep has. -/
theorem exists_timer (h : Kept delay uses) (hlive : Live delay uses i) :
    ∃ t ∈ (after delay uses).queue.timers,
      ((after delay uses).sleep i).timer = some t.id ∧ Times delay uses i t := by
  obtain ⟨id, hid⟩ := (h.live i).1 hlive
  obtain ⟨t, ht, rfl, htimes⟩ := h.timed i id hid
  exact ⟨t, ht, hid, htimes⟩

/-- A sleep that is polled for the first time gets a timer. -/
theorem begin (h : Kept delay uses) {waker : ω} (hallowed : Allowed delay uses (.poll i waker))
    (hfirst : ¬ Polled uses i) : Kept delay (uses ++ [.poll i waker]) := by
  have hnone := h.timer_eq_none fun hlive => hfirst hlive.1
  have hpoll := Sleep.poll_of_none (q := (after delay uses).queue) hnone waker
  have hafter : after delay (uses ++ [.poll i waker]) =
      { queue := ((after delay uses).queue.schedule (delay i) (some waker)).2
        sleep := Function.update (after delay uses).sleep i
          { delay := delay i, timer := some (after delay uses).queue.nextId }
        returned := (after delay uses).returned } := by
    rw [after_concat, apply, answer, hpoll, h.fresh i hfirst]
    rfl
  have hlive : Live delay (uses ++ [.poll i waker]) i := by
    refine ⟨polled_concat.2 (.inr ⟨waker, rfl⟩), ?_, by simpa using hallowed.2⟩
    rw [hafter]
    exact hallowed.1
  -- the number of the new timer lies above all that have been given
  have hnew : ∀ j, ((after delay uses).sleep j).timer ≠ some (after delay uses).queue.nextId := by
    intro j hj
    obtain ⟨t, ht, hid, -⟩ := h.timed j _ hj
    exact absurd hid (Nat.ne_of_lt (h.coherent.below t ht))
  refine ⟨?_, fun j hj => ?_, fun j => ?_, fun t ht hstate => ?_, fun j id hj => ?_,
    fun j k id hj hk => ?_⟩
  · rw [hafter]
    exact h.coherent.schedule _ _
  · rw [polled_concat, not_or] at hj
    have hne : j ≠ i := fun heq => hj.2 ⟨waker, heq ▸ rfl⟩
    rw [hafter]
    simp only [Function.update_of_ne hne]
    exact h.fresh j hj.1
  · by_cases hji : j = i
    · subst hji
      refine iff_of_true hlive ⟨(after delay uses).queue.nextId, ?_⟩
      rw [hafter]
      simp
    · rw [live_concat (not_poll hji) (by simp), h.live, hafter]
      simp only [Function.update_of_ne hji]
  · rw [hafter] at ht ⊢
    rw [TimerQueue.timers_schedule] at ht
    rcases List.mem_append.1 ht with hold | hlast
    · obtain ⟨j, hj⟩ := h.owned t hold hstate
      have hne : j ≠ i := fun heq => absurd (hnone.symm.trans (heq ▸ hj)) (by simp)
      exact ⟨j, by simpa only [Function.update_of_ne hne] using hj⟩
    · rw [List.mem_singleton.1 hlast]
      exact ⟨i, by simp⟩
  · rw [hafter] at hj ⊢
    rw [TimerQueue.timers_schedule]
    by_cases hji : j = i
    · subst hji
      simp only [Function.update_self, Option.some.injEq] at hj
      refine ⟨_, List.mem_append_right _ List.mem_cons_self, hj, .pending ?_ rfl ?_
        ⟨waker, rfl, lastPoll_concat.2 (.inl rfl)⟩⟩
      · exact starts_concat.2 (.inr ⟨⟨waker, rfl⟩, hfirst, rfl⟩)
      · rw [due_concat, not_or]
        exact ⟨fun hdue => hfirst hdue.polled, by simp⟩
    · simp only [Function.update_of_ne hji] at hj
      obtain ⟨t, ht, hid, htimes⟩ := h.timed j id hj
      exact ⟨t, List.mem_append_left _ ht, hid, htimes.concat (not_poll hji) (by simp)⟩
  · rw [hafter] at hj hk
    simp only [Function.update_apply] at hj hk
    by_cases hji : j = i <;> by_cases hki : k = i
    · rw [hji, hki]
    · rw [if_neg hki] at hk
      rw [if_pos hji] at hj
      exact absurd (hk.trans hj.symm) (hnew k)
    · rw [if_neg hji] at hj
      rw [if_pos hki] at hk
      exact absurd (hj.trans hk.symm) (hnew j)
    · rw [if_neg hji] at hj
      rw [if_neg hki] at hk
      exact h.alone j k id hj hk

/-- A sleep has come to an end, if it was live, and its timer is gone. -/
theorem release (h : Kept delay uses) {gone : Sleep τ}
    (hother : ∀ j, j ≠ i → (∀ waker, use ≠ .poll j waker) ∧ use ≠ .drop j)
    (htick : ∀ now, use ≠ .tick now)
    (hsleep : (after delay (uses ++ [use])).sleep =
      Function.update (after delay uses).sleep i gone)
    (hnone : gone.timer = none) (hdelay : ¬ Polled (uses ++ [use]) i → gone.delay = delay i)
    (hover : ¬ Live delay (uses ++ [use]) i)
    (hcoherent : (after delay (uses ++ [use])).queue.Coherent)
    (htimers : ∀ t : Timer τ ω, t.state ≠ .cancelled →
      (t ∈ (after delay (uses ++ [use])).queue.timers ↔
        t ∈ (after delay uses).queue.timers ∧
          ((after delay uses).sleep i).timer ≠ some t.id)) :
    Kept delay (uses ++ [use]) := by
  -- Sleep `i` has no timer any more and the other sleeps are as they were, so that each field
  -- follows from the one of before.
  have hself : ((after delay (uses ++ [use])).sleep i).timer = none := by
    rw [hsleep, Function.update_self, hnone]
  have hsame : ∀ j, j ≠ i →
      (after delay (uses ++ [use])).sleep j = (after delay uses).sleep j := by
    intro j hne
    rw [hsleep, Function.update_of_ne hne]
  have hne : ∀ {j id}, ((after delay (uses ++ [use])).sleep j).timer = some id → j ≠ i := by
    rintro j id hj rfl
    exact absurd (hself.symm.trans hj) (by simp)
  refine ⟨hcoherent, fun j hj => ?_, fun j => ?_, fun t ht hstate => ?_, fun j id hj => ?_,
    fun j k id hj hk => ?_⟩
  · by_cases hji : j = i
    · subst hji
      rw [hsleep, Function.update_self]
      exact hdelay hj
    · rw [hsame j hji]
      exact h.fresh j fun hpolled => hj (polled_concat.2 (.inl hpolled))
  · by_cases hji : j = i
    · subst hji
      exact iff_of_false hover fun ⟨id, hid⟩ => absurd (hself.symm.trans hid) (by simp)
    · rw [live_concat (hother j hji).1 (hother j hji).2, h.live, hsame j hji]
  · obtain ⟨hold, hnot⟩ := (htimers t hstate).1 ht
    obtain ⟨j, hj⟩ := h.owned t hold hstate
    have hji : j ≠ i := fun heq => hnot (heq ▸ hj)
    exact ⟨j, by rw [hsame j hji, hj]⟩
  · have hji := hne hj
    rw [hsame j hji] at hj
    obtain ⟨t, ht, rfl, htimes⟩ := h.timed j id hj
    refine ⟨t, (htimers t htimes.state_ne).2 ⟨ht, fun hi => hji (h.alone j i t.id hj hi)⟩, rfl, ?_⟩
    exact htimes.concat (hother j hji).1 htick
  · rw [hsame j (hne hj)] at hj
    rw [hsame k (hne hk)] at hk
    exact h.alone j k id hj hk

/-- A sleep whose deadline has been reached is seen to be over, and its timer is forgotten. -/
theorem observe (h : Kept delay uses) {waker : ω} (hlive : Live delay uses i)
    (hdue : Due delay uses i) : Kept delay (uses ++ [.poll i waker]) := by
  obtain ⟨t, ht, hid, htimes⟩ := h.exists_timer hlive
  have hstate : t.state = .fired := htimes.fired_iff.2 hdue
  have hfired : ((after delay uses).queue.takeFired t.id).1 = true :=
    h.coherent.takeFired_iff.2 ⟨t, ht, rfl, hstate⟩
  have hafter : after delay (uses ++ [.poll i waker]) =
      { queue := ((after delay uses).queue.takeFired t.id).2
        sleep := Function.update (after delay uses).sleep i { delay := 0 }
        returned := (after delay uses).returned ++ [i] } := by
    rw [after_concat, apply, if_pos ((h.answer_iff i waker).2 ⟨hlive, hdue⟩),
      Sleep.poll_of_some hid, if_pos hfired]
  refine h.release (fun j hne => ⟨not_poll hne, by simp⟩) (by simp) (congrArg Sleeps.sleep hafter)
    rfl (fun hnot => ?_) (fun hover => ?_) (hafter ▸ h.coherent.takeFired t.id)
    fun other hother => ?_
  · exact absurd (polled_concat.2 (.inr ⟨waker, rfl⟩)) hnot
  · exact hover.2.1 (by simp [hafter])
  · rw [hafter, hid]
    refine h.coherent.mem_takeFired (fun same hsame heq => ?_) hother
    rw [h.coherent.eq_of_id_eq hsame ht heq, hstate]
    simp

/-- A sleep whose deadline lies ahead is polled again, and its timer gets the new waker. -/
theorem renew (h : Kept delay uses) {waker : ω} (hlive : Live delay uses i)
    (hahead : ¬ Due delay uses i) : Kept delay (uses ++ [.poll i waker]) := by
  obtain ⟨t, ht, hid, htimes⟩ := h.exists_timer hlive
  have hstate : t.state = .pending := htimes.pending_iff.2 hahead
  have hnot : ¬ ((after delay uses).queue.takeFired t.id).1 = true := by
    rw [h.coherent.takeFired_iff]
    rintro ⟨other, hmem, heq, hfired⟩
    obtain rfl := h.coherent.eq_of_id_eq hmem ht heq
    exact absurd (hstate.symm.trans hfired) (by simp)
  have hafter : after delay (uses ++ [.poll i waker]) =
      { after delay uses with
        queue := (after delay uses).queue.modify t.id (Timer.rewake waker) } := by
    rw [after_concat, apply, if_neg fun hyes => hahead ((h.answer_iff i waker).1 hyes).2,
      Sleep.poll_of_some hid, if_neg hnot, Function.update_eq_self]
    rfl
  -- The timer keeps its number, its deadline and its state; only its waker is another.
  refine ⟨?_, fun j hj => ?_, fun j => ?_, fun t' ht' hstate' => ?_, fun j id hj => ?_, ?_⟩
  · rw [hafter]
    exact h.coherent.modify t.id (Timer.continues_rewake waker)
  · rw [hafter]
    exact h.fresh j fun hpolled => hj (polled_concat.2 (.inl hpolled))
  · rw [hafter, ← h.live]
    by_cases hji : j = i
    · subst hji
      refine iff_of_true ⟨polled_concat.2 (.inl hlive.1), ?_, by simpa using hlive.2.2⟩ hlive
      rw [hafter]
      exact hlive.2.1
    · exact live_concat (not_poll hji) (by simp)
  · rw [hafter] at ht' ⊢
    obtain ⟨old, hold, rfl⟩ := List.mem_map.1 ht'
    by_cases heq : old.id = t.id
    · rw [if_pos heq] at hstate' ⊢
      rw [Timer.state_rewake] at hstate'
      rw [(Timer.continues_rewake waker old).id]
      exact h.owned old hold hstate'
    · rw [if_neg heq] at hstate' ⊢
      exact h.owned old hold hstate'
  · rw [hafter] at hj ⊢
    by_cases hji : j = i
    · subst hji
      obtain rfl : t.id = id := Option.some.inj (hid.symm.trans hj)
      refine ⟨t.rewake waker, List.mem_map.2 ⟨t, ht, if_pos rfl⟩,
        (Timer.continues_rewake waker t).id, ?_⟩
      rw [Timer.rewake_of_pending hstate]
      refine .pending (starts_concat.2 (.inl htimes.starts)) hstate ?_
        ⟨waker, rfl, lastPoll_concat.2 (.inl rfl)⟩
      rw [due_concat, not_or]
      exact ⟨hahead, by simp⟩
    · obtain ⟨t', ht', rfl, htimes'⟩ := h.timed j id hj
      have hne : t'.id ≠ t.id := fun heq => hji (h.alone j i t.id (heq ▸ hj) hid)
      exact ⟨t', List.mem_map.2 ⟨t', ht', if_neg hne⟩, rfl,
        htimes'.concat (not_poll hji) (by simp)⟩
  · rw [hafter]
    exact h.alone

/-- A sleep is given up. -/
theorem drop (h : Kept delay uses) (i : ι) : Kept delay (uses ++ [.drop i]) := by
  obtain ⟨hcoherent, -, htimers⟩ := Sleep.drop_spec h.coherent ((after delay uses).sleep i)
  have hafter : after delay (uses ++ [.drop i]) =
      { queue := ((after delay uses).sleep i).drop (after delay uses).queue
        sleep := Function.update (after delay uses).sleep i
          { (after delay uses).sleep i with timer := none }
        returned := (after delay uses).returned } := by
    rw [after_concat, apply]
  refine h.release (fun j hne => ⟨by simp, fun heq => hne (SleepUse.drop.inj heq).symm⟩) (by simp)
    (congrArg Sleeps.sleep hafter) rfl (fun hnot => ?_) (fun hlive => ?_) (hafter ▸ hcoherent)
    fun t hstate => ?_
  · exact h.fresh i fun hpolled => hnot (polled_concat.2 (.inl hpolled))
  · exact hlive.2.2 (List.mem_append_right _ List.mem_cons_self)
  · rw [hafter]
    exact htimers t hstate

/-- Time goes by. -/
theorem tick (h : Kept delay uses) (now : τ) : Kept delay (uses ++ [.tick now]) := by
  obtain ⟨hcoherent, hnow, -, htimers, -⟩ := h.coherent.tick now
  have hafter : after delay (uses ++ [.tick now]) =
      { after delay uses with queue := ((after delay uses).queue.tick now).2 } := by
    rw [after_concat, apply]
  have htime : (after delay (uses ++ [.tick now])).queue.now =
      max (after delay uses).queue.now now := by
    rw [hafter, ← hnow]
  have hmem : ∀ t : Timer τ ω, t ∈ (after delay (uses ++ [.tick now])).queue.timers ↔
      (∃ old ∈ (after delay uses).queue.timers,
        old.expire (after delay (uses ++ [.tick now])).queue.now = t) ∧ t.state ≠ .cancelled := by
    intro t
    rw [htime, hafter, htimers, List.mem_filter, List.mem_map, decide_eq_true_eq]
  refine ⟨?_, fun j hj => ?_, fun j => ?_, fun t ht hstate => ?_, fun j id hj => ?_, ?_⟩
  · rw [hafter]
    exact hcoherent
  · rw [hafter]
    exact h.fresh j fun hpolled => hj (polled_concat.2 (.inl hpolled))
  · rw [live_concat (by simp) (by simp), h.live, hafter]
  · obtain ⟨⟨old, hold, rfl⟩, -⟩ := (hmem t).1 ht
    rw [(Timer.continues_expire _ old).id, hafter]
    refine h.owned old hold fun hcancelled => hstate ?_
    rw [Timer.expire_of_ne (by simp [hcancelled]), hcancelled]
  · have hj' : ((after delay uses).sleep j).timer = some id := by rwa [hafter] at hj
    obtain ⟨t, ht, rfl, htimes⟩ := h.timed j id hj'
    -- A timer that has fired stays so. One that is pending fires if its deadline has come, and this
    -- tick is then the one that reaches it.
    have htimed : Times delay (uses ++ [.tick now]) j
        (t.expire (after delay (uses ++ [.tick now])).queue.now) := by
      cases htimes with
      | fired hstarts hstate hreached =>
        rw [Timer.expire_of_ne (by simp [hstate])]
        exact .fired (starts_concat.2 (.inl hstarts)) hstate (due_concat.2 (.inl hreached))
      | pending hstarts hstate hahead hwaker =>
        rcases lt_or_ge (after delay (uses ++ [.tick now])).queue.now t.deadline with hlt | hle
        · rw [Timer.expire_of_lt hlt]
          obtain ⟨w, hw, hlast⟩ := hwaker
          refine .pending (starts_concat.2 (.inl hstarts)) hstate ?_
            ⟨w, hw, lastPoll_concat.2 (.inr ⟨hlast, by simp⟩)⟩
          rw [due_concat, not_or]
          refine ⟨hahead, ?_⟩
          rintro ⟨_, d, -, hd, hreached⟩
          rw [hd.unique hstarts] at hreached
          exact absurd hreached (not_le.2 hlt)
        · rw [Timer.expire_of_le hle, Timer.fire_of_pending hstate]
          exact .fired (starts_concat.2 (.inl hstarts)) rfl
            (due_concat.2 (.inr ⟨now, t.deadline, rfl, hstarts, hle⟩))
    exact ⟨_, (hmem _).2 ⟨⟨t, ht, rfl⟩, htimed.state_ne⟩, (Timer.continues_expire _ t).id, htimed⟩
  · rw [hafter]
    exact h.alone

/-- What every allowed use keeps. -/
theorem concat (h : Kept delay uses) (hallowed : Allowed delay uses use) :
    Kept delay (uses ++ [use]) := by
  cases use with
  | tick now => exact h.tick now
  | drop i => exact h.drop i
  | poll i waker =>
    -- The first poll begins the sleep; a later one sees that it is over, or renews its waker.
    by_cases hpolled : Polled uses i
    · by_cases hdue : Due delay uses i
      · exact h.observe ⟨hpolled, hallowed⟩ hdue
      · exact h.renew ⟨hpolled, hallowed⟩ hdue
    · exact h.begin hallowed hpolled

end Kept

/-- What any legal history keeps. -/
theorem kept_after (h : Legal delay uses) : Kept delay uses := by
  induction uses using List.reverseRecOn with
  | nil => exact kept_nil
  | append_singleton uses use ih =>
    obtain ⟨huses, hallowed⟩ := legal_concat.1 h
    exact (ih huses).concat hallowed

end Sleeps

end MountShell
