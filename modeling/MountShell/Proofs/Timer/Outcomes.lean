import Mathlib.Algebra.Order.Group.Int
import MountShell.Proofs.Timer.Sleeps

/-!
# What sleeps that share a queue show

What can be seen of the queue (its time, the number of its pending timers, its next deadline, and
whom a tick wakes) and of the answers of the sleeps, as it is told by the history alone
(`Sleeps.Faithful`).  Two histories that say the same about a sleep (`Sleeps.Alike`) get the same
answers from it.

Main statement: `sleeps_after`, after any legal history the sleeps and the queue show what the
history says, and a sleep that is given up makes no difference to the others.
-/

namespace MountShell

namespace Sleeps

variable {ι τ ω : Type}

/-- If each of some timers has an owner of its own, the owners can be listed, and their wakers are
those of the timers. -/
theorem exists_owners {R : ι → Timer τ ω → Prop} {P : ι → ω → Prop}
    (halone : ∀ i j t, R i t → R j t → i = j) {timers : List (Timer τ ω)}
    (htimers : ∀ t ∈ timers, ∃ i w, R i t ∧ t.waker = some w ∧ P i w) :
    ∃ owners : List ι, List.Forall₂ R owners timers ∧ (∀ i, i ∈ owners ↔ ∃ t ∈ timers, R i t) ∧
      List.Forall₂ P owners (timers.filterMap Timer.waker) := by
  induction timers with
  | nil => exact ⟨[], .nil, by simp, .nil⟩
  | cons t rest ih =>
    obtain ⟨⟨i, w, hi, hw, hp⟩, hrest⟩ := List.forall_mem_cons.1 htimers
    obtain ⟨owners, howners, hmem, hwakers⟩ := ih hrest
    refine ⟨i :: owners, .cons hi howners, fun j => ?_, ?_⟩
    · rw [List.mem_cons, hmem, List.exists_mem_cons_iff]
      refine or_congr_left ⟨?_, fun hj => halone j i t hj hi⟩
      rintro rfl
      exact hi
    · rw [List.filterMap_cons_some hw]
      exact .cons hp hwakers

variable [DecidableEq ι] [Zero τ] [Add τ] [LinearOrder τ]

section

variable (delay : ι → τ)

/-- The sleeps and their queue show what a history says. -/
structure Faithful (uses : List (SleepUse ι τ ω)) (s : Sleeps ι τ ω) : Prop where
  /-- The time is the largest of zero and the times of the ticks. -/
  now : IsGreatest {t | t = 0 ∨ .tick t ∈ uses} s.queue.now
  /-- Each live sleep has one timer. -/
  timer : ∀ i, Live delay uses i →
    ∃! t, t ∈ s.queue.timers ∧ t.state ≠ .cancelled ∧ (s.sleep i).timer = some t.id
  /-- Each timer that is not cancelled belongs to one live sleep. -/
  owner : ∀ t ∈ s.queue.timers, t.state ≠ .cancelled →
    ∃! i, Live delay uses i ∧ (s.sleep i).timer = some t.id
  /-- The timer has the deadline of the sleep and is pending until a tick reaches it. -/
  state : ∀ i, ∀ t ∈ s.queue.timers, (s.sleep i).timer = some t.id →
    Starts delay uses i t.deadline ∧ (t.state = .pending ↔ ¬ Due delay uses i) ∧
      (t.state = .fired ↔ Due delay uses i)
  pendingCount : s.queue.pendingCount = {i | Live delay uses i ∧ ¬ Due delay uses i}.ncard
  nextDeadline : ∀ d, s.queue.nextDeadline = some d ↔
    IsLeast {d | ∃ i, Live delay uses i ∧ ¬ Due delay uses i ∧ Starts delay uses i d} d
  /-- The first poll never tells that a sleep is over. -/
  first : ∀ i waker, ¬ Polled uses i → s.answer i waker = false
  /-- A later poll tells so just when a tick has reached the deadline. -/
  later : ∀ i waker, Live delay uses i → (s.answer i waker = true ↔ Due delay uses i)
  /-- A tick wakes whoever polled last the live sleeps whose deadlines it is the first to reach. -/
  tick : ∀ now, ∃ woken : List ι, woken.Nodup ∧
    (∀ i, i ∈ woken ↔
      Live delay uses i ∧ ¬ Due delay uses i ∧ Due delay (uses ++ [.tick now]) i) ∧
    List.Forall₂ (LastPoll uses) woken (s.queue.tick now).1

/-- Two histories say the same about a sleep. -/
structure Alike (uses others : List (SleepUse ι τ ω)) (i : ι) : Prop where
  polled : Polled uses i ↔ Polled others i
  returned : i ∈ (after delay uses).returned ↔ i ∈ (after delay others).returned
  dropped : .drop i ∈ uses ↔ .drop i ∈ others
  starts : ∀ d, Starts delay uses i d ↔ Starts delay others i d
  due : Due delay uses i ↔ Due delay others i
  lastPoll : ∀ waker, LastPoll uses i waker ↔ LastPoll others i waker

end

variable {delay : ι → τ} {uses : List (SleepUse ι τ ω)} {use : SleepUse ι τ ω} {i j : ι}

/-! ### The time -/

theorem coherent_after (delay : ι → τ) (uses : List (SleepUse ι τ ω)) :
    (after delay uses).queue.Coherent := by
  induction uses using List.reverseRecOn with
  | nil => exact TimerQueue.coherent_empty
  | append_singleton uses use ih =>
    rw [after_concat]
    cases use with
    | tick now => exact (ih.tick now).1
    | drop i => exact (Sleep.drop_spec ih _).1
    | poll i waker =>
      unfold apply
      cases htimer : ((after delay uses).sleep i).timer with
      | none =>
        simp only [Sleep.poll_of_none htimer]
        exact ih.schedule _ _
      | some id =>
        simp only [Sleep.poll_of_some htimer]
        cases ((after delay uses).queue.takeFired id).1 with
        | true => exact ih.takeFired id
        | false => exact ih.modify id (Timer.continues_rewake waker)

/-- Only ticks move the time. -/
theorem now_concat (delay : ι → τ) (uses : List (SleepUse ι τ ω)) (use : SleepUse ι τ ω) :
    (after delay (uses ++ [use])).queue.now =
      match use with
      | .tick now => max (after delay uses).queue.now now
      | _ => (after delay uses).queue.now := by
  have hcoherent := coherent_after delay uses
  rw [after_concat]
  cases use with
  | tick now => exact (hcoherent.tick now).2.1
  | drop i => exact (Sleep.drop_spec hcoherent _).2.1
  | poll i waker =>
    unfold apply
    cases htimer : ((after delay uses).sleep i).timer with
    | none =>
      simp only [Sleep.poll_of_none htimer]
      rfl
    | some id =>
      simp only [Sleep.poll_of_some htimer]
      cases ((after delay uses).queue.takeFired id).1 with
      | true =>
        simp only [if_true, hcoherent.takeFired_eq]
      | false => rfl

/-- The time is the largest of zero and what the ticks have told. -/
theorem isGreatest_now (delay : ι → τ) (uses : List (SleepUse ι τ ω)) :
    IsGreatest {t | t = 0 ∨ .tick t ∈ uses} (after delay uses).queue.now := by
  induction uses using List.reverseRecOn with
  | nil => exact ⟨.inl rfl, fun t ht => (ht.resolve_right List.not_mem_nil).le⟩
  | append_singleton uses use ih =>
    rw [now_concat]
    cases use with
    | tick now =>
      have hset : {t | t = 0 ∨ .tick t ∈ uses ++ [.tick now]} =
          {t | t = 0 ∨ .tick t ∈ uses} ∪ {now} := by
        ext t
        simp [or_comm, or_left_comm]
      rw [hset]
      exact ih.union isGreatest_singleton
    | poll i waker => simpa using ih
    | drop i => simpa using ih

/-! ### What the queue answers -/

namespace Kept

/-- The timer of a sleep does what the sleep asks of it. -/
theorem times (h : Kept delay uses) {t : Timer τ ω} (ht : t ∈ (after delay uses).queue.timers)
    (hid : ((after delay uses).sleep i).timer = some t.id) : Times delay uses i t := by
  obtain ⟨other, hother, heq, htimes⟩ := h.timed i t.id hid
  rwa [h.coherent.eq_of_id_eq hother ht heq] at htimes

/-- The sleeps whose timers are pending. -/
theorem pending_iff (h : Kept delay uses) (i : ι) :
    Live delay uses i ∧ ¬ Due delay uses i ↔ ∃ t ∈ (after delay uses).queue.timers,
      t.state = .pending ∧ ((after delay uses).sleep i).timer = some t.id := by
  constructor
  · rintro ⟨hlive, hahead⟩
    obtain ⟨t, ht, hid, htimes⟩ := h.exists_timer hlive
    exact ⟨t, ht, htimes.pending_iff.2 hahead, hid⟩
  · rintro ⟨t, ht, hstate, hid⟩
    exact ⟨(h.live i).2 ⟨t.id, hid⟩, (h.times ht hid).pending_iff.1 hstate⟩

/-- Some pending timers, and the sleeps that have them. -/
theorem owners (h : Kept delay uses) {timers : List (Timer τ ω)} (hnodup : timers.Nodup)
    (htimers : ∀ t ∈ timers, t ∈ (after delay uses).queue.timers ∧ t.state = .pending) :
    ∃ owners : List ι, owners.Nodup ∧ owners.length = timers.length ∧
      (∀ i, i ∈ owners ↔ ∃ t ∈ timers, ((after delay uses).sleep i).timer = some t.id) ∧
      List.Forall₂ (LastPoll uses) owners (timers.filterMap Timer.waker) := by
  let R (i : ι) (t : Timer τ ω) : Prop :=
    ((after delay uses).sleep i).timer = some t.id ∧ t ∈ (after delay uses).queue.timers
  have hunique : Relator.BiUnique R := by
    refine ⟨fun i j t hi hj => h.alone i j t.id hi.1 hj.1, fun i t t' ht ht' => ?_⟩
    exact h.coherent.eq_of_id_eq ht.2 ht'.2 (Option.some.inj (ht.1.symm.trans ht'.1))
  obtain ⟨owners, hrel, hmem, hwakers⟩ :=
    exists_owners (R := R) (P := LastPoll uses) (fun i j t hi hj => hunique.1 hi hj) fun t ht => by
      obtain ⟨hmem, hstate⟩ := htimers t ht
      obtain ⟨i, hi⟩ := h.owned t hmem (by simp [hstate])
      cases h.times hmem hi with
      | pending _ _ _ hwaker =>
        obtain ⟨w, hw, hlast⟩ := hwaker
        exact ⟨i, w, ⟨hi, hmem⟩, hw, hlast⟩
      | fired _ hfired => exact absurd (hfired.symm.trans hstate) (by simp)
  refine ⟨owners, (List.rel_nodup hunique hrel).2 hnodup, hrel.length_eq, fun i => ?_, hwakers⟩
  refine (hmem i).trans ?_
  exact exists_congr fun t => and_congr_right fun ht => and_iff_left (htimers t ht).1

theorem pendingCount_eq (h : Kept delay uses) :
    (after delay uses).queue.pendingCount =
      {i | Live delay uses i ∧ ¬ Due delay uses i}.ncard := by
  have hnodup : (after delay uses).queue.pending.Nodup :=
    (List.Nodup.of_map Timer.id h.coherent.nodup).filter _
  obtain ⟨owners, howners, hlength, hmem, -⟩ :=
    h.owners hnodup fun t ht => TimerQueue.mem_pending.1 ht
  have hset : {i | Live delay uses i ∧ ¬ Due delay uses i} = (owners.toFinset : Set ι) := by
    ext i
    rw [Set.mem_ofPred_eq, h.pending_iff, List.coe_toFinset, Set.mem_ofPred_eq, hmem]
    simp only [TimerQueue.mem_pending, and_assoc]
  rw [hset, Set.ncard_coe_finset, List.toFinset_card_of_nodup howners, hlength]
  rfl

theorem nextDeadline_iff (h : Kept delay uses) (d : τ) :
    (after delay uses).queue.nextDeadline = some d ↔
      IsLeast {d | ∃ i, Live delay uses i ∧ ¬ Due delay uses i ∧ Starts delay uses i d} d := by
  have hmem : ∀ d, (∃ i, Live delay uses i ∧ ¬ Due delay uses i ∧ Starts delay uses i d) ↔
      ∃ t ∈ (after delay uses).queue.timers, t.state = .pending ∧ t.deadline = d := by
    intro d
    constructor
    · rintro ⟨i, hlive, hahead, hstarts⟩
      obtain ⟨t, ht, hstate, hid⟩ := (h.pending_iff i).1 ⟨hlive, hahead⟩
      exact ⟨t, ht, hstate, (h.times ht hid).starts.unique hstarts⟩
    · rintro ⟨t, ht, hstate, rfl⟩
      obtain ⟨i, hi⟩ := h.owned t ht (by simp [hstate])
      obtain ⟨hlive, hahead⟩ := (h.pending_iff i).2 ⟨t, ht, hstate, hi⟩
      exact ⟨i, hlive, hahead, (h.times ht hi).starts⟩
  rw [TimerQueue.nextDeadline_eq_some_iff, IsLeast, mem_lowerBounds]
  simp only [Set.mem_ofPred_eq, hmem]
  refine and_congr_right fun _ => ⟨?_, fun hle t ht hstate => hle _ ⟨t, ht, hstate, rfl⟩⟩
  rintro hle _ ⟨t, ht, hstate, rfl⟩
  exact hle t ht hstate

/-- Time wakes the live sleeps whose deadlines it is the first to reach. -/
theorem tick_wakers (h : Kept delay uses) (now : τ) :
    ∃ woken : List ι, woken.Nodup ∧
      (∀ i, i ∈ woken ↔
        Live delay uses i ∧ ¬ Due delay uses i ∧ Due delay (uses ++ [.tick now]) i) ∧
      List.Forall₂ (LastPoll uses) woken ((after delay uses).queue.tick now).1 := by
  obtain ⟨-, -, -, -, fired, hfired, hnodup, -, hwakers⟩ := h.coherent.tick now
  obtain ⟨woken, hwoken, -, hmem, hlast⟩ :=
    h.owners hnodup fun t ht => ⟨((hfired t).1 ht).1, ((hfired t).1 ht).2.1⟩
  have htime := now_concat delay uses (.tick now)
  refine ⟨woken, hwoken, fun i => ?_, hwakers ▸ hlast⟩
  rw [hmem, ← and_assoc, h.pending_iff, due_concat, htime]
  constructor
  · rintro ⟨t, ht, hid⟩
    obtain ⟨ht, hstate, hle⟩ := (hfired t).1 ht
    exact ⟨⟨t, ht, hstate, hid⟩, .inr ⟨now, t.deadline, rfl, (h.times ht hid).starts, hle⟩⟩
  · rintro ⟨⟨t, ht, hstate, hid⟩, hdue⟩
    have hahead := ((h.pending_iff i).2 ⟨t, ht, hstate, hid⟩).2
    obtain ⟨_, d, -, hstarts, hle⟩ := hdue.resolve_left hahead
    rw [hstarts.unique (h.times ht hid).starts] at hle
    exact ⟨t, (hfired t).2 ⟨ht, hstate, hle⟩, hid⟩

/-- The sleeps and their queue show what the history says. -/
theorem faithful (h : Kept delay uses) : Faithful delay uses (after delay uses) where
  now := isGreatest_now delay uses
  timer i hlive := by
    obtain ⟨t, ht, hid, htimes⟩ := h.exists_timer hlive
    refine ⟨t, ⟨ht, htimes.state_ne, hid⟩, fun other hother => ?_⟩
    exact h.coherent.eq_of_id_eq hother.1 ht (Option.some.inj (hother.2.2.symm.trans hid))
  owner t ht hstate := by
    obtain ⟨i, hi⟩ := h.owned t ht hstate
    exact ⟨i, ⟨(h.live i).2 ⟨t.id, hi⟩, hi⟩, fun j hj => h.alone j i t.id hj.2 hi⟩
  state i t ht hid := by
    have htimes := h.times ht hid
    exact ⟨htimes.starts, htimes.pending_iff, htimes.fired_iff⟩
  pendingCount := h.pendingCount_eq
  nextDeadline := h.nextDeadline_iff
  first i waker hfirst := by
    refine Bool.eq_false_of_not_eq_true fun hyes => ?_
    exact hfirst ((h.answer_iff i waker).1 hyes).1.1
  later i waker hlive := (h.answer_iff i waker).trans (and_iff_right hlive)
  tick := h.tick_wakers

end Kept

/-! ### Sleeps that are given up -/

theorem Alike.live {others : List (SleepUse ι τ ω)} (h : Alike delay uses others i) :
    Live delay uses i ↔ Live delay others i :=
  and_congr h.polled (and_congr (not_congr h.returned) (not_congr h.dropped))

/-- A sleep answers alike after legal histories that say the same about it. -/
theorem Alike.answer {others : List (SleepUse ι τ ω)} (h : Alike delay uses others i)
    (huses : Legal delay uses) (hothers : Legal delay others) (waker : ω) :
    (after delay uses).answer i waker = (after delay others).answer i waker := by
  rw [Bool.eq_iff_iff, (kept_after huses).answer_iff, (kept_after hothers).answer_iff]
  exact and_congr h.live h.due

/-- To give up another sleep says nothing about a sleep. -/
theorem alike_drop (uses : List (SleepUse ι τ ω)) (hne : j ≠ i) :
    Alike delay (uses ++ [.drop i]) uses j where
  polled := polled_concat.trans (or_iff_left (by simp))
  returned := returned_concat.trans (or_iff_left (by simp))
  dropped := by simp [hne]
  starts d := starts_concat.trans (or_iff_left (by simp))
  due := due_concat.trans (or_iff_left (by simp))
  lastPoll waker := by simp [lastPoll_concat]

/-- Histories that say the same about a sleep do so after one more use. -/
theorem Alike.concat {others : List (SleepUse ι τ ω)} (h : Alike delay uses others i)
    (hnow : (after delay uses).queue.now = (after delay others).queue.now)
    (hanswer : ∀ waker, (after delay uses).answer i waker = (after delay others).answer i waker)
    (use : SleepUse ι τ ω) : Alike delay (uses ++ [use]) (others ++ [use]) i where
  polled := by rw [polled_concat, polled_concat, h.polled]
  returned := by
    rw [returned_concat, returned_concat, h.returned]
    simp only [hanswer]
  dropped := by rw [List.mem_append, List.mem_append, h.dropped]
  starts d := by rw [starts_concat, starts_concat, h.starts, h.polled, hnow]
  due := by
    rw [due_concat, due_concat, h.due, now_concat, now_concat, hnow]
    simp only [h.starts]
  lastPoll waker := by rw [lastPoll_concat, lastPoll_concat, h.lastPoll]

/-- With or without a sleep that is given up, a history says the same about the others. -/
theorem alike_without {before since : List (SleepUse ι τ ω)}
    (h : Legal delay (before ++ .drop i :: since)) :
    Legal delay (before ++ since) ∧
      (after delay (before ++ .drop i :: since)).queue.now =
        (after delay (before ++ since)).queue.now ∧
      ∀ j, j ≠ i → Alike delay (before ++ .drop i :: since) (before ++ since) j := by
  induction since using List.reverseRecOn with
  | nil =>
    rw [List.append_nil]
    exact ⟨(legal_concat.1 h).1, now_concat delay before (.drop i), fun j => alike_drop before⟩
  | append_singleton since use ih =>
    have hsplit : before ++ .drop i :: (since ++ [use]) = before ++ .drop i :: since ++ [use] := by
      simp
    rw [hsplit, legal_concat] at h
    obtain ⟨hwith, hallowed⟩ := h
    obtain ⟨hwithout, hnow, halike⟩ := ih hwith
    rw [hsplit, ← List.append_assoc, legal_concat, now_concat, now_concat, hnow]
    refine ⟨⟨hwithout, ?_⟩, rfl, fun j hne => ?_⟩
    · -- a use that is allowed is about another sleep
      have hmem : .drop i ∈ before ++ .drop i :: since :=
        List.mem_append_right _ List.mem_cons_self
      cases use with
      | tick now => trivial
      | drop j =>
        have hne : j ≠ i := fun heq => hallowed (heq ▸ hmem)
        exact fun hdrop => hallowed ((halike j hne).dropped.2 hdrop)
      | poll j waker =>
        have hne : j ≠ i := fun heq => hallowed.2 (heq ▸ hmem)
        exact ⟨fun hover => hallowed.1 ((halike j hne).returned.2 hover),
          fun hdrop => hallowed.2 ((halike j hne).dropped.2 hdrop)⟩
    · exact (halike j hne).concat hnow ((halike j hne).answer hwith hwithout) use

/-- After any legal history the sleeps and their queue show what the history says: the queue has one
timer for each live sleep and no others, a sleep is over at a later poll just when a tick since its
first poll has reached its deadline, and the first tick to do so wakes whoever polled it last.  A
sleep that has been given up, before or after its timer fired, makes no difference to the others. -/
theorem sleeps_after (delay : ι → τ) (uses : List (SleepUse ι τ ω)) (h : Legal delay uses) :
    Faithful delay uses (after delay uses) ∧
      ∀ before i since, uses = before ++ .drop i :: since →
        Legal delay (before ++ since) ∧
          ∀ j, j ≠ i → Alike delay uses (before ++ since) j ∧
            ∀ waker, (after delay uses).answer j waker =
              (after delay (before ++ since)).answer j waker := by
  refine ⟨(kept_after h).faithful, ?_⟩
  rintro before i since rfl
  obtain ⟨hwithout, -, halike⟩ := alike_without h
  exact ⟨hwithout, fun j hne => ⟨halike j hne, (halike j hne).answer h hwithout⟩⟩

/-- Four sleeps: one is given up before its deadline, one after it and not seen, one is seen to be
over, and one is live still. -/
theorem sleeps_after_four_ways :
    let delay : Nat → Int := fun i => if i = 0 then 10 else if i = 2 then -5 else 20
    let before : List (SleepUse Nat Int Nat) :=
      [.poll 0 7, .poll 1 8, .poll 2 9, .tick 3, .poll 0 6]
    let since : List (SleepUse Nat Int Nat) :=
      [.poll 3 4, .poll 2 5, .tick 12, .drop 0, .poll 3 1]
    let uses := before ++ .drop 1 :: since
    Legal delay uses ∧ Faithful delay uses (after delay uses) ∧
      (after delay uses).returned = [2] ∧ (after delay uses).queue.pendingCount = 1 ∧
      (after delay uses).queue.nextDeadline = some 23 ∧
      ((after delay uses).queue.tick 23).1 = [1] ∧
      Legal delay (before ++ since) ∧ ∀ j, j ≠ 1 → Alike delay uses (before ++ since) j := by
  intro delay before since uses
  have hlegal : Legal delay uses := by decide +kernel
  obtain ⟨hfaithful, hdrop⟩ := sleeps_after delay uses hlegal
  obtain ⟨hwithout, halike⟩ := hdrop before 1 since rfl
  exact ⟨hlegal, hfaithful, by decide +kernel, by decide +kernel, by decide +kernel,
    by decide +kernel, hwithout, fun j hne => (halike j hne).1⟩

end Sleeps

end MountShell
