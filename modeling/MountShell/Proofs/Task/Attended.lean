import Mathlib.Logic.Function.Basic
import Mathlib.Algebra.Order.Monoid.Unbundled.Basic
import MountShell.Proofs.Timer.Operations
import MountShell.Task.TimedPool

/-!
# Timers that tasks wait for

When every task waits for one timer at a time and for no other reason gives it up, timers and
waiting tasks belong together: every timer that is not cancelled is the one that some task waits
for, no two tasks wait for the same one, and no deadline lies in the past (`TimerQueue.Attended`).

In the middle of a tick some timers have fired and their tasks have yet to be polled.  These are the
tasks of the `batch`, which holds the tasks that the tick has still to poll.  A timer that has fired
has the present time for its deadline, and its task is in the batch; a timer that is pending and
whose task is in the batch has its deadline ahead.  At the end of a tick the batch is empty, and so
no timer is left that has fired.

Main statements: `Attended.tick`, time fires timers for the batch; `Attended.over_iff`, a task of
the batch finds its wait over exactly if its deadline is the present time; `Attended.keep`,
`Attended.take`, `Attended.begin` and `Attended.giveUp`, what tasks do; and `Attended.jump`, time
may go on to the next deadline.
-/

namespace MountShell

namespace TimerQueue

variable {τ : Type} [LinearOrder τ] {clock : τ} {batch ids : List Nat} {held : Nat → Option Nat}
  {q : TimerQueue τ Waker} {id x : Nat} {t : Timer τ Waker}

/-- A task waits for a timer, and the deadline has not gone by. -/
inductive Awaited (clock : τ) (batch : List Nat) (id : Nat) (t : Timer τ Waker) : Prop
  | pending (state : t.state = .pending) (waker : t.waker = some (.task id))
      (le : clock ≤ t.deadline) (lt : id ∈ batch → clock < t.deadline)
  | fired (state : t.state = .fired) (eq : t.deadline = clock) (mem : id ∈ batch)

/-- The timers are those that tasks wait for: the task in a slot waits for the timer that it
holds. -/
structure Attended (clock : τ) (batch : List Nat) (held : Nat → Option Nat)
    (q : TimerQueue τ Waker) : Prop where
  coherent : q.Coherent
  now : q.now ≤ clock
  owned : ∀ t ∈ q.timers, t.state ≠ .cancelled → ∃ id, held id = some t.id
  awaited : ∀ id x, held id = some x → ∃ t ∈ q.timers, t.id = x ∧ Awaited clock batch id t
  alone : ∀ id id' x, held id = some x → held id' = some x → id = id'

theorem Awaited.le (h : Awaited clock batch id t) : clock ≤ t.deadline := by
  cases h with
  | pending _ _ hle _ => exact hle
  | fired _ heq _ => exact heq.ge

/-- Outside a tick, what is waited for is pending. -/
theorem Awaited.state_of_nil (h : Awaited clock [] id t) : t.state = .pending := by
  cases h with
  | pending hstate => exact hstate
  | fired _ _ hmem => exact absurd hmem List.not_mem_nil

/-- Only the batch's word on the task itself matters. -/
theorem Awaited.congr (h : Awaited clock batch id t) (hiff : id ∈ ids ↔ id ∈ batch) :
    Awaited clock ids id t := by
  cases h with
  | pending hstate hwaker hle hlt => exact .pending hstate hwaker hle fun hmem => hlt (hiff.1 hmem)
  | fired hstate heq hmem => exact .fired hstate heq (hiff.2 hmem)

/-- A task of the batch that is not the first one remains in the batch. -/
theorem Awaited.of_cons {first : Nat} (h : Awaited clock (first :: ids) id t) (hne : id ≠ first) :
    Awaited clock ids id t :=
  h.congr (by rw [List.mem_cons, or_iff_right hne])

/-- The timer that a task holds. -/
theorem Attended.awaited_of_mem (h : Attended clock batch held q) (hheld : held id = some t.id)
    (ht : t ∈ q.timers) : Awaited clock batch id t := by
  obtain ⟨t', ht', hid, hawaited⟩ := h.awaited id t.id hheld
  obtain rfl := h.coherent.eq_of_id_eq ht' ht hid
  exact hawaited

/-- No deadline lies in the past. -/
theorem Attended.le_deadline (h : Attended clock batch held q) (ht : t ∈ q.timers)
    (hstate : t.state ≠ .cancelled) : clock ≤ t.deadline := by
  obtain ⟨id, hheld⟩ := h.owned t ht hstate
  exact (h.awaited_of_mem hheld ht).le

theorem attended_empty [Zero τ] (hclock : 0 ≤ clock) :
    Attended clock batch (fun _ => none) (empty : TimerQueue τ Waker) where
  coherent := coherent_empty
  now := hclock
  owned _ ht := absurd ht List.not_mem_nil
  awaited _ _ hheld := nomatch hheld
  alone _ _ _ hheld := nomatch hheld

/-- Time fires the timers whose deadlines are reached, and wakes their tasks. -/
theorem Attended.tick (h : Attended clock [] held q)
    (hbatch : ∀ id ∈ Waker.tasks (q.tick clock).1, id ∈ batch) :
    Attended clock batch held (q.tick clock).2 ∧ (q.tick clock).2.now = clock := by
  obtain ⟨hcoherent, hnow, -, htimers, fired, hfired, -, -, hwakers⟩ := h.coherent.tick clock
  rw [max_eq_right h.now] at hnow htimers hfired
  refine ⟨⟨hcoherent, hnow.le, fun t ht hstate => ?_, fun id x hheld => ?_, h.alone⟩, hnow⟩
  · rw [htimers] at ht
    obtain ⟨old, hold, rfl⟩ := List.mem_map.1 (List.mem_filter.1 ht).1
    rw [(Timer.continues_expire clock old).id]
    refine h.owned old hold fun hcancelled => hstate ?_
    rw [Timer.expire_of_ne (by simp [hcancelled]), hcancelled]
  · obtain ⟨t, ht, rfl, hawaited⟩ := h.awaited id x hheld
    have hstate := hawaited.state_of_nil
    refine ⟨t.expire clock, ?_, (Timer.continues_expire clock t).id, ?_⟩
    · rw [htimers]
      refine List.mem_filter.2 ⟨List.mem_map_of_mem ht, decide_eq_true fun hcancelled => ?_⟩
      by_cases hlt : clock < t.deadline
      · rw [Timer.expire_of_lt hlt, hstate] at hcancelled
        exact nomatch hcancelled
      · rw [Timer.expire_of_le (not_lt.1 hlt), Timer.fire_of_pending hstate] at hcancelled
        exact nomatch hcancelled
    · cases hawaited with
      | fired _ _ hmem => exact absurd hmem List.not_mem_nil
      | pending _ hwaker hle _ =>
        -- no deadline lies before the clock, so that a timer that fires has its deadline right now
        rcases hle.lt_or_eq with hlt | heq
        · rw [Timer.expire_of_lt hlt]
          exact .pending hstate hwaker hle fun _ => hlt
        · rw [Timer.expire_of_le heq.ge, Timer.fire_of_pending hstate]
          refine .fired rfl heq.symm (hbatch id ?_)
          rw [hwakers]
          refine List.mem_filterMap.2 ⟨.task id, List.mem_filterMap.2 ⟨t, ?_, hwaker⟩, rfl⟩
          exact (hfired t).2 ⟨ht, hstate, heq.ge⟩

/-- A task that waits for no timer can be passed over. -/
theorem Attended.pass (h : Attended clock (id :: ids) held q) (hheld : held id = none) :
    Attended clock ids held q where
  coherent := h.coherent
  now := h.now
  owned := h.owned
  awaited other x hother := by
    obtain ⟨t, ht, hid, hawaited⟩ := h.awaited other x hother
    refine ⟨t, ht, hid, hawaited.of_cons ?_⟩
    rintro rfl
    exact absurd (hheld.symm.trans hother) (by simp)
  alone := h.alone

/-- A task of the batch finds its wait over if its deadline is the present time. -/
theorem Attended.over_iff (h : Attended clock batch held q) (hheld : held id = some t.id)
    (ht : t ∈ q.timers) (hmem : id ∈ batch) : (q.takeFired t.id).1 = true ↔ t.deadline = clock := by
  rw [h.coherent.takeFired_iff]
  constructor
  · rintro ⟨other, hother, hid, hstate⟩
    obtain rfl := h.coherent.eq_of_id_eq hother ht hid
    cases h.awaited_of_mem hheld ht with
    | pending hpending => exact absurd (hpending.symm.trans hstate) (by simp)
    | fired _ heq => exact heq
  · intro heq
    cases h.awaited_of_mem hheld ht with
    | pending _ _ _ hlt => exact absurd heq (ne_of_gt (hlt hmem))
    | fired hstate => exact ⟨t, ht, rfl, hstate⟩

/-- A task that finds its wait not over goes on with it. -/
theorem Attended.keep (h : Attended clock (id :: ids) held q) (hheld : held id = some x)
    (hover : (q.takeFired x).1 = false) :
    Attended clock ids held (q.setWaker x (.task id)) := by
  have hstate : ∀ t : Timer τ Waker,
      (if t.id = x then t.rewake (.task id) else t).state = t.state := by
    intro t
    rw [apply_ite Timer.state, Timer.state_rewake, ite_self]
  have hgoes : ∀ t : Timer τ Waker,
      (if t.id = x then t.rewake (.task id) else t).Continues t := by
    intro t
    split
    · exact Timer.continues_rewake _ t
    · exact .refl t
  rw [setWaker_eq]
  refine ⟨h.coherent.modify x (Timer.continues_rewake _), h.now, fun t ht hne => ?_,
    fun other y hother => ?_, h.alone⟩
  · obtain ⟨old, hold, rfl⟩ := List.mem_map.1 ht
    rw [hstate] at hne
    rw [(hgoes old).id]
    exact h.owned old hold hne
  · obtain ⟨t, ht, rfl, hawaited⟩ := h.awaited other y hother
    refine ⟨_, List.mem_map_of_mem ht, (hgoes t).id, ?_⟩
    by_cases hid : t.id = x
    · -- the timer is that of the task itself, and it has not fired
      obtain rfl := h.alone id other x hheld (hid ▸ hother)
      rw [if_pos hid]
      cases hawaited with
      | pending hpending _ hle hlt =>
        rw [Timer.rewake_of_pending hpending]
        exact .pending hpending rfl hle fun hmem => hlt (List.mem_cons_of_mem _ hmem)
      | fired hfired _ _ =>
        have htaken := h.coherent.takeFired_iff.2 ⟨t, ht, hid, hfired⟩
        exact absurd (hover.symm.trans htaken) (by simp)
    · rw [if_neg hid]
      refine hawaited.of_cons ?_
      rintro rfl
      exact hid (Option.some.inj (hother.symm.trans hheld))

/-- A task lets go of its timer, which the queue forgets. -/
theorem Attended.release (h : Attended clock batch held q) (hheld : held id = some x)
    {after : TimerQueue τ Waker} (hcoherent : after.Coherent) (hnow : after.now = q.now)
    (hgone : ∀ t ∈ after.timers, t.state ≠ .cancelled → t ∈ q.timers ∧ t.id ≠ x)
    (hkept : ∀ t ∈ q.timers, t.id ≠ x → t ∈ after.timers)
    (hbatch : ∀ other, other ≠ id → (other ∈ ids ↔ other ∈ batch)) :
    Attended clock ids (Function.update held id none) after := by
  have hold : ∀ {other y}, Function.update held id none other = some y →
      other ≠ id ∧ held other = some y := by
    intro other y hother
    by_cases heq : other = id
    · rw [heq, Function.update_self] at hother
      exact nomatch hother
    · rw [Function.update_of_ne heq] at hother
      exact ⟨heq, hother⟩
  refine ⟨hcoherent, hnow.trans_le h.now, fun t ht hstate => ?_, fun other y hother => ?_,
    fun i j y hi hj => h.alone i j y (hold hi).2 (hold hj).2⟩
  · obtain ⟨hmem, hne⟩ := hgone t ht hstate
    obtain ⟨other, hother⟩ := h.owned t hmem hstate
    refine ⟨other, ?_⟩
    rw [Function.update_of_ne, hother]
    rintro rfl
    exact hne (Option.some.inj (hother.symm.trans hheld))
  · obtain ⟨hne, hother⟩ := hold hother
    obtain ⟨t, ht, rfl, hawaited⟩ := h.awaited other y hother
    refine ⟨t, hkept t ht ?_, rfl, hawaited.congr (hbatch other hne)⟩
    rintro rfl
    exact hne (h.alone other id t.id hother hheld)

/-- A task that finds its wait over holds no timer any more. -/
theorem Attended.take (h : Attended clock (id :: ids) held q) (hheld : held id = some x)
    (hover : (q.takeFired x).1 = true) :
    Attended clock ids (Function.update held id none) (q.takeFired x).2 := by
  obtain ⟨fired, hfired, hfid, hfstate⟩ := h.coherent.takeFired_iff.1 hover
  have hcoherent := h.coherent.takeFired x
  rw [h.coherent.takeFired_eq] at hcoherent ⊢
  refine h.release hheld hcoherent rfl (fun t ht _ => ?_) (fun t ht hne => ?_) fun other hne => ?_
  · obtain ⟨ht, hkept⟩ := List.mem_filter.1 ht
    refine ⟨ht, fun hid => of_decide_eq_true hkept ⟨hid, ?_⟩⟩
    obtain rfl := h.coherent.eq_of_id_eq ht hfired (hid.trans hfid.symm)
    exact hfstate
  · exact List.mem_filter.2 ⟨ht, decide_eq_true fun hboth => hne hboth.1⟩
  · rw [List.mem_cons, or_iff_right hne]

/-- A task that is dropped gives up its timer. -/
theorem Attended.giveUp (h : Attended clock [] held q) (hheld : held id = some x) (delay : τ) :
    Attended clock [] (Function.update held id none) (Sleep.drop ⟨delay, some x⟩ q) := by
  obtain ⟨t, ht, rfl, hawaited⟩ := h.awaited id x hheld
  have hpending : q.isPending t.id = true :=
    h.coherent.isPending_iff.2 ⟨t, ht, rfl, hawaited.state_of_nil⟩
  have hdrop : Sleep.drop ⟨delay, some t.id⟩ q = q.modify t.id Timer.callOff := by
    unfold Sleep.drop
    simp only [h.coherent.cancel_eq, hpending]
  rw [hdrop]
  refine h.release hheld (h.coherent.modify _ Timer.continues_callOff) rfl (fun t' ht' hstate => ?_)
    (fun t' ht' hne => List.mem_map.2 ⟨t', ht', if_neg hne⟩) fun _ _ => Iff.rfl
  obtain ⟨old, hold, rfl⟩ := List.mem_map.1 ht'
  by_cases hid : old.id = t.id
  · obtain rfl := h.coherent.eq_of_id_eq hold ht hid
    rw [if_pos rfl, Timer.callOff_of_pending hawaited.state_of_nil] at hstate
    exact absurd rfl hstate
  · rw [if_neg hid]
    exact ⟨hold, hid⟩

/-- A task begins to wait at the present time. -/
theorem Attended.begin [AddZeroClass τ] [AddLeftMono τ] (h : Attended clock batch held q)
    (hheld : held id = none) (hnot : id ∉ batch) (hnow : q.now = clock) (delay : τ) :
    Attended clock batch (Function.update held id (some q.nextId))
      (q.schedule delay (some (.task id))).2 := by
  have hle : clock ≤ q.now + max delay 0 := hnow ▸ le_add_of_nonneg_right (le_max_right delay 0)
  -- the number of the new timer is none of those that are awaited
  have hnew : ∀ {other}, held other ≠ some q.nextId := by
    intro other hother
    obtain ⟨t, ht, hid, -⟩ := h.awaited other _ hother
    exact absurd hid (Nat.ne_of_lt (h.coherent.below t ht))
  refine ⟨h.coherent.schedule delay _, h.now, fun t ht hstate => ?_, fun other y hother => ?_,
    fun i j y hi hj => ?_⟩
  · rw [timers_schedule] at ht
    rcases List.mem_append.1 ht with hold | hlast
    · obtain ⟨other, hother⟩ := h.owned t hold hstate
      refine ⟨other, ?_⟩
      rw [Function.update_of_ne, hother]
      rintro rfl
      exact absurd (hheld.symm.trans hother) (by simp)
    · rw [List.mem_singleton.1 hlast]
      exact ⟨id, Function.update_self ..⟩
  · rw [timers_schedule]
    by_cases heq : other = id
    · subst heq
      rw [Function.update_self] at hother
      exact ⟨_, List.mem_append_right _ List.mem_cons_self, Option.some.inj hother,
        .pending rfl rfl hle fun hmem => absurd hmem hnot⟩
    · rw [Function.update_of_ne heq] at hother
      obtain ⟨t, ht, hid, hawaited⟩ := h.awaited other y hother
      exact ⟨t, List.mem_append_left _ ht, hid, hawaited⟩
  · by_cases hieq : i = id <;> by_cases hjeq : j = id
    · rw [hieq, hjeq]
    · rw [hieq, Function.update_self] at hi
      rw [Function.update_of_ne hjeq, ← hi] at hj
      exact absurd hj hnew
    · rw [hjeq, Function.update_self] at hj
      rw [Function.update_of_ne hieq, ← hj] at hi
      exact absurd hi hnew
    · rw [Function.update_of_ne hieq] at hi
      rw [Function.update_of_ne hjeq] at hj
      exact h.alone i j y hi hj

/-- Time may go on up to the next deadline. -/
theorem Attended.jump (h : Attended clock [] held q) {later : τ} (hle : clock ≤ later)
    (hdeadlines : ∀ t ∈ q.timers, t.state = .pending → later ≤ t.deadline) :
    Attended later [] held q where
  coherent := h.coherent
  now := h.now.trans hle
  owned := h.owned
  awaited id x hheld := by
    obtain ⟨t, ht, hid, hawaited⟩ := h.awaited id x hheld
    refine ⟨t, ht, hid, ?_⟩
    cases hawaited with
    | pending hstate hwaker _ _ =>
      exact .pending hstate hwaker (hdeadlines t ht hstate) fun hmem => absurd hmem List.not_mem_nil
    | fired _ _ hmem => exact absurd hmem List.not_mem_nil
  alone := h.alone

end TimerQueue

end MountShell
