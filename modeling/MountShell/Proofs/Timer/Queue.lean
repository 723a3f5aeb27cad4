import Mathlib.Data.List.Nodup
import MountShell.Timer.Queue

/-!
# Which timers are pending

When waits follow one another, at most one timer is pending at any time: that of the wait which has
begun and has not been given up.  The invariant (`TimerQueue.Serves`) names the number of this
timer, if there is one, and says that no two timers have the same number.

Main statements: `Serves.tick`, time that goes by makes no other timer pending; `Serves.poll`, a
wait that is over leaves no timer pending; and `Serves.drop`, neither does one that is given up.
-/

namespace MountShell

namespace TimerQueue

variable {τ ω : Type} {q : TimerQueue τ ω} {owner : Option Nat}

/-- No two timers have the same number, and none is pending except that of the owner. -/
structure Serves (q : TimerQueue τ ω) (owner : Option Nat) : Prop where
  nodup : (q.timers.map Timer.id).Nodup
  below : ∀ t ∈ q.timers, t.id < q.nextId
  pending : ∀ t ∈ q.timers, t.state = .pending → owner = some t.id

/-- If no timer is pending, none is except that of an owner. -/
theorem Serves.of_none (h : q.Serves none) (owner : Option Nat) : q.Serves owner :=
  ⟨h.nodup, h.below, fun t ht hpending => absurd (h.pending t ht hpending) (by simp)⟩

theorem Serves.pendingCount (h : q.Serves none) : q.pendingCount = 0 := by
  unfold TimerQueue.pendingCount TimerQueue.pending
  rw [List.length_eq_zero_iff, List.filter_eq_nil_iff]
  intro t ht hpending
  exact absurd (h.pending t ht (of_decide_eq_true hpending)) (by simp)

/-- Timers that are forgotten, or changed without becoming pending, were served before. -/
theorem Serves.sublist (h : q.Serves owner) {other : TimerQueue τ ω}
    (hnext : other.nextId = q.nextId)
    (hids : (other.timers.map Timer.id).Sublist (q.timers.map Timer.id))
    (hstates : ∀ t ∈ other.timers, t.state = .pending →
      ∃ old ∈ q.timers, old.id = t.id ∧ old.state = .pending) : other.Serves owner := by
  refine ⟨h.nodup.sublist hids, fun t ht => ?_, fun t ht hpending => ?_⟩
  · obtain ⟨old, hold, hid⟩ := List.mem_map.1 (hids.subset (List.mem_map_of_mem ht))
    rw [hnext, ← hid]
    exact h.below old hold
  · obtain ⟨old, hold, hid, hwas⟩ := hstates t ht hpending
    rw [← hid]
    exact h.pending old hold hwas

theorem Serves.filter (h : q.Serves owner) (p : Timer τ ω → Bool) :
    Serves { q with timers := q.timers.filter p } owner := by
  refine h.sublist rfl (List.filter_sublist.map _) fun t ht hpending => ?_
  exact ⟨t, (List.mem_filter.1 ht).1, rfl, hpending⟩

/-- A change that keeps the number of a timer keeps all numbers. -/
theorem ids_modify (q : TimerQueue τ ω) (id : Nat) {f : Timer τ ω → Timer τ ω}
    (hid : ∀ t, (f t).id = t.id) :
    (q.modify id f).timers.map Timer.id = q.timers.map Timer.id := by
  show (q.timers.map _).map _ = _
  rw [List.map_map]
  refine List.map_congr_left fun t _ => ?_
  show Timer.id (if t.id = id then f t else t) = t.id
  by_cases ht : t.id = id
  · rw [if_pos ht]
    exact hid t
  · rw [if_neg ht]

/-- A change that keeps the numbers and makes no timer pending. -/
theorem Serves.modify (h : q.Serves owner) (id : Nat) {f : Timer τ ω → Timer τ ω}
    (hid : ∀ t, (f t).id = t.id) (hstate : ∀ t, (f t).state = .pending → t.state = .pending) :
    (q.modify id f).Serves owner := by
  refine h.sublist rfl (ids_modify q id hid ▸ List.Sublist.refl _) fun t ht hpending => ?_
  obtain ⟨old, hold, rfl⟩ := List.mem_map.1 ht
  by_cases hold' : old.id = id
  · rw [if_pos hold'] at hpending ⊢
    exact ⟨old, hold, (hid old).symm, hstate old hpending⟩
  · rw [if_neg hold'] at hpending ⊢
    exact ⟨old, hold, rfl, hpending⟩

theorem Serves.setWaker (h : q.Serves owner) (id : Nat) (waker : ω) :
    (q.setWaker id waker).Serves owner := by
  refine h.modify id (fun t => ?_) fun t => ?_
  · by_cases ht : t.state = .pending
    · rw [if_pos ht]
    · rw [if_neg ht]
  · by_cases ht : t.state = .pending
    · exact fun _ => ht
    · intro hpending
      rwa [if_neg ht] at hpending

theorem Serves.fire (h : q.Serves owner) (id : Nat) : (q.fire id).2.Serves owner := by
  unfold TimerQueue.fire
  cases q.find? id with
  | none => exact h
  | some t =>
    simp only
    by_cases ht : t.state = .pending
    · rw [if_pos ht]
      exact h.modify id (fun _ => rfl) fun _ hpending => absurd hpending (by simp)
    · rw [if_neg ht]
      exact h

/-- A timer that is found has the number that was looked for. -/
theorem eq_of_find? {id : Nat} {t : Timer τ ω} (h : q.find? id = some t) :
    t ∈ q.timers ∧ t.id = id :=
  ⟨List.mem_of_find?_eq_some h, by simpa using List.find?_some h⟩

/-- A timer is found by its number. -/
theorem find?_of_mem (hnodup : (q.timers.map Timer.id).Nodup) {t : Timer τ ω}
    (ht : t ∈ q.timers) : q.find? t.id = some t := by
  have hsome : (q.timers.find? fun other => other.id = t.id).isSome = true :=
    List.find?_isSome.2 ⟨t, ht, by simp⟩
  obtain ⟨found, hfound⟩ := Option.isSome_iff_exists.1 hsome
  obtain ⟨hmem, hid⟩ := eq_of_find? hfound
  obtain rfl : found = t := List.inj_on_of_nodup_map hnodup hmem ht hid
  exact hfound

theorem Serves.find? (h : q.Serves owner) {t : Timer τ ω} (ht : t ∈ q.timers) :
    q.find? t.id = some t :=
  find?_of_mem h.nodup ht

/-- Whether a timer has fired or not, it does not become pending by being asked. -/
theorem Serves.takeFired (h : q.Serves owner) (id : Nat) : (q.takeFired id).2.Serves owner := by
  unfold TimerQueue.takeFired
  cases q.find? id with
  | none => exact h
  | some t =>
    simp only
    by_cases ht : t.state = .fired
    · rw [if_pos ht]
      exact h.filter _
    · rw [if_neg ht]
      exact h

/-- The owner of a timer that has fired is served no more. -/
theorem Serves.takeFired_of_fired {id : Nat} (h : q.Serves (some id))
    (hfired : (q.takeFired id).1 = true) : (q.takeFired id).2.Serves none := by
  unfold TimerQueue.takeFired at hfired ⊢
  cases hfind : q.find? id with
  | none =>
    rw [hfind] at hfired
    exact absurd hfired (by simp)
  | some t =>
    rw [hfind] at hfired
    simp only at hfired ⊢
    by_cases ht : t.state = .fired
    · rw [if_pos ht]
      have hrest := h.filter fun t => decide (t.id ≠ id)
      refine ⟨hrest.nodup, hrest.below, fun other hother hpending => ?_⟩
      have hid := Option.some.inj (hrest.pending other hother hpending)
      exact absurd hid.symm (of_decide_eq_true (List.mem_filter.1 hother).2)
    · rw [if_neg ht] at hfired
      exact absurd hfired (by simp)

/-- Cancelling the timer of the owner leaves none pending. -/
theorem Serves.cancel {id : Nat} (h : q.Serves (some id)) : (q.cancel id).2.Serves none := by
  unfold TimerQueue.cancel
  by_cases hpending : q.isPending id = true
  · rw [if_pos hpending]
    have hkept : Serves (q.modify id fun t => { t with state := .cancelled, waker := none })
        (some id) :=
      h.modify id (fun _ => rfl) fun _ hnew => absurd hnew (by simp)
    refine ⟨hkept.nodup, hkept.below, fun t ht hstate => ?_⟩
    have hid := Option.some.inj (hkept.pending t ht hstate)
    obtain ⟨old, -, rfl⟩ := List.mem_map.1 ht
    by_cases hold : old.id = id
    · rw [if_pos hold] at hstate
      exact absurd hstate (by simp)
    · rw [if_neg hold] at hid
      exact absurd hid.symm hold
  · rw [if_neg hpending]
    refine ⟨h.nodup, h.below, fun t ht hstate => ?_⟩
    obtain rfl := Option.some.inj (h.pending t ht hstate)
    rw [isPending, h.find? ht] at hpending
    exact absurd (decide_eq_true hstate) hpending

/-- A wait that is given up leaves no timer pending. -/
theorem Serves.drop {s : Sleep τ} (h : q.Serves s.timer) : (s.drop q).Serves none := by
  unfold Sleep.drop
  cases htimer : s.timer with
  | none =>
    rw [htimer] at h
    exact h
  | some id =>
    rw [htimer] at h
    have hcancel := h.cancel
    simp only
    revert hcancel
    rcases q.cancel id with ⟨_ | _, after⟩
    · intro hcancel
      exact hcancel.takeFired id
    · intro hcancel
      exact hcancel

theorem serves_empty [Zero τ] : (empty : TimerQueue τ ω).Serves none :=
  ⟨List.nodup_nil, fun _ ht => absurd ht List.not_mem_nil, fun _ ht => absurd ht List.not_mem_nil⟩

/-- A timer with a number of its own comes last. -/
theorem nodup_ids_concat (h : (q.timers.map Timer.id).Nodup) {new : Timer τ ω}
    (hnew : ∀ t ∈ q.timers, t.id ≠ new.id) : ((q.timers ++ [new]).map Timer.id).Nodup := by
  rw [List.map_append]
  refine List.nodup_append.2 ⟨h, List.pairwise_singleton _ _, ?_⟩
  intro id hid id' hid'
  obtain ⟨t, ht, rfl⟩ := List.mem_map.1 hid
  rw [List.mem_singleton.1 hid']
  exact hnew t ht

section Time

variable [LT τ] [DecidableLT τ]

theorem Serves.fireDue (h : q.Serves owner) (n : Nat) : (q.fireDue n).2.Serves owner := by
  induction n generalizing q with
  | zero => exact h
  | succ n ih =>
    unfold TimerQueue.fireDue
    cases Heap.pop isBefore q.due with
    | none => exact h
    | some popped =>
      obtain ⟨first, rest⟩ := popped
      simp only
      by_cases hlater : q.now < first.deadline
      · rw [if_pos hlater]
        exact h
      · rw [if_neg hlater]
        have hrest : Serves { q with due := rest } owner := ⟨h.nodup, h.below, h.pending⟩
        exact ih (hrest.fire first.id)

/-- Time that goes by makes no timer pending. -/
theorem Serves.tick (h : q.Serves owner) (now : τ) : (q.tick now).2.Serves owner := by
  have hmoved : Serves { q with now := if q.now < now then now else q.now } owner :=
    ⟨h.nodup, h.below, h.pending⟩
  exact (hmoved.fireDue q.due.size).filter _

end Time

section Wait

variable [Zero τ] [Add τ] [LT τ] [DecidableLT τ]

/-- A timer that is scheduled when none is pending is the only one. -/
theorem Serves.schedule (h : q.Serves none) (delay : τ) (waker : Option ω) :
    (q.schedule delay waker).2.Serves (some (q.schedule delay waker).1) := by
  have hnew : ∀ t ∈ q.timers, t.id ≠ q.nextId := fun t ht => Nat.ne_of_lt (h.below t ht)
  refine ⟨?_, fun t ht => ?_, fun t ht hpending => ?_⟩
  · exact nodup_ids_concat h.nodup hnew
  · rcases List.mem_append.1 ht with hold | hlast
    · exact Nat.lt_succ_of_lt (h.below t hold)
    · rw [List.mem_singleton.1 hlast]
      exact Nat.lt_succ_self _
  · rcases List.mem_append.1 ht with hold | hlast
    · exact absurd (h.pending t hold hpending) (by simp)
    · rw [List.mem_singleton.1 hlast]
      rfl

/-- A wait that is looked at: if it is over no timer is pending, otherwise its own may be. -/
theorem Serves.poll {s : Sleep τ} (h : q.Serves s.timer) (waker : ω) :
    (s.poll q waker).2.2.Serves
      (if (s.poll q waker).1 then none else (s.poll q waker).2.1.timer) := by
  unfold Sleep.poll
  cases htimer : s.timer with
  | none =>
    rw [htimer] at h
    exact h.schedule s.delay (some waker)
  | some id =>
    rw [htimer] at h
    have hfired := h.takeFired_of_fired
    have hkept := h.takeFired id
    simp only
    revert hfired hkept
    rcases q.takeFired id with ⟨_ | _, after⟩
    · intro _ hkept
      simp only [htimer]
      exact hkept.setWaker id waker
    · intro hfired _
      exact hfired rfl

end Wait

end TimerQueue

end MountShell
