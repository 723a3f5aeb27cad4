import Mathlib.Order.MinMax
import MountShell.Proofs.Timer.Heap
import MountShell.Proofs.Timer.Queue

/-!
# What the operations of a queue do to its timers

The times of this module are totally ordered.  A queue is *coherent* (`TimerQueue.Coherent`) if no
two timers have one number, if the heap of the deadlines is in order, and if every timer that is
pending stands in the heap under its own deadline.  The heap may hold more, since it keeps the
deadlines of cancelled timers.

Every operation keeps a queue coherent, and for each of them one lemma says what has become of the
timers.  A change of one timer is a function on timers (`Timer.rewake`, `Timer.callOff`,
`Timer.fire`), and time that goes by is one as well (`Timer.expire`), although the loop that fires
timers follows the heap: `Coherent.fireDue` says that it fires the pending timers whose deadlines
are reached and no others, and that their wakers come out in the order of the deadlines.
-/

namespace MountShell

namespace Timer

variable {τ ω : Type}

/-- A timer that is pending gets a new waker. -/
def rewake (waker : ω) (t : Timer τ ω) : Timer τ ω :=
  if t.state = .pending then { t with waker := some waker } else t

/-- A timer that is pending is cancelled. -/
def callOff (t : Timer τ ω) : Timer τ ω :=
  if t.state = .pending then { t with state := .cancelled, waker := none } else t

/-- A timer that is pending fires. -/
def fire (t : Timer τ ω) : Timer τ ω :=
  if t.state = .pending then { t with state := .fired, waker := none } else t

/-- What time does to a timer. -/
def expire [LT τ] [DecidableLT τ] (now : τ) (t : Timer τ ω) : Timer τ ω :=
  if now < t.deadline then t else t.fire

/-- A timer that is as old as another, has its deadline, and is pending only if the other is. -/
structure Continues (t old : Timer τ ω) : Prop where
  id : t.id = old.id
  deadline : t.deadline = old.deadline
  pending : t.state = .pending → old.state = .pending

/-- A timer continues itself. -/
theorem Continues.refl (t : Timer τ ω) : Continues t t := ⟨rfl, rfl, fun h => h⟩

/-- Only a pending timer gets another waker. -/
theorem rewake_of_ne {t : Timer τ ω} (h : t.state ≠ .pending) (waker : ω) : t.rewake waker = t :=
  if_neg h

/-- Only a pending timer can be called off. -/
theorem callOff_of_ne {t : Timer τ ω} (h : t.state ≠ .pending) : t.callOff = t := if_neg h

/-- Only a pending timer fires. -/
theorem fire_of_ne {t : Timer τ ω} (h : t.state ≠ .pending) : t.fire = t := if_neg h

theorem rewake_of_pending {t : Timer τ ω} (h : t.state = .pending) (waker : ω) :
    t.rewake waker = { t with waker := some waker } :=
  if_pos h

theorem callOff_of_pending {t : Timer τ ω} (h : t.state = .pending) :
    t.callOff = { t with state := .cancelled, waker := none } :=
  if_pos h

theorem fire_of_pending {t : Timer τ ω} (h : t.state = .pending) :
    t.fire = { t with state := .fired, waker := none } :=
  if_pos h

/-- Getting another waker leaves the identity and the deadline of a timer. -/
theorem continues_rewake (waker : ω) (t : Timer τ ω) : Continues (t.rewake waker) t := by
  by_cases h : t.state = .pending
  · rw [rewake_of_pending h]
    exact ⟨rfl, rfl, fun _ => h⟩
  · rw [rewake_of_ne h]
    exact .refl t

/-- So does being called off. -/
theorem continues_callOff (t : Timer τ ω) : Continues t.callOff t := by
  by_cases h : t.state = .pending
  · rw [callOff_of_pending h]
    exact ⟨rfl, rfl, fun _ => h⟩
  · rw [callOff_of_ne h]
    exact .refl t

/-- So does firing. -/
theorem continues_fire (t : Timer τ ω) : Continues t.fire t := by
  by_cases h : t.state = .pending
  · rw [fire_of_pending h]
    exact ⟨rfl, rfl, fun _ => h⟩
  · rw [fire_of_ne h]
    exact .refl t

/-- Another waker does not change the state. -/
theorem state_rewake (waker : ω) (t : Timer τ ω) : (t.rewake waker).state = t.state := by
  unfold rewake
  split <;> rfl

/-- After firing a timer is not pending, whatever it was before. -/
theorem state_fire_ne_pending (t : Timer τ ω) : t.fire.state ≠ .pending := by
  by_cases h : t.state = .pending
  · rw [fire_of_pending h]
    exact fun hpending => nomatch hpending
  · rwa [fire_of_ne h]

/-- A timer that has been called off is not pending, whatever it was before. -/
theorem state_callOff_ne_pending (t : Timer τ ω) : t.callOff.state ≠ .pending := by
  by_cases h : t.state = .pending
  · rw [callOff_of_pending h]
    exact fun hpending => nomatch hpending
  · rwa [callOff_of_ne h]

/-- Calling off leaves a timer that has fired as it is. -/
theorem state_callOff_eq_fired_iff (t : Timer τ ω) :
    t.callOff.state = .fired ↔ t.state = .fired := by
  by_cases h : t.state = .pending
  · rw [callOff_of_pending h, h]
    exact iff_of_false (fun hfired => nomatch hfired) fun hfired => nomatch hfired
  · rw [callOff_of_ne h]

/-- Firing does not bring back a timer that has been called off. -/
theorem state_fire_eq_fired_iff (t : Timer τ ω) :
    t.fire.state = .fired ↔ t.state = .fired ∨ t.state = .pending := by
  by_cases h : t.state = .pending
  · rw [fire_of_pending h]
    exact ⟨fun _ => .inr h, fun _ => rfl⟩
  · rw [fire_of_ne h]
    exact (or_iff_left h).symm

section Order

variable [LinearOrder τ] {now : τ}

theorem continues_expire (now : τ) (t : Timer τ ω) : Continues (t.expire now) t := by
  unfold expire
  split
  · exact .refl t
  · exact continues_fire t

/-- A timer that is not pending does not expire. -/
theorem expire_of_ne {t : Timer τ ω} (h : t.state ≠ .pending) (now : τ) : t.expire now = t := by
  unfold expire
  rw [fire_of_ne h, ite_self]

/-- Nor does one whose deadline is still to come. -/
theorem expire_of_lt {t : Timer τ ω} (h : now < t.deadline) : t.expire now = t := if_pos h

/-- A timer whose deadline has come fires. -/
theorem expire_of_le {t : Timer τ ω} (h : t.deadline ≤ now) : t.expire now = t.fire :=
  if_neg (not_lt.2 h)

/-- A timer is pending still if its deadline lies ahead. -/
theorem state_expire_eq_pending_iff {t : Timer τ ω} :
    (t.expire now).state = .pending ↔ t.state = .pending ∧ now < t.deadline := by
  unfold expire
  split
  · next hlt => exact ⟨fun hpending => ⟨hpending, hlt⟩, And.left⟩
  · next hlt =>
    exact ⟨fun hpending => absurd hpending t.state_fire_ne_pending, fun h => absurd h.2 hlt⟩

/-- A timer has fired if it had before, or if it was pending and its deadline is reached. -/
theorem state_expire_eq_fired_iff {t : Timer τ ω} :
    (t.expire now).state = .fired ↔ t.state = .fired ∨ (t.state = .pending ∧ t.deadline ≤ now) := by
  unfold expire
  split
  · next hlt => exact ⟨.inl, fun hor => hor.resolve_right fun h => absurd h.2 (not_le.2 hlt)⟩
  · next hlt =>
    rw [state_fire_eq_fired_iff]
    exact or_congr_right (and_iff_left (not_lt.1 hlt)).symm

/-- A timer that has fired remains as it is. -/
theorem expire_fire (now : τ) (t : Timer τ ω) : t.fire.expire now = t.fire :=
  expire_of_ne t.state_fire_ne_pending now

end Order

end Timer

namespace TimerQueue

variable {τ ω : Type} {q : TimerQueue τ ω} {id : Nat}

/-- The pending timers are those of the queue in that state. -/
theorem mem_pending {t : Timer τ ω} : t ∈ q.pending ↔ t ∈ q.timers ∧ t.state = .pending := by
  unfold pending
  rw [List.mem_filter, decide_eq_true_iff]

/-- A change of pending timers changes nothing if the timer is not pending. -/
theorem modify_eq_self {f : Timer τ ω → Timer τ ω}
    (hf : ∀ t : Timer τ ω, t.state ≠ .pending → f t = t)
    (hid : ∀ t ∈ q.timers, t.id = id → t.state ≠ .pending) : q.modify id f = q := by
  show { q with timers := q.timers.map fun t => if t.id = id then f t else t } = q
  rw [List.map_congr_left (g := fun t => t) fun t ht => ?_, List.map_id']
  split
  · next heq => exact hf t (hid t ht heq)
  · rfl

/-- A change of a pending timer is one of the timer with its number. -/
theorem modify_congr {f g : Timer τ ω → Timer τ ω} (hfg : ∀ t ∈ q.timers, t.id = id → f t = g t) :
    q.modify id f = q.modify id g := by
  show { q with timers := _ } = { q with timers := _ }
  rw [List.map_congr_left fun t ht => ?_]
  split
  · next heq => exact hfg t ht heq
  · rfl

/-- Setting a waker changes the timer of that number only. -/
theorem setWaker_eq (q : TimerQueue τ ω) (id : Nat) (waker : ω) :
    q.setWaker id waker = q.modify id (Timer.rewake waker) :=
  rfl

/-- A timer that is pending fires, and gives up its waker. -/
theorem fire_of_pending (hnodup : (q.timers.map Timer.id).Nodup) {t : Timer τ ω}
    (ht : t ∈ q.timers) (hpending : t.state = .pending) :
    q.fire t.id = (t.waker, q.modify t.id Timer.fire) := by
  unfold TimerQueue.fire
  simp only [find?_of_mem hnodup ht, if_pos hpending]
  rw [modify_congr fun other hother heq => ?_]
  obtain rfl := List.inj_on_of_nodup_map hnodup hother ht heq
  exact (Timer.fire_of_pending hpending).symm

/-- Asking for a timer that has not fired changes nothing. -/
theorem takeFired_of_false (h : (q.takeFired id).1 = false) : (q.takeFired id).2 = q := by
  unfold takeFired at h ⊢
  cases hfind : q.find? id with
  | none => rfl
  | some t =>
    rw [hfind] at h
    by_cases hstate : t.state = .fired
    · simp [hstate] at h
    · simp only [if_neg hstate]

/-- Nothing fires if the timer is not pending. -/
theorem fire_of_ne (hid : ∀ t ∈ q.timers, t.id = id → t.state ≠ .pending) :
    q.fire id = (none, q.modify id Timer.fire) := by
  rw [modify_eq_self (fun _ => Timer.fire_of_ne) hid]
  unfold TimerQueue.fire
  cases hfind : q.find? id with
  | none => rfl
  | some t => exact if_neg (hid t (eq_of_find? hfind).1 (eq_of_find? hfind).2)

section Order

variable [LinearOrder τ]

/-- Deadlines are ranked by their times. -/
theorem ranks_isBefore : Heap.Ranks (isBefore : Due τ → Due τ → Bool) where
  asymm h := decide_eq_false (lt_asymm (of_decide_eq_true h))
  trans h h' := decide_eq_false
    (not_lt.2 (le_trans (not_lt.1 (of_decide_eq_false h)) (not_lt.1 (of_decide_eq_false h'))))

/-- The timers and the heap of the deadlines fit together. -/
structure Coherent (q : TimerQueue τ ω) : Prop where
  nodup : (q.timers.map Timer.id).Nodup
  below : ∀ t ∈ q.timers, t.id < q.nextId
  ordered : Heap.Ordered isBefore q.due
  due : ∀ t ∈ q.timers, t.state = .pending → ⟨t.deadline, t.id⟩ ∈ q.due.toList
  dated : ∀ d ∈ q.due.toList,
    d.id < q.nextId ∧ ∀ t ∈ q.timers, t.id = d.id → t.deadline = d.deadline

/-- An empty queue is coherent. -/
theorem coherent_empty [Zero τ] : (empty : TimerQueue τ ω).Coherent where
  nodup := List.nodup_nil
  below _ ht := absurd ht List.not_mem_nil
  ordered := Heap.ordered_empty
  due _ ht := absurd ht List.not_mem_nil
  dated _ hd := absurd hd List.not_mem_nil

/-- The time of a queue does not matter to its coherence. -/
theorem Coherent.at_time (h : q.Coherent) (now : τ) : Coherent { q with now } :=
  ⟨h.nodup, h.below, h.ordered, h.due, h.dated⟩

/-- Timers have different numbers. -/
theorem Coherent.eq_of_id_eq (h : q.Coherent) {t t' : Timer τ ω} (ht : t ∈ q.timers)
    (ht' : t' ∈ q.timers) (hid : t.id = t'.id) : t = t' :=
  List.inj_on_of_nodup_map h.nodup ht ht' hid

/-- Timers that go on, some of them perhaps forgotten. -/
theorem Coherent.keep (h : q.Coherent) {timers : List (Timer τ ω)}
    (hids : (timers.map Timer.id).Sublist (q.timers.map Timer.id))
    (hold : ∀ t ∈ timers, ∃ old ∈ q.timers, t.Continues old) :
    Coherent { q with timers } where
  nodup := h.nodup.sublist hids
  below t ht := by
    obtain ⟨old, hmem, hgoes⟩ := hold t ht
    rw [hgoes.id]
    exact h.below old hmem
  ordered := h.ordered
  due t ht hpending := by
    obtain ⟨old, hmem, hgoes⟩ := hold t ht
    rw [hgoes.id, hgoes.deadline]
    exact h.due old hmem (hgoes.pending hpending)
  dated d hd := by
    obtain ⟨hlt, hdeadline⟩ := h.dated d hd
    refine ⟨hlt, fun t ht hid => ?_⟩
    obtain ⟨old, hmem, hgoes⟩ := hold t ht
    rw [hgoes.deadline]
    exact hdeadline old hmem (hgoes.id.symm.trans hid)

/-- Timers may change as long as each continues the one it was. -/
theorem Coherent.map (h : q.Coherent) {f : Timer τ ω → Timer τ ω} (hf : ∀ t, (f t).Continues t) :
    Coherent { q with timers := q.timers.map f } := by
  refine h.keep ?_ fun t ht => ?_
  · rw [List.map_map, List.map_congr_left (f := Timer.id ∘ f) fun t _ => (hf t).id]
  · obtain ⟨old, hmem, rfl⟩ := List.mem_map.1 ht
    exact ⟨old, hmem, hf old⟩

/-- Timers may be forgotten. -/
theorem Coherent.filter (h : q.Coherent) (p : Timer τ ω → Bool) :
    Coherent { q with timers := q.timers.filter p } :=
  h.keep (List.filter_sublist.map _) fun t ht => ⟨t, (List.mem_filter.1 ht).1, .refl t⟩

/-- A change of the timer with one number. -/
theorem Coherent.modify (h : q.Coherent) (id : Nat) {f : Timer τ ω → Timer τ ω}
    (hf : ∀ t, (f t).Continues t) : (q.modify id f).Coherent := by
  refine h.map fun t => ?_
  split
  · exact hf t
  · exact .refl t

/-! ### Looking a timer up -/

/-- In a coherent queue a number is pending just when its timer is. -/
theorem Coherent.isPending_iff (h : q.Coherent) :
    q.isPending id = true ↔ ∃ t ∈ q.timers, t.id = id ∧ t.state = .pending := by
  unfold isPending
  constructor
  · intro hpending
    cases hfind : q.find? id with
    | none => simp [hfind] at hpending
    | some t =>
      rw [hfind] at hpending
      exact ⟨t, (eq_of_find? hfind).1, (eq_of_find? hfind).2, of_decide_eq_true hpending⟩
  · rintro ⟨t, ht, rfl, hpending⟩
    rw [find?_of_mem h.nodup ht]
    exact decide_eq_true hpending

/-- Cancelling a timer takes it away if it is pending, and does nothing otherwise. -/
theorem Coherent.cancel_eq (h : q.Coherent) (id : Nat) :
    q.cancel id = (q.isPending id, q.modify id Timer.callOff) := by
  unfold TimerQueue.cancel
  by_cases hpending : q.isPending id = true
  · rw [if_pos hpending, hpending]
    obtain ⟨t, ht, hid, hstate⟩ := h.isPending_iff.1 hpending
    rw [modify_congr fun other hother heq => ?_]
    obtain rfl := h.eq_of_id_eq hother ht (heq.trans hid.symm)
    exact (Timer.callOff_of_pending hstate).symm
  · rw [if_neg hpending, Bool.eq_false_of_not_eq_true hpending,
      modify_eq_self (fun _ => Timer.callOff_of_ne) fun t ht hid hstate => ?_]
    exact hpending (h.isPending_iff.2 ⟨t, ht, hid, hstate⟩)

/-- A firing can be taken just when the timer of that number has fired. -/
theorem Coherent.takeFired_iff (h : q.Coherent) :
    (q.takeFired id).1 = true ↔ ∃ t ∈ q.timers, t.id = id ∧ t.state = .fired := by
  unfold TimerQueue.takeFired
  constructor
  · intro hfired
    cases hfind : q.find? id with
    | none => simp [hfind] at hfired
    | some t =>
      rw [hfind] at hfired
      by_cases hstate : t.state = .fired
      · exact ⟨t, (eq_of_find? hfind).1, (eq_of_find? hfind).2, hstate⟩
      · simp [hstate] at hfired
  · rintro ⟨t, ht, rfl, hstate⟩
    simp only [find?_of_mem h.nodup ht, if_pos hstate]

/-- Asking for a timer that has fired forgets it, and does nothing otherwise. -/
theorem Coherent.takeFired_eq (h : q.Coherent) (id : Nat) :
    (q.takeFired id).2 =
      { q with timers := q.timers.filter fun t => ¬(t.id = id ∧ t.state = .fired) } := by
  have hkept : (∀ t ∈ q.timers, t.id = id → t.state ≠ .fired) →
      q = { q with timers := q.timers.filter fun t => ¬(t.id = id ∧ t.state = .fired) } := by
    intro hnone
    have hall : ∀ t ∈ q.timers, decide (¬(t.id = id ∧ t.state = .fired)) = true :=
      fun t ht => decide_eq_true fun hboth => hnone t ht hboth.1 hboth.2
    rw [List.filter_eq_self.2 hall]
  unfold TimerQueue.takeFired
  cases hfind : q.find? id with
  | none =>
    refine hkept fun t ht hid _ => ?_
    rw [← hid, find?_of_mem h.nodup ht] at hfind
    exact absurd hfind (by simp)
  | some t =>
    obtain ⟨ht, rfl⟩ := eq_of_find? hfind
    have honly : ∀ other ∈ q.timers, other.id = t.id → other = t :=
      fun other hother => h.eq_of_id_eq hother ht
    by_cases hstate : t.state = .fired
    · simp only [if_pos hstate]
      rw [List.filter_congr fun other hother => ?_]
      rw [decide_eq_decide]
      refine ⟨fun hne hboth => hne hboth.1, fun hnot heq => hnot ⟨heq, ?_⟩⟩
      rw [honly other hother heq]
      exact hstate
    · simp only [if_neg hstate]
      exact hkept fun other hother heq => honly other hother heq ▸ hstate

theorem Coherent.takeFired (h : q.Coherent) (id : Nat) : (q.takeFired id).2.Coherent := by
  rw [h.takeFired_eq]
  exact h.filter _

/-! ### The next deadline -/

/-- A fold that keeps the earlier of two deadlines ends with the least one. -/
theorem foldl_earlier (earlier : Option τ → Timer τ ω → Option τ)
    (hearlier : ∀ d t, earlier (some d) t = if t.deadline < d then some t.deadline else some d)
    (rest : List (Timer τ ω)) (d : τ) :
    rest.foldl earlier (some d) = some ((rest.map Timer.deadline).foldl min d) := by
  induction rest generalizing d with
  | nil => rfl
  | cons t rest ih =>
    rw [List.foldl_cons, List.map_cons, List.foldl_cons, hearlier]
    by_cases hlt : t.deadline < d
    · rw [if_pos hlt, ih, min_eq_right hlt.le]
    · rw [if_neg hlt, ih, min_eq_left (not_lt.1 hlt)]

/-- The next deadline is the least one. -/
theorem nextDeadline_eq_min? (q : TimerQueue τ ω) :
    q.nextDeadline = (q.pending.map Timer.deadline).min? := by
  unfold nextDeadline
  cases q.pending with
  | nil => rfl
  | cons t rest => exact foldl_earlier _ (fun _ _ => rfl) rest t.deadline

/-- The next deadline is the least one of the pending timers. -/
theorem nextDeadline_eq_some_iff {d : τ} : q.nextDeadline = some d ↔
    (∃ t ∈ q.timers, t.state = .pending ∧ t.deadline = d) ∧
      ∀ t ∈ q.timers, t.state = .pending → d ≤ t.deadline := by
  have : Std.LawfulOrderMin τ :=
    { min_eq_or := min_choice, le_min_iff := fun _ _ _ => le_min_iff }
  rw [nextDeadline_eq_min?, List.min?_eq_some_iff, List.forall_mem_map, List.mem_map]
  simp only [mem_pending, and_assoc, and_imp]

/-- There is no next deadline just when no timer is pending. -/
theorem nextDeadline_eq_none_iff :
    q.nextDeadline = none ↔ ∀ t ∈ q.timers, t.state ≠ .pending := by
  rw [nextDeadline_eq_min?, List.min?_eq_none_iff, List.map_eq_nil_iff,
    List.eq_nil_iff_forall_not_mem]
  simp only [mem_pending, not_and]

/-- There is a next deadline as long as a timer is pending. -/
theorem nextDeadline_eq_none_iff_pendingCount :
    q.nextDeadline = none ↔ q.pendingCount = 0 := by
  rw [nextDeadline_eq_min?, List.min?_eq_none_iff, List.map_eq_nil_iff]
  exact List.length_eq_zero_iff.symm

/-! ### Timers that are scheduled -/

/-- A timer that is scheduled is the last one. -/
theorem timers_schedule [Zero τ] [Add τ] (q : TimerQueue τ ω) (delay : τ) (waker : Option ω) :
    (q.schedule delay waker).2.timers =
      q.timers ++ [⟨q.nextId, q.now + max delay 0, waker, .pending⟩] := by
  have hmax : (if 0 < delay then delay else 0) = max delay 0 := by
    by_cases hpos : 0 < delay
    · rw [if_pos hpos, max_eq_left hpos.le]
    · rw [if_neg hpos, max_eq_right (not_lt.1 hpos)]
  rw [← hmax]
  rfl

/-- A new timer has a number of its own. -/
theorem Coherent.schedule [Zero τ] [Add τ] (h : q.Coherent) (delay : τ) (waker : Option ω) :
    (q.schedule delay waker).2.Coherent := by
  have hnew : ∀ t ∈ q.timers, t.id ≠ q.nextId := fun t ht => Nat.ne_of_lt (h.below t ht)
  -- the heap holds what it held, and the deadline of the new timer
  have hdue : ∀ d : Due τ, d ∈ (q.schedule delay waker).2.due.toList ↔
      d = ⟨q.now + (if 0 < delay then delay else 0), q.nextId⟩ ∨ d ∈ q.due.toList := by
    intro d
    rw [← List.mem_cons]
    exact (Heap.perm_push isBefore q.due _).mem_iff
  constructor
  case nodup => exact nodup_ids_concat h.nodup hnew
  case below =>
    intro t ht
    rcases List.mem_append.1 ht with hold | hlast
    · exact Nat.lt_succ_of_lt (h.below t hold)
    · rw [List.mem_singleton.1 hlast]
      exact Nat.lt_succ_self _
  case ordered => exact h.ordered.push ranks_isBefore _
  case due =>
    intro t ht hpending
    rw [hdue]
    rcases List.mem_append.1 ht with hold | hlast
    · exact .inr (h.due t hold hpending)
    · exact .inl (by rw [List.mem_singleton.1 hlast])
  case dated =>
    intro d hd
    rcases (hdue d).1 hd with rfl | hd
    · refine ⟨Nat.lt_succ_self _, fun t ht hid => ?_⟩
      rcases List.mem_append.1 ht with hold | hlast
      · exact absurd hid (hnew t hold)
      · rw [List.mem_singleton.1 hlast]
    · obtain ⟨hlt, hdeadline⟩ := h.dated d hd
      refine ⟨Nat.lt_succ_of_lt hlt, fun t ht hid => ?_⟩
      rcases List.mem_append.1 ht with hold | hlast
      · exact hdeadline t hold hid
      · rw [List.mem_singleton.1 hlast] at hid
        exact absurd hid.symm (Nat.ne_of_lt hlt)

/-! ### Time that goes by -/

/-- The timer that is taken out of the heap fires, or was not pending. -/
theorem Coherent.fire_pop (h : q.Coherent) {first : Due τ} {rest : Array (Due τ)}
    (hpop : Heap.pop isBefore q.due = some (first, rest)) :
    Coherent ({ q with due := rest }.modify first.id Timer.fire) := by
  have hmoved := h.modify first.id Timer.continues_fire
  have hperm := Heap.perm_pop hpop
  refine ⟨hmoved.nodup, hmoved.below, h.ordered.pop ranks_isBefore hpop, fun t ht hpending => ?_,
    fun d hd => hmoved.dated d (hperm.mem_iff.2 (List.mem_cons_of_mem _ hd))⟩
  -- the entry that has been taken out belongs to no timer that is pending still
  rcases List.mem_cons.1 (hperm.mem_iff.1 (hmoved.due t ht hpending)) with hfirst | hrest
  · obtain ⟨old, -, rfl⟩ := List.mem_map.1 ht
    by_cases hid : old.id = first.id
    · rw [if_pos hid] at hpending
      exact absurd hpending old.state_fire_ne_pending
    · rw [if_neg hid] at hfirst
      exact absurd (congrArg Due.id hfirst) hid
  · exact hrest

/-- What a queue becomes when some timers fire. -/
structure Fires (q : TimerQueue τ ω) (fired : List (Timer τ ω)) (wakers : List ω)
    (after : TimerQueue τ ω) : Prop where
  mem_iff : ∀ t, t ∈ fired ↔ t ∈ q.timers ∧ t.state = .pending ∧ t.deadline ≤ q.now
  nodup : fired.Nodup
  sorted : fired.Pairwise fun t t' => t.deadline ≤ t'.deadline
  wakers : wakers = fired.filterMap Timer.waker
  timers : after.timers = q.timers.map (Timer.expire q.now)
  now : after.now = q.now
  nextId : after.nextId = q.nextId

/-- If no deadline is reached, nothing changes. -/
theorem fires_nil (h : ∀ t ∈ q.timers, t.state = .pending → q.now < t.deadline) :
    q.Fires [] [] q where
  mem_iff t := by
    refine ⟨fun ht => absurd ht List.not_mem_nil, fun ht => absurd (h t ht.1 ht.2.1) ?_⟩
    exact not_lt.2 ht.2.2
  nodup := List.nodup_nil
  sorted := .nil
  wakers := rfl
  timers := by
    rw [List.map_congr_left (g := fun t => t) fun t ht => ?_, List.map_id']
    by_cases hpending : t.state = .pending
    · exact Timer.expire_of_lt (h t ht hpending)
    · exact Timer.expire_of_ne hpending q.now
  now := rfl
  nextId := rfl

/-- The timers that fire after the one with the given number has fired, if it was pending. -/
theorem Fires.of_modify {due : Array (Due τ)} {fired : List (Timer τ ω)} {wakers : List ω}
    {after : TimerQueue τ ω} (h : ({ q with due }.modify id Timer.fire).Fires fired wakers after)
    (t : Timer τ ω) :
    t ∈ fired ↔ t.id ≠ id ∧ t ∈ q.timers ∧ t.state = .pending ∧ t.deadline ≤ q.now := by
  rw [h.mem_iff]
  constructor
  · rintro ⟨ht, hpending, hle⟩
    obtain ⟨old, hold, rfl⟩ := List.mem_map.1 ht
    by_cases hid : old.id = id
    · rw [if_pos hid] at hpending
      exact absurd hpending old.state_fire_ne_pending
    · rw [if_neg hid] at hpending hle ⊢
      exact ⟨hid, hold, hpending, hle⟩
  · rintro ⟨hid, ht, hpending, hle⟩
    exact ⟨List.mem_map.2 ⟨t, ht, if_neg hid⟩, hpending, hle⟩

/-- Time does the same to all timers if the one with the given number, which is due, has fired
already. -/
theorem map_expire_modify (hdue : ∀ t ∈ q.timers, t.id = id → t.deadline ≤ q.now) :
    (q.modify id Timer.fire).timers.map (Timer.expire q.now) =
      q.timers.map (Timer.expire q.now) := by
  show (q.timers.map _).map (Timer.expire q.now) = _
  rw [List.map_map]
  refine List.map_congr_left fun t ht => ?_
  show Timer.expire q.now (if t.id = id then t.fire else t) = t.expire q.now
  by_cases hid : t.id = id
  · rw [if_pos hid, Timer.expire_fire, Timer.expire_of_le (hdue t ht hid)]
  · rw [if_neg hid]

/-- The first timer fires, and then the others do. -/
theorem Fires.cons {due : Array (Due τ)} {first : Timer τ ω} {fired : List (Timer τ ω)}
    {wakers : List ω} {after : TimerQueue τ ω} (hcoherent : q.Coherent) (hfirst : first ∈ q.timers)
    (hpending : first.state = .pending) (hdue : first.deadline ≤ q.now)
    (hleast : ∀ t ∈ q.timers, t.state = .pending → first.deadline ≤ t.deadline)
    (h : ({ q with due }.modify first.id Timer.fire).Fires fired wakers after) :
    q.Fires (first :: fired) (first.waker.toList ++ wakers) after where
  mem_iff t := by
    rw [List.mem_cons, h.of_modify]
    constructor
    · rintro (rfl | ⟨-, ht⟩)
      · exact ⟨hfirst, hpending, hdue⟩
      · exact ht
    · intro ht
      by_cases hid : t.id = first.id
      · exact .inl (hcoherent.eq_of_id_eq ht.1 hfirst hid)
      · exact .inr ⟨hid, ht⟩
  nodup := List.nodup_cons.2 ⟨fun hmem => ((h.of_modify first).1 hmem).1 rfl, h.nodup⟩
  sorted := .cons (fun t ht =>
    hleast t ((h.of_modify t).1 ht).2.1 ((h.of_modify t).1 ht).2.2.1) h.sorted
  wakers := by
    rw [h.wakers]
    cases hwaker : first.waker with
    | none => rw [List.filterMap_cons_none hwaker]; rfl
    | some waker => rw [List.filterMap_cons_some hwaker]; rfl
  timers := h.timers.trans (map_expire_modify fun t ht hid => by
    rw [hcoherent.eq_of_id_eq ht hfirst hid]
    exact hdue)
  now := h.now
  nextId := h.nextId

/-- An entry of the heap whose timer is not pending fires nothing. -/
theorem Fires.skip {due : Array (Due τ)} {fired : List (Timer τ ω)} {wakers : List ω}
    {after : TimerQueue τ ω} (hid : ∀ t ∈ q.timers, t.id = id → t.state ≠ .pending)
    (h : ({ q with due }.modify id Timer.fire).Fires fired wakers after) :
    q.Fires fired wakers after where
  mem_iff t := by
    rw [h.of_modify]
    exact ⟨fun ht => ht.2, fun ht => ⟨fun heq => hid t ht.1 heq ht.2.1, ht⟩⟩
  nodup := h.nodup
  sorted := h.sorted
  wakers := h.wakers
  timers := by
    rw [h.timers, modify_eq_self (q := { q with due }) (fun _ => Timer.fire_of_ne) hid]
  now := h.now
  nextId := h.nextId

/-- The loop fires all timers whose deadlines are reached, the earlier deadlines first. -/
theorem Coherent.fireDue (h : q.Coherent) {n : Nat} (hn : q.due.size ≤ n) :
    (q.fireDue n).2.Coherent ∧ ∃ fired, q.Fires fired (q.fireDue n).1 (q.fireDue n).2 := by
  -- an empty heap, or one whose first deadline lies ahead, leaves nothing to fire
  have hstop (hahead : ∀ d ∈ q.due.toList, q.now < d.deadline) :
      q.Coherent ∧ ∃ fired, q.Fires fired [] q :=
    ⟨h, [], fires_nil fun t ht hpending => hahead _ (h.due t ht hpending)⟩
  induction n generalizing q with
  | zero =>
    rw [Array.size_eq_zero_iff.1 (Nat.le_zero.1 hn)] at hstop
    exact hstop fun d hd => absurd hd List.not_mem_nil
  | succ n ih =>
    unfold TimerQueue.fireDue
    cases hpop : Heap.pop isBefore q.due with
    | none =>
      rw [Heap.pop_eq_none_iff.1 hpop] at hstop
      exact hstop fun d hd => absurd hd List.not_mem_nil
    | some popped =>
      obtain ⟨first, rest⟩ := popped
      have hperm := Heap.perm_pop hpop
      have hfirst : ∀ d ∈ q.due.toList, first.deadline ≤ d.deadline := fun d hd =>
        not_lt.1 (of_decide_eq_false (h.ordered.not_before_pop ranks_isBefore hpop hd))
      simp only
      by_cases hlater : q.now < first.deadline
      · rw [if_pos hlater]
        exact hstop fun d hd => lt_of_lt_of_le hlater (hfirst d hd)
      · rw [if_neg hlater]
        have hsize : rest.size ≤ n := by
          have hlength := hperm.length_eq
          simp only [Array.length_toList, List.length_cons] at hlength
          omega
        have hafter := h.fire_pop hpop
        obtain ⟨hcoherent, fired, hfires⟩ := ih hafter hsize fun hahead =>
          ⟨hafter, [], fires_nil fun t ht hpending => hahead _ (hafter.due t ht hpending)⟩
        by_cases hpending : ∃ t ∈ q.timers, t.id = first.id ∧ t.state = .pending
        · obtain ⟨t, ht, hid, hstate⟩ := hpending
          -- The timer that is taken out has the first of all deadlines, so that it fires before the
          -- others.
          have hdate : t.deadline = first.deadline :=
            (h.dated first (hperm.mem_iff.2 List.mem_cons_self)).2 t ht hid
          rw [← hid] at hcoherent hfires ⊢
          rw [fire_of_pending (q := { q with due := rest }) h.nodup ht hstate]
          refine ⟨hcoherent, t :: fired, hfires.cons h ht hstate ?_ fun other hother hother' => ?_⟩
          · exact hdate.trans_le (not_lt.1 hlater)
          · exact hdate.trans_le (hfirst _ (h.due other hother hother'))
        · have hnone : ∀ t ∈ q.timers, t.id = first.id → t.state ≠ .pending :=
            fun t ht hid hstate => hpending ⟨t, ht, hid, hstate⟩
          rw [fire_of_ne (q := { q with due := rest }) hnone]
          exact ⟨hcoherent, fired, hfires.skip hnone⟩

/-- Time that goes by fires the timers whose deadlines are reached, and forgets those that are
cancelled. -/
theorem Coherent.tick (h : q.Coherent) (now : τ) :
    (q.tick now).2.Coherent ∧ (q.tick now).2.now = max q.now now ∧
      (q.tick now).2.nextId = q.nextId ∧
      (q.tick now).2.timers =
        (q.timers.map (Timer.expire (max q.now now))).filter (fun t => t.state ≠ .cancelled) ∧
      ∃ fired : List (Timer τ ω),
        (∀ t, t ∈ fired ↔ t ∈ q.timers ∧ t.state = .pending ∧ t.deadline ≤ max q.now now) ∧
        fired.Nodup ∧ fired.Pairwise (fun t t' => t.deadline ≤ t'.deadline) ∧
        (q.tick now).1 = fired.filterMap Timer.waker := by
  have hnow : (if q.now < now then now else q.now) = max q.now now := by
    by_cases hlt : q.now < now
    · rw [if_pos hlt, max_eq_right hlt.le]
    · rw [if_neg hlt, max_eq_left (not_lt.1 hlt)]
  obtain ⟨hcoherent, fired, hfires⟩ := (h.at_time (max q.now now)).fireDue (le_refl q.due.size)
  unfold TimerQueue.tick
  simp only [hnow]
  refine ⟨hcoherent.filter _, hfires.now, hfires.nextId, ?_, fired, hfires.mem_iff, hfires.nodup,
    hfires.sorted, hfires.wakers⟩
  rw [hfires.timers]

end Order

end TimerQueue

end MountShell
