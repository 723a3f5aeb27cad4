import MountShell.Timer.Heap

/-!
# Heaps keep their order

A heap whose entries are in order from each parent to its children gives up an entry that no other
is before, and stays in order.  The order is any `before` under which "not after" is transitive
(`Heap.Ranks`).

Between two steps the order may be broken at one place.  While an entry rises, only its own place
may be before the parent of the place (`RaiseReady`).  While an entry sinks, its place may be out of
order with the parent and with the children (`SinkReady`), and at the bottom, where there are no
children, what remains is the state of an entry that rises.

Main statements: `Ordered.push` and `perm_push`, an entry is added; `Ordered.pop`, `perm_pop` and
`Ordered.not_before_pop`, an entry that no other is before is taken out; and `pop_eq_none_iff`, that
can be done until the heap is empty.
-/

namespace MountShell.Heap

variable {α : Type} {before : α → α → Bool} {heap : Array α} {i j k : Nat}

/-- Entries are ranked: none is before one that is before it, and "not after" is transitive. -/
structure Ranks (before : α → α → Bool) : Prop where
  asymm : ∀ {a b}, before a b = true → before b a = false
  trans : ∀ {a b c}, before b a = false → before c b = false → before c a = false

/-- The entry at `j` is not before the one at `i`, if there are entries at both places. -/
def Le (before : α → α → Bool) (heap : Array α) (i j : Nat) : Prop :=
  ∀ a b, heap[i]? = some a → heap[j]? = some b → before b a = false

/-- The order of the places of a heap is transitive, as long as the place between is one of them. -/
theorem Le.trans (hranks : Ranks before) (hij : Le before heap i j) (hjk : Le before heap j k)
    (hj : j < heap.size) : Le before heap i k := by
  intro a c ha hc
  have hb : heap[j]? = some heap[j] := Array.getElem?_eq_getElem hj
  exact hranks.trans (hij a _ ha hb) (hjk _ c hb hc)

/-- Outside the heap nothing comes earlier. -/
theorem le_of_size_le (h : heap.size ≤ j) : Le before heap i j := by
  intro a b _ hb
  rw [Array.getElem?_eq_none h] at hb
  exact absurd hb (by simp)

/-- No member comes before itself. -/
theorem le_refl (hranks : Ranks before) (i : Nat) : Le before heap i i := by
  intro a b ha hb
  obtain rfl : a = b := Option.some.inj (ha.symm.trans hb)
  cases hself : before a a with
  | false => rfl
  | true => exact absurd (hranks.asymm hself) (by simp [hself])

/-- A member that comes before another is in order with it. -/
theorem le_of_before (hranks : Ranks before) {x y : α} (hi : heap[i]? = some x)
    (hj : heap[j]? = some y) (h : before x y = true) : Le before heap i j := by
  intro a b ha hb
  obtain rfl : x = a := Option.some.inj (hi.symm.trans ha)
  obtain rfl : y = b := Option.some.inj (hj.symm.trans hb)
  exact hranks.asymm h

/-- So is one that the other does not come before. -/
theorem le_of_not_before {x y : α} (hi : heap[i]? = some x) (hj : heap[j]? = some y)
    (h : ¬before y x = true) : Le before heap i j := by
  intro a b ha hb
  obtain rfl : x = a := Option.some.inj (hi.symm.trans ha)
  obtain rfl : y = b := Option.some.inj (hj.symm.trans hb)
  simpa using h

/-- No entry is before the one at its parent. -/
def Ordered (before : α → α → Bool) (heap : Array α) : Prop :=
  ∀ j, 0 < j → Le before heap (parent j) j

/-- In order, except that the entry at `i` may be before the one at its parent. -/
structure RaiseReady (before : α → α → Bool) (heap : Array α) (i : Nat) : Prop where
  inside : i < heap.size
  except : ∀ j, 0 < j → j ≠ i → Le before heap (parent j) j
  across : 0 < i → ∀ j, 0 < j → parent j = i → Le before heap (parent i) j

/-- In order, except between the entry at `i` and its parent and children. -/
structure SinkReady (before : α → α → Bool) (heap : Array α) (i : Nat) : Prop where
  inside : i < heap.size
  except : ∀ j, 0 < j → j ≠ i → parent j ≠ i → Le before heap (parent j) j
  across : 0 < i → ∀ j, 0 < j → parent j = i → Le before heap (parent i) j

/-- A parent has a smaller place. -/
theorem parent_lt (h : 0 < i) : parent i < i := by
  unfold parent
  omega

/-! ### Exchanging two entries -/

/-- Where the entry at `k` was before the entries at `i` and `j` were exchanged. -/
def exchanged (i j k : Nat) : Nat :=
  if k = i then j else if k = j then i else k

theorem exchanged_left (i j : Nat) : exchanged i j i = j :=
  if_pos rfl

theorem exchanged_right (i j : Nat) : exchanged i j j = i := by
  unfold exchanged
  split
  · assumption
  · exact if_pos rfl

theorem exchanged_of_ne (hi : k ≠ i) (hj : k ≠ j) : exchanged i j k = k := by
  rw [exchanged, if_neg hi, if_neg hj]

/-- What stands where after two members have been exchanged. -/
theorem getElem?_exchange (hi : i < heap.size) (hj : j < heap.size) (k : Nat) :
    (heap.swapIfInBounds i j)[k]? = heap[exchanged i j k]? := by
  rw [Array.swapIfInBounds_def, dif_pos hi, dif_pos hj, Array.getElem?_swap, exchanged]
  by_cases hki : k = i
  · subst hki
    rw [if_pos rfl]
    by_cases hjk : j = k
    · subst hjk
      rw [if_pos rfl, if_pos rfl, Array.getElem?_eq_getElem hj]
    · rw [if_neg hjk, if_pos rfl, Array.getElem?_eq_getElem hj]
  · rw [if_neg hki]
    by_cases hkj : k = j
    · rw [if_pos hkj, if_pos hkj.symm, Array.getElem?_eq_getElem hi]
    · rw [if_neg hkj, if_neg (Ne.symm hkj), if_neg (Ne.symm hki)]

/-- The order after an exchange is that of the places where the members were. -/
theorem le_exchange_iff (before : α → α → Bool) (hi : i < heap.size) (hj : j < heap.size)
    (k l : Nat) :
    Le before (heap.swapIfInBounds i j) k l ↔
      Le before heap (exchanged i j k) (exchanged i j l) := by
  unfold Le
  rw [getElem?_exchange hi hj, getElem?_exchange hi hj]

/-- An exchange keeps the members. -/
theorem perm_exchange (heap : Array α) (i j : Nat) :
    (heap.swapIfInBounds i j).toList.Perm heap.toList := by
  rw [Array.swapIfInBounds_def]
  split
  · split
    · exact Array.perm_iff_toList_perm.1 (Array.swap_perm _ _)
    · exact .refl _
  · exact .refl _

/-! ### Rising -/

/-- An entry that is before its parent takes its place. -/
theorem RaiseReady.exchange (hranks : Ranks before) (h : RaiseReady before heap i) (hi : 0 < i)
    (hlt : Le before heap i (parent i)) :
    RaiseReady before (heap.swapIfInBounds i (parent i)) (parent i) := by
  have hp : parent i < i := parent_lt hi
  have hinside : parent i < heap.size := Nat.lt_trans hp h.inside
  have hle := le_exchange_iff before h.inside hinside
  refine ⟨by rwa [Array.size_swapIfInBounds], fun j hj hne => ?_, fun hpos j hj hparent => ?_⟩
  · have hjp := parent_lt hj
    rw [hle]
    by_cases hji : j = i
    · rw [hji, exchanged_left, exchanged_right]
      exact hlt
    rw [exchanged_of_ne hji hne]
    by_cases hparent : parent j = i
    · rw [hparent, exchanged_left]
      exact h.across hi j hj hparent
    by_cases hsibling : parent j = parent i
    · rw [hsibling, exchanged_right]
      exact hlt.trans hranks (hsibling ▸ h.except j hj hji) hinside
    · rw [exchanged_of_ne hparent hsibling]
      exact h.except j hj hji
  · have hpp := parent_lt hpos
    have habove := h.except (parent i) hpos (Nat.ne_of_lt hp)
    rw [hle, exchanged_of_ne (Nat.ne_of_lt (Nat.lt_trans hpp hp)) (Nat.ne_of_lt hpp)]
    by_cases hji : j = i
    · rw [hji, exchanged_left]
      exact habove
    · have hjp := hparent ▸ parent_lt hj
      rw [exchanged_of_ne hji (Nat.ne_of_gt hjp)]
      exact habove.trans hranks (hparent ▸ h.except j hj hji) hinside

/-- A heap in which only one member may come too early is in order if that one does not. -/
theorem RaiseReady.ordered (h : RaiseReady before heap i)
    (hle : 0 < i → Le before heap (parent i) i) : Ordered before heap := by
  intro j hj
  by_cases hji : j = i
  · rw [hji]
    exact hle (hji ▸ hj)
  · exact h.except j hj hji

/-- Raising the member that may come too early puts the heap in order, by induction on its place. -/
theorem RaiseReady.ordered_raise (hranks : Ranks before) (h : RaiseReady before heap i) :
    Ordered before (raise before heap i) := by
  induction i using Nat.strongRecOn generalizing heap with
  | ind i ih =>
    unfold raise
    by_cases hi : i = 0
    · rw [dif_pos hi]
      exact h.ordered fun hpos => absurd hi (Nat.ne_of_gt hpos)
    rw [dif_neg hi]
    have hpos : 0 < i := Nat.pos_of_ne_zero hi
    have hiinside : i < heap.size := h.inside
    have hinside := Nat.lt_trans (parent_lt hpos) hiinside
    have hx := Array.getElem?_eq_getElem hiinside
    have hy := Array.getElem?_eq_getElem hinside
    rw [hx, hy]
    simp only
    by_cases hlt : before heap[i] heap[parent i] = true
    · rw [if_pos hlt]
      exact ih _ (parent_lt hpos) (h.exchange hranks hpos (le_of_before hranks hx hy hlt))
    · rw [if_neg hlt]
      exact h.ordered fun _ => le_of_not_before hy hx hlt

/-- Raising keeps the members. -/
theorem perm_raise (before : α → α → Bool) (heap : Array α) (i : Nat) :
    (raise before heap i).toList.Perm heap.toList := by
  induction i using Nat.strongRecOn generalizing heap with
  | ind i ih =>
    unfold raise
    by_cases hi : i = 0
    · rw [dif_pos hi]
    rw [dif_neg hi]
    cases heap[i]? with
    | none => exact .refl _
    | some x =>
      cases heap[parent i]? with
      | none => exact .refl _
      | some above =>
        simp only
        by_cases hlt : before x above = true
        · rw [if_pos hlt]
          exact (ih _ (parent_lt (Nat.pos_of_ne_zero hi)) _).trans (perm_exchange heap i (parent i))
        · rw [if_neg hlt]

/-! ### Sinking -/

/-- The earlier child is a child, and neither of the children is before it. -/
theorem earlierChild_spec (hranks : Ranks before) (h : 2 * i + 1 < heap.size) :
    (parent (earlierChild before heap i) = i ∧ i < earlierChild before heap i ∧
      earlierChild before heap i < heap.size) ∧
      ∀ j, 0 < j → parent j = i → Le before heap (earlierChild before heap i) j := by
  have hfirst := Array.getElem?_eq_getElem h
  have hchild : ∀ j, 0 < j → parent j = i → j = 2 * i + 1 ∨ j = 2 * i + 2 := by
    intro j hj hparent
    unfold parent at hparent
    omega
  unfold earlierChild parent
  rw [hfirst]
  by_cases hsize : 2 * i + 2 < heap.size
  · have hsecond := Array.getElem?_eq_getElem hsize
    rw [hsecond]
    simp only
    by_cases hlt : before heap[2 * i + 1] heap[2 * i + 2] = true
    · rw [if_pos hlt]
      refine ⟨by omega, fun j hj hparent => ?_⟩
      rcases hchild j hj hparent with rfl | rfl
      · exact le_refl hranks _
      · exact le_of_before hranks hfirst hsecond hlt
    · rw [if_neg hlt]
      refine ⟨by omega, fun j hj hparent => ?_⟩
      rcases hchild j hj hparent with rfl | rfl
      · exact le_of_not_before hsecond hfirst hlt
      · exact le_refl hranks _
  · rw [Array.getElem?_eq_none (Nat.not_lt.1 hsize)]
    simp only
    refine ⟨by omega, fun j hj hparent => ?_⟩
    rcases hchild j hj hparent with rfl | rfl
    · exact le_refl hranks _
    · exact le_of_size_le (Nat.not_lt.1 hsize)

/-- The earlier child takes the place of the entry that sinks. -/
theorem SinkReady.exchange (h : SinkReady before heap i) {c : Nat} (hparent : parent c = i)
    (hic : i < c) (hc : c < heap.size)
    (hfirst : ∀ j, 0 < j → parent j = i → Le before heap c j) :
    SinkReady before (heap.swapIfInBounds i c) c := by
  have hle := le_exchange_iff before h.inside hc
  refine ⟨by rwa [Array.size_swapIfInBounds], fun j hj hne hnotc => ?_, fun _ j hj hjc => ?_⟩
  · have hjp := parent_lt hj
    rw [hle]
    by_cases hji : j = i
    · subst hji
      rw [exchanged_left, exchanged_of_ne (Nat.ne_of_lt hjp) hnotc]
      exact h.across hj c (Nat.lt_trans hj hic) hparent
    rw [exchanged_of_ne hji hne]
    by_cases hsibling : parent j = i
    · rw [hsibling, exchanged_left]
      exact hfirst j hj hsibling
    · rw [exchanged_of_ne hsibling hnotc]
      exact h.except j hj hji hsibling
  · have hcj : c < j := hjc ▸ parent_lt hj
    have hij : i < j := Nat.lt_trans hic hcj
    rw [hparent, hle, exchanged_left, exchanged_of_ne (Nat.ne_of_gt hij) (Nat.ne_of_gt hcj), ← hjc]
    exact h.except j hj (Nat.ne_of_gt hij) (hjc ▸ Nat.ne_of_gt hic)

/-- At the bottom an entry can only be out of order with its parent. -/
theorem SinkReady.raiseReady (h : SinkReady before heap i) (hbottom : ¬2 * i + 1 < heap.size) :
    RaiseReady before heap i := by
  have hnone : ∀ k j, 0 < j → parent j = i → Le before heap k j := by
    intro k j hj hparent
    refine le_of_size_le ?_
    unfold parent at hparent
    omega
  refine ⟨h.inside, fun j hj hji => ?_, h.across⟩
  by_cases hparent : parent j = i
  · exact hnone _ j hj hparent
  · exact h.except j hj hji hparent

/-- Sinking to the bottom leaves a heap in which only the member that was sunk may come too early.
-/
theorem SinkReady.raiseReady_sink (hranks : Ranks before) (h : SinkReady before heap i) :
    RaiseReady before (sink before heap i).1 (sink before heap i).2 := by
  induction hn : heap.size - i using Nat.strongRecOn generalizing heap i with
  | ind n ih =>
    unfold sink
    by_cases hinside : 2 * i + 1 < heap.size
    · rw [dif_pos hinside]
      obtain ⟨⟨hparent, hic, hc⟩, hfirst⟩ := earlierChild_spec hranks hinside
      simp only
      rw [dif_pos ⟨hic, hc⟩]
      refine ih _ ?_ (h.exchange hparent hic hc hfirst) rfl
      rw [Array.size_swapIfInBounds]
      omega
    · rw [dif_neg hinside]
      exact h.raiseReady hinside

/-- Sinking keeps the members. -/
theorem perm_sink (before : α → α → Bool) (heap : Array α) (i : Nat) :
    (sink before heap i).1.toList.Perm heap.toList := by
  induction hn : heap.size - i using Nat.strongRecOn generalizing heap i with
  | ind n ih =>
    unfold sink
    by_cases hinside : 2 * i + 1 < heap.size
    · rw [dif_pos hinside]
      simp only
      by_cases hc : i < earlierChild before heap i ∧ earlierChild before heap i < heap.size
      · rw [dif_pos hc]
        refine (ih _ ?_ _ _ rfl).trans (perm_exchange heap i _)
        rw [Array.size_swapIfInBounds]
        omega
      · rw [dif_neg hc]
    · rw [dif_neg hinside]

/-! ### Adding and taking out -/

/-- A heap without members is in order. -/
theorem ordered_empty : Ordered before (#[] : Array α) :=
  fun _ _ => le_of_size_le (Nat.zero_le _)

/-- Pushing adds one member. -/
theorem perm_push (before : α → α → Bool) (heap : Array α) (x : α) :
    (push before heap x).toList.Perm (x :: heap.toList) := by
  refine (perm_raise before (heap.push x) heap.size).trans ?_
  rw [Array.toList_push]
  exact List.perm_append_singleton x heap.toList

/-- Pushing keeps the order. -/
theorem Ordered.push (hranks : Ranks before) (h : Ordered before heap) (x : α) :
    Ordered before (Heap.push before heap x) := by
  refine RaiseReady.ordered_raise hranks ⟨by simp, fun j hj hne => ?_, fun _ j hj hparent => ?_⟩
  · by_cases hlt : j < heap.size
    · intro a b ha hb
      have hp : parent j < heap.size := Nat.lt_trans (parent_lt hj) hlt
      rw [Array.getElem?_push_lt hp, ← Array.getElem?_eq_getElem hp] at ha
      rw [Array.getElem?_push_lt hlt, ← Array.getElem?_eq_getElem hlt] at hb
      exact h j hj a b ha hb
    · refine le_of_size_le ?_
      rw [Array.size_push]
      omega
  · refine le_of_size_le ?_
    have hj' := hparent ▸ parent_lt hj
    rw [Array.size_push]
    omega

/-- No entry is before the one at the root. -/
theorem Ordered.root (hranks : Ranks before) (h : Ordered before heap) (j : Nat) :
    Le before heap 0 j := by
  induction j using Nat.strongRecOn with
  | ind j ih =>
    by_cases hj : 0 < j
    · by_cases hlt : j < heap.size
      · exact (ih _ (parent_lt hj)).trans hranks (h j hj) (Nat.lt_trans (parent_lt hj) hlt)
      · exact le_of_size_le (Nat.not_lt.1 hlt)
    · obtain rfl : j = 0 := Nat.eq_zero_of_not_pos hj
      exact le_refl hranks 0

/-- A heap of one entry gives up that entry. -/
theorem pop_singleton (x : α) : pop before #[x] = some (x, #[]) :=
  rfl

/-- A longer heap gives up its root, and the last entry sinks from there and rises again. -/
theorem pop_push (init : Array α) (last : α) {root : α} (hroot : init[0]? = some root) :
    pop before (init.push last) =
      some (root, raise before (sink before (init.setIfInBounds 0 last) 0).1
        (sink before (init.setIfInBounds 0 last) 0).2) := by
  obtain ⟨hlt, rfl⟩ := Array.getElem?_eq_some_iff.1 hroot
  have hne : init.isEmpty = false := by
    rw [Array.isEmpty_eq_false_iff]
    rintro rfl
    exact absurd hlt (by simp)
  unfold pop
  rw [Array.getElem?_push_lt hlt, Array.back?_push]
  simp only [Array.pop_push, hne]
  rfl

/-- A heap is empty, holds one entry, or holds a root and another last entry. -/
theorem shape (heap : Array α) :
    heap = #[] ∨ (∃ x, heap = #[x]) ∨
      ∃ (init : Array α) (last root : α), heap = init.push last ∧ init[0]? = some root := by
  by_cases hne : heap = #[]
  · exact .inl hne
  obtain ⟨init, last, rfl⟩ := Array.exists_push_of_ne_empty hne
  cases hroot : init[0]? with
  | none =>
    have hinit : init = #[] := Array.size_eq_zero_iff.1 (by simpa using hroot)
    rw [hinit]
    exact .inr (.inl ⟨last, rfl⟩)
  | some root => exact .inr (.inr ⟨init, last, root, rfl, hroot⟩)

/-- The heap gives up an entry as long as it has one. -/
theorem pop_eq_none_iff : pop before heap = none ↔ heap = #[] := by
  rcases shape heap with rfl | ⟨x, rfl⟩ | ⟨init, last, root, rfl, hroot⟩
  · exact iff_of_true rfl rfl
  · exact iff_of_false (by simp [pop_singleton]) (by simp)
  · exact iff_of_false (by simp [pop_push init last hroot]) (by simp)

/-- What is popped was at the root, and the last member is sunk from there and raised again. -/
theorem pop_cases {root : α} {rest : Array α} (h : pop before heap = some (root, rest)) :
    (heap = #[root] ∧ rest = #[]) ∨
      ∃ (init : Array α) (last : α), heap = init.push last ∧ init[0]? = some root ∧
        rest = raise before (sink before (init.setIfInBounds 0 last) 0).1
          (sink before (init.setIfInBounds 0 last) 0).2 := by
  rcases shape heap with rfl | ⟨x, rfl⟩ | ⟨init, last, first, rfl, hroot⟩
  · exact absurd h (by simp [pop_eq_none_iff.2])
  · rw [pop_singleton] at h
    cases h
    exact .inl ⟨rfl, rfl⟩
  · rw [pop_push init last hroot] at h
    cases h
    exact .inr ⟨init, last, rfl, hroot, rfl⟩

/-- The entry that comes out is the root. -/
theorem getElem?_zero_of_pop {root : α} {rest : Array α}
    (h : pop before heap = some (root, rest)) : heap[0]? = some root := by
  rcases pop_cases h with ⟨rfl, -⟩ | ⟨init, last, rfl, hroot, -⟩
  · rfl
  · obtain ⟨hlt, rfl⟩ := Array.getElem?_eq_some_iff.1 hroot
    exact Array.getElem?_push_lt hlt

/-- What comes out and what stays are what was in the heap. -/
theorem perm_pop {root : α} {rest : Array α} (h : pop before heap = some (root, rest)) :
    heap.toList.Perm (root :: rest.toList) := by
  rcases pop_cases h with ⟨rfl, rfl⟩ | ⟨init, last, rfl, hroot, rfl⟩
  · exact .refl _
  · have hrest := (perm_raise before _ (sink before (init.setIfInBounds 0 last) 0).2).trans
      (perm_sink before (init.setIfInBounds 0 last) 0)
    rw [Array.toList_setIfInBounds] at hrest
    rw [← Array.getElem?_toList] at hroot
    rw [Array.toList_push]
    cases hlist : init.toList with
    | nil =>
      rw [hlist] at hroot
      exact absurd hroot (by simp)
    | cons x tail =>
      rw [hlist] at hroot hrest
      obtain rfl : x = root := Option.some.inj hroot
      exact .cons x ((List.perm_append_singleton last tail).trans hrest.symm)

/-- The heap stays in order when the root is taken out. -/
theorem Ordered.pop (hranks : Ranks before) (h : Ordered before heap) {root : α} {rest : Array α}
    (hpop : Heap.pop before heap = some (root, rest)) : Ordered before rest := by
  rcases pop_cases hpop with ⟨-, rfl⟩ | ⟨init, last, rfl, hroot, rfl⟩
  · exact ordered_empty
  · obtain ⟨hlt, -⟩ := Array.getElem?_eq_some_iff.1 hroot
    have hinit : ∀ {k : Nat} {x : α}, init[k]? = some x → (init.push last)[k]? = some x := by
      intro k x hx
      obtain ⟨hk, hkx⟩ := Array.getElem?_eq_some_iff.1 hx
      rw [Array.getElem?_push_lt hk, hkx]
    refine RaiseReady.ordered_raise hranks (SinkReady.raiseReady_sink hranks
      ⟨by simpa using hlt, fun j hj hji hparent a b ha hb => ?_, fun hpos => absurd hpos (by simp)⟩)
    rw [Array.getElem?_setIfInBounds, if_neg (Ne.symm hparent)] at ha
    rw [Array.getElem?_setIfInBounds, if_neg (Ne.symm hji)] at hb
    exact h j hj a b (hinit ha) (hinit hb)

/-- No entry is before the one that comes out. -/
theorem Ordered.not_before_pop (hranks : Ranks before) (h : Ordered before heap) {root : α}
    {rest : Array α} (hpop : Heap.pop before heap = some (root, rest)) {x : α}
    (hx : x ∈ heap.toList) : before x root = false := by
  obtain ⟨j, hj⟩ := List.getElem?_of_mem hx
  rw [Array.getElem?_toList] at hj
  exact h.root hranks j root x (getElem?_zero_of_pop hpop) hj

end MountShell.Heap
