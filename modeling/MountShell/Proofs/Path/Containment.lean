import Mathlib.Data.List.Induction
import MountShell.Mount.Table
import MountShell.Proofs.Path

/-!
# One path within another

For paths that are made of segments, what is done on their texts is told by the segments: a path
contains those whose segments begin with its own (`contains_ofSegments`), seen from inside it they
are the paths of the segments that remain (`inside_ofSegments`), and of two that contain one path
the one with more segments has the longer text (`utf8ByteSize_ofSegments_lt_iff`).
-/

namespace MountShell.Path

/-- Paths made of segments are equal just when their segments are. -/
theorem ofSegments_inj {first second : List String} (hfirst : ∀ s ∈ first, IsSegment s)
    (hsecond : ∀ s ∈ second, IsSegment s) :
    ofSegments first = ofSegments second ↔ first = second := by
  refine ⟨fun h => ?_, fun h => congrArg ofSegments h⟩
  rw [← segmentsOf_ofSegments hfirst, ← segmentsOf_ofSegments hsecond, h]

theorem ofSegments_eq_root_iff {segments : List String} (h : ∀ s ∈ segments, IsSegment s) :
    ofSegments segments = "/" ↔ segments = [] := by
  have hroot : ∀ s ∈ ([] : List String), IsSegment s := fun _ hs => absurd hs List.not_mem_nil
  exact ofSegments_inj h hroot

/-- Below the root the text of a path stands in front of that of its continuations. -/
theorem toList_ofSegments_append {front rest : List String} (hfront : front ≠ [])
    (hrest : rest ≠ []) :
    (ofSegments (front ++ rest)).toList =
      (ofSegments front).toList ++ (ofSegments rest).toList := by
  induction rest using List.reverseRecOn with
  | nil => exact absurd rfl hrest
  | append_singleton rest last ih =>
    rw [← List.append_assoc, toList_ofSegments_concat, toList_ofSegments_concat,
      if_neg (List.append_ne_nil_of_left_ne_nil hfront rest)]
    by_cases hnil : rest = []
    · rw [if_pos hnil, hnil, List.append_nil, List.nil_append]
    · rw [if_neg hnil, ih hnil, List.append_assoc]

/-- What a slash leaves of a path made of segments behind another one are segments. -/
theorem exists_append_of_toList_eq {point segments : List String}
    (hpoint : ∀ s ∈ point, IsSegment s) (hsegments : ∀ s ∈ segments, IsSegment s)
    (hne : point ≠ []) {rest : List Char}
    (h : (ofSegments segments).toList = (ofSegments point).toList ++ '/' :: rest) :
    point <+: segments := by
  -- the pieces of both texts between the slashes, of which the first is empty
  have hpieces : Text.split '/' (ofSegments segments) =
      Text.split '/' (ofSegments point) ++ (Text.splitChars '/' rest).map String.ofList := by
    unfold Text.split
    rw [h, Text.splitChars_append_cons, List.map_append]
  rw [split_ofSegments fun s hs => (hsegments s hs).2.2.2,
    split_ofSegments fun s hs => (hpoint s hs).2.2.2, if_neg hne, List.cons_append] at hpieces
  have htail := (List.cons.inj hpieces).2
  by_cases hroot : segments = []
  · obtain ⟨first, others, rfl⟩ := List.exists_cons_of_ne_nil hne
    rw [if_pos hroot, List.cons_append] at htail
    exact absurd (List.cons.inj htail).1.symm (hpoint first List.mem_cons_self).1
  · rw [if_neg hroot] at htail
    exact ⟨_, htail.symm⟩

/-- A path contains those whose segments begin with its own. -/
theorem contains_ofSegments {point segments : List String} (hpoint : ∀ s ∈ point, IsSegment s)
    (hsegments : ∀ s ∈ segments, IsSegment s) :
    contains (ofSegments point) (ofSegments segments) = true ↔ point <+: segments := by
  unfold contains
  rw [Bool.or_eq_true, Bool.or_eq_true, decide_eq_true_iff, decide_eq_true_iff,
    ofSegments_eq_root_iff hpoint, ofSegments_inj hsegments hpoint]
  by_cases hroot : point = []
  · exact iff_of_true (.inl (.inl hroot)) (hroot ▸ List.nil_prefix)
  constructor
  · rintro ((hnil | rfl) | hbelow)
    · exact absurd hnil hroot
    · exact List.prefix_refl _
    · cases hdrop : Text.dropHead? (ofSegments point).toList (ofSegments segments).toList with
      | none => exact absurd hbelow (by simp [hdrop])
      | some rest =>
        rw [hdrop] at hbelow
        obtain ⟨after, rfl⟩ := List.head?_eq_some_iff.1 (of_decide_eq_true hbelow)
        exact exists_append_of_toList_eq hpoint hsegments hroot
          (Text.dropHead?_eq_some_iff.1 hdrop)
  · rintro ⟨rest, rfl⟩
    by_cases hnil : rest = []
    · exact .inl (.inr (by rw [hnil, List.append_nil]))
    · have hdrop := Text.dropHead?_eq_some_iff.2 (toList_ofSegments_append hroot hnil)
      refine .inr ?_
      rw [hdrop, toList_ofSegments]
      exact decide_eq_true rfl

/-- Seen from inside a path, what it contains is the path of the segments that remain. -/
theorem inside_ofSegments {point : List String} (hpoint : ∀ s ∈ point, IsSegment s)
    (rest : List String) :
    inside (ofSegments point) (ofSegments (point ++ rest)) = ofSegments rest := by
  unfold inside
  by_cases hroot : point = []
  · rw [if_pos ((ofSegments_eq_root_iff hpoint).2 hroot), hroot, List.nil_append]
  · rw [if_neg fun h => hroot ((ofSegments_eq_root_iff hpoint).1 h)]
    by_cases hnil : rest = []
    · have hdrop : Text.dropHead? (ofSegments point).toList (ofSegments point).toList = some [] :=
        Text.dropHead?_eq_some_iff.2 (List.append_nil _).symm
      rw [hnil, List.append_nil, hdrop]
      rfl
    · have hdrop := Text.dropHead?_eq_some_iff.2 (toList_ofSegments_append hroot hnil)
      have hchars := toList_ofSegments rest
      rw [hdrop, hchars]
      simp only
      rw [← hchars, String.ofList_toList]

/-- One more segment makes the text of a path longer. -/
theorem utf8ByteSize_ofSegments_concat_lt (front : List String) {last : String}
    (h : IsSegment last) :
    (ofSegments front).utf8ByteSize < (ofSegments (front ++ [last])).utf8ByteSize := by
  have hlast : last.utf8ByteSize ≠ 0 := fun hzero => h.1 (String.utf8ByteSize_eq_zero_iff.1 hzero)
  by_cases hroot : front = []
  · have hpath : ofSegments [last] = "/" ++ last := by simp [ofSegments]
    have hempty : ofSegments [] = "/" := rfl
    rw [hroot, List.nil_append, hpath, hempty, String.utf8ByteSize_append]
    omega
  · have hpath : ofSegments (front ++ [last]) = ofSegments front ++ ("/" ++ last) := by
      refine String.toList_inj.1 ?_
      rw [toList_ofSegments_concat, if_neg hroot]
      simp
    rw [hpath, String.utf8ByteSize_append, String.utf8ByteSize_append]
    omega

/-- More segments make the text of a path longer. -/
theorem utf8ByteSize_ofSegments_le_append (front : List String) {rest : List String}
    (h : ∀ s ∈ rest, IsSegment s) :
    (ofSegments front).utf8ByteSize ≤ (ofSegments (front ++ rest)).utf8ByteSize := by
  induction rest using List.reverseRecOn with
  | nil => exact Nat.le_of_eq (by rw [List.append_nil])
  | append_singleton rest last ih =>
    have hrest := ih fun s hs => h s (List.mem_append_left _ hs)
    have hlast := utf8ByteSize_ofSegments_concat_lt (front ++ rest) (h last (by simp))
    rw [← List.append_assoc]
    omega

/-- Of two paths that contain a third one, the one with more segments has the longer text. -/
theorem utf8ByteSize_ofSegments_lt_iff {first second segments : List String}
    (hsegments : ∀ s ∈ segments, IsSegment s) (hfirst : first <+: segments)
    (hsecond : second <+: segments) :
    (ofSegments first).utf8ByteSize < (ofSegments second).utf8ByteSize ↔
      first.length < second.length := by
  have hall : ∀ {part rest : List String}, part ++ rest = segments → ∀ s ∈ part, IsSegment s := by
    rintro part rest rfl s hs
    exact hsegments s (List.mem_append_left _ hs)
  obtain ⟨behind, hbehind⟩ := hsecond
  -- one of the two is a continuation of the other
  rcases List.prefix_or_prefix_of_prefix hfirst ⟨behind, hbehind⟩ with ⟨rest, rfl⟩ | ⟨rest, rfl⟩
  · cases rest with
    | nil => simp
    | cons next others =>
      have hrest : ∀ s ∈ next :: others, IsSegment s := fun s hs =>
        hall hbehind s (List.mem_append_right _ hs)
      obtain ⟨hnext, hothers⟩ := List.forall_mem_cons.1 hrest
      have hone := utf8ByteSize_ofSegments_concat_lt first hnext
      have hmore := utf8ByteSize_ofSegments_le_append (first ++ [next]) hothers
      rw [List.append_assoc, List.singleton_append] at hmore
      simp only [List.length_append, List.length_cons]
      exact iff_of_true (by omega) (by omega)
  · have hrest : ∀ s ∈ rest, IsSegment s := by
      obtain ⟨others, hothers⟩ := hfirst
      exact fun s hs => hall hothers s (List.mem_append_right _ hs)
    have hle := utf8ByteSize_ofSegments_le_append second hrest
    refine iff_of_false (Nat.not_lt.2 hle) ?_
    rw [List.length_append]
    omega

end MountShell.Path
