import MountShell.Path

/-!
# Paths and their segments

What becomes of a path with given segments: a walk takes its segments one by one
(`walkSteps_ofSegments`), its last piece is the last of them (`basename_ofSegments`), and its parent
is made of the others (`splitParent_ofSegments`). A name that is put behind a path is one more
segment (`segmentsOf_join`).
-/

namespace MountShell.Path

theorem isAbsolute_ofSegments (segments : List String) :
    isAbsolute (ofSegments segments) = true := by
  unfold isAbsolute Text.startsWith
  rw [toList_ofSegments]
  rfl

/-- A walk along a path made of segments takes these as its steps. -/
theorem walkSteps_ofSegments {segments : List String} (h : ∀ s ∈ segments, IsSegment s) :
    walkSteps (ofSegments segments) = segments := by
  have hkeep : segments.filter (fun piece => piece ≠ "" ∧ piece ≠ ".") = segments := by
    rw [List.filter_eq_self]
    intro s hs
    exact decide_eq_true ⟨(h s hs).1, (h s hs).2.1⟩
  unfold walkSteps
  rw [split_ofSegments fun s hs => (h s hs).2.2.2]
  cases segments with
  | nil => rfl
  | cons first rest =>
    rw [if_neg (List.cons_ne_nil first rest)]
    exact hkeep

/-- A name behind a path is one more segment. -/
theorem segmentsOf_join (path : String) {name : String} (h : IsSegment name) :
    segmentsOf (path ++ "/" ++ name) = segmentsOf path ++ [name] := by
  have hchars : (path ++ "/" ++ name).toList = path.toList ++ '/' :: name.toList := by
    simp
  have hsplit : Text.split '/' (path ++ "/" ++ name) = Text.split '/' path ++ [name] := by
    unfold Text.split
    rw [hchars, Text.splitChars_append_cons, Text.splitChars_of_not_mem h.2.2.2, List.map_append,
      List.map_singleton, String.ofList_toList]
  unfold segmentsOf normalize
  rw [hsplit, List.foldl_append, List.foldl_cons, List.foldl_nil, step_of_isSegment _ h]

/-- What stands before the slash of the last segment is the path of the others; the root has no text
there. -/
theorem toList_ofSegments_concat (front : List String) (last : String) :
    (ofSegments (front ++ [last])).toList =
      (if front = [] then [] else (ofSegments front).toList) ++ '/' :: last.toList := by
  induction front with
  | nil => simp [toList_ofSegments]
  | cons first rest ih =>
    rw [if_neg (List.cons_ne_nil first rest), toList_ofSegments, toList_ofSegments]
    rw [toList_ofSegments, toList_ofSegments] at ih
    cases rest with
    | nil => simp [List.intercalate_cons_cons]
    | cons next rest =>
      rw [if_neg (List.cons_ne_nil next rest)] at ih
      simp only [List.cons_append, List.map_cons, List.intercalate_cons_cons, List.append_assoc,
        List.cons.injEq, true_and, List.append_cancel_left_eq] at ih ⊢
      exact ih

theorem trimSlashes_of_getLast {s : String} {before : List Char} {last : Char}
    (hs : s.toList = before ++ [last]) (h : last ≠ '/') : trimSlashes s = s := by
  unfold trimSlashes
  rw [← String.ofList_toList (s := s), String.toList_ofList, hs]
  simp [h]

/-- The last piece of a path made of segments is the last of these; the root is called `/`. -/
theorem basename_ofSegments {segments : List String} (h : ∀ s ∈ segments, IsSegment s) :
    basename (ofSegments segments) = segments.getLastD "/" := by
  rcases List.eq_nil_or_concat segments with rfl | ⟨front, last, hlast⟩
  · decide
  · rw [List.concat_eq_append] at hlast
    subst hlast
    obtain ⟨hempty, -, -, hslash⟩ := h last (List.mem_append_right _ List.mem_cons_self)
    obtain ⟨before, hbefore⟩ : ∃ before, (ofSegments (front ++ [last])).toList =
        before ++ '/' :: last.toList := ⟨_, toList_ofSegments_concat front last⟩
    have hne : last.toList ≠ [] := fun hnil => hempty (String.toList_eq_nil_iff.1 hnil)
    have htrim : trimSlashes (ofSegments (front ++ [last])) = ofSegments (front ++ [last]) := by
      have hchars : (ofSegments (front ++ [last])).toList =
          (before ++ '/' :: last.toList.dropLast) ++ [last.toList.getLast hne] := by
        rw [hbefore, List.append_assoc, List.cons_append, List.dropLast_concat_getLast]
      exact trimSlashes_of_getLast hchars fun heq => hslash (heq ▸ List.getLast_mem hne)
    have hcut : Text.splitLast '/' (ofSegments (front ++ [last])) =
        some (String.ofList before, last) := by
      unfold Text.splitLast
      rw [Text.splitLastChars_eq_some_iff.2 ⟨hbefore, hslash⟩]
      simp
    unfold basename
    rw [htrim]
    simp [hcut, hempty]

/-- The parent of a path made of segments is made of all but the last of them. -/
theorem splitParent_ofSegments {front : List String} {last : String} (h : IsSegment last) :
    splitParent (ofSegments (front ++ [last])) = (ofSegments front, last) := by
  obtain ⟨hempty, -, -, hslash⟩ := h
  have hchars := toList_ofSegments_concat front last
  have hne : last.toList ≠ [] := fun hnil => hempty (String.toList_eq_nil_iff.1 hnil)
  have htrim : trimSlashes (ofSegments (front ++ [last])) = ofSegments (front ++ [last]) := by
    have hlast : (ofSegments (front ++ [last])).toList =
        ((if front = [] then [] else (ofSegments front).toList) ++ '/' :: last.toList.dropLast) ++
          [last.toList.getLast hne] := by
      rw [hchars, List.append_assoc, List.cons_append, List.dropLast_concat_getLast]
    exact trimSlashes_of_getLast hlast fun heq => hslash (heq ▸ List.getLast_mem hne)
  unfold splitParent
  simp only [htrim]
  unfold Text.splitLast
  rw [Text.splitLastChars_eq_some_iff.2 ⟨hchars, hslash⟩]
  cases front with
  | nil => simp [ofSegments]
  | cons first rest =>
    have hparent : ofSegments (first :: rest) ≠ "" := by
      intro heq
      have hlist := congrArg String.toList heq
      rw [toList_ofSegments] at hlist
      exact absurd hlist (by simp)
    simp [hparent]

end MountShell.Path
