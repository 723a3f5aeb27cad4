/-!
# Splitting

Cutting a text at every occurrence of one character (`split`), at the first one (`splitOnce`) or at
the last one (`splitLast`), and looking for a text at the start of another (`dropHead?`) or inside
it (`occursIn`). Each operation is defined on lists of characters; the versions on `String` only
convert.

Main statements: the pieces of a text hold no separator and joining them gives the text back
(`intercalate_splitChars`, `not_mem_of_mem_splitChars`); cutting once is cutting at a separator with
none before it, or none after it (`splitOnceChars_eq_some_iff`, `splitLastChars_eq_some_iff`).
-/

namespace MountShell.Text

/-- The pieces of `cs` between the occurrences of `sep`. There is always one piece more than there
are occurrences, so the list is never empty. -/
def splitChars (sep : Char) : List Char → List (List Char)
  | [] => [[]]
  | c :: cs =>
    if c = sep then [] :: splitChars sep cs
    else
      match splitChars sep cs with
      | [] => [[c]]
      | piece :: rest => (c :: piece) :: rest

theorem splitChars_ne_nil (sep : Char) (cs : List Char) : splitChars sep cs ≠ [] := by
  cases cs with
  | nil => exact List.cons_ne_nil _ _
  | cons c cs =>
    unfold splitChars
    split
    · exact List.cons_ne_nil _ _
    · split <;> exact List.cons_ne_nil _ _

theorem splitChars_cons_self (sep : Char) (cs : List Char) :
    splitChars sep (sep :: cs) = [] :: splitChars sep cs := by
  rw [splitChars, if_pos rfl]

theorem splitChars_cons_of_ne {sep c : Char} (h : c ≠ sep) {cs piece : List Char}
    {rest : List (List Char)} (hcs : splitChars sep cs = piece :: rest) :
    splitChars sep (c :: cs) = (c :: piece) :: rest := by
  rw [splitChars, if_neg h, hcs]

/-- Joining the pieces gives the text back. -/
theorem intercalate_splitChars (sep : Char) (cs : List Char) :
    [sep].intercalate (splitChars sep cs) = cs := by
  induction cs with
  | nil => rfl
  | cons c cs ih =>
    obtain ⟨piece, rest, hcs⟩ := List.exists_cons_of_ne_nil (splitChars_ne_nil sep cs)
    rw [hcs] at ih
    by_cases h : c = sep
    · rw [h, splitChars_cons_self, hcs, List.intercalate_cons_cons, ih]
      rfl
    · rw [splitChars_cons_of_ne h hcs]
      cases rest with
      | nil =>
        rw [List.intercalate_singleton] at ih ⊢
        rw [ih]
      | cons next rest =>
        rw [List.intercalate_cons_cons] at ih ⊢
        rw [← ih]
        rfl

theorem not_mem_of_mem_splitChars {sep : Char} {cs piece : List Char}
    (h : piece ∈ splitChars sep cs) : sep ∉ piece := by
  induction cs generalizing piece with
  | nil =>
    rw [List.mem_singleton.1 h]
    exact List.not_mem_nil
  | cons c cs ih =>
    obtain ⟨first, rest, hcs⟩ := List.exists_cons_of_ne_nil (splitChars_ne_nil sep cs)
    by_cases hc : c = sep
    · rw [hc, splitChars_cons_self] at h
      rcases List.mem_cons.1 h with rfl | h
      · exact List.not_mem_nil
      · exact ih h
    · rw [splitChars_cons_of_ne hc hcs] at h
      rw [hcs] at ih
      rcases List.mem_cons.1 h with rfl | h
      · have hfirst := ih List.mem_cons_self
        simp [Ne.symm hc, hfirst]
      · exact ih (List.mem_cons_of_mem _ h)

theorem splitChars_of_not_mem {sep : Char} {cs : List Char} (h : sep ∉ cs) :
    splitChars sep cs = [cs] := by
  induction cs with
  | nil => rfl
  | cons c cs ih =>
    obtain ⟨hc, hcs⟩ := not_or.1 (fun hor => h (List.mem_cons.2 hor))
    exact splitChars_cons_of_ne (Ne.symm hc) (ih hcs)

/-- A separator parts the pieces before it from those after it. -/
theorem splitChars_append_cons (sep : Char) (before after : List Char) :
    splitChars sep (before ++ sep :: after) = splitChars sep before ++ splitChars sep after := by
  induction before with
  | nil => exact splitChars_cons_self sep after
  | cons c before ih =>
    by_cases h : c = sep
    · rw [h, List.cons_append, splitChars_cons_self, splitChars_cons_self, ih, List.cons_append]
    · obtain ⟨piece, rest, hb⟩ := List.exists_cons_of_ne_nil (splitChars_ne_nil sep before)
      rw [hb, List.cons_append] at ih
      rw [List.cons_append, splitChars_cons_of_ne h ih, splitChars_cons_of_ne h hb,
        List.cons_append]

/-- The pieces of `s` between the occurrences of `sep`. -/
def split (sep : Char) (s : String) : List String :=
  (splitChars sep s.toList).map String.ofList

theorem not_mem_of_mem_split {sep : Char} {s piece : String} (h : piece ∈ split sep s) :
    sep ∉ piece.toList := by
  obtain ⟨cs, hcs, rfl⟩ := List.mem_map.1 h
  rw [String.toList_ofList]
  exact not_mem_of_mem_splitChars hcs

/-- The parts before and after the first occurrence of `sep`, if there is one. -/
def splitOnceChars (sep : Char) : List Char → Option (List Char × List Char)
  | [] => none
  | c :: cs =>
    if c = sep then some ([], cs)
    else (splitOnceChars sep cs).map fun (before, after) => (c :: before, after)

theorem length_lt_of_splitOnceChars {sep : Char} {cs before after : List Char}
    (h : splitOnceChars sep cs = some (before, after)) : after.length < cs.length := by
  induction cs generalizing before with
  | nil => simp [splitOnceChars] at h
  | cons c cs ih =>
    unfold splitOnceChars at h
    split at h
    · simp at h
      simp [h.2]
    · obtain ⟨⟨b, a⟩, hb, hp⟩ := Option.map_eq_some_iff.1 h
      simp at hp
      have := ih (hp.2 ▸ hb)
      simp only [List.length_cons]
      omega

/-- A text is cut at a separator that has none before it. -/
theorem splitOnceChars_eq_some_iff {sep : Char} {cs before after : List Char} :
    splitOnceChars sep cs = some (before, after) ↔ cs = before ++ sep :: after ∧ sep ∉ before := by
  induction cs generalizing before with
  | nil => simp [splitOnceChars]
  | cons c cs ih =>
    unfold splitOnceChars
    by_cases hc : c = sep
    · rw [if_pos hc, hc]
      cases before with
      | nil => simp [eq_comm]
      | cons b before =>
        simp only [Option.some.injEq, Prod.mk.injEq, List.cons_append, List.cons.injEq,
          List.mem_cons, not_or]
        constructor
        · rintro ⟨h, -⟩
          cases h
        · rintro ⟨⟨h, -⟩, hne, -⟩
          exact absurd h hne
    · rw [if_neg hc]
      cases before with
      | nil => simp [hc]
      | cons b before =>
        simp only [Option.map_eq_some_iff, Prod.exists, Prod.mk.injEq, List.cons.injEq,
          List.cons_append, List.mem_cons, not_or]
        constructor
        · rintro ⟨_, _, h, ⟨rfl, rfl⟩, rfl⟩
          obtain ⟨rfl, hnot⟩ := ih.1 h
          exact ⟨⟨rfl, rfl⟩, Ne.symm hc, hnot⟩
        · rintro ⟨⟨rfl, rfl⟩, -, hnot⟩
          exact ⟨before, after, ih.2 ⟨rfl, hnot⟩, ⟨rfl, rfl⟩, rfl⟩

/-- The parts before and after the first occurrence of `sep` in `s`, if there is one. -/
def splitOnce (sep : Char) (s : String) : Option (String × String) :=
  (splitOnceChars sep s.toList).map fun (before, after) =>
    (String.ofList before, String.ofList after)

theorem splitOnce_eq_some_iff {s before after : String} {sep : Char} :
    splitOnce sep s = some (before, after) ↔
      s = before ++ String.ofList [sep] ++ after ∧ sep ∉ before.toList := by
  unfold splitOnce
  simp only [Option.map_eq_some_iff, Prod.exists, Prod.mk.injEq, splitOnceChars_eq_some_iff]
  constructor
  · rintro ⟨first, rest, ⟨h, hnot⟩, rfl, rfl⟩
    refine ⟨String.toList_inj.1 ?_, ?_⟩
    · simpa using h
    · rwa [String.toList_ofList]
  · rintro ⟨rfl, hnot⟩
    exact ⟨before.toList, after.toList, ⟨by simp, hnot⟩, String.ofList_toList, String.ofList_toList⟩

/-- The parts before and after the last occurrence of `sep`, if there is one. -/
def splitLastChars (sep : Char) (cs : List Char) : Option (List Char × List Char) :=
  (splitOnceChars sep cs.reverse).map fun (after, before) => (before.reverse, after.reverse)

/-- A text is cut for the last time at a separator that has none after it. -/
theorem splitLastChars_eq_some_iff {sep : Char} {cs before after : List Char} :
    splitLastChars sep cs = some (before, after) ↔ cs = before ++ sep :: after ∧ sep ∉ after := by
  unfold splitLastChars
  simp only [Option.map_eq_some_iff, Prod.exists, Prod.mk.injEq, splitOnceChars_eq_some_iff]
  constructor
  · rintro ⟨tail, head, ⟨h, hnot⟩, rfl, rfl⟩
    have hcs : cs = (tail ++ sep :: head).reverse := by rw [← h, List.reverse_reverse]
    exact ⟨by simp [hcs], by simpa using hnot⟩
  · rintro ⟨rfl, hnot⟩
    exact ⟨after.reverse, before.reverse, ⟨by simp, by simpa using hnot⟩, by simp, by simp⟩

/-- The parts before and after the last occurrence of `sep` in `s`, if there is one. -/
def splitLast (sep : Char) (s : String) : Option (String × String) :=
  (splitLastChars sep s.toList).map fun (before, after) =>
    (String.ofList before, String.ofList after)

/-- What follows `head` at the start of `cs`, if `cs` starts with it. -/
def dropHead? : List Char → List Char → Option (List Char)
  | [], cs => some cs
  | _ :: _, [] => none
  | h :: head, c :: cs => if h = c then dropHead? head cs else none

theorem dropHead?_eq_some_iff {head cs rest : List Char} :
    dropHead? head cs = some rest ↔ cs = head ++ rest := by
  induction head generalizing cs with
  | nil => simp [dropHead?]
  | cons h head ih =>
    cases cs with
    | nil => simp [dropHead?]
    | cons c cs =>
      unfold dropHead?
      by_cases hc : h = c
      · simp [hc, ih]
      · simp [hc, Ne.symm hc]

/-- The parts before and after the first occurrence of the text `sep`, if there is one. -/
def splitAround (sep : List Char) : List Char → Option (List Char × List Char)
  | [] => if sep.isEmpty then some ([], []) else none
  | c :: cs =>
    match dropHead? sep (c :: cs) with
    | some rest => some ([], rest)
    | none => (splitAround sep cs).map fun (before, after) => (c :: before, after)

/-- Does `s` start with `head`? -/
def startsWith (head s : String) : Bool :=
  (dropHead? head.toList s.toList).isSome

/-- Does `part` occur somewhere in `cs`? -/
def occursIn (part : List Char) : List Char → Bool
  | [] => part.isEmpty
  | c :: cs => (dropHead? part (c :: cs)).isSome || occursIn part cs

end MountShell.Text
