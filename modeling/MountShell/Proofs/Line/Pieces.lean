import MountShell.Proofs.Line.Grammar

/-!
# The pieces of a text

A grammar of references, said without reading the text from left to right: which pieces there are,
and before what each of them can stand (`Piece.Fits`).  Every text has one way to be made of pieces
(`Pieces`), and that is how `Piece.split` cuts it.

What a reference stands for is told by the values that are known of its name (`Piece.StandsFor`).
The random variable may stand for any number that can be drawn.

Main statements: `pieces_iff`, the pieces of a text are those that it is cut into, and
`standsFor_expandAll`, each of them is replaced by what it stands for.
-/

namespace MountShell

namespace Piece

/-- The piece can stand before the text `rest`. -/
inductive Fits : Piece → List Char → Prop
  /-- A character other than a dollar sign. -/
  | other (c : Char) (rest : List Char) : c ≠ '$' → Fits (.literal [c]) rest
  /-- A name in braces, up to the next closing one. -/
  | braced (name rest : List Char) : '}' ∉ name →
      Fits (.reference name ('$' :: '{' :: name ++ ['}'])) rest
  | status (rest : List Char) : Fits (.reference ['?'] ['$', '?']) rest
  /-- One or more name characters, as many as there are. -/
  | named (name rest : List Char) : name ≠ [] → (∀ c ∈ name, isNameChar c = true) →
      (∀ c ∈ rest.head?, isNameChar c = false) → Fits (.reference name ('$' :: name)) rest
  /-- A dollar sign that is followed by nothing of the kind. -/
  | alone (rest : List Char) : (∀ c ∈ rest.head?, c ≠ '{' ∧ c ≠ '?' ∧ isNameChar c = false) →
      Fits (.literal ['$']) rest
  /-- A brace that is never closed, with all that follows. -/
  | unclosed (text : List Char) : '}' ∉ text → Fits (.literal ('$' :: '{' :: text)) []

theorem Fits.length_written_pos {piece : Piece} {rest : List Char} (h : piece.Fits rest) :
    0 < piece.written.length := by
  cases h <;> exact Nat.succ_pos _

end Piece

/-- The text is made of these pieces. -/
inductive Pieces : List Char → List Piece → Prop
  | nil : Pieces [] []
  | cons {piece : Piece} {rest : List Char} {pieces : List Piece} : piece.Fits rest →
      Pieces rest pieces → Pieces (piece.written ++ rest) (piece :: pieces)

/-! ### Cutting a text into its pieces -/

namespace Piece

theorem split_braced {name : List Char} (h : '}' ∉ name) (rest : List Char) :
    split ('$' :: '{' :: (name ++ '}' :: rest)) =
      .reference name ('$' :: '{' :: name ++ ['}']) :: split rest := by
  have hclosed : Text.splitOnceChars '}' (name ++ '}' :: rest) = some (name, rest) :=
    Text.splitOnceChars_eq_some_iff.2 ⟨rfl, h⟩
  rw [split]
  split
  next hopen => exact absurd (hclosed.symm.trans hopen) (by simp)
  next first after hfirst =>
    obtain ⟨rfl, rfl⟩ := Prod.mk.inj (Option.some.inj (hclosed.symm.trans hfirst))
    rfl

theorem split_unclosed {text : List Char} (h : '}' ∉ text) :
    split ('$' :: '{' :: text) = [.literal ('$' :: '{' :: text)] := by
  rw [split]
  split
  next => rfl
  next first after hfirst =>
    obtain ⟨rfl, -⟩ := Text.splitOnceChars_eq_some_iff.1 hfirst
    exact absurd (by simp) h

/-- A dollar sign before something that is no brace and no question mark. -/
theorem split_dollar {rest : List Char} (h : ∀ c ∈ rest.head?, c ≠ '{' ∧ c ≠ '?') :
    split ('$' :: rest) =
      if (rest.takeWhile isNameChar).isEmpty then .literal ['$'] :: split rest
      else .reference (rest.takeWhile isNameChar) ('$' :: rest.takeWhile isNameChar) ::
        split (rest.dropWhile isNameChar) := by
  refine split.eq_4 rest ?_ ?_
  · rintro after rfl
    exact (h '{' rfl).1 rfl
  · rintro after rfl
    exact (h '?' rfl).2 rfl

theorem takeWhile_of_head? {p : Char → Bool} {rest : List Char}
    (h : ∀ c ∈ rest.head?, p c = false) : rest.takeWhile p = [] ∧ rest.dropWhile p = rest := by
  cases rest with
  | nil => exact ⟨rfl, rfl⟩
  | cons c rest =>
    have hc := h c rfl
    exact ⟨List.takeWhile_cons_of_neg (by simp [hc]), List.dropWhile_cons_of_neg (by simp [hc])⟩

/-- A text that begins with a piece is cut after it. -/
theorem Fits.split_append {piece : Piece} {rest : List Char} (h : piece.Fits rest) :
    split (piece.written ++ rest) = piece :: split rest := by
  cases h with
  | other c rest hc => exact split_cons_of_ne hc rest
  | braced name rest hname =>
    rw [written, List.append_assoc]
    exact split_braced hname rest
  | status rest => exact split.eq_3 rest
  | named name rest hne hname hrest =>
    obtain ⟨htake, hdrop⟩ := takeWhile_of_head? hrest
    have hfirst : ∀ c ∈ (name ++ rest).head?, c ≠ '{' ∧ c ≠ '?' := by
      intro c hc
      have hchar : isNameChar c = true := by
        rw [List.head?_append_of_ne_nil _ hne] at hc
        exact hname c (List.mem_of_mem_head? hc)
      constructor <;> rintro rfl <;> exact absurd hchar (by decide)
    have hsplit := split_dollar hfirst
    rw [List.takeWhile_append_of_pos hname, List.dropWhile_append_of_pos hname, htake, hdrop,
      List.append_nil, if_neg (by simpa using hne)] at hsplit
    exact hsplit
  | alone rest hrest =>
    have hsplit := split_dollar fun c hc => ⟨(hrest c hc).1, (hrest c hc).2.1⟩
    rw [(takeWhile_of_head? fun c hc => (hrest c hc).2.2).1] at hsplit
    exact hsplit
  | unclosed text htext =>
    rw [written, List.append_nil, split_unclosed htext, split.eq_1]

/-- Before a text that is cut into its pieces stands one more piece. -/
theorem Fits.pieces_split {piece : Piece} {rest : List Char} (h : piece.Fits rest)
    (hrest : Pieces rest (split rest)) :
    Pieces (piece.written ++ rest) (split (piece.written ++ rest)) := by
  rw [h.split_append]
  exact .cons h hrest

/-- What a text is cut into are its pieces. -/
theorem pieces_split (cs : List Char) : Pieces cs (split cs) := by
  -- Each case of the recursion takes off one kind of piece, and what it has tested is what the
  -- piece asks for.
  induction cs using split.induct with
  | case1 =>
    rw [split.eq_1]
    exact .nil
  | case2 rest hopen =>
    have hnot : '}' ∉ rest := by
      intro hmem
      obtain ⟨name, after, rfl, hname⟩ := List.eq_append_cons_of_mem hmem
      rw [Text.splitOnceChars_eq_some_iff.2 ⟨rfl, hname⟩] at hopen
      exact absurd hopen (by simp)
    have hnil : Pieces [] (split []) := by
      rw [split.eq_1]
      exact .nil
    have hlast := (Fits.unclosed rest hnot).pieces_split hnil
    rwa [written, List.append_nil] at hlast
  | case3 rest name after hclosed ih =>
    obtain ⟨rfl, hname⟩ := Text.splitOnceChars_eq_some_iff.1 hclosed
    have hbraced := (Fits.braced name after hname).pieces_split ih
    rwa [written, List.append_assoc] at hbraced
  | case4 rest ih => exact (Fits.status rest).pieces_split ih
  | case5 rest hbrace hstatus name hname ih =>
    refine (Fits.alone rest fun c hc => ?_).pieces_split ih
    obtain ⟨after, rfl⟩ := List.head?_eq_some_iff.1 hc
    refine ⟨fun h => hbrace after (h ▸ rfl), fun h => hstatus after (h ▸ rfl), ?_⟩
    have hempty : (c :: after).takeWhile isNameChar = [] := by simpa [name] using hname
    by_contra hchar
    rw [List.takeWhile_cons_of_pos (by simpa using hchar)] at hempty
    exact absurd hempty (List.cons_ne_nil _ _)
  | case6 rest hbrace hstatus name hname ih =>
    have hne : name ≠ [] := by simpa using hname
    have hstop : ∀ c ∈ (rest.dropWhile isNameChar).head?, isNameChar c = false := by
      intro c hc
      have hnot := List.head?_dropWhile_not isNameChar rest
      rw [Option.mem_def.1 hc] at hnot
      simpa using hnot
    have hall : ∀ c ∈ name, isNameChar c = true := List.all_eq_true.1 List.all_takeWhile
    have hnamed := (Fits.named name _ hne hall hstop).pieces_split ih
    rw [written, List.cons_append, List.takeWhile_append_dropWhile] at hnamed
    exact hnamed
  | case7 c rest hbrace hstatus hc ih => exact (Fits.other c rest hc).pieces_split ih

end Piece

/-- A text is made of pieces in one way. -/
theorem pieces_iff {cs : List Char} {pieces : List Piece} :
    Pieces cs pieces ↔ pieces = Piece.split cs := by
  refine ⟨fun h => ?_, fun h => h ▸ Piece.pieces_split cs⟩
  induction h with
  | nil => rw [Piece.split.eq_1]
  | cons hfits hrest ih => rw [hfits.split_append, ih]

/-- The pieces hold the whole text. -/
theorem Pieces.flatten_written {cs : List Char} {pieces : List Piece} (h : Pieces cs pieces) :
    (pieces.map Piece.written).flatten = cs := by
  induction h with
  | nil => rfl
  | cons hfits hrest ih => rw [List.map_cons, List.flatten_cons, ih]

/-! ### What pieces stand for -/

namespace Piece

variable {env : Environment} {locals : List (String × String)}

/-- What a piece may be replaced by: a reference by the value of its name, among `locals` first, and
the random variable by any number that can be drawn.  All else stays as it is written. -/
inductive StandsFor (env : Environment) (locals : List (String × String)) :
    Piece → List Char → Prop
  | literal (text : List Char) : StandsFor env locals (.literal text) text
  | known {name written : List Char} {value : String} :
      NameMap.find? (String.ofList name) locals = some value →
      StandsFor env locals (.reference name written) value.toList
  | random {name written : List Char} (n : Fin 32767) :
      NameMap.find? (String.ofList name) locals = none → String.ofList name = randomName →
      StandsFor env locals (.reference name written) (Text.showInt n.val).toList
  | stored {name written : List Char} {value : String} :
      NameMap.find? (String.ofList name) locals = none → String.ofList name ≠ randomName →
      env.stored (String.ofList name) = some value →
      StandsFor env locals (.reference name written) value.toList
  | unknown {name written : List Char} :
      NameMap.find? (String.ofList name) locals = none → String.ofList name ≠ randomName →
      env.stored (String.ofList name) = none →
      StandsFor env locals (.reference name written) written

/-- The piece refers to a name that has a value. -/
def Resolves (env : Environment) (locals : List (String × String)) : Piece → Prop
  | literal _ => False
  | reference name _ =>
    NameMap.contains (String.ofList name) locals = true ∨ env.has (String.ofList name) = true

/-- A piece is replaced by what it stands for. -/
theorem standsFor_expand (piece : Piece) (draws : Draws) :
    piece.StandsFor env locals (piece.expand env locals draws).1 := by
  cases piece with
  | literal text => exact .literal text
  | reference name written =>
    cases hlocal : NameMap.find? (String.ofList name) locals with
    | some value =>
      simp only [expand, lookup, hlocal]
      exact .known hlocal
    | none =>
      by_cases hrandom : String.ofList name = randomName
      · simp only [expand, lookup, hlocal, Environment.get, if_pos hrandom]
        exact .random draws.next.1 hlocal hrandom
      · simp only [expand, lookup, hlocal, Environment.get, if_neg hrandom]
        cases hstored : env.stored (String.ofList name) with
        | some value => exact .stored hlocal hrandom hstored
        | none => exact .unknown hlocal hrandom hstored

/-- A reference without a value stays as it is written. -/
theorem StandsFor.eq_written {piece : Piece} {text : List Char}
    (h : piece.StandsFor env locals text) (hpiece : ¬piece.Resolves env locals) :
    text = piece.written := by
  cases h with
  | literal text => rfl
  | known hlocal => exact absurd (.inl (Option.isSome_of_eq_some hlocal)) hpiece
  | random n hlocal hrandom =>
    exact absurd (.inr (Bool.or_eq_true_iff.2 (.inl (decide_eq_true hrandom)))) hpiece
  | stored hlocal hrandom hstored =>
    have hsome := Option.isSome_of_eq_some hstored
    exact absurd (.inr (Bool.or_eq_true_iff.2 (.inr hsome))) hpiece
  | unknown hlocal hrandom hstored => rfl

/-- Where no reference has a value, all pieces stay as they are written. -/
theorem eq_map_written {pieces : List Piece} {texts : List (List Char)}
    (h : List.Forall₂ (StandsFor env locals) pieces texts)
    (hpieces : ∀ piece ∈ pieces, ¬piece.Resolves env locals) : texts = pieces.map written := by
  induction h with
  | nil => rfl
  | cons hfirst hrest ih =>
    obtain ⟨hpiece, hothers⟩ := List.forall_mem_cons.1 hpieces
    rw [List.map_cons, hfirst.eq_written hpiece, ih hothers]

/-- Pieces are replaced one after the other by what they stand for. -/
theorem standsFor_expandAll (env : Environment) (locals : List (String × String))
    (pieces : List Piece) (draws : Draws) :
    ∃ texts, List.Forall₂ (StandsFor env locals) pieces texts ∧
      (expandAll env locals pieces draws).1 = texts.flatten := by
  induction pieces generalizing draws with
  | nil => exact ⟨[], .nil, rfl⟩
  | cons piece pieces ih =>
    obtain ⟨texts, hall, htexts⟩ := ih (piece.expand env locals draws).2
    exact ⟨_ :: texts, .cons (standsFor_expand piece draws) hall,
      congrArg ((piece.expand env locals draws).1 ++ ·) htexts⟩

end Piece

end MountShell
