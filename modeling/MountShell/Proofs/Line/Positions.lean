import MountShell.Proofs.Line.Pieces

/-!
# Replacing references by position

The references of a text, replaced by a reader that keeps a position in it.  The reader looks ahead
of its position for a brace, a question mark or the end of a name, and takes what stands between two
positions.  Nothing is given if it looks at a position outside the text, takes what is not there, or
goes on for more rounds than there are characters.

Each round takes one piece (`round?_eq`), and none of them is empty.

Main statements: `scan?_eq`, the reader stays inside the text and comes to its end, and
`substitute_pieces`, what is put in place of the pieces of a text.
-/

namespace MountShell

namespace Positions

/-- What stands from the position `i` up to the position `j`, if the text has these positions. -/
def slice? (cs : List Char) (i j : Nat) : Option (List Char) :=
  if i ≤ j ∧ j ≤ cs.length then some ((cs.take j).drop i) else none

/-- The first position from `i` on that holds no name character, looking at `n` of them at most. -/
def nameEnd? (cs : List Char) : Nat → Nat → Option Nat
  | 0, _ => none
  | n + 1, i =>
    if i < cs.length then do
      let c ← cs[i]?
      if isNameChar c then nameEnd? cs n (i + 1) else some i
    else some i

/-- Replaces a reference that begins at `start` and ends before `next`, with its name from `i` up to
`j`. -/
def replace? (env : Environment) (locals : List (String × String)) (cs : List Char)
    (start i j next : Nat) (draws : Draws) : Option (Nat × List Char × Draws) := do
  let name ← slice? cs i j
  match lookup env locals (String.ofList name) draws with
  | (some value, draws) => some (next, value.toList, draws)
  | (none, draws) =>
    let written ← slice? cs start next
    some (next, written, draws)

/-- A dollar sign at the position `i`, with a brace after it: looks for the closing one. -/
def braced? (env : Environment) (locals : List (String × String)) (cs : List Char) (i : Nat)
    (draws : Draws) : Option (Nat × List Char × Draws) := do
  let tail ← slice? cs (i + 2) cs.length
  match tail.findIdx? (· = '}') with
  | none =>
    let rest ← slice? cs i cs.length
    some (cs.length, rest, draws)
  | some close => replace? env locals cs i (i + 2) (i + 2 + close) (i + 2 + close + 1) draws

/-- The position after the name that follows a dollar sign at the position `i`.  The question mark
is a name of its own. -/
def nameStop? (cs : List Char) (i : Nat) : Option Nat :=
  if cs[i + 1]? = some '?' then some (i + 2) else nameEnd? cs cs.length (i + 1)

/-- A dollar sign at the position `i`, without a brace after it: looks for the end of a name. -/
def named? (env : Environment) (locals : List (String × String)) (cs : List Char) (i : Nat)
    (draws : Draws) : Option (Nat × List Char × Draws) := do
  let stop ← nameStop? cs i
  if stop = i + 1 then some (i + 1, ['$'], draws)
  else replace? env locals cs i (i + 1) stop stop draws

/-- One round at the position `i`: the position after it, and the text that it adds. -/
def round? (env : Environment) (locals : List (String × String)) (cs : List Char) (i : Nat)
    (draws : Draws) : Option (Nat × List Char × Draws) := do
  let c ← cs[i]?
  if c ≠ '$' then some (i + 1, [c], draws)
  else if cs[i + 1]? = some '{' then braced? env locals cs i draws
  else named? env locals cs i draws

/-- The text from the position `i` on with its references replaced, in at most the given number of
rounds. -/
def scan? (env : Environment) (locals : List (String × String)) (cs : List Char) :
    Nat → Nat → Draws → Option (List Char × Draws)
  | 0, i, draws => if i < cs.length then none else some ([], draws)
  | n + 1, i, draws =>
    if i < cs.length then do
      let (next, text, draws) ← round? env locals cs i draws
      let (rest, draws) ← scan? env locals cs n next draws
      some (text ++ rest, draws)
    else some ([], draws)

variable {env : Environment} {locals : List (String × String)} {cs : List Char} {i : Nat}

/-! ### What stands at a position -/

/-- The text from a position on tells what stands at the positions after it. -/
theorem getElem?_of_drop {rest : List Char} (h : cs.drop i = rest) (n : Nat) :
    cs[i + n]? = rest[n]? := by
  rw [← h, List.getElem?_drop]

theorem drop_succ_of_drop {c : Char} {rest : List Char} (h : cs.drop i = c :: rest) :
    cs.drop (i + 1) = rest := by
  rw [← List.drop_drop, h]
  rfl

theorem lt_length_of_drop {c : Char} {rest : List Char} (h : cs.drop i = c :: rest) :
    i < cs.length := by
  by_contra hle
  rw [List.drop_eq_nil_of_le (Nat.not_lt.1 hle)] at h
  exact absurd h (by simp)

/-- What is taken between two positions that lie in the text. -/
theorem slice?_of_drop (before : List Char) {first : List Char} (rest : List Char)
    (hi : i < cs.length) (h : cs.drop i = before ++ (first ++ rest)) {j k : Nat}
    (hj : i + before.length = j) (hk : j + first.length = k) : slice? cs j k = some first := by
  have hlength := congrArg List.length h
  simp only [List.length_drop, List.length_append] at hlength
  have hrest : cs.drop j = first ++ rest := by
    rw [← hj, ← List.drop_drop, h, List.drop_left]
  rw [slice?, if_pos (by omega), List.drop_take, hrest, ← hk, Nat.add_sub_cancel_left,
    List.take_left]

/-- The end of a name is found. -/
theorem nameEnd?_of_drop {name rest : List Char} (h : cs.drop i = name ++ rest)
    (hname : ∀ c ∈ name, isNameChar c = true) (hrest : ∀ c ∈ rest.head?, isNameChar c = false)
    {n : Nat} (hn : name.length < n) : nameEnd? cs n i = some (i + name.length) := by
  obtain ⟨n, rfl⟩ : ∃ m, n = m + 1 := ⟨n - 1, by omega⟩
  induction name generalizing i n with
  | nil =>
    rw [nameEnd?]
    by_cases hlt : i < cs.length
    · obtain ⟨c, after, rfl⟩ : ∃ c after, rest = c :: after := by
        refine List.exists_cons_of_ne_nil fun hnil => ?_
        rw [List.nil_append, hnil, List.drop_eq_nil_iff] at h
        omega
      have hc : cs[i]? = some c := getElem?_of_drop h 0
      rw [if_pos hlt, hc]
      simp [hrest c rfl]
    · rw [if_neg hlt]
      rfl
  | cons c name ih =>
    obtain ⟨hchar, hchars⟩ := List.forall_mem_cons.1 hname
    have hc : cs[i]? = some c := getElem?_of_drop h 0
    have hnext : cs.drop (i + 1) = name ++ rest := drop_succ_of_drop h
    obtain ⟨n, rfl⟩ : ∃ m, n = m + 1 := ⟨n - 1, by simp only [List.length_cons] at hn; omega⟩
    have hends := ih hnext hchars n (by simpa using hn)
    rw [nameEnd?, if_pos (lt_length_of_drop h), hc]
    simp only [Option.bind_eq_bind, Option.bind_some, if_pos hchar, hends, List.length_cons]
    rw [Nat.add_assoc, Nat.add_comm 1]

/-- The next closing brace is found. -/
theorem findIdx?_of_not_mem {name : List Char} (h : '}' ∉ name) (rest : List Char) :
    (name ++ '}' :: rest).findIdx? (· = '}') = some name.length := by
  induction name with
  | nil => rfl
  | cons c name ih =>
    obtain ⟨hc, hname⟩ := not_or.1 fun hor => h (List.mem_cons.2 hor)
    rw [List.cons_append, List.findIdx?_cons, if_neg (by simpa using Ne.symm hc), ih hname]
    rfl

/-! ### Round by round -/

/-- A reference that stands at a position is replaced. -/
theorem replace?_of_slices {start j next : Nat} {name written : List Char}
    (hname : slice? cs i j = some name) (hwritten : slice? cs start next = some written)
    (draws : Draws) :
    replace? env locals cs start i j next draws =
      some (next, Piece.expand env locals draws (.reference name written)) := by
  simp only [replace?, hname, hwritten, Option.bind_eq_bind, Option.bind_some, Piece.expand]
  rcases lookup env locals (String.ofList name) draws with ⟨_ | value, after⟩ <;> rfl

/-- A name in braces that are closed. -/
theorem braced?_of_drop {name rest : List Char} (hi : i < cs.length)
    (h : cs.drop i = '$' :: '{' :: (name ++ '}' :: rest)) (hname : '}' ∉ name) (draws : Draws) :
    braced? env locals cs i draws =
      some (i + 2 + name.length + 1,
        Piece.expand env locals draws (.reference name ('$' :: '{' :: name ++ ['}']))) := by
  have hlength := congrArg List.length h
  simp only [List.length_drop, List.length_cons, List.length_append] at hlength
  have htail : slice? cs (i + 2) cs.length = some (name ++ '}' :: rest) := by
    refine slice?_of_drop ['$', '{'] [] hi (by rw [h]; simp) rfl ?_
    simp only [List.length_cons, List.length_append]
    omega
  have hinside : slice? cs (i + 2) (i + 2 + name.length) = some name :=
    slice?_of_drop ['$', '{'] ('}' :: rest) hi h rfl rfl
  have hwritten : slice? cs i (i + 2 + name.length + 1) = some ('$' :: '{' :: name ++ ['}']) := by
    refine slice?_of_drop [] rest hi (by rw [h]; simp) rfl ?_
    simp only [List.length_cons, List.length_append, List.length_nil]
    omega
  simp only [braced?, htail, Option.bind_eq_bind, Option.bind_some, findIdx?_of_not_mem hname]
  exact replace?_of_slices hinside hwritten draws

/-- Braces that are never closed. -/
theorem braced?_of_not_mem {text : List Char} (hi : i < cs.length)
    (h : cs.drop i = '$' :: '{' :: text) (htext : '}' ∉ text) (draws : Draws) :
    braced? env locals cs i draws = some (cs.length, '$' :: '{' :: text, draws) := by
  have hlength := congrArg List.length h
  simp only [List.length_drop, List.length_cons] at hlength
  have htail : slice? cs (i + 2) cs.length = some text :=
    slice?_of_drop ['$', '{'] [] hi (by rw [h]; simp) rfl (by omega)
  have hall : slice? cs i cs.length = some ('$' :: '{' :: text) := by
    refine slice?_of_drop [] [] hi (by rw [h]; simp) rfl ?_
    simp only [List.length_cons]
    omega
  have hnone : text.findIdx? (· = '}') = none := by
    refine List.findIdx?_eq_none_iff.2 fun c hc => decide_eq_false ?_
    rintro rfl
    exact htext hc
  simp only [braced?, htail, Option.bind_eq_bind, Option.bind_some, hnone, hall]

/-- The mark of the status, or a name. -/
theorem named?_of_stop {name rest : List Char} (hi : i < cs.length)
    (h : cs.drop i = '$' :: (name ++ rest)) (hne : name ≠ [])
    (hstop : nameStop? cs i = some (i + 1 + name.length)) (draws : Draws) :
    named? env locals cs i draws =
      some (i + 1 + name.length,
        Piece.expand env locals draws (.reference name ('$' :: name))) := by
  have hinside : slice? cs (i + 1) (i + 1 + name.length) = some name :=
    slice?_of_drop ['$'] rest hi h rfl rfl
  have hwritten : slice? cs i (i + 1 + name.length) = some ('$' :: name) := by
    refine slice?_of_drop [] rest hi h rfl ?_
    simp only [List.length_cons]
    omega
  have hpos : ¬i + 1 + name.length = i + 1 := by
    have := List.length_pos_of_ne_nil hne
    omega
  simp only [named?, hstop, Option.bind_eq_bind, Option.bind_some, if_neg hpos]
  exact replace?_of_slices hinside hwritten draws

/-- No name begins after the dollar sign. -/
theorem named?_of_none (hstop : nameStop? cs i = some (i + 1)) (draws : Draws) :
    named? env locals cs i draws = some (i + 1, ['$'], draws) := by
  simp only [named?, hstop, Option.bind_eq_bind, Option.bind_some, if_true]

/-- One round takes one piece. -/
theorem round?_eq {piece : Piece} {rest : List Char} (h : cs.drop i = piece.written ++ rest)
    (hfits : piece.Fits rest) (hi : i < cs.length) (draws : Draws) :
    round? env locals cs i draws =
      some (i + piece.written.length, piece.expand env locals draws) := by
  have hlength := congrArg List.length h
  have hat := getElem?_of_drop h
  -- A round looks at the first character, and after a dollar sign at the one that follows.
  have hround : ∀ {c}, cs[i]? = some c → round? env locals cs i draws =
      if c ≠ '$' then some (i + 1, [c], draws)
      else if cs[i + 1]? = some '{' then braced? env locals cs i draws
      else named? env locals cs i draws := by
    intro c hc
    rw [round?, hc]
    rfl
  cases hfits with
  | other c rest hc => exact (hround (hat 0)).trans (if_pos hc)
  | braced name rest hname =>
    have hdrop : cs.drop i = '$' :: '{' :: (name ++ '}' :: rest) := by
      rw [h, Piece.written, List.append_assoc]
      rfl
    have hbrace : cs[i + 1]? = some '{' := hat 1
    rw [hround (hat 0), if_neg (by simp), if_pos hbrace, braced?_of_drop hi hdrop hname]
    simp only [Piece.written, List.length_cons, List.length_append, List.length_nil]
    congr 2
    omega
  | unclosed text htext =>
    have hdrop : cs.drop i = '$' :: '{' :: text := h.trans (List.append_nil _)
    have hbrace : cs[i + 1]? = some '{' := hat 1
    rw [hround (hat 0), if_neg (by simp), if_pos hbrace, braced?_of_not_mem hi hdrop htext]
    simp only [Piece.written, List.length_drop, List.length_append, List.length_nil] at hlength ⊢
    congr 2
    omega
  | status rest =>
    have hmark : cs[i + 1]? = some '?' := hat 1
    rw [hround (hat 0), if_neg (by simp), if_neg (by simp [hmark])]
    exact named?_of_stop hi h (by simp) (if_pos hmark) draws
  | named name rest hne hname hrest =>
    obtain ⟨c, more, rfl⟩ := List.exists_cons_of_ne_nil hne
    -- a name begins with a character of names, which is neither the brace nor the question mark
    have hchar : isNameChar c = true := hname c List.mem_cons_self
    have hnext : cs[i + 1]? = some c := hat 1
    have hbrace : cs[i + 1]? ≠ some '{' := by
      rw [hnext]
      rintro ⟨⟩
      exact absurd hchar (by decide)
    have hmark : cs[i + 1]? ≠ some '?' := by
      rw [hnext]
      rintro ⟨⟩
      exact absurd hchar (by decide)
    have hdrop : cs.drop (i + 1) = c :: more ++ rest := drop_succ_of_drop h
    have hstop : nameStop? cs i = some (i + 1 + (c :: more).length) := by
      refine (if_neg hmark).trans (nameEnd?_of_drop hdrop hname hrest ?_)
      simp only [Piece.written, List.length_drop, List.length_append, List.length_cons] at hlength ⊢
      omega
    rw [hround (hat 0), if_neg (by simp), if_neg hbrace,
      named?_of_stop hi h hne hstop]
    simp only [Piece.written, List.length_cons]
    congr 2
    omega
  | alone rest hrest =>
    have hnext : cs[i + 1]? = rest.head? := (hat 1).trans List.head?_eq_getElem?.symm
    have hdrop : cs.drop (i + 1) = [] ++ rest := drop_succ_of_drop h
    have hbrace : cs[i + 1]? ≠ some '{' := fun hc => (hrest '{' (hnext ▸ hc)).1 rfl
    have hmark : cs[i + 1]? ≠ some '?' := fun hc => (hrest '?' (hnext ▸ hc)).2.1 rfl
    have hstop : nameStop? cs i = some (i + 1) :=
      (if_neg hmark).trans (nameEnd?_of_drop hdrop (fun c hc => absurd hc List.not_mem_nil)
        (fun c hc => (hrest c hc).2.2) (Nat.zero_lt_of_lt hi))
    rw [hround (hat 0), if_neg (by simp), if_neg hbrace, named?_of_none hstop]
    rfl

/-! ### The whole text -/

/-- The reader stays inside the text and comes to its end, in as many rounds as there are
characters. -/
theorem scan?_eq {n : Nat} (h : (cs.drop i).length ≤ n) (draws : Draws) :
    scan? env locals cs n i draws =
      some (Piece.expandAll env locals (Piece.split (cs.drop i)) draws) := by
  induction n generalizing i draws with
  | zero =>
    have hnil : cs.drop i = [] := List.eq_nil_of_length_eq_zero (Nat.le_zero.1 h)
    rw [scan?, if_neg (Nat.not_lt.2 (List.drop_eq_nil_iff.1 hnil)), hnil, Piece.split.eq_1]
    rfl
  | succ n ih =>
    by_cases hi : i < cs.length
    · have hpieces := Piece.pieces_split (cs.drop i)
      -- One round takes the first piece of what is left, and a piece is not empty, so that one
      -- round less is enough for the others.
      generalize hdrop : cs.drop i = text at hpieces
      generalize hsplit : Piece.split text = pieces at hpieces
      cases hpieces with
      | nil => exact absurd hi (Nat.not_lt.2 (List.drop_eq_nil_iff.1 hdrop))
      | @cons piece rest pieces hfits hrest =>
        have hnext : cs.drop (i + piece.written.length) = rest := by
          rw [← List.drop_drop, hdrop, List.drop_left]
        have hshort : (cs.drop (i + piece.written.length)).length ≤ n := by
          have hpos := hfits.length_written_pos
          simp only [List.length_drop] at h ⊢
          omega
        rw [scan?, if_pos hi, round?_eq hdrop hfits hi]
        simp only [Option.bind_eq_bind, Option.bind_some, ih hshort, hnext,
          ← pieces_iff.1 hrest]
        rfl
    · have hnil : cs.drop i = [] := List.drop_eq_nil_of_le (Nat.not_lt.1 hi)
      rw [scan?, if_neg hi, hnil, Piece.split.eq_1]
      rfl

end Positions

/-- A text is made of pieces in one way.  Each reference among them is replaced by the value that
its name has among `locals`, or else in the environment, and nothing else is: without a name that
has a value, the text stays what it is.  To do so the text can be read by position, never outside
it, and in as many rounds as it has characters at most. -/
theorem substitute_pieces (text : String) :
    ∃ pieces, (∀ other, Pieces text.toList other ↔ other = pieces) ∧
      ∀ env locals draws,
        (∃ texts, List.Forall₂ (Piece.StandsFor env locals) pieces texts ∧
          (substitute env locals text draws).1 = String.ofList texts.flatten) ∧
        ((∀ piece ∈ pieces, ¬piece.Resolves env locals) →
          (substitute env locals text draws).1 = text) ∧
        Positions.scan? env locals text.toList text.toList.length 0 draws =
          some ((substitute env locals text draws).1.toList,
            (substitute env locals text draws).2) := by
  refine ⟨Piece.split text.toList, fun other => pieces_iff, fun env locals draws => ?_⟩
  obtain ⟨texts, hall, htexts⟩ :=
    Piece.standsFor_expandAll env locals (Piece.split text.toList) draws
  have hsubstitute : (substitute env locals text draws).1 = String.ofList texts.flatten :=
    congrArg String.ofList htexts
  refine ⟨⟨texts, hall, hsubstitute⟩, fun hnone => ?_, ?_⟩
  · have hwritten : texts = (Piece.split text.toList).map Piece.written :=
      Piece.eq_map_written hall hnone
    rw [hsubstitute, hwritten, (Piece.pieces_split text.toList).flatten_written,
      String.ofList_toList]
  · have hshort : (text.toList.drop 0).length ≤ text.toList.length := Nat.le.refl
    rw [Positions.scan?_eq hshort, List.drop_zero]
    exact congrArg some (Prod.ext String.toList_ofList.symm rfl)

end MountShell
