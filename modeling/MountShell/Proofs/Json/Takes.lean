import MountShell.Json.Document

/-!
# Readers that take a given text

`Reader.Takes r text rest x` says that the reader `r` takes exactly `text` off what `rest` follows,
and gives `x`.  The places of the cursors are left open, so that the statements can be chained.

Main statements: `takes_string`, a string is read back from the way it is written, whatever its
characters, and `takes_value`, the same for values made of objects, strings and truth values, as
long as no more than `depth` braces are open at once (`Json.PlainWithin`).  `read_compact` says it
for whole documents.
-/

namespace MountShell.Json

namespace Reader

variable {α β σ : Type}

/-- The reader takes `text` from in front of `rest`, and gives `x`. -/
def Takes (r : Reader α) (text rest : List Char) (x : α) : Prop :=
  ∀ cursor : Cursor, cursor.rest = text ++ rest →
    ∃ after : Cursor, after.rest = rest ∧ r cursor = .ok (x, after)

/-- What follows a reader starts where the reader ends. -/
theorem bind_of_ok {r : Reader α} {f : α → Reader β} {cursor after : Cursor} {x : α}
    (h : r cursor = .ok (x, after)) : (r >>= f) cursor = f x after := by
  show StateT.bind r f cursor = _
  unfold StateT.bind
  rw [h]
  rfl

/-- A reader that does nothing takes nothing. -/
theorem takes_pure (x : α) (rest : List Char) : Takes (pure x) [] rest x :=
  fun cursor hrest => ⟨cursor, hrest, rfl⟩

/-- Two readers one after the other take their texts one after the other. -/
theorem Takes.bind {r : Reader α} {f : α → Reader β} {text more rest : List Char} {x : α} {y : β}
    (hr : Takes r text (more ++ rest) x) (hf : Takes (f x) more rest y) :
    Takes (r >>= f) (text ++ more) rest y := by
  intro cursor hcursor
  rw [List.append_assoc] at hcursor
  obtain ⟨middle, hmiddle, hok⟩ := hr cursor hcursor
  obtain ⟨after, hafter, hok'⟩ := hf middle hmiddle
  exact ⟨after, hafter, (bind_of_ok hok).trans hok'⟩

/-- A reader that only looks may come first. -/
theorem Takes.look {r : Reader α} {f : α → Reader β} {text rest : List Char} {x : α} {y : β}
    (hr : Takes r [] (text ++ rest) x) (hf : Takes (f x) text rest y) :
    Takes (r >>= f) text rest y :=
  Takes.bind hr hf

/-- A reader that takes nothing more may come last. -/
theorem Takes.last {r : Reader α} {f : α → Reader β} {text rest : List Char} {x : α} {y : β}
    (hr : Takes r text rest x) (hf : Takes (f x) [] rest y) : Takes (r >>= f) text rest y := by
  have h : Takes (r >>= f) (text ++ []) rest y := Takes.bind hr hf
  rwa [List.append_nil] at h

/-! ### Single characters -/

theorem rest_advance {cursor : Cursor} {c : Char} {rest : List Char} (h : cursor.rest = c :: rest) :
    cursor.advance.rest = rest := by
  unfold Cursor.advance
  rw [h]

/-- Looking at the next character takes nothing. -/
theorem takes_peek (rest : List Char) : Takes peek [] rest rest.head? := by
  intro cursor hcursor
  have hrest : cursor.rest = rest := hcursor
  exact ⟨cursor, hrest, hrest ▸ rfl⟩

/-- Skipping takes one character, whatever it is. -/
theorem takes_skip (c : Char) (rest : List Char) : Takes skip [c] rest () :=
  fun cursor hcursor => ⟨cursor.advance, rest_advance hcursor, rfl⟩

/-- Asking how much is left takes nothing. -/
theorem takes_left (rest : List Char) : Takes left [] rest rest.length := by
  intro cursor hcursor
  have hrest : cursor.rest = rest := hcursor
  exact ⟨cursor, hrest, hrest ▸ rfl⟩

/-- Where the next character is no blank, nothing is passed over. -/
theorem takes_peekPart {rest : List Char} (h : ∀ c ∈ rest.head?, isSpace c = false) :
    Takes peekPart [] rest rest.head? := by
  have hnone : Takes (takeWhile isSpace) [] rest [] := by
    intro cursor hcursor
    have hrest : cursor.rest = rest := hcursor
    refine ⟨cursor, hrest, ?_⟩
    unfold takeWhile
    rw [hrest]
    cases rest with
    | nil => rfl
    | cons c cs =>
      have hc : isSpace c = false := h c rfl
      simp [advanceWhile, hc]
  exact hnone.look (takes_peek rest)

/-! ### Strings -/

/-- A hexadecimal digit is read as the number that it is written for. -/
theorem hexValue?_hexDigit : ∀ n < 16, hexValue? (hexDigit n) = some n := by
  decide

/-- Each character has a byte at least, so that the bytes left bound the characters. -/
theorem length_le_bytesLeft (cursor : Cursor) : cursor.rest.length ≤ cursor.bytesLeft := by
  unfold Cursor.bytesLeft
  induction cursor.rest with
  | nil => exact Nat.le_refl 0
  | cons c cs ih =>
    have hpos : 0 < c.utf8Size := Char.utf8Size_pos c
    simp only [List.foldr_cons, List.length_cons]
    omega

/-- The four digits of an escape below the blank. -/
theorem takes_hexEscape {n : Nat} (h : n < 0x20) (rest : List Char) :
    Takes hexEscape ['0', '0', hexDigit (n / 16), hexDigit (n % 16)] rest n := by
  intro cursor hcursor
  have hbytes : ¬ cursor.bytesLeft < 4 := by
    have hlength := length_le_bytesLeft cursor
    rw [hcursor] at hlength
    simp only [List.cons_append, List.length_cons] at hlength
    omega
  have hhigh := hexValue?_hexDigit (n / 16) (by omega)
  have hlow := hexValue?_hexDigit (n % 16) (by omega)
  have hzero : hexValue? '0' = some 0 := by decide
  have hfour : fourHex? cursor.rest = some n := by
    rw [hcursor]
    simp only [List.cons_append, fourHex?, hzero, hhigh, hlow, Option.bind_eq_bind,
      Option.bind_some, Option.pure_def, Option.some.injEq]
    omega
  refine ⟨cursor.advance.advance.advance.advance, ?_, ?_⟩
  · exact rest_advance (rest_advance (rest_advance (rest_advance hcursor)))
  · unfold hexEscape
    rw [if_neg hbytes, hfour]

/-- The four digits that a control character is written with. -/
theorem takes_unicodeEscape {c : Char} (h : c.toNat < 0x20) (rest : List Char) :
    Takes unicodeEscape ['0', '0', hexDigit (c.toNat / 16), hexDigit (c.toNat % 16)] rest c := by
  refine (takes_hexEscape h rest).last ?_
  have hlow : isLowSurrogate c.toNat = false := by
    simp only [isLowSurrogate, Bool.and_eq_false_iff, decide_eq_false_iff_not]
    omega
  have hhigh : isHighSurrogate c.toNat = false := by
    simp only [isHighSurrogate, Bool.and_eq_false_iff, decide_eq_false_iff_not]
    omega
  simp only [hlow, hhigh, Bool.false_eq_true, if_false, Char.ofNat_toNat]
  exact takes_pure c rest

/-- An escape of one character is read as the character that it stands for. -/
theorem takes_escape_of_simple {c d : Char} (h : simpleEscape? c = some d) (rest : List Char) :
    Takes escape [c] rest d := by
  refine (takes_peek (c :: rest)).look ?_
  simp only [List.head?_cons, h]
  exact (takes_skip c rest).last (takes_pure d rest)

theorem takes_escape_of_control {c : Char} (h : c.toNat < 0x20) (rest : List Char) :
    Takes escape ['u', '0', '0', hexDigit (c.toNat / 16), hexDigit (c.toNat % 16)] rest c := by
  refine (takes_peek _).look ?_
  have hnone : simpleEscape? 'u' = none := by decide
  simp only [List.head?_cons, List.cons_append, hnone, if_true]
  exact (takes_skip 'u' _).bind (takes_unicodeEscape h rest)

/-- One character of a string, in the way it is written. -/
theorem takes_stringFrom_cons {c : Char} {n : Nat} {text rest : List Char} {cs : List Char}
    (h : Takes (stringFrom n) text rest cs) :
    Takes (stringFrom (n + 1)) (escapeChar c ++ text) rest (c :: cs) := by
  have hgive : Takes (stringFrom n >>= fun cs => pure (c :: cs)) text rest (c :: cs) :=
    h.last (takes_pure _ rest)
  -- An escape: its backslash is passed over, and `escape` reads what follows.
  have hescape : ∀ body : List Char, (∀ rest, Takes escape body rest c) →
      Takes (stringFrom (n + 1)) ('\\' :: body ++ text) rest (c :: cs) := by
    intro body hbody
    refine (takes_peek _).look ?_
    have hquote : ('\\' : Char) ≠ '"' := by decide
    simp only [List.cons_append, List.head?_cons, if_neg hquote, if_true]
    exact (takes_skip '\\' _).bind ((hbody _).bind hgive)
  -- The cases are those of the writer, in its order.
  unfold escapeChar
  by_cases hquote : c = '"'
  · subst hquote
    exact hescape ['"'] (takes_escape_of_simple (by decide))
  rw [if_neg hquote]
  by_cases hslash : c = '\\'
  · subst hslash
    exact hescape ['\\'] (takes_escape_of_simple (by decide))
  rw [if_neg hslash]
  by_cases hn : c = '\n'
  · subst hn
    exact hescape ['n'] (takes_escape_of_simple (by decide))
  rw [if_neg hn]
  by_cases hr : c = '\r'
  · subst hr
    exact hescape ['r'] (takes_escape_of_simple (by decide))
  rw [if_neg hr]
  by_cases ht : c = '\t'
  · subst ht
    exact hescape ['t'] (takes_escape_of_simple (by decide))
  rw [if_neg ht]
  by_cases hb : c.toNat = 0x08
  · rw [if_pos hb]
    have hc : c = Char.ofNat 0x08 := by rw [← hb, Char.ofNat_toNat]
    exact hescape ['b'] (takes_escape_of_simple (hc ▸ by decide))
  rw [if_neg hb]
  by_cases hf : c.toNat = 0x0C
  · rw [if_pos hf]
    have hc : c = Char.ofNat 0x0C := by rw [← hf, Char.ofNat_toNat]
    exact hescape ['f'] (takes_escape_of_simple (hc ▸ by decide))
  rw [if_neg hf]
  by_cases hcontrol : c.toNat < 0x20
  · rw [if_pos hcontrol]
    exact hescape _ (takes_escape_of_control hcontrol)
  · rw [if_neg hcontrol]
    refine (takes_peek _).look ?_
    simp only [List.cons_append, List.nil_append, List.head?_cons, if_neg hquote, if_neg hslash,
      if_neg hcontrol]
    exact (takes_skip c _).bind hgive

/-- The characters of a string and its closing quote, if enough characters may be taken. -/
theorem takes_stringFrom (cs : List Char) {n : Nat} (h : cs.length < n) (rest : List Char) :
    Takes (stringFrom n) (cs.flatMap escapeChar ++ ['"']) rest cs := by
  induction cs generalizing n with
  | nil =>
    obtain ⟨m, rfl⟩ := Nat.exists_eq_succ_of_ne_zero (Nat.ne_of_gt h)
    refine (takes_peek _).look ?_
    simp only [List.flatMap_nil, List.nil_append, List.cons_append, List.head?_cons, if_true]
    exact (takes_skip '"' rest).last (takes_pure _ rest)
  | cons c cs ih =>
    obtain ⟨m, rfl⟩ := Nat.exists_eq_succ_of_ne_zero (Nat.ne_of_gt (Nat.zero_lt_of_lt h))
    have hm : cs.length < m := Nat.lt_of_succ_lt_succ h
    rw [List.flatMap_cons, List.append_assoc]
    exact takes_stringFrom_cons (ih hm)

/-- Escaping makes no text shorter. -/
theorem length_le_length_flatMap_escapeChar (cs : List Char) :
    cs.length ≤ (cs.flatMap escapeChar).length := by
  have hpos : ∀ c, 0 < (escapeChar c).length := by
    intro c
    unfold escapeChar
    repeat' split
    all_goals exact Nat.succ_pos _
  induction cs with
  | nil => exact Nat.le_refl 0
  | cons c cs ih =>
    have := hpos c
    simp only [List.flatMap_cons, List.length_append, List.length_cons]
    omega

/-- A string is read back from the way it is written. -/
theorem takes_string (s : String) (rest : List Char) : Takes string (quote s) rest s := by
  have hlength := length_le_length_flatMap_escapeChar s.toList
  show Takes string (['"'] ++ (s.toList.flatMap escapeChar ++ ['"'])) rest s
  refine (takes_skip '"' _).bind ?_
  refine (takes_left _).look ?_
  have hmany : s.toList.length <
      (s.toList.flatMap escapeChar ++ ['"'] ++ rest).length + 1 := by
    simp only [List.length_append]
    omega
  have hgive : Takes (pure (String.ofList s.toList)) [] rest s := by
    rw [String.ofList_toList]
    exact takes_pure s rest
  exact (takes_stringFrom s.toList hmany rest).last hgive

/-- A fixed word is taken as it stands. -/
theorem takes_word (cs rest : List Char) : Takes (word cs) cs rest () := by
  induction cs with
  | nil => exact takes_pure () rest
  | cons c cs ih =>
    refine (takes_peek _).look ?_
    simp only [List.cons_append, List.head?_cons, if_true]
    exact (takes_skip c _).bind ih

/-! ### Objects -/

/-- Where the next character is no blank, it is what the next part starts with. -/
theorem takes_peekPart_cons {c : Char} (h : isSpace c = false) (rest : List Char) :
    Takes peekPart [] (c :: rest) (some c) :=
  takes_peekPart fun d hd => by
    obtain rfl : c = d := Option.some.inj hd
    exact h

theorem takes_colon (rest : List Char) : Takes colon [':'] rest () := by
  refine (takes_peekPart_cons (by decide) rest).look ?_
  simp only [if_true]
  exact takes_skip ':' rest

/-- A closing brace ends the fields, and is left there. -/
theorem takes_moreFields_end (first : Bool) (rest : List Char) :
    Takes (moreFields first) [] ('}' :: rest) false := by
  refine (takes_peekPart_cons (by decide) rest).look ?_
  simp only [if_true]
  exact takes_pure false _

/-- Before the first field no comma is taken. -/
theorem takes_moreFields_first (rest : List Char) :
    Takes (moreFields true) [] ('"' :: rest) true := by
  refine (takes_peekPart_cons (by decide) rest).look ?_
  have hne : ('"' : Char) ≠ '}' := by decide
  simp only [if_neg hne, if_true]
  exact takes_pure true _

/-- Before every other field one is. -/
theorem takes_moreFields_next (rest : List Char) :
    Takes (moreFields false) [','] ('"' :: rest) true := by
  refine (takes_peekPart_cons (by decide) ('"' :: rest)).look ?_
  have hne : (',' : Char) ≠ '}' := by decide
  simp only [if_neg hne, Bool.false_eq_true, if_false, if_true]
  refine (takes_skip ',' _).last ?_
  refine (takes_peekPart_cons (by decide) rest).look ?_
  simp only [if_true]
  exact takes_pure true _

/-- The text of a field. -/
def fieldText (field : String × Json) : List Char :=
  quote field.1 ++ ':' :: field.2.write

/-- The text of the fields, the first of which has no comma before it. -/
theorem writeFields_cons (field : String × Json) (fields : List (String × Json)) :
    writeFields (field :: fields) =
      fieldText field ++ fields.flatMap fun f => ',' :: fieldText f := by
  induction fields generalizing field with
  | nil => simp [writeFields, fieldText]
  | cons next rest ih =>
    have hcons : writeFields (field :: next :: rest) =
        fieldText field ++ ',' :: writeFields (next :: rest) := by
      simp [writeFields, fieldText]
    rw [hcons, ih next]
    simp

/-- The texts of fields, behind a comma unless they come first. -/
def fieldsText (first : Bool) (fields : List (String × Json)) : List Char :=
  if first then writeFields fields else fields.flatMap fun f => ',' :: fieldText f

theorem fieldsText_nil (first : Bool) : fieldsText first [] = [] := by
  cases first <;> rfl

theorem fieldsText_cons (first : Bool) (field : String × Json) (fields : List (String × Json)) :
    fieldsText first (field :: fields) =
      (if first then [] else [',']) ++ fieldText field ++ fieldsText false fields := by
  cases first with
  | true => simp [fieldsText, writeFields_cons]
  | false => simp [fieldsText]

theorem takes_moreFields (first : Bool) (rest : List Char) :
    Takes (moreFields first) (if first then [] else [',']) ('"' :: rest) true := by
  cases first with
  | true => exact takes_moreFields_first rest
  | false => exact takes_moreFields_next rest

/-- What `object` does with a field: the value behind its colon is added to the fields so far. -/
theorem takes_field {inner : Reader Json} (fields : List (String × Json)) (name : String)
    {value : Json} {rest : List Char} (h : Takes inner value.write rest value) :
    Takes (do
      colon
      let field ← inner
      return fields ++ [(name, field)]) (':' :: value.write) rest (fields ++ [(name, value)]) :=
  (takes_colon _).bind (h.last (takes_pure _ rest))

variable {inner : Reader Json}

/-- Fields, the first of them behind a comma unless `first`, up to the closing brace. -/
theorem takes_fieldsUpTo {fields : List (String × Json)}
    (hinner : ∀ field ∈ fields, ∀ rest, Takes inner field.2.write rest field.2) {n : Nat}
    (hn : fields.length < n) (first : Bool) (sofar : List (String × Json)) (rest : List Char) :
    Takes (fieldsUpTo (fun fields name => do
      colon
      let field ← inner
      return fields ++ [(name, field)]) n first sofar)
      (fieldsText first fields) ('}' :: rest) (sofar ++ fields) := by
  induction fields generalizing n first sofar with
  | nil =>
    obtain ⟨m, rfl⟩ := Nat.exists_eq_succ_of_ne_zero (Nat.ne_of_gt hn)
    rw [fieldsText_nil, List.append_nil]
    refine (takes_moreFields_end first rest).look ?_
    exact takes_pure sofar _
  | cons field fields ih =>
    obtain ⟨m, rfl⟩ := Nat.exists_eq_succ_of_ne_zero (Nat.ne_of_gt (Nat.zero_lt_of_lt hn))
    obtain ⟨hvalue, hfields⟩ := List.forall_mem_cons.1 hinner
    have hrest := ih hfields (Nat.lt_of_succ_lt_succ hn) false (sofar ++ [field])
    rw [List.append_assoc, List.singleton_append] at hrest
    rw [fieldsText_cons, fieldText, List.append_assoc, List.append_assoc]
    refine (takes_moreFields first _).bind ?_
    simp only [if_true]
    refine (takes_string field.1 _).bind ?_
    exact (takes_field sofar field.1 (hvalue _)).bind hrest

/-- A field takes a character at least. -/
theorem length_le_length_fieldsText (first : Bool) (fields : List (String × Json)) :
    fields.length ≤ (fieldsText first fields).length := by
  induction fields generalizing first with
  | nil => exact Nat.zero_le _
  | cons field fields ih =>
    have hfields := ih false
    have hfield : 0 < (fieldText field).length := by
      simp only [fieldText, List.length_append, List.length_cons]
      omega
    rw [fieldsText_cons]
    simp only [List.length_append, List.length_cons]
    omega

/-- An object is taken if the values of its fields are. -/
theorem takes_object {fields : List (String × Json)}
    (hinner : ∀ field ∈ fields, ∀ rest, Takes inner field.2.write rest field.2)
    (rest : List Char) : Takes (object inner) (Json.object fields).write rest fields := by
  have hlength : fields.length ≤ (writeFields fields).length :=
    length_le_length_fieldsText true fields
  have hmany : fields.length < (writeFields fields ++ '}' :: rest).length + 1 := by
    simp only [List.length_append]
    omega
  have htext : (Json.object fields).write = ['{'] ++ (writeFields fields ++ ['}']) := by
    simp [write]
  rw [htext]
  refine (takes_skip '{' _).bind ?_
  refine (takes_left _).look ?_
  rw [List.append_assoc, List.singleton_append]
  refine (takes_fieldsUpTo hinner hmany true [] rest).bind ?_
  exact (takes_skip '}' rest).last (takes_pure fields rest)

end Reader

/-! ### Values -/

/-- A value made of objects, strings and truth values, with no more than `depth` braces open at
once. -/
inductive PlainWithin : Nat → Json → Prop
  | bool {depth : Nat} (value : Bool) : PlainWithin depth (.bool value)
  | text {depth : Nat} (value : String) : PlainWithin depth (.text value)
  | object {depth : Nat} {fields : List (String × Json)} :
      (∀ field ∈ fields, PlainWithin depth field.2) → PlainWithin (depth + 1) (.object fields)

namespace Reader

/-- A truth value is taken where a value is expected. -/
theorem takes_part_bool (inner : Option (Reader Json)) (value : Bool) (rest : List Char) :
    Takes (part inner) (Json.bool value).write rest (.bool value) := by
  cases value with
  | true =>
    have htext : (Json.bool true).write = ['t'] ++ ['r', 'u', 'e'] := rfl
    rw [htext]
    refine (takes_peekPart_cons (by decide) _).look ?_
    simp only [Char.reduceEq, ↓reduceIte]
    exact (takes_skip 't' _).bind ((takes_word ['r', 'u', 'e'] rest).last (takes_pure _ rest))
  | false =>
    have htext : (Json.bool false).write = ['f'] ++ ['a', 'l', 's', 'e'] := rfl
    rw [htext]
    refine (takes_peekPart_cons (by decide) _).look ?_
    simp only [Char.reduceEq, ↓reduceIte]
    exact (takes_skip 'f' _).bind
      ((takes_word ['a', 'l', 's', 'e'] rest).last (takes_pure _ rest))

/-- So is a text, with its escapes. -/
theorem takes_part_text (inner : Option (Reader Json)) (value : String) (rest : List Char) :
    Takes (part inner) (Json.text value).write rest (.text value) := by
  refine (takes_peekPart_cons (by decide) _).look ?_
  simp only [Char.reduceEq, ↓reduceIte]
  exact (takes_string value rest).last (takes_pure _ rest)

/-- So is an object, where objects are allowed. -/
theorem takes_part_object {inner : Reader Json} {fields : List (String × Json)}
    (hinner : ∀ field ∈ fields, ∀ rest, Takes inner field.2.write rest field.2)
    (rest : List Char) :
    Takes (part (some inner)) (Json.object fields).write rest (.object fields) := by
  refine (takes_peekPart_cons (by decide) _).look ?_
  simp only [Char.reduceEq, ↓reduceIte]
  exact (takes_object hinner rest).last (takes_pure _ rest)

/-- A plain value is read back from its compact text, if its braces may be open at once. -/
theorem takes_value {depth : Nat} {j : Json} (h : j.PlainWithin depth) (rest : List Char) :
    Takes (value depth) j.write rest j := by
  induction h generalizing rest with
  | @bool depth b => cases depth <;> exact takes_part_bool _ b rest
  | @text depth s => cases depth <;> exact takes_part_text _ s rest
  | object _ ih => exact takes_part_object ih rest

end Reader

/-- A document is read back from its compact text. -/
theorem read_compact {j : Json} (h : j.PlainWithin maxDepth) : read j.compact = .ok j := by
  have hwhole : Reader.Takes (Reader.whole (Reader.value maxDepth)) j.write [] j := by
    refine (Reader.takes_value h []).last ?_
    have hend := @Reader.takes_peekPart [] (by simp)
    refine hend.look ?_
    exact Reader.takes_pure j []
  have hstart : (Cursor.ofString j.compact).rest = j.write ++ [] := by
    simp [Cursor.ofString, compact]
  obtain ⟨after, -, hok⟩ := hwhole _ hstart
  unfold read Reader.run
  rw [hok]

end MountShell.Json
