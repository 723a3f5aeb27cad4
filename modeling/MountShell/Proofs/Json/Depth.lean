import MountShell.Proofs.Json.Takes

/-!
# The depth of a text

`Json.nesting` counts how many brackets of a text are open at once, by one pass over its characters
that only has to know which of them stand in strings.  For the compact text of a value it is the
depth of the value itself (`nesting_write`).

Main statements: a text with at most `maxDepth` brackets open is read back as the value it was
written for (`read_compact_of_nesting_le`), and one with more is refused with the fault `tooDeep`
(`read_compact_of_lt_nesting`).  Both are about values made of objects, strings and truth values,
whatever the characters of their strings are.
-/

namespace MountShell.Json

/-! ### Open brackets -/

/-- What is known of a text after some of its characters: whether they end inside a string, and
there behind a backslash, how many brackets are open, and how many were open at most. -/
structure Brackets where
  quoted : Bool
  escaped : Bool
  depth : Nat
  deepest : Nat
  deriving DecidableEq, Repr

/-- One more character. -/
def Brackets.step (b : Brackets) (c : Char) : Brackets :=
  if b.escaped then { b with escaped := false }
  else if b.quoted then
    if c = '\\' then { b with escaped := true }
    else if c = '"' then { b with quoted := false }
    else b
  else if c = '"' then { b with quoted := true }
  else if c = '{' || c = '[' then
    { b with depth := b.depth + 1, deepest := max b.deepest (b.depth + 1) }
  else if c = '}' || c = ']' then { b with depth := b.depth - 1 }
  else b

/-- What is known after a text. -/
def Brackets.scan (b : Brackets) (text : List Char) : Brackets :=
  text.foldl step b

/-- How many brackets of a text are open at once, those inside strings not counted. -/
def nesting (text : List Char) : Nat :=
  (Brackets.scan ⟨false, false, 0, 0⟩ text).deepest

mutual

/-- How many brackets of a value are open at once. -/
def height : Json → Nat
  | list items => heightItems items + 1
  | object fields => heightFields fields + 1
  | _ => 0

/-- How many brackets of some items are open at once. -/
def heightItems : List Json → Nat
  | [] => 0
  | item :: rest => max item.height (heightItems rest)

/-- How many brackets of some fields are open at once. -/
def heightFields : List (String × Json) → Nat
  | [] => 0
  | (_, value) :: rest => max value.height (heightFields rest)

end

theorem heightFields_le_iff (fields : List (String × Json)) (depth : Nat) :
    heightFields fields ≤ depth ↔ ∀ field ∈ fields, field.2.height ≤ depth := by
  induction fields with
  | nil => simp [heightFields]
  | cons field rest ih =>
    obtain ⟨name, value⟩ := field
    rw [heightFields, Nat.max_le, ih, List.forall_mem_cons]

/-- A plain value fits within its height and every greater depth. -/
theorem PlainWithin.iff_height_le {n : Nat} {j : Json} (h : j.PlainWithin n) (depth : Nat) :
    j.PlainWithin depth ↔ j.height ≤ depth := by
  induction h generalizing depth with
  | bool value => exact ⟨fun _ => by simp [height], fun _ => .bool value⟩
  | text value => exact ⟨fun _ => by simp [height], fun _ => .text value⟩
  | @object n fields _ ih =>
    rw [height, Nat.succ_le_iff]
    constructor
    · intro h
      cases h with
      | object hfields =>
        refine Nat.lt_succ_of_le ((heightFields_le_iff _ _).2 fun field hfield => ?_)
        exact (ih field hfield _).1 (hfields field hfield)
    · intro h
      obtain ⟨below, rfl⟩ := Nat.exists_eq_succ_of_ne_zero (Nat.ne_of_gt (Nat.zero_lt_of_lt h))
      refine .object fun field hfield => (ih field hfield _).2 ?_
      exact (heightFields_le_iff _ _).1 (Nat.le_of_lt_succ h) field hfield

/-! ### The brackets of what is written -/

namespace Brackets

theorem scan_append (b : Brackets) (text more : List Char) :
    b.scan (text ++ more) = (b.scan text).scan more :=
  List.foldl_append

variable (depth deepest : Nat)

theorem hexDigit_ne_quote : ∀ n < 16, hexDigit n ≠ '"' ∧ hexDigit n ≠ '\\' := by
  decide

/-- The way a character is written inside a string does not end the string. -/
theorem scan_escapeChar (c : Char) :
    scan ⟨true, false, depth, deepest⟩ (escapeChar c) = ⟨true, false, depth, deepest⟩ := by
  have hpair : ∀ d, scan ⟨true, false, depth, deepest⟩ ['\\', d] =
      ⟨true, false, depth, deepest⟩ := fun d => rfl
  unfold escapeChar
  by_cases hquote : c = '"'
  · rw [if_pos hquote, hpair]
  by_cases hslash : c = '\\'
  · rw [if_neg hquote, if_pos hslash, hpair]
  rw [if_neg hquote, if_neg hslash]
  by_cases hcontrol : c.toNat < 0x20
  · have hhigh := hexDigit_ne_quote (c.toNat / 16) (by omega)
    have hlow := hexDigit_ne_quote (c.toNat % 16) (by omega)
    have hlong : scan ⟨true, false, depth, deepest⟩
        ['\\', 'u', '0', '0', hexDigit (c.toNat / 16), hexDigit (c.toNat % 16)] =
        ⟨true, false, depth, deepest⟩ := by
      simp [scan, step, hhigh, hlow]
    simp only [hcontrol, if_true]
    repeat' split
    all_goals first | exact hpair _ | exact hlong
  · have hplain : scan ⟨true, false, depth, deepest⟩ [c] = ⟨true, false, depth, deepest⟩ := by
      simp [scan, step, hquote, hslash]
    rw [if_neg hcontrol]
    repeat' split
    all_goals first | exact hpair _ | exact hplain

/-- The brackets in a string are not counted. -/
theorem scan_quote (s : String) :
    scan ⟨false, false, depth, deepest⟩ (quote s) = ⟨false, false, depth, deepest⟩ := by
  have hbody : ∀ cs : List Char, scan ⟨true, false, depth, deepest⟩ (cs.flatMap escapeChar) =
      ⟨true, false, depth, deepest⟩ := by
    intro cs
    induction cs with
    | nil => rfl
    | cons c cs ih => rw [List.flatMap_cons, scan_append, scan_escapeChar, ih]
  show scan ⟨true, false, depth, deepest⟩ (s.toList.flatMap escapeChar ++ ['"']) = _
  rw [scan_append, hbody]
  rfl

variable {depth deepest}

/-- What each field adds to the brackets that are open at most, all fields add together. -/
theorem scan_fieldsText {fields : List (String × Json)}
    (h : ∀ field ∈ fields, ∀ {depth deepest : Nat}, depth ≤ deepest →
      scan ⟨false, false, depth, deepest⟩ field.2.write =
        ⟨false, false, depth, max deepest (depth + field.2.height)⟩)
    (first : Bool) (hdepth : depth ≤ deepest) :
    scan ⟨false, false, depth, deepest⟩ (Reader.fieldsText first fields) =
      ⟨false, false, depth, max deepest (depth + heightFields fields)⟩ := by
  induction fields generalizing first deepest with
  | nil =>
    rw [Reader.fieldsText_nil, heightFields, Nat.add_zero, Nat.max_eq_left hdepth]
    rfl
  | cons field rest ih =>
    obtain ⟨hvalue, hrest⟩ := List.forall_mem_cons.1 h
    have hcomma : scan ⟨false, false, depth, deepest⟩ (if first then [] else [',']) =
        ⟨false, false, depth, deepest⟩ := by
      cases first <;> rfl
    have hfield : scan ⟨false, false, depth, deepest⟩ (Reader.fieldText field) =
        ⟨false, false, depth, max deepest (depth + field.2.height)⟩ := by
      rw [Reader.fieldText, scan_append, scan_quote]
      exact hvalue hdepth
    rw [Reader.fieldsText_cons, scan_append, scan_append, hcomma, hfield,
      ih hrest false (by omega), heightFields]
    congr 1
    omega

/-- The compact text of a plain value has as many brackets open as the value. -/
theorem scan_write {n : Nat} {j : Json} (h : j.PlainWithin n) (hdepth : depth ≤ deepest) :
    scan ⟨false, false, depth, deepest⟩ j.write =
      ⟨false, false, depth, max deepest (depth + j.height)⟩ := by
  induction h generalizing depth deepest with
  | bool value =>
    have hheight : (Json.bool value).height = 0 := rfl
    rw [hheight, Nat.add_zero, Nat.max_eq_left hdepth]
    cases value <;> rfl
  | text value =>
    have hheight : (Json.text value).height = 0 := rfl
    rw [hheight, Nat.add_zero, Nat.max_eq_left hdepth]
    exact scan_quote depth deepest value
  | @object n fields _ ih =>
    have hopen : scan ⟨false, false, depth, deepest⟩ (Json.object fields).write =
        scan ⟨false, false, depth + 1, max deepest (depth + 1)⟩ (writeFields fields ++ ['}']) := by
      rw [write]
      rfl
    have hfields := scan_fieldsText (fun field hfield {_ _} hle => ih field hfield hle) true
      (Nat.le_max_right deepest (depth + 1))
    rw [hopen, scan_append]
    rw [Reader.fieldsText, if_pos rfl] at hfields
    rw [hfields, height]
    have hclose : ∀ deepest, scan ⟨false, false, depth + 1, deepest⟩ ['}'] =
        ⟨false, false, depth, deepest⟩ := fun _ => rfl
    rw [hclose]
    congr 1
    omega

end Brackets

/-- A plain value's text has as many brackets open as the value. -/
theorem nesting_write {n : Nat} {j : Json} (h : j.PlainWithin n) : nesting j.write = j.height := by
  have hscan := Brackets.scan_write h (Nat.le_refl 0)
  rw [nesting, hscan, Nat.zero_max, Nat.zero_add]

/-! ### Readers that refuse a text -/

namespace Reader

variable {α β : Type}

/-- In front of `text` the reader finds a fault of the given kind. -/
def Refuses (r : Reader α) (text : List Char) (kind : FaultKind) : Prop :=
  ∀ cursor : Cursor, cursor.rest = text → ∃ fault, r cursor = .error fault ∧ fault.kind = kind

theorem refuses_failNext (kind : FaultKind) (text : List Char) :
    Refuses (failNext kind : Reader α) text kind :=
  fun _ _ => ⟨_, rfl, rfl⟩

/-- A reader whose first part refuses a text refuses it. -/
theorem Refuses.bind {r : Reader α} {text : List Char} {kind : FaultKind} (h : Refuses r text kind)
    (f : α → Reader β) : Refuses (r >>= f) text kind := by
  intro cursor hcursor
  obtain ⟨fault, hfault, hkind⟩ := h cursor hcursor
  refine ⟨fault, ?_, hkind⟩
  show StateT.bind r f cursor = _
  unfold StateT.bind
  rw [hfault]
  rfl

/-- A reader refuses a text if its second part refuses what the first part leaves. -/
theorem Takes.refuses {r : Reader α} {f : α → Reader β} {text more : List Char} {x : α}
    {kind : FaultKind} (hr : Takes r text more x) (hf : Refuses (f x) more kind) :
    Refuses (r >>= f) (text ++ more) kind := by
  intro cursor hcursor
  obtain ⟨middle, hmiddle, hok⟩ := hr cursor hcursor
  obtain ⟨fault, hfault, hkind⟩ := hf middle hmiddle
  exact ⟨fault, (bind_of_ok hok).trans hfault, hkind⟩

variable {inner : Reader Json} {kind : FaultKind}

/-- Fields are refused at the first of them whose value is refused. -/
theorem refuses_fieldsUpTo {before after : List (String × Json)} {field : String × Json}
    (hbefore : ∀ field ∈ before, ∀ rest, Takes inner field.2.write rest field.2)
    (hfield : ∀ rest, Refuses inner (field.2.write ++ rest) kind) {n : Nat}
    (hn : before.length < n) (first : Bool) (sofar : List (String × Json)) (rest : List Char) :
    Refuses (fieldsUpTo (fun fields name => do
      colon
      let field ← inner
      return fields ++ [(name, field)]) n first sofar)
      (fieldsText first (before ++ field :: after) ++ rest) kind := by
  induction before generalizing n first sofar with
  | nil =>
    obtain ⟨m, rfl⟩ := Nat.exists_eq_succ_of_ne_zero (Nat.ne_of_gt hn)
    rw [List.nil_append, fieldsText_cons, fieldText]
    simp only [List.append_assoc, List.cons_append]
    refine (takes_moreFields first _).refuses ?_
    simp only [if_true]
    refine (takes_string field.1 _).refuses ?_
    refine Refuses.bind ?_ _
    exact (takes_colon _).refuses ((hfield _).bind _)
  | cons good before ih =>
    obtain ⟨m, rfl⟩ := Nat.exists_eq_succ_of_ne_zero (Nat.ne_of_gt (Nat.zero_lt_of_lt hn))
    obtain ⟨hgood, hbefore⟩ := List.forall_mem_cons.1 hbefore
    rw [List.cons_append, fieldsText_cons, fieldText]
    simp only [List.append_assoc, List.cons_append]
    refine (takes_moreFields first _).refuses ?_
    simp only [if_true]
    refine (takes_string good.1 _).refuses ?_
    have hvalue := takes_field sofar good.1 (hgood (fieldsText false (before ++ field :: after) ++
      rest))
    exact hvalue.refuses (ih hbefore (Nat.lt_of_succ_lt_succ hn) false _)

/-- An object is refused if the value of one of its fields is, and those before it are taken. -/
theorem refuses_part_object {before after : List (String × Json)} {field : String × Json}
    (hbefore : ∀ field ∈ before, ∀ rest, Takes inner field.2.write rest field.2)
    (hfield : ∀ rest, Refuses inner (field.2.write ++ rest) kind) (rest : List Char) :
    Refuses (part (some inner)) ((Json.object (before ++ field :: after)).write ++ rest) kind := by
  have hlength : (before ++ field :: after).length ≤
      (writeFields (before ++ field :: after)).length :=
    length_le_length_fieldsText true _
  have hmany : before.length <
      (writeFields (before ++ field :: after) ++ '}' :: rest).length + 1 := by
    simp only [List.length_append, List.length_cons] at hlength ⊢
    omega
  have htext : (Json.object (before ++ field :: after)).write ++ rest =
      '{' :: (writeFields (before ++ field :: after) ++ '}' :: rest) := by
    simp [write]
  rw [htext]
  refine (takes_peekPart_cons (by decide) _).refuses ?_
  simp only [Char.reduceEq, ↓reduceIte]
  refine Refuses.bind ?_ _
  refine (takes_skip '{' _).refuses ((takes_left _).refuses ?_)
  refine Refuses.bind ?_ _
  exact refuses_fieldsUpTo hbefore hfield hmany true [] ('}' :: rest)

/-- Without a bracket to spare an object is too deep. -/
theorem refuses_part_none (fields : List (String × Json)) (rest : List Char) :
    Refuses (part none) ((Json.object fields).write ++ rest) .tooDeep := by
  rw [write]
  refine (takes_peekPart_cons (by decide) _).refuses ?_
  simp only [Char.reduceEq, ↓reduceIte]
  exact refuses_failNext _ _

/-- A plain value with more than `depth` brackets open is too deep. -/
theorem refuses_value {n depth : Nat} {j : Json} (h : j.PlainWithin n) (hdeep : depth < j.height)
    (rest : List Char) : Refuses (value depth) (j.write ++ rest) .tooDeep := by
  induction h generalizing depth rest with
  | bool value => exact absurd hdeep (by simp [height])
  | text value => exact absurd hdeep (by simp [height])
  | @object n fields hfields ih =>
    rw [height] at hdeep
    cases depth with
    | zero => exact refuses_part_none fields rest
    | succ depth =>
      have hsome : ∃ field ∈ fields, depth < field.2.height := by
        have hdeep : ¬ heightFields fields ≤ depth :=
          Nat.not_le_of_lt (Nat.lt_of_succ_lt_succ hdeep)
        simpa [heightFields_le_iff] using hdeep
      -- The value is refused at the first field that is too deep itself.
      have hfound : (fields.find? fun field => depth < field.2.height).isSome := by
        simpa using hsome
      obtain ⟨field, hfind⟩ := Option.isSome_iff_exists.1 hfound
      obtain ⟨hfield, before, after, rfl, hbefore⟩ := List.find?_eq_some_iff_append.1 hfind
      refine refuses_part_object (fun good hgood => ?_) (fun rest => ?_) rest
      · have hplain := hfields good (List.mem_append_left _ hgood)
        have hlow : good.2.height ≤ depth := by simpa using hbefore good hgood
        exact takes_value ((hplain.iff_height_le depth).2 hlow)
      · exact ih field (by simp) (by simpa using hfield) rest

end Reader

/-! ### Documents -/

/-- A plain value is read back if its text has no more than `maxDepth` brackets open at once. -/
theorem read_compact_of_nesting_le {n : Nat} {j : Json} (h : j.PlainWithin n)
    (hnesting : nesting j.write ≤ maxDepth) : read j.compact = .ok j := by
  rw [nesting_write h] at hnesting
  exact read_compact ((h.iff_height_le maxDepth).2 hnesting)

/-- A plain value whose text has more than `maxDepth` brackets open at once is refused. -/
theorem read_compact_of_lt_nesting {n : Nat} {j : Json} (h : j.PlainWithin n)
    (hnesting : maxDepth < nesting j.write) :
    ∃ fault, read j.compact = .error fault ∧ fault.kind = .tooDeep := by
  rw [nesting_write h] at hnesting
  have hwhole : (Reader.whole (Reader.value maxDepth)).Refuses (j.write ++ []) .tooDeep := by
    unfold Reader.whole
    exact (Reader.refuses_value h hnesting []).bind _
  have hstart : (Cursor.ofString j.compact).rest = j.write ++ [] := by
    simp [Cursor.ofString, compact]
  obtain ⟨fault, hread, hkind⟩ := hwhole _ hstart
  refine ⟨fault, ?_, hkind⟩
  unfold read Reader.run
  rw [hread]

end MountShell.Json
