import Mathlib.Data.List.Forall2
import MountShell.Line.Command
import MountShell.Proofs.Environment

/-!
# The grammar of command lines

What a list of tokens asks for, said without reading it from left to right.  An operator and the
word right after it make one part of the line (`Part.ofTokens`), every other word makes a part of
its own, and an operator without a word after it makes none.  The words that are parts of their own
are first assignments, for as long as they have the form of one, and then the arguments.

The text of a word is that of its segments one after the other (`wordText`).  References in it see
the assignments that stand before the word on the line, the last one for a name first, and then the
environment.  Only references to the random variable have an effect, which is why texts are read in
the order of the parts (`Draws.collect`).

Main statement: `CommandLine.parse_asks`, the parts of a line give exactly its redirections, its
assignments and its arguments.
-/

namespace MountShell

/-- What the members of a list give, one after the other, from one supply of random numbers. -/
def Draws.collect {α β : Type} (f : α → Draws → β × Draws) : List α → Draws → List β × Draws
  | [], draws => ([], draws)
  | a :: rest, draws =>
    let (b, draws) := f a draws
    let (others, draws) := collect f rest draws
    (b :: others, draws)

/-! ### Parts -/

/-- A word of a line, and the operator right before it if there is one. -/
structure Part where
  target : Option RedirectMode
  word : List Segment

namespace Part

/-- The parts of a line. An operator that is followed by another one or by nothing makes none. -/
def ofTokens : List Token → List Part
  | [] => []
  | .word segments :: rest => ⟨none, segments⟩ :: ofTokens rest
  | .redirect mode :: .word segments :: rest => ⟨some mode, segments⟩ :: ofTokens rest
  | .redirect _ :: rest => ofTokens rest

/-- The parts, each with the number of words without an operator that stand before it; `n` of them
stand before the first part. -/
def numbered (n : Nat) : List Part → List (Nat × Part)
  | [] => []
  | part :: rest => (n, part) :: numbered (if part.target.isNone then n + 1 else n) rest

/-- The redirections that parts with the given texts make. -/
def redirections (parts : List Part) (texts : List String) : List Redirection :=
  (parts.zip texts).filterMap fun (part, text) => part.target.map fun mode => ⟨text, mode⟩

/-- The words without an operator, with their texts. -/
def words (parts : List Part) (texts : List String) : List (List Segment × String) :=
  (parts.zip texts).filterMap fun (part, text) =>
    if part.target.isNone then some (part.word, text) else none

end Part

/-! ### Texts -/

/-- The value of a name: the last one that was assigned before, else that of the environment. -/
def valueGiven (env : Environment) (before : List Assignment) (name : String) (draws : Draws) :
    Option String × Draws :=
  match Environment.lastValue? name (before.map fun a => (a.name, a.value)) with
  | some value => (some value, draws)
  | none => env.get name draws

/-- The text of a piece: a reference stands for the value of its name, or for itself if there is
none. -/
def Piece.text (env : Environment) (before : List Assignment) (piece : Piece) (draws : Draws) :
    List Char × Draws :=
  match piece with
  | .literal cs => (cs, draws)
  | .reference name written =>
    let (value, draws) := valueGiven env before (String.ofList name) draws
    ((value.map String.toList).getD written, draws)

/-- The text that a segment stands for: bare and double-quoted ones are substituted, the others are
taken as they are. -/
def Segment.meaning (env : Environment) (before : List Assignment) (segment : Segment)
    (draws : Draws) : String × Draws :=
  match segment.quoting with
  | .single | .escaped => (segment.text, draws)
  | .bare | .double =>
    let (texts, draws) :=
      Draws.collect (Piece.text env before) (Piece.split segment.text.toList) draws
    (String.ofList texts.flatten, draws)

/-- The text of a word: those of its segments, one after the other. -/
def wordText (env : Environment) (before : List Assignment) (word : List Segment) (draws : Draws) :
    String × Draws :=
  let (texts, draws) := Draws.collect (Segment.meaning env before) word draws
  (String.join texts, draws)

/-- The text of a part before which the given number of words stand, on a line with these
assignments: it sees those that the words before it make. -/
def Part.text (env : Environment) (assignments : List Assignment) (part : Nat × Part) :
    Draws → String × Draws :=
  wordText env (assignments.take part.1) part.2.word

theorem wordText_cons (env : Environment) (before : List Assignment) (segment : Segment)
    (word : List Segment) (draws : Draws) :
    (wordText env before (segment :: word) draws).1 =
      (segment.meaning env before draws).1 ++
        (wordText env before word (segment.meaning env before draws).2).1 := by
  simp only [wordText, Draws.collect, String.join_cons]

/-! ### Assignments -/

/-- The word has the form of an assignment to `name`: its first segment is bare and begins with the
name, which is a valid one, and an equals sign. -/
def Assigns (word : List Segment) (name : String) : Prop :=
  isValidName name = true ∧
    ∃ value segments, word = ⟨name ++ "=" ++ value, .bare⟩ :: segments

/-- The word has the form of an assignment. -/
def IsAssignment (word : List Segment) : Prop :=
  ∃ name, Assigns word name

/-- What a word with the given text assigns. -/
structure AssignedBy (word : List Segment) (text : String) (assignment : Assignment) : Prop where
  name : Assigns word assignment.name
  value : text = assignment.name ++ "=" ++ assignment.value
  quoted : assignment.quoted = true ↔ ∃ segment ∈ word, segment.quoting ≠ .bare

/-! ### Texts as they are expanded -/

section Expansion

variable {env : Environment} {locals : List (String × String)} {before : List Assignment}

/-- The names that have been assigned stand for the last value that each of them was given. -/
def Follows (locals : List (String × String)) (before : List Assignment) : Prop :=
  ∀ name, NameMap.find? name locals =
    Environment.lastValue? name (before.map fun a => (a.name, a.value))

theorem follows_nil : Follows [] [] :=
  fun _ => rfl

theorem Follows.concat (h : Follows locals before) (a : Assignment) :
    Follows (NameMap.insert a.name a.value locals) (before ++ [a]) := by
  intro name
  rw [NameMap.find?_insert, List.map_append, List.map_singleton, Environment.lastValue?_concat,
    h name]

theorem Follows.lookup (h : Follows locals before) (name : String) (draws : Draws) :
    lookup env locals name draws = valueGiven env before name draws := by
  cases hlast : Environment.lastValue? name (before.map fun a => (a.name, a.value)) <;>
    simp only [MountShell.lookup, valueGiven, h name, hlast]

theorem Follows.expand (h : Follows locals before) (piece : Piece) (draws : Draws) :
    piece.expand env locals draws = piece.text env before draws := by
  cases piece with
  | literal cs => rfl
  | reference name written =>
    rw [Piece.expand, Piece.text, h.lookup]
    rcases valueGiven env before (String.ofList name) draws with ⟨_ | value, after⟩ <;> rfl

theorem Follows.expandAll (h : Follows locals before) (pieces : List Piece) (draws : Draws) :
    Piece.expandAll env locals pieces draws =
      ((Draws.collect (Piece.text env before) pieces draws).1.flatten,
        (Draws.collect (Piece.text env before) pieces draws).2) := by
  induction pieces generalizing draws with
  | nil => rfl
  | cons piece pieces ih =>
    simp only [Piece.expandAll, h.expand, ih, Draws.collect, List.flatten_cons]

/-- A word is expanded to its text. -/
theorem Follows.expandWord (h : Follows locals before) (word : List Segment) (draws : Draws) :
    expandWord env locals word draws = wordText env before word draws := by
  induction word generalizing draws with
  | nil => rfl
  | cons segment word ih =>
    have hsegment : (if segment.quoting.substitutes = true then
        substitute env locals segment.text draws else (segment.text, draws)) =
        segment.meaning env before draws := by
      obtain ⟨text, quoting⟩ := segment
      have hsubstitute : substitute env locals text draws =
          Segment.meaning env before ⟨text, .double⟩ draws := by
        rw [substitute, h.expandAll]
        rfl
      cases quoting with
      | single | escaped => rfl
      | bare | double => exact hsubstitute
    simp only [MountShell.expandWord, hsegment, ih, wordText, Draws.collect, String.join_cons]

/-! ### The name of an assignment in its text -/

theorem Piece.split_cons_of_ne {c : Char} (h : c ≠ '$') (cs : List Char) :
    Piece.split (c :: cs) = .literal [c] :: Piece.split cs := by
  rw [Piece.split]
  · exact fun _ hc _ => absurd hc h
  · exact fun _ hc _ => absurd hc h
  · exact fun hc => absurd hc h

/-- Characters that begin no reference stand for themselves. -/
theorem collect_split_append (env : Environment) (before : List Assignment) {first : List Char}
    (h : '$' ∉ first) (rest : List Char) (draws : Draws) :
    (Draws.collect (Piece.text env before) (Piece.split (first ++ rest)) draws).1.flatten =
      first ++ (Draws.collect (Piece.text env before) (Piece.split rest) draws).1.flatten := by
  induction first with
  | nil => rfl
  | cons c first ih =>
    obtain ⟨hc, hfirst⟩ := not_or.1 fun hor => h (List.mem_cons.2 hor)
    rw [List.cons_append, Piece.split_cons_of_ne (Ne.symm hc)]
    exact congrArg (c :: ·) (ih hfirst)

/-- A valid name holds neither a dollar sign nor an equals sign. -/
theorem not_mem_of_isValidName {name : String} (h : isValidName name = true) {c : Char}
    (hc : isNameChar c = false) (hstatus : c ≠ '?') : c ∉ name.toList := by
  intro hmem
  rcases Bool.or_eq_true_iff.1 h with hname | hname
  · rw [of_decide_eq_true hname] at hmem
    exact hstatus (List.mem_singleton.1 hmem)
  · have hchar := List.all_eq_true.1 (Bool.and_eq_true_iff.1 hname).2 c hmem
    rw [hc] at hchar
    exact absurd hchar (by decide)

/-- The text of an assignment begins with the name and the equals sign. -/
theorem Assigns.exists_text {word : List Segment} {name : String} (h : Assigns word name)
    (env : Environment) (before : List Assignment) (draws : Draws) :
    ∃ value, (wordText env before word draws).1 = name ++ "=" ++ value := by
  obtain ⟨hname, value, segments, rfl⟩ := h
  have hplain : '$' ∉ (name ++ "=").toList := by
    rw [String.toList_append]
    simpa using not_mem_of_isValidName hname (by decide) (by decide)
  have hfirst : (Segment.meaning env before ⟨name ++ "=" ++ value, .bare⟩ draws).1 =
      name ++ "=" ++ (Segment.meaning env before ⟨value, .bare⟩ draws).1 := by
    have hsplit := collect_split_append env before hplain value.toList draws
    rw [← String.toList_append] at hsplit
    simp only [Segment.meaning, hsplit, String.ofList_append, String.ofList_toList]
  rw [wordText_cons, hfirst, String.append_assoc]
  exact ⟨_, rfl⟩

end Expansion

/-- A word is an assignment just when it has the form of one. -/
theorem assignedName?_eq_some_iff {word : List Segment} {name : String} :
    assignedName? word = some name ↔ Assigns word name := by
  constructor
  · intro h
    unfold assignedName? at h
    split at h
    case h_2 => exact absurd h (by simp)
    case h_1 text segments =>
      cases hsplit : Text.splitOnce '=' text with
      | none =>
        simp only [hsplit] at h
        exact absurd h (by simp)
      | some parts =>
        obtain ⟨first, value⟩ := parts
        simp only [hsplit] at h
        by_cases hname : isValidName first = true
        · rw [if_pos hname] at h
          obtain rfl := Option.some.inj h
          obtain ⟨rfl, -⟩ := Text.splitOnce_eq_some_iff.1 hsplit
          exact ⟨hname, value, segments, rfl⟩
        · rw [if_neg hname] at h
          exact absurd h (by simp)
  · rintro ⟨hname, value, segments, rfl⟩
    have hequals : '=' ∉ name.toList := not_mem_of_isValidName hname (by decide) (by decide)
    have hsplit : Text.splitOnce '=' (name ++ "=" ++ value) = some (name, value) :=
      Text.splitOnce_eq_some_iff.2 ⟨rfl, hequals⟩
    simp only [assignedName?, hsplit, if_pos hname]

/-- What a word that assigns to `name` assigns when its text is cut at the first equals sign. -/
theorem Assigns.assignedBy {word : List Segment} {name : String} (h : Assigns word name)
    (env : Environment) (before : List Assignment) (draws : Draws) {quoted : Bool}
    (hquoted : quoted = true ↔ ∃ segment ∈ word, segment.quoting ≠ .bare) :
    ∃ value, Text.splitOnce '=' (wordText env before word draws).1 = some (name, value) ∧
      AssignedBy word (wordText env before word draws).1 ⟨name, value, quoted⟩ := by
  obtain ⟨value, htext⟩ := h.exists_text env before draws
  have hequals : '=' ∉ name.toList := not_mem_of_isValidName h.1 (by decide) (by decide)
  exact ⟨value, Text.splitOnce_eq_some_iff.2 ⟨htext, hequals⟩, h, htext, hquoted⟩

namespace CommandLine

/-! ### Reading part by part -/

namespace Reading

/-- Reads one more part. -/
def addPart (env : Environment) (p : Reading) (part : Part) : Reading :=
  { p with pending := part.target }.addWord env part.word

/-- What one more part does, by its kind. -/
theorem addPart_cases (env : Environment) {p : Reading}
    (h : Follows p.locals p.line.assignments) (part : Part) :
    let text := wordText env p.line.assignments part.word p.draws
    (∃ mode, part.target = some mode ∧ p.addPart env part =
      { p with
        line := { p.line with redirections := p.line.redirections ++ [⟨text.1, mode⟩] }
        pending := none
        draws := text.2 }) ∨
    (part.target = none ∧ (p.begun = true ∨ ¬IsAssignment part.word) ∧ p.addPart env part =
      { p with
        line := { p.line with args := p.line.args ++ [text.1] }
        begun := true
        pending := none
        draws := text.2 }) ∨
    (part.target = none ∧ p.begun = false ∧ ∃ a, AssignedBy part.word text.1 a ∧
      p.addPart env part =
        { p with
          line := { p.line with assignments := p.line.assignments ++ [a] }
          locals := NameMap.insert a.name a.value p.locals
          pending := none
          draws := text.2 }) := by
  obtain ⟨target, word⟩ := part
  simp only [addPart, addWord, h.expandWord]
  cases target with
  | some mode => exact .inl ⟨mode, rfl, rfl⟩
  | none =>
    right
    by_cases hbegun : p.begun = true
    · exact .inl ⟨rfl, .inl hbegun, by simp only [hbegun, if_pos]⟩
    cases hname : assignedName? word with
    | none =>
      refine .inl ⟨rfl, .inr ?_, by simp only [hbegun]; rfl⟩
      rintro ⟨name, hassigns⟩
      rw [assignedName?_eq_some_iff.2 hassigns] at hname
      exact absurd hname (by simp)
    | some name =>
      have hquoted : (word.any fun segment => segment.quoting ≠ .bare) = true ↔
          ∃ segment ∈ word, segment.quoting ≠ .bare := by simp
      obtain ⟨value, hsplit, hassigned⟩ :=
        (assignedName?_eq_some_iff.1 hname).assignedBy env p.line.assignments p.draws hquoted
      refine .inr ⟨rfl, by simpa using hbegun, _, hassigned, ?_⟩
      simp only [hbegun, hsplit]
      rfl

theorem pending_addPart (env : Environment) {p : Reading}
    (h : Follows p.locals p.line.assignments) (part : Part) :
    (p.addPart env part).pending = none := by
  rcases addPart_cases env h part with ⟨_, -, heq⟩ | ⟨-, -, heq⟩ | ⟨-, -, _, -, heq⟩ <;>
    rw [heq]

/-- Adding a part keeps the values by which references are replaced. -/
theorem follows_addPart (env : Environment) {p : Reading}
    (h : Follows p.locals p.line.assignments) (part : Part) :
    Follows (p.addPart env part).locals (p.addPart env part).line.assignments := by
  rcases addPart_cases env h part with ⟨_, -, heq⟩ | ⟨-, -, heq⟩ | ⟨-, -, a, -, heq⟩ <;>
    rw [heq]
  · exact h
  · exact h
  · exact h.concat a

/-- Reading tokens is reading their parts; an operator that is left over at the end changes nothing
else. -/
theorem foldl_add (env : Environment) (tokens : List Token) {p : Reading}
    (h : Follows p.locals p.line.assignments) (hpending : p.pending = none) :
    ∃ pending, tokens.foldl (fun p token => p.add env token) p =
      { (Part.ofTokens tokens).foldl (addPart env) p with pending } := by
  induction tokens using Part.ofTokens.induct generalizing p with
  | case1 => exact ⟨p.pending, rfl⟩
  | case2 segments rest ih =>
    have hadd : p.add env (.word segments) = p.addPart env ⟨none, segments⟩ := by
      rw [addPart, ← hpending]
      rfl
    rw [List.foldl_cons, hadd, Part.ofTokens, List.foldl_cons]
    exact ih (follows_addPart env h _) (pending_addPart env h _)
  | case3 mode segments rest ih =>
    rw [List.foldl_cons, List.foldl_cons, Part.ofTokens, List.foldl_cons]
    exact ih (p := p.addPart env ⟨some mode, segments⟩) (follows_addPart env h _)
      (pending_addPart env h _)
  | case4 mode rest hrest ih =>
    rw [Part.ofTokens.eq_4 _ _ hrest, List.foldl_cons]
    cases rest with
    | nil => exact ⟨some mode, rfl⟩
    | cons next rest =>
      cases next with
      | word segments => exact absurd rfl (hrest segments rest)
      | redirect next => exact ih h hpending

/-- What reading parts with the given texts adds to a line of which `p` is known, if `n` words stand
before the first part.  As long as the command has not begun, the first words are assignments. -/
structure Adds (env : Environment) (n : Nat) (parts : List Part) (texts : List String)
    (leading following : List (List Segment × String)) (p q : Reading) : Prop where
  collected : Draws.collect (Part.text env q.line.assignments) (Part.numbered n parts) p.draws =
    (texts, q.draws)
  redirections : q.line.redirections = p.line.redirections ++ Part.redirections parts texts
  words : Part.words parts texts = leading ++ following
  isAssignment : ∀ word ∈ leading, IsAssignment word.1
  longest : p.begun = false → ∀ word ∈ following.head?, ¬IsAssignment word.1
  begun : p.begun = true → leading = []
  assignments : ∃ made, q.line.assignments = p.line.assignments ++ made ∧
    List.Forall₂ (fun word a => AssignedBy word.1 word.2 a) leading made
  args : q.line.args = p.line.args ++ following.map Prod.snd

/-- The first part, which sees the assignments made so far. -/
theorem collect_cons {env : Environment} {p : Reading} {all : List Assignment} {n : Nat}
    (hbefore : all.take n = p.line.assignments) {part : Part} {parts : List Part}
    {texts : List String} {after : Draws}
    (hrest : Draws.collect (Part.text env all)
      (Part.numbered (if part.target.isNone then n + 1 else n) parts)
      (wordText env p.line.assignments part.word p.draws).2 = (texts, after)) :
    Draws.collect (Part.text env all) (Part.numbered n (part :: parts)) p.draws =
      ((wordText env p.line.assignments part.word p.draws).1 :: texts, after) := by
  simp only [Part.numbered, Draws.collect, Part.text, hbefore]
  rw [hrest]

section Parts

variable {env : Environment} {n : Nat} {parts : List Part} {texts : List String}
  {leading following : List (List Segment × String)} {p q : Reading} {mode : RedirectMode}
  {word : List Segment}

/-- The assignments that the first part sees are those made so far. -/
theorem Adds.take_assignments (h : Adds env n parts texts leading following p q) {m : Nat}
    (hle : p.line.assignments.length ≤ m)
    (heq : p.begun = false → p.line.assignments.length = m) :
    q.line.assignments.take m = p.line.assignments := by
  obtain ⟨made, hmade, hall⟩ := h.assignments
  by_cases hbegun : p.begun = true
  · rw [h.begun hbegun, List.forall₂_nil_left_iff] at hall
    rw [hmade, hall, List.append_nil, List.take_of_length_le hle]
  · rw [hmade, List.take_left' (heq (by simpa using hbegun))]

/-- A part with an operator makes a redirection and leaves everything else alone. -/
theorem Adds.redirect (hbefore : q.line.assignments.take n = p.line.assignments)
    (h : Adds env n parts texts leading following
      { p with
        line := { p.line with redirections := p.line.redirections ++
          [⟨(wordText env p.line.assignments word p.draws).1, mode⟩] }
        pending := none
        draws := (wordText env p.line.assignments word p.draws).2 } q) :
    Adds env n (⟨some mode, word⟩ :: parts)
      ((wordText env p.line.assignments word p.draws).1 :: texts) leading following p q where
  collected := collect_cons hbefore h.collected
  redirections := h.redirections.trans (List.append_assoc ..)
  words := h.words
  isAssignment := h.isAssignment
  longest := h.longest
  begun := h.begun
  assignments := h.assignments
  args := h.args

/-- A word that is no assignment is an argument, and so are all words after it. -/
theorem Adds.argument (hbefore : q.line.assignments.take n = p.line.assignments)
    (hword : p.begun = true ∨ ¬IsAssignment word)
    (h : Adds env (n + 1) parts texts leading following
      { p with
        line := { p.line with args := p.line.args ++
          [(wordText env p.line.assignments word p.draws).1] }
        begun := true
        pending := none
        draws := (wordText env p.line.assignments word p.draws).2 } q) :
    Adds env n (⟨none, word⟩ :: parts)
      ((wordText env p.line.assignments word p.draws).1 :: texts) []
      ((word, (wordText env p.line.assignments word p.draws).1) :: following) p q where
  collected := collect_cons hbefore h.collected
  redirections := h.redirections
  words := by
    have hrest := h.words
    rw [h.begun rfl, List.nil_append] at hrest
    exact congrArg _ hrest
  isAssignment := fun _ hmem => absurd hmem List.not_mem_nil
  longest := by
    intro hbegun first hfirst
    rw [List.head?_cons, Option.mem_some_iff] at hfirst
    rw [← hfirst]
    exact hword.resolve_left (by simp [hbegun])
  begun := fun _ => rfl
  assignments := by
    obtain ⟨made, hmade, hall⟩ := h.assignments
    rw [h.begun rfl] at hall
    exact ⟨made, hmade, hall⟩
  args := h.args.trans (List.append_assoc ..)

/-- A word that is an assignment and comes before the command. -/
theorem Adds.assignment {a : Assignment} {locals : List (String × String)}
    (hbefore : q.line.assignments.take n = p.line.assignments) (hbegun : p.begun = false)
    (ha : AssignedBy word (wordText env p.line.assignments word p.draws).1 a)
    (h : Adds env (n + 1) parts texts leading following
      { p with
        line := { p.line with assignments := p.line.assignments ++ [a] }
        locals
        pending := none
        draws := (wordText env p.line.assignments word p.draws).2 } q) :
    Adds env n (⟨none, word⟩ :: parts)
      ((wordText env p.line.assignments word p.draws).1 :: texts)
      ((word, (wordText env p.line.assignments word p.draws).1) :: leading) following p q where
  collected := collect_cons hbefore h.collected
  redirections := h.redirections
  words := congrArg _ h.words
  isAssignment := List.forall_mem_cons.2 ⟨⟨a.name, ha.name⟩, h.isAssignment⟩
  longest := fun _ => h.longest hbegun
  begun := fun htrue => absurd (hbegun.symm.trans htrue) (by simp)
  assignments := by
    obtain ⟨made, hmade, hall⟩ := h.assignments
    exact ⟨a :: made, hmade.trans (List.append_assoc ..), .cons ha hall⟩
  args := h.args

end Parts

/-- Reading parts adds to the line what they ask for. -/
theorem foldl_addPart (env : Environment) (parts : List Part) {p : Reading} {n : Nat}
    (h : Follows p.locals p.line.assignments) (hle : p.line.assignments.length ≤ n)
    (heq : p.begun = false → p.line.assignments.length = n) :
    ∃ texts leading following,
      Adds env n parts texts leading following p (parts.foldl (addPart env) p) := by
  induction parts generalizing p n with
  | nil =>
    exact ⟨[], [], [], ⟨rfl, (List.append_nil _).symm, rfl, fun _ hmem => absurd hmem (by simp),
      fun _ _ hmem => absurd hmem (by simp), fun _ => rfl, ⟨[], (List.append_nil _).symm, .nil⟩,
      (List.append_nil _).symm⟩⟩
  | cons part parts ih =>
    obtain ⟨target, word⟩ := part
    have hfollows := follows_addPart env h ⟨target, word⟩
    rw [List.foldl_cons]
    rcases addPart_cases env h ⟨target, word⟩ with
      ⟨mode, rfl, hadd⟩ | ⟨rfl, hword, hadd⟩ | ⟨rfl, hbegun, a, ha, hadd⟩
    · rw [hadd] at hfollows ⊢
      obtain ⟨texts, leading, following, hadds⟩ := ih (n := n) hfollows hle heq
      exact ⟨_, _, _, .redirect (hadds.take_assignments hle heq) hadds⟩
    · rw [hadd] at hfollows ⊢
      obtain ⟨texts, leading, following, hadds⟩ :=
        ih (n := n + 1) hfollows (Nat.le_succ_of_le hle) fun hfalse => absurd hfalse (by simp)
      exact ⟨_, _, _, .argument (hadds.take_assignments hle fun hfalse => absurd hfalse (by simp))
        hword hadds⟩
    · rw [hadd] at hfollows ⊢
      have hlength : (p.line.assignments ++ [a]).length = n + 1 := by
        rw [List.length_append, heq hbegun]
        rfl
      obtain ⟨texts, leading, following, hadds⟩ :=
        ih (n := n + 1) hfollows (Nat.le_of_eq hlength) fun _ => hlength
      refine ⟨_, _, _, .assignment ?_ hbegun ha hadds⟩
      obtain ⟨made, hmade, -⟩ := hadds.assignments
      rw [hmade, List.append_assoc, List.take_left' (heq hbegun)]

end Reading

/-- The parts of a line give what it asks for.  The words that are parts of their own are the
assignments, as many as have the form of one before the first that has not, and after them the
arguments; a word and the operator right before it are a redirection.  Every text is that of the
word with the assignments made before it on the line. -/
theorem parse_asks (env : Environment) (text : String) (draws : Draws) :
    let line := (parse env text draws).1
    let parts := Part.ofTokens (Token.scan text)
    ∃ texts leading following,
      Draws.collect (Part.text env line.assignments) (Part.numbered 0 parts) draws =
        (texts, (parse env text draws).2) ∧
      line.redirections = Part.redirections parts texts ∧
      Part.words parts texts = leading ++ following ∧
      (∀ word ∈ leading, IsAssignment word.1) ∧
      (∀ word ∈ following.head?, ¬IsAssignment word.1) ∧
      List.Forall₂ (fun word a => AssignedBy word.1 word.2 a) leading line.assignments ∧
      line.args = following.map Prod.snd := by
  obtain ⟨pending, hread⟩ :=
    Reading.foldl_add env (Token.scan text) (p := { draws }) follows_nil rfl
  obtain ⟨texts, leading, following, hadds⟩ :=
    Reading.foldl_addPart env (Part.ofTokens (Token.scan text)) (p := { draws }) (n := 0)
      follows_nil (Nat.le_refl 0) fun _ => rfl
  obtain ⟨made, hmade, hall⟩ := hadds.assignments
  rw [List.nil_append] at hmade
  rw [← hmade] at hall
  simp only [parse, ofTokens, hread]
  exact ⟨texts, leading, following, hadds.collected, hadds.redirections, hadds.words,
    hadds.isAssignment, hadds.longest rfl, hall, hadds.args⟩

end CommandLine

end MountShell
