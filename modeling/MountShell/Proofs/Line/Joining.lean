import MountShell.Line.Token

/-!
# Joining lines

What the tokens of a line have to do with those of a longer one.  What the end of a line stands in
is told by its quotes and backslashes alone (`LineEnd`), and the scanner agrees: `LineEnd` is all
that its mode knows, the text between quotes and the operators apart (`State.lineEnd_read`).

Outside quotes and escapes a blank completes what the end of the line completes, and leaves nothing
behind.  Inside quotes the end of the line completes what the closing quote and the end complete.

Main statements: `Token.scan_append_blank`, what stands before a blank and what stands after it are
scanned apart; `Token.scan_joined`, which adds how open quotes are closed.
-/

namespace MountShell

/-- What the end of a line stands in. -/
inductive LineEnd where
  /-- In nothing: no quote is open, and every backslash outside quotes has a character after it. -/
  | outside
  /-- Right after a backslash outside quotes that is not escaped itself. -/
  | escape
  /-- Inside single quotes. -/
  | single
  /-- Inside double quotes, every backslash in which is paired with the character after it. -/
  | double
  /-- Inside double quotes, right after a backslash that is paired with nothing. -/
  | doubleEscape
  deriving DecidableEq, Repr

namespace LineEnd

/-- What a line stands in after one more character. -/
def after : LineEnd → Char → LineEnd
  | outside, c =>
    if c = '\'' then single else if c = '"' then double else if c = '\\' then escape else outside
  | escape, _ => outside
  | single, c => if c = '\'' then outside else single
  | double, c => if c = '"' then outside else if c = '\\' then doubleEscape else double
  | doubleEscape, _ => double

/-- What the end of a line stands in. -/
def ofLine (line : String) : LineEnd :=
  line.toList.foldl after outside

end LineEnd

namespace Scanner

/-- What a line stands in when its next character is read in the given mode.  Only angle brackets
make operators. -/
def Mode.lineEnd? : Mode → Option LineEnd
  | plain => some .outside
  | escape => some .escape
  | single _ => some .single
  | double _ => some .double
  | doubleEscape _ => some .doubleEscape
  | angle bracket _ => if bracket = '>' ∨ bracket = '<' then some .outside else none

theorem Mode.lineEnd?_angle {bracket : Char} {mode : RedirectMode} {e : LineEnd} :
    (angle bracket mode).lineEnd? = some e ↔ (bracket = '>' ∨ bracket = '<') ∧ .outside = e := by
  rw [lineEnd?, Option.ite_none_right_eq_some, Option.some.injEq]

namespace State

variable {s : State} {e : LineEnd}

/-- The state after a text, and the tokens that the text completes. -/
def read : State → List Char → State × List Token
  | s, [] => (s, [])
  | s, c :: cs =>
    let (after, tokens) := s.step c
    let (last, more) := after.read cs
    (last, tokens ++ more)

theorem run_append (s : State) (first rest : List Char) :
    s.run (first ++ rest) = (s.read first).2 ++ (s.read first).1.run rest := by
  induction first generalizing s with
  | nil => rfl
  | cons c first ih => simp only [List.cons_append, run, read, ih, List.append_assoc]

theorem run_eq_read (s : State) (cs : List Char) :
    s.run cs = (s.read cs).2 ++ (s.read cs).1.finish := by
  have hend := s.run_append cs []
  rwa [List.append_nil] at hend

/-! ### The scanner knows what the line stands in -/

/-- One character outside quotes and escapes. -/
theorem lineEnd_stepPlain (s : State) (c : Char) :
    (s.stepPlain c).1.mode.lineEnd? = some (LineEnd.outside.after c) := by
  unfold stepPlain
  rw [LineEnd.after]
  by_cases hblank : Text.isBlank c = true
  · have hsingle : c ≠ '\'' := fun h => absurd (h ▸ hblank) (by decide)
    have hdouble : c ≠ '"' := fun h => absurd (h ▸ hblank) (by decide)
    have hbackslash : c ≠ '\\' := fun h => absurd (h ▸ hblank) (by decide)
    rw [if_pos hblank, if_neg hsingle, if_neg hdouble, if_neg hbackslash]
    rfl
  rw [if_neg hblank]
  by_cases hsingle : c = '\''
  · rw [if_pos hsingle, if_pos hsingle]
    rfl
  rw [if_neg hsingle, if_neg hsingle]
  by_cases hdouble : c = '"'
  · rw [if_pos hdouble, if_pos hdouble]
    rfl
  rw [if_neg hdouble, if_neg hdouble]
  by_cases hbackslash : c = '\\'
  · rw [if_pos hbackslash, if_pos hbackslash]
    rfl
  rw [if_neg hbackslash, if_neg hbackslash]
  by_cases hgreater : c = '>'
  · rw [if_pos hgreater]
    rfl
  rw [if_neg hgreater]
  by_cases hless : c = '<'
  · rw [if_pos hless]
    rfl
  · rw [if_neg hless]
    rfl

/-- One character: by what it stands inside of. -/
theorem lineEnd_step (h : s.mode.lineEnd? = some e) (c : Char) :
    (s.step c).1.mode.lineEnd? = some (e.after c) := by
  obtain ⟨mode, word, bare⟩ := s
  cases mode with
  | plain =>
    obtain rfl := Option.some.inj h
    exact lineEnd_stepPlain _ c
  | escape =>
    obtain rfl := Option.some.inj h
    rfl
  | single text =>
    obtain rfl := Option.some.inj h
    by_cases hc : c = '\'' <;> simp [step, push, LineEnd.after, hc, Mode.lineEnd?]
  | double text =>
    obtain rfl := Option.some.inj h
    by_cases hc : c = '"'
    · simp [step, push, LineEnd.after, hc, Mode.lineEnd?]
    · by_cases hbackslash : c = '\\' <;>
        simp [step, LineEnd.after, hc, hbackslash, Mode.lineEnd?]
  | doubleEscape text =>
    obtain rfl := Option.some.inj h
    by_cases hc : (c = '\\' || c = '"') = true <;> simp only [step, hc] <;> rfl
  | angle bracket mode =>
    obtain ⟨hbracket, rfl⟩ := Mode.lineEnd?_angle.1 h
    by_cases hc : c = bracket
    · subst hc
      rcases hbracket with rfl | rfl <;> rfl
    · simp only [step, if_neg hc]
      exact lineEnd_stepPlain {} c

/-- A whole text. -/
theorem lineEnd_read (h : s.mode.lineEnd? = some e) (cs : List Char) :
    (s.read cs).1.mode.lineEnd? = some (cs.foldl LineEnd.after e) := by
  induction cs generalizing s e with
  | nil => exact h
  | cons c cs ih => exact ih (lineEnd_step h c)

/-! ### One more character, or the end of the line -/

/-- Outside quotes and escapes a blank completes what the end of the line completes. -/
theorem run_blank (h : s.mode.lineEnd? = some .outside) {w : Char} (hw : Text.isBlank w = true)
    (rest : List Char) : s.run (w :: rest) = s.finish ++ run {} rest := by
  have hplain : ∀ s : State, s.stepPlain w = ({}, s.wordToken) := fun s => if_pos hw
  obtain ⟨mode, word, bare⟩ := s
  cases mode with
  | plain =>
    simp only [run, step, hplain]
    rfl
  | angle bracket mode =>
    have hbracket : w ≠ bracket := by
      rintro rfl
      rcases (Mode.lineEnd?_angle.1 h).1 with rfl | rfl <;> exact absurd hw (by decide)
    simp only [run, step, if_neg hbracket, hplain]
    rfl
  | _ => exact absurd h (by simp [Mode.lineEnd?])

theorem run_closeSingle (h : s.mode.lineEnd? = some .single) : s.run ['\''] = s.finish := by
  obtain ⟨mode, word, bare⟩ := s
  cases mode with
  | single text => rfl
  | _ => exact absurd h (by simp [Mode.lineEnd?])

theorem run_closeDouble (h : s.mode.lineEnd? = some .double) : s.run ['"'] = s.finish := by
  obtain ⟨mode, word, bare⟩ := s
  cases mode with
  | double text => rfl
  | _ => exact absurd h (by simp [Mode.lineEnd?])

/-- A backslash at the end of open double quotes stands for itself, as one that is escaped does. -/
theorem run_closeDoubleEscape (h : s.mode.lineEnd? = some .doubleEscape) :
    s.run ['\\', '"'] = s.finish := by
  obtain ⟨mode, word, bare⟩ := s
  cases mode with
  | doubleEscape text => rfl
  | _ => exact absurd h (by simp [Mode.lineEnd?])

end State

end Scanner

namespace Token

open Scanner (State)

/-- What the scanner has come to at the end of a line stands in what the line stands in. -/
theorem lineEnd_scanned {line : String} {e : LineEnd} (h : LineEnd.ofLine line = e) :
    (State.read {} line.toList).1.mode.lineEnd? = some e :=
  (State.lineEnd_read rfl line.toList).trans (congrArg some h)

/-- What comes after a line adds the tokens that it completes beyond those which the end of the line
completes. -/
theorem scan_append {line rest : String} {tokens : List Token}
    (h : (State.read {} line.toList).1.run rest.toList =
      (State.read {} line.toList).1.finish ++ tokens) :
    scan (line ++ rest) = scan line ++ tokens := by
  rw [scan, scan, String.toList_append, State.run_append, h, State.run_eq_read, List.append_assoc]

/-- What stands before a blank and what stands after it are scanned apart, if the first ends outside
quotes and escapes. -/
theorem scan_append_blank {first : String} (h : LineEnd.ofLine first = .outside) {w : Char}
    (hw : Text.isBlank w = true) (rest : String) :
    scan (first ++ String.singleton w ++ rest) = scan first ++ scan rest := by
  have hrest : (String.singleton w ++ rest).toList = w :: rest.toList := by simp
  rw [String.append_assoc]
  refine scan_append ?_
  rw [hrest]
  exact State.run_blank (lineEnd_scanned h) hw rest.toList

/-- What the end of a line completes can be written. -/
theorem scan_close {line close : String}
    (h : (State.read {} line.toList).1.run close.toList =
      (State.read {} line.toList).1.finish) :
    scan line = scan (line ++ close) := by
  have hclose : (State.read {} line.toList).1.run close.toList =
      (State.read {} line.toList).1.finish ++ [] := h.trans (List.append_nil _).symm
  rw [scan_append hclose, List.append_nil]

/-- Scanning goes with joining.  A line that ends outside quotes and escapes, a blank and another
line have the tokens of the two lines, one after the other.  The end of a line closes open quotes:
single ones, and double ones, in which a backslash that is paired with nothing stands for itself. -/
theorem scan_joined (first rest : String) (w : Char) :
    (LineEnd.ofLine first = .outside → Text.isBlank w = true →
      scan (first ++ String.singleton w ++ rest) = scan first ++ scan rest) ∧
    (LineEnd.ofLine first = .single → scan first = scan (first ++ "'")) ∧
    (LineEnd.ofLine first = .double → scan first = scan (first ++ "\"")) ∧
    (LineEnd.ofLine first = .doubleEscape → scan first = scan (first ++ "\\\"")) :=
  ⟨fun h hw => scan_append_blank h hw rest,
    fun h => scan_close (State.run_closeSingle (lineEnd_scanned h)),
    fun h => scan_close (State.run_closeDouble (lineEnd_scanned h)),
    fun h => scan_close (State.run_closeDoubleEscape (lineEnd_scanned h))⟩

/-- A run of brackets before a tab, and quotes that are left open after escapes of each kind. -/
theorem scan_joined_open :
    (LineEnd.ofLine "a\\ b'>'>>" = .outside ∧ Text.isBlank '\t' = true ∧
      scan ("a\\ b'>'>>" ++ String.singleton '\t' ++ ">c") = scan "a\\ b'>'>>" ++ scan ">c") ∧
    (LineEnd.ofLine "\\''a\\" = .single ∧ scan "\\''a\\" = scan "\\''a\\'") ∧
    (LineEnd.ofLine "x\"\\\"\\\\" = .double ∧ scan "x\"\\\"\\\\" = scan "x\"\\\"\\\\\"") ∧
    LineEnd.ofLine "x\"\\\\\\" = .doubleEscape ∧ scan "x\"\\\\\\" = scan "x\"\\\\\\\\\"" := by
  have houtside : LineEnd.ofLine "a\\ b'>'>>" = .outside := by decide
  have hsingle : LineEnd.ofLine "\\''a\\" = .single := by decide
  have hdouble : LineEnd.ofLine "x\"\\\"\\\\" = .double := by decide
  have hescape : LineEnd.ofLine "x\"\\\\\\" = .doubleEscape := by decide
  have hblank : Text.isBlank '\t' = true := by decide
  exact ⟨⟨houtside, hblank, (scan_joined _ ">c" '\t').1 houtside hblank⟩,
    ⟨hsingle, (scan_joined _ "" ' ').2.1 hsingle⟩,
    ⟨hdouble, (scan_joined _ "" ' ').2.2.1 hdouble⟩, hescape,
    (scan_joined _ "" ' ').2.2.2 hescape⟩

end Token

end MountShell
