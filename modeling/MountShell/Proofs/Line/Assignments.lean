import MountShell.Proofs.Line.Grammar
import MountShell.Proofs.Line.Joining

/-!
# Assignments on a line and before it

Assignments at the start of a line act on the rest of the line as if they had been made before it.
A reference looks for its name among the assignments of the line first and in the environment then.
Two readings of a line in which this gives the same for every name, whatever it is that the values
come from, go on in the same way (`Reading.Agrees`).

The random variable stands apart: its value in the environment is not the one that was stored.  So a
line that assigns to it is left out.

Main statement: `CommandLine.parse_append_assignments`, a line of assignments before another line.
-/

namespace MountShell

/-! ### Assignments to other variables than the random one -/

/-- The token is a word that assigns to a name other than that of the random variable. -/
def Token.Assigning (token : Token) : Prop :=
  ∃ word name, token = .word word ∧ Assigns word name ∧ name ≠ randomName

instance : DecidablePred Token.Assigning
  | .redirect _ => isFalse fun ⟨_, _, h, _⟩ => Token.noConfusion h
  | .word word => decidable_of_iff (∃ name ∈ assignedName? word, name ≠ randomName) <| by
    constructor
    · rintro ⟨name, hname, hrandom⟩
      exact ⟨word, name, rfl, assignedName?_eq_some_iff.1 hname, hrandom⟩
    · rintro ⟨other, name, hword, hassigns, hrandom⟩
      rw [Token.word.inj hword]
      exact ⟨name, assignedName?_eq_some_iff.2 hassigns, hrandom⟩

/-! ### Looking up -/

/-- Storing a variable other than the random one gives it its value, and no other changes. -/
theorem Environment.get_set (env : Environment) {name : String} (h : name ≠ randomName)
    (other value : String) (draws : Draws) :
    (env.set name value).get other draws =
      if name = other then (some value, draws) else env.get other draws := by
  by_cases hother : other = randomName
  · rw [get, get, if_pos hother, if_pos hother, if_neg (hother ▸ h)]
  · rw [get, get, if_neg hother, if_neg hother, stored_set]
    split <;> rfl

/-- A value that is assigned on the line comes first. -/
theorem lookup_insert (env : Environment) (locals : List (String × String))
    (name other value : String) (draws : Draws) :
    lookup env (NameMap.insert name value locals) other draws =
      if name = other then (some value, draws) else lookup env locals other draws := by
  rw [lookup, NameMap.find?_insert]
  by_cases h : name = other
  · rw [if_pos h, if_pos h]
  · rw [if_neg h, if_neg h]
    rfl

section Congruence

variable {env env' : Environment} {locals locals' : List (String × String)}

/-- A text depends on the values of the names only. -/
theorem substitute_congr (h : lookup env locals = lookup env' locals') (text : String)
    (draws : Draws) : substitute env locals text draws = substitute env' locals' text draws := by
  have hpieces : ∀ pieces draws,
      Piece.expandAll env locals pieces draws = Piece.expandAll env' locals' pieces draws := by
    intro pieces
    induction pieces with
    | nil => exact fun draws => rfl
    | cons piece pieces ih =>
      intro draws
      have hpiece : piece.expand env locals draws = piece.expand env' locals' draws := by
        cases piece with
        | literal text => rfl
        | reference name written => rw [Piece.expand, Piece.expand, h]
      simp only [Piece.expandAll, hpiece, ih]
  simp only [substitute, hpieces]

theorem expandWord_congr (h : lookup env locals = lookup env' locals') (word : List Segment)
    (draws : Draws) : expandWord env locals word draws = expandWord env' locals' word draws := by
  induction word generalizing draws with
  | nil => rfl
  | cons segment word ih => simp only [expandWord, substitute_congr h, ih]

end Congruence

namespace CommandLine.Reading

/-! ### Readings that agree -/

/-- Two readings are at the same place of one line and know the same values, except that the first
has already made some assignments. -/
structure Agrees (env env' : Environment) (made : List Assignment) (p q : Reading) : Prop where
  eq : p = { q with
    line := { q.line with assignments := made ++ q.line.assignments }
    locals := p.locals }
  lookup : lookup env p.locals = lookup env' q.locals

section Run

variable {env env' : Environment} {made : List Assignment} {p q : Reading}

/-- One more word. -/
theorem Agrees.addWord (h : Agrees env env' made p q) (word : List Segment) :
    Agrees env env' made (p.addWord env word) (q.addWord env' word) := by
  obtain ⟨heq, hlookup⟩ := h
  generalize p.locals = locals at heq hlookup
  subst heq
  obtain ⟨line, locals', begun, pending, draws⟩ := q
  simp only [Reading.addWord, expandWord_congr hlookup]
  cases pending with
  | some mode => exact ⟨rfl, hlookup⟩
  | none =>
    cases (if begun = true then none else assignedName? word) with
    | none => exact ⟨rfl, hlookup⟩
    | some name =>
      refine ⟨by simp only [List.append_assoc], ?_⟩
      funext other draws
      simp only [lookup_insert, hlookup]

/-- One more token. -/
theorem Agrees.add (h : Agrees env env' made p q) (token : Token) :
    Agrees env env' made (p.add env token) (q.add env' token) := by
  cases token with
  | redirect mode => exact ⟨congrArg ({ · with pending := some mode }) h.eq, h.lookup⟩
  | word segments => exact h.addWord segments

/-- All tokens of a line. -/
theorem Agrees.foldl (h : Agrees env env' made p q) (tokens : List Token) :
    Agrees env env' made (tokens.foldl (fun p token => p.add env token) p)
      (tokens.foldl (fun q token => q.add env' token) q) := by
  induction tokens generalizing p q with
  | nil => exact h
  | cons token tokens ih => exact ih (h.add token)

end Run

/-! ### Reading assignments -/

/-- Only assignments have been read, and the values are those of an environment in which they have
been made. -/
def Opening (env : Environment) (p : Reading) : Prop :=
  Agrees env (env.setAll p.line.exports) p.line.assignments p { draws := p.draws }

theorem opening_start (env : Environment) (draws : Draws) : Opening env { draws } :=
  ⟨rfl, rfl⟩

/-- One more assignment. -/
theorem Opening.add {env : Environment} {p : Reading} (h : Opening env p) {token : Token}
    (htoken : token.Assigning) : Opening env (p.add env token) := by
  obtain ⟨word, name, rfl, hassigns, hrandom⟩ := htoken
  obtain ⟨⟨made, args, redirections⟩, locals, begun, pending, draws⟩ := p
  obtain ⟨heq, hlookup⟩ := h
  obtain ⟨⟨rfl, rfl⟩, rfl, rfl⟩ : (args = [] ∧ redirections = []) ∧ begun = false ∧
      pending = none := by simpa using heq
  have hname := assignedName?_eq_some_iff.2 hassigns
  simp only [Reading.add, Reading.addWord, hname, Bool.false_eq_true, if_false]
  refine ⟨by simp, ?_⟩
  funext other after
  rw [lookup_insert, hlookup]
  simp only [exports, List.map_append, List.map_singleton, Environment.setAll_append]
  exact (Environment.get_set _ hrandom other _ after).symm

/-- A line of assignments. -/
theorem Opening.foldl {env : Environment} {p : Reading} (h : Opening env p) {tokens : List Token}
    (htokens : ∀ token ∈ tokens, token.Assigning) :
    Opening env (tokens.foldl (fun p token => p.add env token) p) := by
  induction tokens generalizing p with
  | nil => exact h
  | cons token tokens ih =>
    obtain ⟨htoken, hrest⟩ := List.forall_mem_cons.1 htokens
    exact ih (h.add htoken) hrest

end CommandLine.Reading

namespace CommandLine

/-- A line of assignments, none of which is to the random variable, before another line.  What both
ask for together are the assignments of the first, and what the second asks for in an environment in
which they have been made.  Random numbers are drawn for the one line and then for the other. -/
theorem parse_append_assignments (env : Environment) {first : String}
    (hend : LineEnd.ofLine first = .outside)
    (hfirst : ∀ token ∈ Token.scan first, token.Assigning) (rest : String)
    (draws : Draws) :
    let before := parse env first draws
    let after := parse (env.setAll before.1.exports) rest before.2
    parse env (first ++ " " ++ rest) draws =
      ({ assignments := before.1.assignments ++ after.1.assignments
         args := after.1.args
         redirections := after.1.redirections }, after.2) := by
  have hspace : " " = String.singleton ' ' := by decide
  have hblank : Text.isBlank ' ' = true := by decide
  have hread := (Reading.opening_start env draws).foldl hfirst
  have hagree := (Reading.Agrees.foldl hread (Token.scan rest)).eq
  intro before after
  rw [parse, hspace, Token.scan_append_blank hend hblank rest, ofTokens, List.foldl_append]
  rw [hagree]
  rfl

/-- Names that are assigned again, in the first line and in the second, and references that are
written in several ways. -/
theorem parse_append_assignments_again :
    let env := Environment.ofList [("A", "0")]
    let first := "A=1 B=\"$A\"${C}' '$RANDOM A=2"
    LineEnd.ofLine first = .outside ∧ (∀ token ∈ Token.scan first, token.Assigning) ∧
      let before := parse env first (.ofSeed 0)
      let after := parse (env.setAll before.1.exports) "A=$A$B echo $A >'f'$B" before.2
      parse env (first ++ " " ++ "A=$A$B echo $A >'f'$B") (.ofSeed 0) =
        ({ assignments := before.1.assignments ++ after.1.assignments
           args := after.1.args
           redirections := after.1.redirections }, after.2) := by
  have hend : LineEnd.ofLine "A=1 B=\"$A\"${C}' '$RANDOM A=2" = .outside := by decide
  have hfirst : ∀ token ∈ Token.scan "A=1 B=\"$A\"${C}' '$RANDOM A=2",
      token.Assigning := by decide +kernel
  exact ⟨hend, hfirst, parse_append_assignments _ hend hfirst _ _⟩

end CommandLine

end MountShell
