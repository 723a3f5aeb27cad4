import Mathlib.Data.List.Forall2
import MountShell.Proofs.Environment

/-!
# Scopes that are closed again

Between the opening of a scope and its closing variables may be set and unset, and further scopes
may be opened and closed (`EnvironmentOp`), as long as no scope is closed that was open before and
none is left open (`EnvironmentOp.Bracketed`).

What such operations do with the scope is compared with what they do without it.  The names that
are not assigned with the scope stand for the same in both cases, and so they do in what the inner
scopes remember of them (`SavedAlike`).  This holds after each operation (`Beneath`), and so the
scope finds itself innermost again when it is closed.

Main statement: `unwinds_scope`.
-/

namespace MountShell

/-- Something that is done to an environment. -/
inductive EnvironmentOp where
  | set (name value : String)
  | unset (name : String)
  | pushScope (assignments : List (String × String))
  | popScope
  deriving DecidableEq, Repr

namespace EnvironmentOp

/-- The number of scopes that are open when operations have been done with `depth` of them open.
There is none if they close a scope that is neither one of these nor one that they have opened. -/
def depthAfter? (depth : Nat) : List EnvironmentOp → Option Nat
  | [] => some depth
  | .set _ _ :: rest | .unset _ :: rest => depthAfter? depth rest
  | .pushScope _ :: rest => depthAfter? (depth + 1) rest
  | .popScope :: rest =>
    match depth with
    | 0 => none
    | depth + 1 => depthAfter? depth rest

/-- Every scope that is opened is closed again, and no other one is closed. -/
def Bracketed (ops : List EnvironmentOp) : Prop :=
  depthAfter? 0 ops = some 0

instance (ops : List EnvironmentOp) : Decidable (Bracketed ops) :=
  inferInstanceAs (Decidable (_ = _))

end EnvironmentOp

namespace Environment

/-- The environment after an operation. -/
def perform (env : Environment) : EnvironmentOp → Environment
  | .set name value => env.set name value
  | .unset name => env.unset name
  | .pushScope assignments => env.pushScope assignments
  | .popScope => env.popScope

/-- The environment after operations, one after the other. -/
def run (env : Environment) (ops : List EnvironmentOp) : Environment :=
  ops.foldl perform env

/-- The same variables but for the given names. -/
def AlikeBut (names : List String) (env other : Environment) : Prop :=
  ∀ name ∉ names, env.stored name = other.stored name

/-- Two scopes remember the same names, and the same of them but for the given names. -/
def SavedAlike (names : List String) : (saved other : List (String × Option String)) → Prop :=
  List.Forall₂ fun entry other =>
    entry.1 = other.1 ∧ (entry.1 ∉ names → entry.2 = other.2)

variable {names : List String} {env other : Environment}

/-! ### Two environments side by side -/

theorem AlikeBut.restore (h : AlikeBut names env other) (name : String) (previous : Option String)
    {previous' : Option String} (hprevious : name ∉ names → previous = previous') :
    AlikeBut names (env.restore name previous) (other.restore name previous') := by
  intro asked hasked
  rw [stored_restore, stored_restore]
  by_cases heq : name = asked
  · rw [if_pos heq, if_pos heq]
    exact hprevious (heq ▸ hasked)
  · rw [if_neg heq, if_neg heq]
    exact h asked hasked

/-- The same assignments are remembered alike. -/
theorem AlikeBut.assign (h : AlikeBut names env other) (assignments : List (String × String)) :
    AlikeBut names (env.assign assignments).1 (other.assign assignments).1 ∧
      SavedAlike names (env.assign assignments).2 (other.assign assignments).2 := by
  induction assignments generalizing env other with
  | nil => exact ⟨h, .nil⟩
  | cons pair rest ih =>
    obtain ⟨name, value⟩ := pair
    have hset : AlikeBut names (env.set name value) (other.set name value) :=
      h.restore name (some value) fun _ => rfl
    obtain ⟨hvars, hsaved⟩ := ih hset
    exact ⟨hvars, .cons ⟨rfl, h name⟩ hsaved⟩

/-- Undoing what is remembered alike keeps the variables alike. -/
theorem AlikeBut.undo (h : AlikeBut names env other) {saved saved' : List (String × Option String)}
    (hsaved : SavedAlike names saved saved') :
    AlikeBut names
      (saved.foldr (fun entry after => after.restore entry.1 entry.2) env)
      (saved'.foldr (fun entry after => after.restore entry.1 entry.2) other) := by
  induction hsaved with
  | nil => exact h
  | @cons entry entry' _ _ hentry _ ih =>
    obtain ⟨hname, hprevious⟩ := hentry
    rw [List.foldr_cons, List.foldr_cons, ← hname]
    exact ih.restore entry.1 entry.2 hprevious

/-- Of two environments that are `depth` scopes deep the first has one scope more beneath these. -/
structure Beneath (names : List String) (scope : List (String × Option String))
    (outer : List (List (String × Option String))) (depth : Nat) (env other : Environment) :
    Prop where
  vars : AlikeBut names env other
  scopes : ∃ inner inner', env.scopes = inner ++ scope :: outer ∧ other.scopes = inner' ++ outer ∧
    List.Forall₂ (SavedAlike names) inner inner' ∧ inner.length = depth

variable {scope : List (String × Option String)} {outer : List (List (String × Option String))}
  {depth : Nat}

theorem Beneath.restore (h : Beneath names scope outer depth env other) (name : String)
    (value : Option String) :
    Beneath names scope outer depth (env.restore name value) (other.restore name value) where
  vars := h.vars.restore name value fun _ => rfl
  scopes := by
    rw [scopes_restore, scopes_restore]
    exact h.scopes

theorem Beneath.pushScope (h : Beneath names scope outer depth env other)
    (assignments : List (String × String)) :
    Beneath names scope outer (depth + 1) (env.pushScope assignments)
      (other.pushScope assignments) := by
  obtain ⟨hvars, hsaved⟩ := h.vars.assign assignments
  obtain ⟨inner, inner', hscopes, hscopes', halike, hlength⟩ := h.scopes
  exact ⟨hvars, (env.assign assignments).2 :: inner, (other.assign assignments).2 :: inner',
    congrArg (_ :: ·) ((scopes_assign env assignments).trans hscopes),
    congrArg (_ :: ·) ((scopes_assign other assignments).trans hscopes'), .cons hsaved halike,
    congrArg (· + 1) hlength⟩

/-- Closing a scope that lies above the one more leaves that one. -/
theorem Beneath.popScope (h : Beneath names scope outer (depth + 1) env other) :
    Beneath names scope outer depth env.popScope other.popScope := by
  obtain ⟨inner, inner', hscopes, hscopes', halike, hlength⟩ := h.scopes
  cases halike with
  | nil => exact absurd hlength (Nat.zero_ne_add_one depth)
  | @cons saved saved' inner inner' hsaved halike =>
    rw [List.cons_append] at hscopes hscopes'
    refine ⟨?_, inner, inner', scopes_popScope hscopes, scopes_popScope hscopes', halike,
      Nat.succ.inj hlength⟩
    have hbare : AlikeBut names { env with scopes := inner ++ scope :: outer }
        { other with scopes := inner' ++ outer } := h.vars
    rw [Environment.popScope, hscopes, Environment.popScope, hscopes']
    exact hbare.undo hsaved

/-- Operations that close no scope but those above the one more leave that one. -/
theorem Beneath.run (h : Beneath names scope outer depth env other) {ops : List EnvironmentOp}
    {last : Nat} (hops : EnvironmentOp.depthAfter? depth ops = some last) :
    Beneath names scope outer last (env.run ops) (other.run ops) := by
  induction ops generalizing env other depth with
  | nil =>
    obtain rfl := Option.some.inj hops
    exact h
  | cons op rest ih =>
    cases op with
    | set name value => exact ih (h.restore name (some value)) hops
    | unset name => exact ih (h.restore name none) hops
    | pushScope assignments => exact ih (h.pushScope assignments) hops
    | popScope =>
      cases depth with
      | zero => exact absurd hops (by simp [EnvironmentOp.depthAfter?])
      | succ depth => exact ih h.popScope hops

/-- A scope that has just been opened is the one more. -/
theorem beneath_pushScope (env : Environment) (assignments : List (String × String)) :
    Beneath (assignments.map Prod.fst) (env.assign assignments).2 env.scopes 0
      (env.pushScope assignments) env := by
  refine ⟨fun name hname => ?_, [], [], ?_, rfl, .nil, rfl⟩
  · have hvars : (env.pushScope assignments).stored name = (env.assign assignments).1.stored name :=
      rfl
    rw [hvars, assign_fst, stored_setAll, lastValue?_eq_none hname, Option.none_or]
  · exact congrArg (_ :: ·) (scopes_assign env assignments)

/-! ### The whole of a scope -/

/-- A scope is opened, operations are done that close the scopes that they open and no others, and
the scope is closed.  Then the scopes that are open are those from before, the names that were
assigned with the scope stand for what they stood for before it, and every other name stands for
what the operations alone make of it.  Closing a scope where none is open changes nothing. -/
theorem unwinds_scope (env : Environment) (assignments : List (String × String))
    {ops : List EnvironmentOp} (hops : EnvironmentOp.Bracketed ops) :
    let after := ((env.pushScope assignments).run ops).popScope
    after.scopes = env.scopes ∧
      (∀ name ∈ assignments.map Prod.fst, after.stored name = env.stored name) ∧
      (∀ name ∉ assignments.map Prod.fst, after.stored name = (env.run ops).stored name) ∧
      (env.scopes = [] → env.popScope = env) := by
  intro after
  obtain ⟨hvars, inner, inner', hscopes, -, -, hlength⟩ :=
    (beneath_pushScope env assignments).run hops
  obtain rfl := List.eq_nil_of_length_eq_zero hlength
  rw [List.nil_append] at hscopes
  have hundone : ∀ name, after.stored name =
      if name ∈ assignments.map Prod.fst then env.stored name
      else ((env.pushScope assignments).run ops).stored name := by
    intro name
    show (((env.pushScope assignments).run ops).popScope).stored name = _
    rw [popScope, hscopes]
    exact stored_undo env _ assignments name
  refine ⟨scopes_popScope hscopes, fun name hname => ?_, fun name hname => ?_, fun hnone => ?_⟩
  · rw [hundone, if_pos hname]
  · rw [hundone, if_neg hname]
    exact hvars name hname
  · rw [popScope, hnone]

/-- A name that is assigned twice with the scope, assigned and unset within it, and assigned again
with a scope inside; one that the inner scope assigns, and one that is set in there. -/
theorem unwinds_scope_nested :
    let env : Environment := .ofList [("a", "0"), ("c", "1")]
    let ops : List EnvironmentOp := [.set "a" "4", .pushScope [("b", "5"), ("a", "6"), ("c", "7")],
      .unset "a", .set "d" "8", .popScope, .unset "b"]
    let after := ((env.pushScope [("a", "2"), ("b", "3"), ("a", "3")]).run ops).popScope
    EnvironmentOp.Bracketed ops ∧ after.scopes = [] ∧ after.stored "a" = some "0" ∧
      after.stored "b" = none ∧ after.stored "c" = some "1" ∧ after.stored "d" = some "8" ∧
      env.popScope = env := by
  intro env ops after
  have hops : EnvironmentOp.Bracketed ops := by decide
  obtain ⟨hscopes, hnamed, hothers, hclosed⟩ :=
    unwinds_scope env [("a", "2"), ("b", "3"), ("a", "3")] hops
  refine ⟨hops, hscopes, (hnamed "a" (by decide)).trans (by decide),
    (hnamed "b" (by decide)).trans (by decide), (hothers "c" (by decide)).trans (by decide),
    (hothers "d" (by decide)).trans (by decide), hclosed rfl⟩

end Environment

end MountShell
