import MountShell.Environment

/-!
# Scopes of the environment

The scopes that are open, innermost first.  Only `Environment.pushScope` and `Environment.popScope`
change them.

Whatever is stored while a scope is open (`Environment.setAll`), closing it gives the names that
were assigned with it their old values back, however often they were assigned, and leaves the others
as they are.

Main statements: `scopes_pushScope`, a new scope comes before those that were open,
`scopes_popScope`, the innermost goes and the others stay, and `stored_popScope_setAll`, what the
names stand for when a scope has been opened and closed again.
-/

namespace MountShell

namespace Environment

theorem scopes_restore (env : Environment) (name : String) (previous : Option String) :
    (env.restore name previous).scopes = env.scopes := by
  cases previous <;> rfl

theorem scopes_assign (env : Environment) (assignments : List (String × String)) :
    (env.assign assignments).1.scopes = env.scopes := by
  induction assignments generalizing env with
  | nil => rfl
  | cons pair rest ih => exact ih (env.set pair.1 pair.2)

/-- A new scope comes before those that were open. -/
theorem scopes_pushScope (env : Environment) (assignments : List (String × String)) :
    ∃ saved, (env.pushScope assignments).scopes = saved :: env.scopes :=
  ⟨(env.assign assignments).2, congrArg (_ :: ·) (scopes_assign env assignments)⟩

/-- Closing the innermost scope leaves the others. -/
theorem scopes_popScope {env : Environment} {saved : List (String × Option String)}
    {outer : List (List (String × Option String))} (h : env.scopes = saved :: outer) :
    env.popScope.scopes = outer := by
  have hrestored : ∀ entries : List (String × Option String),
      (entries.foldr (fun entry after => restore after entry.1 entry.2)
        { env with scopes := outer }).scopes = outer := by
    intro entries
    induction entries with
    | nil => rfl
    | cons entry rest ih => exact (scopes_restore _ entry.1 entry.2).trans ih
  rw [popScope, h]
  exact hrestored saved

/-! ### Storing variables -/

theorem stored_set_self (env : Environment) (name value : String) :
    (env.set name value).stored name = some value := by
  rw [stored_set, if_pos rfl]

theorem stored_set_of_ne (env : Environment) {name other : String} (h : other ≠ name)
    (value : String) : (env.set name value).stored other = env.stored other := by
  rw [stored_set, if_neg (Ne.symm h)]

/-- Stores variables one after the other. -/
def setAll (env : Environment) (pairs : List (String × String)) : Environment :=
  pairs.foldl (fun env pair => env.set pair.1 pair.2) env

/-- The last value that is given to a name. -/
def lastValue? (name : String) : List (String × String) → Option String
  | [] => none
  | (other, value) :: rest => (lastValue? name rest).or (if other = name then some value else none)

theorem setAll_append (env : Environment) (first rest : List (String × String)) :
    env.setAll (first ++ rest) = (env.setAll first).setAll rest :=
  List.foldl_append

theorem scopes_setAll (env : Environment) (pairs : List (String × String)) :
    (env.setAll pairs).scopes = env.scopes := by
  induction pairs generalizing env with
  | nil => rfl
  | cons pair rest ih => exact ih (env.set pair.1 pair.2)

/-- The last value counts, and a name that is given none keeps its own. -/
theorem stored_setAll (env : Environment) (pairs : List (String × String)) (name : String) :
    (env.setAll pairs).stored name = (lastValue? name pairs).or (env.stored name) := by
  induction pairs generalizing env with
  | nil => rfl
  | cons pair rest ih =>
    obtain ⟨other, value⟩ := pair
    have hrest : (env.setAll ((other, value) :: rest)).stored name = _ := ih (env.set other value)
    rw [hrest, stored_set, lastValue?, Option.or_assoc]
    by_cases h : other = name
    · rw [if_pos h, if_pos h, Option.some_or]
    · rw [if_neg h, if_neg h, Option.none_or]

theorem lastValue?_eq_none {name : String} {pairs : List (String × String)}
    (h : name ∉ pairs.map Prod.fst) : lastValue? name pairs = none := by
  induction pairs with
  | nil => rfl
  | cons pair rest ih =>
    obtain ⟨hne, hrest⟩ := not_or.1 fun hor => h (List.mem_cons.2 hor)
    rw [lastValue?, ih hrest, if_neg (Ne.symm hne)]
    rfl

/-- The value that is given last counts. -/
theorem lastValue?_concat (name other value : String) (pairs : List (String × String)) :
    lastValue? name (pairs ++ [(other, value)]) =
      if other = name then some value else lastValue? name pairs := by
  induction pairs with
  | nil => rfl
  | cons pair rest ih =>
    rw [List.cons_append, lastValue?, ih, lastValue?]
    by_cases h : other = name
    · rw [if_pos h, if_pos h, Option.some_or]
    · rw [if_neg h, if_neg h]

theorem assign_fst (env : Environment) (pairs : List (String × String)) :
    (env.assign pairs).1 = env.setAll pairs := by
  induction pairs generalizing env with
  | nil => rfl
  | cons pair rest ih => exact ih (env.set pair.1 pair.2)

/-! ### Closing a scope -/

/-- Undoing assignments from the last to the first gives every name that was assigned the value that
it had before the first of them. -/
theorem stored_undo (env after : Environment) (pairs : List (String × String)) (name : String) :
    ((env.assign pairs).2.foldr (fun entry after => restore after entry.1 entry.2) after).stored
        name = if name ∈ pairs.map Prod.fst then env.stored name else after.stored name := by
  induction pairs generalizing env with
  | nil => rfl
  | cons pair rest ih =>
    obtain ⟨other, value⟩ := pair
    have hrest := ih (env.set other value)
    rw [assign, List.foldr_cons, stored_restore, hrest, List.map_cons, stored_set]
    by_cases h : other = name
    · simp [h]
    · have hmem : name ∈ other :: rest.map Prod.fst ↔ name ∈ rest.map Prod.fst :=
        List.mem_cons.trans (or_iff_right (Ne.symm h))
      rw [if_neg h, if_neg h]
      simp only [hmem]

/-- What a name stands for when a scope has been opened for some assignments, variables have been
written in it, and it has been closed: a name that was assigned keeps what it stood for before the
scope, and the others have the last value that they were given. -/
def valueAfter (env : Environment) (assigned writes : List (String × String)) (name : String) :
    Option String :=
  if name ∈ assigned.map Prod.fst then env.stored name
  else (lastValue? name writes).or (env.stored name)

/-- Closing a scope leaves the names with these values. -/
theorem stored_popScope_setAll (env : Environment) (assigned writes : List (String × String))
    (name : String) :
    ((env.pushScope assigned).setAll writes).popScope.stored name =
      env.valueAfter assigned writes name := by
  have hscopes : ((env.pushScope assigned).setAll writes).scopes =
      (env.assign assigned).2 :: env.scopes := by
    rw [scopes_setAll]
    exact congrArg (_ :: ·) (scopes_assign env assigned)
  rw [popScope, hscopes, valueAfter]
  refine (stored_undo env _ assigned name).trans ?_
  by_cases hname : name ∈ assigned.map Prod.fst
  · rw [if_pos hname, if_pos hname]
  · have hvars : ((env.pushScope assigned).setAll writes).stored name =
        (lastValue? name writes).or ((env.assign assigned).1.stored name) :=
      stored_setAll _ writes name
    rw [if_neg hname, if_neg hname]
    refine hvars.trans ?_
    rw [assign_fst, stored_setAll, lastValue?_eq_none hname, Option.none_or]

end Environment

end MountShell
