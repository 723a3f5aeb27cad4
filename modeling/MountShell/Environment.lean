import MountShell.NameMap
import MountShell.Text.Numeral

/-!
# The environment

The variables of a shell. Assignments that hold for one command only are exported in a scope, which
remembers what the names stood for before; closing the scope puts that back. The variable `RANDOM`
is not stored: each reading of it draws a number.

Main definitions: `Environment.get`, `Environment.set`, `Environment.unset`,
`Environment.pushScope`, `Environment.popScope`, and `Draws`, the sequence that readings of `RANDOM`
draw from. What each change does is said through `Environment.stored`.
-/

namespace MountShell

/-- The name of the variable that holds the last exit code. -/
def statusName : String := "?"

/-- The name of the variable that is drawn anew at each reading. -/
def randomName : String := "RANDOM"

/-- The letters, digits and the underscore, of which names consist. Only ASCII letters and digits
count. -/
def isNameChar (c : Char) : Bool :=
  c.isAlphanum || c = '_'

/-- The names that can be assigned on a command line: the status, and every text of one or more name
characters. -/
def isValidName (name : String) : Bool :=
  name = statusName || (!name.isEmpty && name.toList.all isNameChar)

/-- An endless supply of random numbers and how many of them have been used. -/
structure Draws where
  source : Nat → Fin 32767
  taken : Nat := 0

namespace Draws

/-- The next number, and the supply after it. -/
def next (d : Draws) : Fin 32767 × Draws :=
  (d.source d.taken, { d with taken := d.taken + 1 })

/-- A supply that goes through the values of a linear congruence from a seed. -/
def ofSeed (seed : Nat) : Draws where
  source n := Fin.ofNat 32767 ((seed + n) * 1103515245 + 12345 * (n + 1) * (n + 1))

end Draws

/-- The variables, and for each open scope, innermost first, what its names stood for when each was
assigned. -/
structure Environment where
  vars : List (String × String) := []
  scopes : List (List (String × Option String)) := []

namespace Environment

/-- The environment with the given variables. -/
def ofList (vars : List (String × String)) : Environment where
  vars := NameMap.ofList vars

/-- The stored value of a variable. -/
def stored (env : Environment) (name : String) : Option String :=
  NameMap.find? name env.vars

/-- The value of a variable. The random variable takes a number from the supply. -/
def get (env : Environment) (name : String) (draws : Draws) : Option String × Draws :=
  if name = randomName then
    let (n, draws) := draws.next
    (some (Text.showInt n.val), draws)
  else (env.stored name, draws)

/-- Does the variable have a value? -/
def has (env : Environment) (name : String) : Bool :=
  name = randomName || (env.stored name).isSome

/-- The environment with a variable stored. -/
def set (env : Environment) (name value : String) : Environment :=
  { env with vars := NameMap.insert name value env.vars }

/-- The environment without a variable. -/
def unset (env : Environment) (name : String) : Environment :=
  { env with vars := NameMap.erase name env.vars }

/-- Stores a value under a name, or removes the name if there is no value. -/
def restore (env : Environment) (name : String) : Option String → Environment
  | some value => env.set name value
  | none => env.unset name

theorem stored_set (env : Environment) (name other value : String) :
    (env.set name value).stored other = if name = other then some value else env.stored other :=
  NameMap.find?_insert name other value env.vars

theorem stored_unset (env : Environment) (name other : String) :
    (env.unset name).stored other = if name = other then none else env.stored other :=
  NameMap.find?_erase name other env.vars

theorem stored_restore (env : Environment) (name other : String) (previous : Option String) :
    (env.restore name previous).stored other =
      if name = other then previous else env.stored other := by
  cases previous with
  | none => exact stored_unset env name other
  | some value => exact stored_set env name other value

/-- Makes assignments in order, and gives what each name stood for just before. -/
def assign (env : Environment) :
    List (String × String) → Environment × List (String × Option String)
  | [] => (env, [])
  | (name, value) :: rest =>
    let (after, saved) := (env.set name value).assign rest
    (after, (name, env.stored name) :: saved)

/-- Opens a scope in which the assignments hold. -/
def pushScope (env : Environment) (assignments : List (String × String)) : Environment :=
  let (after, saved) := env.assign assignments
  { after with scopes := saved :: after.scopes }

/-- Closes the innermost scope, undoing its assignments from the last to the first, so that a name
assigned twice ends at its oldest value. Without an open scope nothing happens. -/
def popScope (env : Environment) : Environment :=
  match env.scopes with
  | [] => env
  | saved :: outer =>
    saved.foldr (fun (name, previous) env => env.restore name previous)
      { env with scopes := outer }

/-- The stored variables as `NAME=VALUE` lines, in increasing order of the names. -/
def listing (env : Environment) : String :=
  "\n".intercalate (env.vars.map fun (name, value) => name ++ "=" ++ value)

end Environment

end MountShell
