import MountShell.Text.Split

/-!
# Signals

The signals that a host sends to a shell, and the flag that carries one to the running command. The
flag remembers one waiter, the last that looked at it, and wakes that one when it is raised.
-/

namespace MountShell

/-- What the host tells the shell. -/
inductive Signal where
  /-- The user wants the running command to end. -/
  | interrupt
  /-- There will be no more input. -/
  | hangup
  deriving DecidableEq, Repr

namespace Signal

/-- A name without all the `SIG`s at its start. -/
def stripSig : List Char → List Char
  | 'S' :: 'I' :: 'G' :: rest => stripSig rest
  | cs => cs

/-- The signal with a conventional name, with or without `SIG` in front. -/
def ofName (name : String) : Option Signal :=
  let short := String.ofList (stripSig name.toList)
  if short = "INT" then some interrupt
  else if short = "HUP" then some hangup
  else none

/-- The full name of a signal. -/
def name : Signal → String
  | interrupt => "SIGINT"
  | hangup => "SIGHUP"

end Signal

/-- A flag that is raised or not, with the one waiter that raising it wakes. -/
structure SignalFlag (ω : Type) where
  raised : Bool := false
  waiter : Option ω := none
  deriving DecidableEq, Repr

namespace SignalFlag

variable {ω : Type}

/-- Raises the flag. The waiter is to be woken and is forgotten. -/
def raise (flag : SignalFlag ω) : SignalFlag ω × Option ω :=
  ({ raised := true, waiter := none }, flag.waiter)

/-- Lowers the flag, and tells whether it was raised. -/
def take (flag : SignalFlag ω) : SignalFlag ω × Bool :=
  ({ flag with raised := false }, flag.raised)

/-- Looks at the flag on behalf of a waiter. A waiter that finds the flag lowered takes the place of
the one remembered. -/
def look (flag : SignalFlag ω) (waiter : ω) : SignalFlag ω × Bool :=
  if flag.raised then (flag, true) else ({ flag with waiter := some waiter }, false)

end SignalFlag

end MountShell
