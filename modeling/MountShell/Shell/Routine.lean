import MountShell.Shell.Basic
import MountShell.Shell.Io

/-!
# Routines

What a command does without waiting: a sequence of requests to the shell and to its input and
output, in which later requests may depend on earlier answers. A routine is plain data, so that a
command is described without saying how its requests are answered.
-/

namespace MountShell

/-- Something that a command asks for. -/
inductive Request where
  /-- Write a line to the output. -/
  | writeLine (line : String)
  /-- Write a line to the error stream. -/
  | writeErrorLine (line : String)
  /-- Clear the screen. -/
  | clear
  /-- Read all input. -/
  | readAll
  /-- The columns and rows of the screen. -/
  | size
  /-- Close the redirections, and tell how many were closed. -/
  | release
  | getenv (name : String)
  | setenv (name value : String)
  /-- All variables as lines. -/
  | listing
  /-- Replace references by values. -/
  | substitute (text : String)
  | lastStatus
  | cwd
  | getPath (path : String)
  | readEntry (entry : Entry)
  | createFile (path : String)
  | chmod (path mode : String)
  /-- The mounts as lines. -/
  | mountLines
  | requestExit (code : Int)
  /-- Raise the flag of the shell. -/
  | raise
  | phase
  /-- A random number. -/
  | draw
  /-- The date. -/
  | today
  deriving DecidableEq, Repr

/-- The type of the answers to a request. -/
abbrev Request.Answer : Request → Type
  | writeLine _ | writeErrorLine _ | clear | setenv _ _ | requestExit _ | raise => Unit
  | readAll => Except ShellError String
  | size => Nat × Nat
  | release => Nat
  | getenv _ => Option String
  | listing | substitute _ | cwd | today => String
  | lastStatus => Int
  | getPath _ => Except ShellError Entry
  | readEntry _ => Except FsError String
  | createFile _ => Except ShellError Unit
  | chmod _ _ => Bool
  | mountLines => List String
  | phase => Phase
  | draw => Fin 32767

/-- A sequence of requests that ends with a result. -/
inductive Routine (α : Type) where
  | done (result : α)
  | ask (request : Request) (next : request.Answer → Routine α)

namespace Routine

variable {α β : Type}

/-- One routine after another. -/
def bind : Routine α → (α → Routine β) → Routine β
  | done result, f => f result
  | ask request next, f => ask request fun answer => (next answer).bind f

instance : Monad Routine where
  pure := done
  bind := bind

/-- Makes one request. -/
def request (r : Request) : Routine r.Answer :=
  ask r done

/-- Writes a line to the output. -/
def writeLine (line : String) : Routine Unit := request (.writeLine line)

/-- Writes a line to the error stream. -/
def writeErrorLine (line : String) : Routine Unit := request (.writeErrorLine line)

/-- Writes lines to the output. -/
def writeLines : List String → Routine Unit
  | [] => done ()
  | line :: rest => do
    writeLine line
    writeLines rest

/-- The value of a variable, or a given text if it has none. -/
def getenvOr (name other : String) : Routine String := do
  let value ← request (.getenv name)
  return value.getD other

end Routine

/-- The shell and the input and output of the command that asks. -/
structure Context where
  shell : Shell
  io : Io
  /-- The tasks that the command has woken. -/
  woken : List Nat := []

namespace Context

/-- Tells the host something. -/
def tell (c : Context) (event : HostEvent) : Context :=
  { c with shell := { c.shell with host := c.shell.host.tell event } }

/-- Answers a request. -/
def answer (c : Context) : (r : Request) → r.Answer × Context
  | .writeLine line =>
    let (io, fs, host) := c.io.writeLine line c.shell.fs c.shell.host
    ((), { c with io, shell := { c.shell with fs, host } })
  | .writeErrorLine line => ((), c.tell (.errorLine line))
  | .clear => ((), c.tell .clear)
  | .readAll =>
    let (text, fs, host) := c.io.readAll c.shell.fs c.shell.host
    (text, { c with shell := { c.shell with fs, host } })
  | .size => ((c.shell.host.columns, c.shell.host.rows), c)
  | .release =>
    let (n, io, fs) := c.io.release c.shell.fs
    (n, { c with io, shell := { c.shell with fs } })
  | .getenv name =>
    let (value, shell) := c.shell.getenv name
    (value, { c with shell })
  | .setenv name value => ((), { c with shell := c.shell.setenv name value })
  | .listing => (c.shell.env.listing, c)
  | .substitute text =>
    let (text, shell) := c.shell.substitute text
    (text, { c with shell })
  | .lastStatus => (c.shell.lastStatus, c)
  | .cwd => (c.shell.cwd, c)
  | .getPath path =>
    let (entry, shell) := c.shell.getPath path
    (entry, { c with shell })
  | .readEntry entry =>
    let (text, shell) := c.shell.readEntry entry
    (text, { c with shell })
  | .createFile path =>
    let (result, shell) := c.shell.createFile path
    (result, { c with shell })
  | .chmod path mode =>
    let (done, shell) := c.shell.chmod path mode
    (done, { c with shell })
  | .mountLines => (c.shell.fs.mountLines, c)
  | .requestExit code => ((), { c with shell := c.shell.requestExit code })
  | .raise =>
    let (shell, woken) := c.shell.raise
    ((), { c with shell, woken := c.woken ++ woken })
  | .phase => (c.shell.phase, c)
  | .draw =>
    let (n, draws) := c.shell.draws.next
    (n, { c with shell := { c.shell with draws } })
  | .today => (c.shell.today, c)

end Context

/-- Answers all requests of a routine. -/
def Routine.run {α : Type} : Routine α → Context → α × Context
  | done result, c => (result, c)
  | ask request next, c =>
    let (answer, c) := c.answer request
    (next answer).run c

/-- What running a command comes to. -/
inductive Outcome (κ : Type) where
  /-- It has ended with an exit code. -/
  | exit (code : Int)
  /-- It has ended without one, which counts as success. -/
  | nothing
  /-- It goes on as a computation. -/
  | suspend (computation : κ)
  deriving Repr

/-- What one step of a computation comes to. -/
inductive Step (κ τ : Type) where
  /-- The next step follows after other tasks have had a turn. -/
  | again (next : κ)
  /-- The next step follows after a delay. -/
  | sleep (delay : τ) (next : κ)
  /-- The next step follows after a key has been read. -/
  | key (next : KeyAnswer → κ)
  /-- The computation has ended; no code means success. -/
  | done (code : Option Int)

/-- What programs do, with computations of type `κ` that wait for times of type `τ`. -/
structure Programs (κ τ : Type) where
  /-- Runs the program of a name with arguments. -/
  run : String → List String → Routine (Outcome κ)
  /-- Takes one step of a computation. -/
  step : κ → Routine (Step κ τ)
  /-- A number of steps, beside one for each key at hand, after which other tasks get a turn even if
  the computation does not ask for one. -/
  patience : κ → Nat

/-- Ends the session with the given code, or with that of the last command. -/
def Builtin.runExit {κ : Type} : List String → Routine (Outcome κ)
  | [] => do
    let code ← Routine.request .lastStatus
    Routine.request (.requestExit code)
    return .exit code
  | arg :: _ =>
    match Text.readInt Shell.codeBits arg with
    | some code => do
      Routine.request (.requestExit code)
      return .exit code
    | none => do
      Routine.writeErrorLine ("exit: numeric argument required: " ++ arg)
      return .exit 1

/-- What a command of the shell itself does. -/
def Builtin.run {κ : Type} : Builtin → List String → Routine (Outcome κ)
  | .exit, args => runExit args
  | .clear, _ => do
    Routine.request .clear
    return .nothing

/-- What a command does. -/
def Command.run {κ τ : Type} (programs : Programs κ τ) :
    Command → List String → Routine (Outcome κ)
  | .builtin b, args => b.run args
  | .program name, args => programs.run name args

end MountShell
