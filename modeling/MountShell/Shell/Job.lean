import MountShell.Shell.Routine

/-!
# Jobs

Carrying out a command line as a task. The line is parsed and the shell leaves its idle phase when
the job is made (`Shell.accept`). When the job is polled for the first time it makes the assignments
of the line, finds the command, opens the redirections and runs the command; a suspended computation
is then driven step by step (`drive`). Before each step the flag of the shell is looked at: if it is
raised, it is lowered and the command ends with code 1.

However a job ends, its redirections are closed, its assignments are undone, the flag is lowered and
the shell is idle again. A job that is dropped does all this too (`Job.drop`), but leaves no status.
-/

namespace MountShell

/-- What a computation waits for between two steps. -/
inductive Wait (κ τ : Type) where
  /-- Other tasks to have a turn. -/
  | turn (next : κ)
  /-- A delay, unless the shell is signalled. -/
  | sleep (s : Sleep τ) (next : κ)
  /-- A key, unless the shell is signalled. -/
  | key (next : KeyAnswer → κ)

/-- A command line on its way. -/
inductive Job (κ τ : Type) where
  /-- The result is known, and the shell has nothing to do. -/
  | settled (result : Except ShellError Int)
  /-- The line has been accepted and nothing has been done yet. -/
  | accepted (line : CommandLine)
  /-- The command has been suspended. -/
  | suspended (io : Io) (wait : Wait κ τ)

/-- The exit code of a cancelled command. -/
def cancelledCode : Int := 1

namespace Shell

/-- The job of carrying out a line. A shell that is not idle refuses it. -/
def accept {κ τ : Type} (sh : Shell) (line : String) : Job κ τ × Shell :=
  if sh.phase = .idle then
    let (parsed, draws) := CommandLine.parse sh.env line sh.draws
    (.accepted parsed, { sh with draws, phase := .resolving })
  else (.settled (.error .busy), sh)

/-- The job of running the command that comes first. -/
def start {κ τ : Type} (sh : Shell) : Job κ τ × Shell :=
  match sh.motd with
  | some line => sh.accept line
  | none => (.settled (.ok 0), sh)

/-- The shell is idle again. A signal that came after the last step has nothing left to cancel. -/
def leave (sh : Shell) : Shell :=
  { sh with flag := sh.flag.take.1, phase := .idle }

/-- The shell after the innermost assignments of a line have been undone. -/
def popScope (sh : Shell) : Shell :=
  { sh with env := sh.env.popScope }

/-- Stores an exit code as the status. -/
def setStatus (sh : Shell) (code : Int) : Shell :=
  sh.setenv statusName (Text.showInt code)

/-- Closes the redirections of a command. -/
def release (sh : Shell) (io : Io) : Shell :=
  { sh with fs := (io.release sh.fs).2.2 }

/-- Opens redirections, relative to the working directory. -/
def openAll (sh : Shell) : List Redirection → List OpenFile × Shell
  | [] => ([], sh)
  | r :: rest =>
    let (file, sh) := sh.openFile r.target r.mode.openMode
    let (files, sh) := sh.openAll rest
    (file :: files, sh)

/-- Opens the redirections of a command: all outputs first, then all inputs. -/
def buildIo (sh : Shell) (command : String) (redirections : List Redirection) : Io × Shell :=
  let (outputs, sh) := sh.openAll (redirections.filter fun r => r.mode.isWrite)
  let (inputs, sh) := sh.openAll (redirections.filter fun r => !r.mode.isWrite)
  ({ command, outputs := outputs.map fun file => { file }, inputs }, sh)

/-- Makes assignments for good. -/
def assignAll (sh : Shell) (assignments : List Assignment) : Shell :=
  assignments.foldl (fun sh a => sh.setenv a.name a.value) sh

end Shell

/-- How far a job has come in one poll. -/
inductive Progress (κ τ : Type) where
  | waits (job : Job κ τ)
  | ends (result : Except ShellError Int)

/-- What a poll of a job leaves behind. -/
structure JobPoll (κ τ : Type) where
  progress : Progress κ τ
  shell : Shell
  timers : TimerQueue τ Waker
  woken : List Nat

namespace Job

variable {κ τ : Type} [Zero τ] [Add τ] [LT τ] [DecidableLT τ]

/-- The command has ended with a code: its redirections are closed, its assignments are undone and
the code becomes the status. -/
def finish (code : Int) (c : Context) (timers : TimerQueue τ Waker) : JobPoll κ τ where
  progress := .ends (.ok code)
  shell := ((c.shell.release c.io).popScope.leave).setStatus code
  timers := timers
  woken := c.woken

/-- The command waits. -/
def suspend (wait : Wait κ τ) (c : Context) (timers : TimerQueue τ Waker) : JobPoll κ τ where
  progress := .waits (.suspended c.io wait)
  shell := c.shell
  timers := timers
  woken := c.woken

/-- Looks whether a wait is over, on behalf of the task in slot `id`. What is waited for comes
before the flag, so that a key or a deadline that is there counts even if the flag is raised. Gives
the computation that goes on, or the wait if it is not over. -/
def lookAt (id : Nat) (wait : Wait κ τ) (sh : Shell) (timers : TimerQueue τ Waker) :
    (κ ⊕ Wait κ τ) × Shell × TimerQueue τ Waker :=
  match wait with
  | .turn next => (.inl next, sh, timers)
  | .sleep s next =>
    match s.poll timers (.task id) with
    | (true, _, timers) => (.inl next, sh, timers)
    | (false, s, timers) =>
      let (flag, raised) := sh.flag.look (.task id)
      let sh := { sh with flag }
      if raised then (.inl next, sh, s.drop timers) else (.inr (.sleep s next), sh, timers)
  | .key next =>
    match sh.host.nextKey (.task id) with
    | (some answer, host) => (.inl (next answer), { sh with host }, timers)
    | (none, host) =>
      let (flag, raised) := sh.flag.look (.task id)
      let sh := { sh with host, flag }
      if raised then (.inl (next .interrupted), sh, timers) else (.inr (.key next), sh, timers)

/-- One boundary between steps: a raised flag is lowered and ends the command, otherwise the next
step is taken. Gives the code of a command that has ended, or what it waits for. -/
def boundary (programs : Programs κ τ) (computation : κ) (c : Context) :
    (Int ⊕ Wait κ τ) × Context :=
  let (flag, raised) := c.shell.flag.take
  let c := { c with shell := { c.shell with flag } }
  if raised then (.inl cancelledCode, c)
  else
    let (step, c) := (programs.step computation).run c
    match step with
    | .again next => (.inr (.turn next), c)
    | .sleep delay next => (.inr (.sleep { delay } next), c)
    | .key next => (.inr (.key next), c)
    | .done code => (.inl (code.getD 0), c)

/-- Drives a computation until it waits or ends, taking at most the given number of steps. When they
are used up the others get a turn. -/
def drive (programs : Programs κ τ) (id : Nat) :
    Nat → κ → Context → TimerQueue τ Waker → JobPoll κ τ
  | 0, computation, c, timers =>
    suspend (.turn computation) { c with woken := c.woken ++ [id] } timers
  | n + 1, computation, c, timers =>
    match boundary programs computation c with
    | (.inl code, c) => finish code c timers
    | (.inr (.turn next), c) => suspend (.turn next) { c with woken := c.woken ++ [id] } timers
    | (.inr wait, c) =>
      match lookAt id wait c.shell timers with
      | (.inl next, shell, timers) => drive programs id n next { c with shell } timers
      | (.inr wait, shell, timers) => suspend wait { c with shell } timers

/-- The number of steps that a poll may take. -/
def stepsAllowed (programs : Programs κ τ) (computation : κ) (sh : Shell) : Nat :=
  sh.host.keysAhead + programs.patience computation + 1

/-- Drives a computation as far as one poll may take it. -/
def goOn (programs : Programs κ τ) (id : Nat) (computation : κ) (c : Context)
    (timers : TimerQueue τ Waker) : JobPoll κ τ :=
  drive programs id (stepsAllowed programs computation c.shell) computation c timers

/-- Runs a command that has been found. -/
def runCommand (programs : Programs κ τ) (id : Nat) (command : Command) (name : String)
    (args : List String) (redirections : List Redirection) (sh : Shell)
    (timers : TimerQueue τ Waker) : JobPoll κ τ :=
  let (io, sh) := { sh with phase := .buildingIo }.buildIo name redirections
  let c : Context := { shell := { sh with phase := .running }, io }
  match (command.run programs args).run c with
  | (.exit code, c) => finish code c timers
  | (.nothing, c) => finish 0 c timers
  | (.suspend computation, c) => goOn programs id computation c timers

/-- Begins to carry out a line. A line without a command makes its assignments for good. -/
def commence (programs : Programs κ τ) (id : Nat) (line : CommandLine) (sh : Shell)
    (timers : TimerQueue τ Waker) : JobPoll κ τ :=
  match line.args with
  | [] =>
    { progress := .ends (.ok 0)
      shell := ((sh.assignAll line.assignments).leave).setStatus 0
      timers
      woken := [] }
  | name :: args =>
    let sh := { sh with env := sh.env.pushScope line.exports }
    match sh.resolveCommand name with
    | (none, sh) =>
      let e := ShellError.commandNotFound name
      let sh := { sh with host := sh.host.tell (.errorLine e.message) }
      finish e.exitCode { shell := sh, io := { command := name } } timers
    | (some command, sh) => runCommand programs id command name args line.redirections sh timers

/-- Polls a job on behalf of the task in slot `id`. -/
def poll (programs : Programs κ τ) (id : Nat) (job : Job κ τ) (sh : Shell)
    (timers : TimerQueue τ Waker) : JobPoll κ τ :=
  match job with
  | .settled result => { progress := .ends result, shell := sh, timers, woken := [] }
  | .accepted line => commence programs id line sh timers
  | .suspended io wait =>
    match lookAt id wait sh timers with
    | (.inl next, shell, timers) => goOn programs id next { shell, io } timers
    | (.inr wait, shell, timers) =>
      { progress := .waits (.suspended io wait), shell, timers, woken := [] }

/-- Drops a job that has not ended. -/
def drop (job : Job κ τ) (sh : Shell) (timers : TimerQueue τ Waker) :
    Shell × TimerQueue τ Waker :=
  match job with
  | .settled _ => (sh, timers)
  | .accepted _ => (sh.leave, timers)
  | .suspended io wait =>
    let timers :=
      match wait with
      | .sleep s _ => s.drop timers
      | _ => timers
    ((sh.release io).popScope.leave, timers)

end Job

end MountShell
