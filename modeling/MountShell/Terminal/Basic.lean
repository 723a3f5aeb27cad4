import MountShell.Shell.Session
import MountShell.Text.Blank

/-!
# The terminal

A shell that reads its commands at a terminal. The session at the terminal goes from stage to stage:
it writes the prompt and reads a line, carries out the line, and begins again until it is over. The
end of input counts as a hangup.

One step of it (`Terminal.step`) neither reads nor waits; it tells what has to happen before the
next step (`Demand`). The text that is to be written is collected in order (`Terminal.written`).
`Terminal.run` takes all steps of a session whose input has been typed ahead.
-/

namespace MountShell

/-- A piece of text for one of the two streams of the terminal. -/
inductive Writing where
  | out (text : String)
  | err (text : String)
  deriving DecidableEq, Repr

/-- The control sequence that clears the screen and goes to its upper left corner. -/
def clearScreen : String := "\x1b[2J\x1b[H"

/-- What is written when the host is told something. -/
def HostEvent.writing : HostEvent → Writing
  | line text => .out (text ++ "\n")
  | errorLine text => .err (text ++ "\n")
  | clear => .out clearScreen

/-- Where a session at a terminal stands. -/
inductive Stage where
  /-- The prompt has been written. -/
  | reading
  /-- A command line is carried out, whose result will be in the given place. -/
  | running (place : Nat)
  /-- The session has ended with a code. -/
  | over (code : Nat)
  deriving DecidableEq, Repr

/-- What has to happen before the next step of a session. -/
inductive Demand (τ : Type) where
  | nothing
  /-- The clock has to reach a deadline. -/
  | time (deadline : τ)
  /-- A line has to be typed, or the input has to end. -/
  | line
  /-- There is no next step: the session has ended with a code. -/
  | leave (code : Nat)
  deriving DecidableEq, Repr

/-- A session at a terminal. -/
structure Terminal (κ τ : Type) where
  session : Session κ τ
  stage : Stage
  /-- The session is there for one command line only, and ends with its code. -/
  single : Bool := false
  /-- The text that is to be written. -/
  written : Array Writing := #[]

/-- The number of codes that a process can end with. -/
def processCodes : Nat := 256

/-- The code that stands for any failure. -/
def failureCode : Nat := 1

/-- The code of a process for the exit code of a command. A code that no process can end with counts
as a failure. -/
def processCode (code : Int) : Nat :=
  if 0 ≤ code ∧ code < processCodes then code.toNat else failureCode

/-- A report of the shell about something that is no command's concern. -/
def report (text : String) : Writing := .err ("vsh: " ++ text ++ "\n")

namespace Terminal

variable {κ τ : Type} [Zero τ] [Add τ] [LT τ] [DecidableLT τ]

/-- The shell at the terminal. -/
def shell (t : Terminal κ τ) : Shell := t.session.shell

/-- Adds a piece of text. -/
def write (t : Terminal κ τ) (text : Writing) : Terminal κ τ :=
  { t with written := t.written.push text }

/-- Adds the text for what the host has been told. -/
def flush (t : Terminal κ τ) : Terminal κ τ :=
  let (events, host) := t.shell.host.takeEvents
  { t with
    session := t.session.withShell { t.shell with host }
    written := t.written ++ (events.map HostEvent.writing).toArray }

/-- Begins a session with the command that comes first. -/
def interactive (sh : Shell) : Terminal κ τ :=
  let ((_, place), session) := (Session.new sh).spawnJob sh.start
  { session, stage := .running place }

/-- Begins a session for one command line. -/
def forCommand (sh : Shell) (line : String) : Terminal κ τ :=
  let ((_, place), session) := (Session.new sh).spawnLine line
  { session, stage := .running place, single := true }

/-- Types a line. -/
def typeLine (t : Terminal κ τ) (line : String) : Terminal κ τ :=
  let (host, woken) := t.shell.host.typeLine line
  { t with session := t.session.withWoken ({ t.shell with host }, woken) }

/-- Ends the input. -/
def endInput (t : Terminal κ τ) : Terminal κ τ :=
  let (host, woken) := t.shell.host.setEnded true
  { t with session := t.session.withWoken ({ t.shell with host }, woken) }

/-- Moves the clock forward to a time. -/
def passTime (t : Terminal κ τ) (now : τ) : Terminal κ τ :=
  { t with session := (t.session.waitUntil (some now)).2 }

/-- Ends the session if the shell has been asked to exit, and writes the prompt otherwise. -/
def prompt (t : Terminal κ τ) : Terminal κ τ :=
  match t.shell.exitRequest with
  | some code => { t with stage := .over (processCode code) }
  | none => { t.write (.out t.shell.prompt) with stage := .reading }

/-- Begins to carry out a line. A blank line only brings back the prompt. -/
def enter (t : Terminal κ τ) (line : String) : Terminal κ τ :=
  if Text.allBlank line then t.prompt
  else
    let ((_, place), session) := t.session.spawnLine line
    { t with session, stage := .running place }

/-- There are no more lines. -/
def hangUp (t : Terminal κ τ) : Terminal κ τ :=
  let t := t.write (.out "\n")
  let t := { t with session := t.session.withWoken (t.shell.trap .hangup) }
  t.prompt

/-- A command line has been carried out. -/
def conclude (t : Terminal κ τ) (result : JobResult) : Terminal κ τ :=
  let t :=
    match result with
    | .ok _ => t
    | .error e => t.write (report e.message)
  if t.single then
    match result with
    | .ok code => { t with stage := .over (processCode code) }
    | .error _ => { t with stage := .over failureCode }
  else t.prompt

/-- Reads a line, if one has been typed. -/
def readStep (t : Terminal κ τ) : Demand τ × Terminal κ τ :=
  match t.shell.host.takeLine with
  | (some line, host) =>
    (.nothing, { t with session := t.session.withShell { t.shell with host } }.enter line)
  | (none, host) => if host.ended then (.nothing, t.hangUp) else (.line, t)

/-- Goes on with the command line whose result will be in a place. -/
def runStep (programs : Programs κ τ) (place : Nat) (t : Terminal κ τ) : Demand τ × Terminal κ τ :=
  let (_, session) := t.session.tick (JobTask.behavior programs)
  let t := { t with session }.flush
  match t.session.takeResult? place with
  | (some result, session) => (.nothing, { t with session }.conclude result)
  | (none, _) =>
    if t.session.pool.hasReady then (.nothing, t)
    else
      match t.session.shared.timers.nextDeadline with
      | some deadline => (.time deadline, t)
      | none => (.line, t)

/-- Takes a step. -/
def step (programs : Programs κ τ) (t : Terminal κ τ) : Demand τ × Terminal κ τ :=
  match t.stage with
  | .reading => t.readStep
  | .running place => t.runStep programs place
  | .over code => (.leave code, t)

/-- Takes steps until the session is over, with the clock moving as it is needed. There is no code
if the session waits for a line or if the given number of steps is not enough. -/
def run (programs : Programs κ τ) : Nat → Terminal κ τ → Option Nat × Terminal κ τ
  | 0, t => (none, t)
  | n + 1, t =>
    match t.step programs with
    | (.nothing, t) => run programs n t
    | (.time deadline, t) => run programs n (t.passTime deadline)
    | (.line, t) => (none, t)
    | (.leave code, t) => (some code, t)

/-- The text on the standard output. -/
def output (t : Terminal κ τ) : String :=
  "".intercalate (t.written.toList.filterMap fun w =>
    match w with
    | .out text => some text
    | .err _ => none)

/-- The text on the error stream. -/
def errors (t : Terminal κ τ) : String :=
  "".intercalate (t.written.toList.filterMap fun w =>
    match w with
    | .out _ => none
    | .err text => some text)

end Terminal

end MountShell
