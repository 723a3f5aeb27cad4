import MountShell.Shell.Job

/-!
# Sessions

A shell on a pool of tasks. Command lines become tasks; the result of each is kept until it is
taken. The host drives the session by ticks, moves its clock, and sends it signals and keys.
-/

namespace MountShell

/-- A command line as a task, with the place where its result is kept. -/
structure JobTask (κ τ : Type) where
  job : Job κ τ
  place : Nat

/-- The result of a command line: its exit code, unless the shell refused it. -/
abbrev JobResult := Except ShellError Int

/-- What the tasks of a session share. -/
structure SessionState where
  shell : Shell
  /-- The results that have been given and not been taken. -/
  results : List (Option JobResult) := []

namespace JobTask

variable {κ τ : Type} [Zero τ] [Add τ] [LT τ] [DecidableLT τ]

/-- Polls the job of a task, and keeps its result when it ends. -/
def poll (programs : Programs κ τ) (id : Nat) (task : JobTask κ τ) (k : Shared τ SessionState) :
    Polled (JobTask κ τ) (Shared τ SessionState) :=
  let p := task.job.poll programs id k.state.shell k.timers
  match p.progress with
  | .waits job =>
    { next := some { task with job }
      state := { timers := p.timers, state := { k.state with shell := p.shell } }
      woken := p.woken }
  | .ends result =>
    let results := k.state.results.set task.place (some result)
    { next := none
      state := { timers := p.timers, state := { shell := p.shell, results } }
      woken := p.woken }

/-- Drops the job of a task. -/
def drop (task : JobTask κ τ) (k : Shared τ SessionState) :
    Shared τ SessionState × List Nat :=
  let (shell, timers) := task.job.drop k.state.shell k.timers
  ({ timers, state := { k.state with shell } }, [])

/-- What the tasks of a session do. -/
def behavior (programs : Programs κ τ) : Behavior (JobTask κ τ) (Shared τ SessionState) where
  poll := poll programs
  drop := drop

end JobTask

/-- A shell on a pool of tasks. -/
abbrev Session (κ τ : Type) := TimedPool τ (JobTask κ τ) SessionState

namespace Session

variable {κ τ : Type} [Zero τ] [Add τ] [LT τ] [DecidableLT τ]

/-- A session without tasks. -/
def new (shell : Shell) : Session κ τ :=
  TimedPool.new { shell }

/-- The shell of a session. -/
def shell (s : Session κ τ) : Shell := s.shared.state.shell

/-- The session with its shell changed. -/
def withShell (s : Session κ τ) (shell : Shell) : Session κ τ :=
  { s with shared := { s.shared with state := { s.shared.state with shell } } }

/-- The session with its shell changed and tasks woken. -/
def withWoken (s : Session κ τ) (change : Shell × List Nat) : Session κ τ :=
  { s.withShell change.1 with pool := s.pool.wakeAll change.2 }

/-- Makes a place for a result. -/
def openPlace (s : Session κ τ) : Nat × Session κ τ :=
  let state := s.shared.state
  (state.results.length,
    { s with shared := { s.shared with
        state := { state with results := state.results ++ [none] } } })

/-- Takes the result out of a place, if it is there. -/
def takeResult (place : Nat) (state : SessionState) : Option JobResult × SessionState :=
  ((state.results[place]?).join, { state with results := state.results.set place none })

/-- Makes a job a task. Gives the number of the task and the place of its result. -/
def spawnJob (s : Session κ τ) (change : Job κ τ × Shell) : (Nat × Nat) × Session κ τ :=
  let (place, s) := (s.withShell change.2).openPlace
  let (id, s) := TimedPool.spawn s { job := change.1, place }
  ((id, place), s)

/-- Accepts a line and makes it a task. -/
def spawnLine (s : Session κ τ) (line : String) : (Nat × Nat) × Session κ τ :=
  s.spawnJob (s.shell.accept line)

/-- Waits for a job, for at most the given number of ticks. -/
def block (programs : Programs κ τ) (ticks : Nat) (s : Session κ τ) (change : Job κ τ × Shell) :
    Blocked JobResult × Session κ τ :=
  let (place, s) := (s.withShell change.2).openPlace
  TimedPool.blockOn (JobTask.behavior programs) { job := change.1, place } (takeResult place)
    ticks s

/-- Accepts a line and waits for it. -/
def runLine (programs : Programs κ τ) (ticks : Nat) (s : Session κ τ) (line : String) :
    Blocked JobResult × Session κ τ :=
  s.block programs ticks (s.shell.accept line)

/-- Runs the command that comes first and waits for it. -/
def start (programs : Programs κ τ) (ticks : Nat) (s : Session κ τ) :
    Blocked JobResult × Session κ τ :=
  s.block programs ticks s.shell.start

/-- Begins anew with another shell. The old tasks are dropped when the new shell is there, and it
sees what that does to files and to what lies outside; results that were not taken are lost. -/
def restart (programs : Programs κ τ) (s : Session κ τ) (sh : Shell) : Session κ τ :=
  let old : Session κ τ :=
    TimedPool.clear (JobTask.behavior programs) (s.withShell { s.shell with fs := sh.fs })
  let fs := { old.shell.fs with mounts := sh.fs.mounts }
  new { sh with fs }

/-- Takes the result of a task, if it is there. -/
def takeResult? (place : Nat) (s : Session κ τ) : Option JobResult × Session κ τ :=
  let (result, state) := takeResult place s.shared.state
  (result, { s with shared := { s.shared with state } })

end Session

end MountShell
