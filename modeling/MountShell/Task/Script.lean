import MountShell.Signal
import MountShell.Task.TimedPool
import MountShell.Text.Numeral

/-!
# Scripted tasks

Tasks that carry out a list of actions: they log lines, wait in the ways that a task can wait, raise
and lower a flag that all of them share, and take the results of each other. `ScriptedTask.behavior`
is what they do when they are polled or dropped.

A task gives its result through a channel, which has one receiver. The receiver is the one who asked
for the result, or else whoever takes the handle of the task first.
-/

namespace MountShell

/-- One action of a scripted task. -/
inductive TaskAction (τ : Type) where
  | log (line : String)
  /-- Let the other tasks have a turn. -/
  | giveWay
  | sleep (delay : τ)
  /-- Wait twice for the same sleep. -/
  | sleepTwice (delay : τ)
  /-- Begin a sleep and give it up. -/
  | dropSleep (delay : τ)
  /-- Begin a sleep on behalf of nobody, and wait for it. -/
  | resumeSleep (delay : τ)
  /-- Sleep until the delay is over or the flag is raised. -/
  | interruptibleSleep (delay : τ)
  /-- Wait, until the flag is raised, for something that is there already. -/
  | interruptibleReady
  | waitSignal
  | raise
  | take
  /-- Wait for ever. -/
  | pend
  /-- Wait for the result of the task with the given handle. -/
  | join (handle : Nat)
  | finish (value : Int)
  deriving Repr

/-- The way from a task to whoever takes its result. -/
inductive Channel where
  /-- There is no result yet. -/
  | waiting (receiver : Option Waker)
  | sent (value : Int)
  /-- The result was taken, or there will be none. -/
  | closed
  deriving DecidableEq, Repr

/-- What scripted tasks share. -/
structure ScriptState where
  flag : SignalFlag Waker := {}
  channels : List Channel := []
  /-- The channel for each handle, as long as nobody has taken the handle. -/
  handles : List (Option Nat) := []
  log : List String := []

namespace ScriptState

/-- Adds a line to the log. -/
def write (s : ScriptState) (line : String) : ScriptState :=
  { s with log := s.log ++ [line] }

/-- Opens a channel. -/
def openChannel (s : ScriptState) : Nat × ScriptState :=
  (s.channels.length, { s with channels := s.channels ++ [.waiting none] })

/-- Opens a channel and keeps a handle on it. -/
def openHandle (s : ScriptState) : Nat × ScriptState :=
  let (channel, s) := s.openChannel
  (channel, { s with handles := s.handles ++ [some channel] })

/-- Takes a handle, which can be done once. -/
def takeHandle (s : ScriptState) (i : Nat) : Option Nat × ScriptState :=
  ((s.handles[i]?).join, { s with handles := s.handles.set i none })

/-- Changes a channel from waiting to another state. Gives the receiver that is to be woken. -/
def settle (s : ScriptState) (channel : Option Nat) (next : Channel) :
    ScriptState × List Nat :=
  match channel with
  | none => (s, [])
  | some i =>
    match s.channels[i]? with
    | some (.waiting receiver) =>
      ({ s with channels := s.channels.set i next }, Waker.tasks receiver.toList)
    | _ => (s, [])

/-- Takes the value out of a channel, if it is there. -/
def receive (s : ScriptState) (channel : Nat) : Option Int × ScriptState :=
  match s.channels[channel]? with
  | some (.sent value) => (some value, { s with channels := s.channels.set channel .closed })
  | _ => (none, s)

end ScriptState

/-- What a scripted task is waiting for. -/
inductive TaskWait (τ : Type) where
  | nothing
  | turn
  /-- A sleep, the line that is logged at its end, and the line for a second wait. -/
  | sleep (s : Sleep τ) (report : String) (again : Option String)
  | interruptibleSleep (s : Sleep τ)
  | signal
  | forever
  | join (channel : Nat)
  deriving Repr

/-- A task that carries out actions. -/
structure ScriptedTask (τ : Type) where
  name : String
  actions : List (TaskAction τ)
  /-- The channel for the result, if anyone can take it. -/
  channel : Option Nat := none
  /-- The task has been polled. -/
  started : Bool := false
  wait : TaskWait τ := .nothing
  deriving Repr

namespace ScriptedTask

variable {τ : Type} [Zero τ] [Add τ] [LT τ] [DecidableLT τ]

/-- Adds a line that begins with the name of a task to the log. -/
def write (k : Shared τ ScriptState) (name line : String) : Shared τ ScriptState :=
  { k with state := k.state.write (name ++ " " ++ line) }

/-- Looks at what the task `name` in slot `id` waits for. Gives what it waits for still, nothing if
the wait is over. -/
def look (id : Nat) (name : String) (wait : TaskWait τ) (k : Shared τ ScriptState) :
    Option (TaskWait τ) × Shared τ ScriptState :=
  match wait with
  | .nothing => (none, k)
  | .turn => (none, k)
  | .forever => (some .forever, k)
  | .sleep s report again =>
    match s.poll k.timers (.task id) with
    | (false, s, timers) => (some (.sleep s report again), { k with timers })
    | (true, s, timers) =>
      let k := write { k with timers } name report
      match again with
      | none => (none, k)
      | some report =>
        let (_, s, timers) := s.poll k.timers (.task id)
        (some (.sleep s report none), { k with timers })
  | .interruptibleSleep s =>
    match s.poll k.timers (.task id) with
    | (true, _, timers) => (none, write { k with timers } name "isleep done")
    | (false, s, timers) =>
      let (flag, raised) := k.state.flag.look (.task id)
      let k := { timers, state := { k.state with flag } }
      if raised then
        (none, write { k with timers := s.drop k.timers } name "isleep interrupted")
      else (some (.interruptibleSleep s), k)
  | .signal =>
    let (flag, raised) := k.state.flag.look (.task id)
    let k := { k with state := { k.state with flag } }
    if raised then (none, write k name "signalled") else (some .signal, k)
  | .join channel =>
    match k.state.channels[channel]? with
    | some (.waiting _) =>
      let channels := k.state.channels.set channel (.waiting (some (.task id)))
      (some (.join channel), { k with state := { k.state with channels } })
    | some (.sent value) =>
      let (_, state) := k.state.receive channel
      (none, write { k with state } name ("joined " ++ Text.showInt value))
    | _ => (none, write k name "join lost")

/-- The result is given and the task ends. -/
def complete (task : ScriptedTask τ) (value : Int) (k : Shared τ ScriptState) (woken : List Nat) :
    Polled (ScriptedTask τ) (Shared τ ScriptState) :=
  let k := write k task.name "end"
  let (state, receivers) := k.state.settle task.channel (.sent value)
  { next := none, state := { k with state }, woken := woken ++ receivers }

/-- Logs how many timers are pending. -/
def writePending (k : Shared τ ScriptState) (name : String) : Shared τ ScriptState :=
  write k name ("pending " ++ toString k.timers.pendingCount)

/-- Carries out actions until the task has to wait or ends. `woken` holds the tasks woken so far. -/
def act (id : Nat) (task : ScriptedTask τ) : List (TaskAction τ) → Shared τ ScriptState →
    List Nat → Polled (ScriptedTask τ) (Shared τ ScriptState)
  | [], k, woken => task.complete 0 k woken
  | action :: rest, k, woken =>
    let await (wait : TaskWait τ) (k : Shared τ ScriptState) :
        Polled (ScriptedTask τ) (Shared τ ScriptState) :=
      match look id task.name wait k with
      | (none, k) => act id task rest k woken
      | (some wait, k) =>
        { next := some { task with actions := rest, started := true, wait }, state := k, woken }
    match action with
    | .log line => act id task rest (write k task.name line) woken
    | .giveWay =>
      { next := some { task with actions := rest, started := true, wait := .turn }
        state := k
        woken := woken ++ [id] }
    | .sleep delay => await (.sleep { delay } "slept" none) k
    | .sleepTwice delay => await (.sleep { delay } "slept once" (some "slept twice")) k
    | .dropSleep delay =>
      let (_, s, timers) := ({ delay } : Sleep τ).poll k.timers .idle
      let k := writePending { k with timers } task.name
      let k := writePending { k with timers := s.drop k.timers } task.name
      act id task rest k woken
    | .resumeSleep delay =>
      let (_, s, timers) := ({ delay } : Sleep τ).poll k.timers .idle
      await (.sleep s "resumed" none) { k with timers }
    | .interruptibleSleep delay => await (.interruptibleSleep { delay }) k
    | .interruptibleReady => act id task rest (write k task.name "iready done") woken
    | .waitSignal => await .signal k
    | .raise =>
      let (flag, waiter) := k.state.flag.raise
      let k := { k with state := { k.state with flag } }
      act id task rest k (woken ++ Waker.tasks waiter.toList)
    | .take =>
      let (flag, raised) := k.state.flag.take
      let k := { k with state := { k.state with flag } }
      act id task rest (write k task.name (if raised then "take true" else "take false")) woken
    | .pend => await .forever k
    | .join handle =>
      match k.state.takeHandle handle with
      | (none, state) => act id task rest (write { k with state } task.name "join nothing") woken
      | (some channel, state) => await (.join channel) { k with state }
    | .finish value => task.complete value k woken

/-- Polls a task. -/
def poll (id : Nat) (task : ScriptedTask τ) (k : Shared τ ScriptState) :
    Polled (ScriptedTask τ) (Shared τ ScriptState) :=
  match look id task.name task.wait k with
  | (none, k) => act id task task.actions k []
  | (some wait, k) => { next := some { task with started := true, wait }, state := k }

/-- Drops a task: what it waits for is given up, the drop is logged if the task has been polled, and
whoever waits for its result is told that there is none. -/
def drop (task : ScriptedTask τ) (k : Shared τ ScriptState) : Shared τ ScriptState × List Nat :=
  let k :=
    match task.wait with
    | .sleep s _ _ => { k with timers := s.drop k.timers }
    | .interruptibleSleep s => { k with timers := s.drop k.timers }
    | .join channel =>
      { k with state := { k.state with channels := k.state.channels.set channel .closed } }
    | _ => k
  let k := if task.started then write k task.name "dropped" else k
  let (state, woken) := k.state.settle task.channel .closed
  ({ k with state }, woken)

/-- What scripted tasks do. -/
def behavior : Behavior (ScriptedTask τ) (Shared τ ScriptState) where
  poll := poll
  drop := drop

end ScriptedTask

end MountShell
