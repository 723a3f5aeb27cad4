import MountShell.Task.Pool
import MountShell.Timer.Queue

/-!
# A pool with timers and a clock

Tasks together with timers and a clock that is moved by hand. A tick fires the timers that are due
and then polls the tasks that are ready. `TimedPool.blockOn` ticks until a task has given its
result, and moves the clock to the next deadline whenever nothing is ready; with nothing to wait for
it gives up and drops the task.

Loops that need not end take the number of ticks that they may use.
-/

namespace MountShell

/-- What a timer wakes. -/
inductive Waker where
  /-- A task by its number. -/
  | task (id : Nat)
  /-- Nothing. -/
  | idle
  deriving DecidableEq, Repr

/-- The tasks that a list of wakers wakes. -/
def Waker.tasks (wakers : List Waker) : List Nat :=
  wakers.filterMap fun w =>
    match w with
    | task id => some id
    | idle => none

/-- What all tasks share: the timers and a state of their own. -/
structure Shared (τ σ : Type) where
  timers : TimerQueue τ Waker
  state : σ

/-- Tasks, timers and a clock. -/
structure TimedPool (τ α σ : Type) where
  pool : TaskPool α
  shared : Shared τ σ
  clock : τ

/-- How waiting for a task ends. -/
inductive Blocked (β : Type) where
  /-- The task gave its result. -/
  | value (result : β)
  /-- Nothing is ready and no timer is pending, so that the task was dropped. -/
  | stalled
  /-- The ticks were used up. -/
  | unfinished
  deriving DecidableEq, Repr

namespace TimedPool

variable {τ α σ β : Type} [Zero τ] [Add τ] [LT τ] [DecidableLT τ]

/-- A pool without tasks, at time zero. -/
def new (state : σ) : TimedPool τ α σ where
  pool := {}
  shared := { timers := TimerQueue.empty, state }
  clock := 0

/-- Adds a task, and gives its number. -/
def spawn (p : TimedPool τ α σ) (task : α) : Nat × TimedPool τ α σ :=
  let (id, pool) := p.pool.spawn task
  (id, { p with pool })

/-- Drops a task, and tells whether there was one. -/
def cancel (b : Behavior α (Shared τ σ)) (p : TimedPool τ α σ) (id : Nat) :
    Bool × TimedPool τ α σ :=
  let (found, pool, shared) := p.pool.cancel b p.shared id
  (found, { p with pool, shared })

/-- Drops all tasks. -/
def clear (b : Behavior α (Shared τ σ)) (p : TimedPool τ α σ) : TimedPool τ α σ :=
  (List.range p.pool.slots.length).foldl (fun p id => (p.cancel b id).2) p

/-- Moves the clock forward by an amount. -/
def advance (p : TimedPool τ α σ) (amount : τ) : TimedPool τ α σ :=
  { p with clock := p.clock + amount }

/-- Moves the clock to a deadline that lies ahead, and tells whether there is a deadline. -/
def waitUntil (p : TimedPool τ α σ) : Option τ → Bool × TimedPool τ α σ
  | none => (false, p)
  | some deadline => (true, if p.clock < deadline then { p with clock := deadline } else p)

/-- Fires the timers that are due, and gives how many wakers they had. -/
def wakeTimers (p : TimedPool τ α σ) (now : τ) : Nat × TimedPool τ α σ :=
  let (wakers, timers) := p.shared.timers.tick now
  (wakers.length,
    { p with
      pool := p.pool.wakeAll (Waker.tasks wakers)
      shared := { p.shared with timers } })

/-- Fires the timers that are due by the clock, and polls the tasks that are ready. Gives the number
of tasks that were polled. -/
def tick (b : Behavior α (Shared τ σ)) (p : TimedPool τ α σ) : Nat × TimedPool τ α σ :=
  let (_, p) := p.wakeTimers p.clock
  let (n, pool, shared) := p.pool.tick b p.shared
  (n, { p with pool, shared })

/-- Ticks until nothing is ready, and tells whether that was reached. The clock does not move. -/
def settle (b : Behavior α (Shared τ σ)) : Nat → TimedPool τ α σ → Bool × TimedPool τ α σ
  | 0, p => (false, p)
  | n + 1, p =>
    let (_, p) := p.tick b
    if p.pool.hasReady then settle b n p else (true, p)

/-- Ticks until the result of a task can be taken from the shared state, moving the clock to the
next deadline when nothing is ready. -/
def waitFor (b : Behavior α (Shared τ σ)) (id : Nat) (take : σ → Option β × σ) :
    Nat → TimedPool τ α σ → Blocked β × TimedPool τ α σ
  | 0, p => (.unfinished, p)
  | n + 1, p =>
    let (_, p) := p.tick b
    match take p.shared.state with
    | (some result, state) => (.value result, { p with shared := { p.shared with state } })
    | (none, _) =>
      if p.pool.hasReady then waitFor b id take n p
      else
        match p.waitUntil p.shared.timers.nextDeadline with
        | (true, p) => waitFor b id take n p
        | (false, p) => (.stalled, (p.cancel b id).2)

/-- Adds a task and waits for its result. -/
def blockOn (b : Behavior α (Shared τ σ)) (task : α) (take : σ → Option β × σ) (ticks : Nat)
    (p : TimedPool τ α σ) : Blocked β × TimedPool τ α σ :=
  let (id, p) := p.spawn task
  waitFor b id take ticks p

end TimedPool

end MountShell
