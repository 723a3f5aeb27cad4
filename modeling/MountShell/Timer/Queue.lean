import MountShell.Timer.Heap

/-!
# Timers

A queue of timers that fire when the time reaches their deadlines. The time of the queue moves only
when it is told to (`TimerQueue.tick`), and a deadline counts from the time of the queue at the
moment the timer is scheduled. A timer that fires gives up its waker; it is remembered until
somebody has seen that it fired. A timer that is cancelled is forgotten at the next tick.

Times are of any ordered type with a zero and an addition, and wakers of any type.
-/

namespace MountShell

/-- What has become of a timer. -/
inductive TimerState where
  | pending
  | fired
  | cancelled
  deriving DecidableEq, Repr

/-- A timer that fires once. -/
structure Timer (τ ω : Type) where
  id : Nat
  deadline : τ
  /-- What to wake when it fires. -/
  waker : Option ω
  state : TimerState
  deriving Repr

/-- The place of a timer in the order of the deadlines. -/
structure Due (τ : Type) where
  deadline : τ
  id : Nat
  deriving Repr

/-- All timers that are not forgotten. -/
structure TimerQueue (τ ω : Type) where
  /-- The order of the deadlines, in which timers stay until their deadline. -/
  due : Array (Due τ)
  timers : List (Timer τ ω)
  nextId : Nat
  /-- The time as of the last tick. -/
  now : τ
  deriving Repr

namespace TimerQueue

variable {τ ω : Type} [Zero τ] [Add τ] [LT τ] [DecidableLT τ]

/-- A queue without timers, at time zero. -/
def empty : TimerQueue τ ω where
  due := #[]
  timers := []
  nextId := 0
  now := 0

/-- Is one deadline before the other? -/
def isBefore (a b : Due τ) : Bool := decide (a.deadline < b.deadline)

/-- The timer with the given number. -/
def find? (q : TimerQueue τ ω) (id : Nat) : Option (Timer τ ω) :=
  q.timers.find? fun t => t.id = id

/-- The queue with a timer changed. -/
def modify (q : TimerQueue τ ω) (id : Nat) (f : Timer τ ω → Timer τ ω) : TimerQueue τ ω :=
  { q with timers := q.timers.map fun t => if t.id = id then f t else t }

/-- Is the timer waiting for its deadline? -/
def isPending (q : TimerQueue τ ω) (id : Nat) : Bool :=
  match q.find? id with
  | some t => t.state = .pending
  | none => false

/-- Adds a timer that fires after a delay; a delay below zero counts as zero. Gives its number. -/
def schedule (q : TimerQueue τ ω) (delay : τ) (waker : Option ω) : Nat × TimerQueue τ ω :=
  let id := q.nextId
  let deadline := q.now + if 0 < delay then delay else 0
  (id,
    { q with
      due := Heap.push isBefore q.due { deadline, id }
      timers := q.timers ++ [{ id, deadline, waker, state := .pending }]
      nextId := id + 1 })

/-- Replaces the waker of a timer that is pending. -/
def setWaker (q : TimerQueue τ ω) (id : Nat) (waker : ω) : TimerQueue τ ω :=
  q.modify id fun t => if t.state = .pending then { t with waker := some waker } else t

/-- Cancels a timer, and tells whether it was pending. -/
def cancel (q : TimerQueue τ ω) (id : Nat) : Bool × TimerQueue τ ω :=
  if q.isPending id then
    (true, q.modify id fun t => { t with state := .cancelled, waker := none })
  else (false, q)

/-- Fires a timer if it is pending, and gives up its waker. -/
def fire (q : TimerQueue τ ω) (id : Nat) : Option ω × TimerQueue τ ω :=
  match q.find? id with
  | some t =>
    if t.state = .pending then
      (t.waker, q.modify id fun t => { t with state := .fired, waker := none })
    else (none, q)
  | none => (none, q)

/-- Fires the timers whose deadlines are reached, at most the given number, and gives the wakers in
the order of the deadlines. -/
def fireDue (q : TimerQueue τ ω) : Nat → List ω × TimerQueue τ ω
  | 0 => ([], q)
  | n + 1 =>
    match Heap.pop isBefore q.due with
    | none => ([], q)
    | some (first, rest) =>
      if q.now < first.deadline then ([], q)
      else
        let (waker, q) := { q with due := rest }.fire first.id
        let (wakers, q) := q.fireDue n
        (waker.toList ++ wakers, q)

/-- Moves the time forward to `now`, fires what is due and forgets what is cancelled. Gives what is
to be woken. A time that has passed already moves nothing. -/
def tick (q : TimerQueue τ ω) (now : τ) : List ω × TimerQueue τ ω :=
  let q := { q with now := if q.now < now then now else q.now }
  let (wakers, q) := q.fireDue q.due.size
  (wakers, { q with timers := q.timers.filter fun t => t.state ≠ .cancelled })

/-- Tells whether a timer has fired, and forgets it if so. -/
def takeFired (q : TimerQueue τ ω) (id : Nat) : Bool × TimerQueue τ ω :=
  match q.find? id with
  | some t =>
    if t.state = .fired then (true, { q with timers := q.timers.filter fun t => t.id ≠ id })
    else (false, q)
  | none => (false, q)

/-- The timers that wait for their deadlines. -/
def pending (q : TimerQueue τ ω) : List (Timer τ ω) :=
  q.timers.filter fun t => t.state = .pending

/-- The number of timers that wait for their deadlines. -/
def pendingCount (q : TimerQueue τ ω) : Nat :=
  q.pending.length

/-- The earliest deadline that is waited for. -/
def nextDeadline (q : TimerQueue τ ω) : Option τ :=
  q.pending.foldl (fun best t =>
    match best with
    | some d => if t.deadline < d then some t.deadline else some d
    | none => some t.deadline) none

end TimerQueue

/-- A wait for a delay, which begins when it is looked at for the first time. -/
structure Sleep (τ : Type) where
  delay : τ
  /-- The timer of a wait that has begun. -/
  timer : Option Nat := none
  deriving Repr

namespace Sleep

variable {τ ω : Type} [Zero τ] [Add τ] [LT τ] [DecidableLT τ]

/-- Looks whether the wait is over, on behalf of a waker. The first look begins the wait. A wait
that is over can be begun again, without any delay. -/
def poll (s : Sleep τ) (q : TimerQueue τ ω) (waker : ω) : Bool × Sleep τ × TimerQueue τ ω :=
  match s.timer with
  | none =>
    let (id, q) := q.schedule s.delay (some waker)
    (false, { s with timer := some id }, q)
  | some id =>
    match q.takeFired id with
    | (true, q) => (true, { delay := 0, timer := none }, q)
    | (false, q) => (false, s, q.setWaker id waker)

/-- Gives the wait up. -/
def drop (s : Sleep τ) (q : TimerQueue τ ω) : TimerQueue τ ω :=
  match s.timer with
  | none => q
  | some id =>
    match q.cancel id with
    | (true, q) => q
    | (false, q) => (q.takeFired id).2

end Sleep

end MountShell
