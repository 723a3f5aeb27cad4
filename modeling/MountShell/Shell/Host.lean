import MountShell.Task.TimedPool

/-!
# The host

What a shell sees of the terminal that it runs in: where its lines go, the text on standard input,
and the keys that are pressed. Everything that the host is told is kept in order (`Host.events`).

Keys may also be taken from lines that are typed ahead; such a line gives its characters one by one
and then the key `Enter`.
-/

namespace MountShell

/-- Something the host is told. -/
inductive HostEvent where
  | line (text : String)
  | errorLine (text : String)
  | clear
  deriving DecidableEq, Repr

/-- Where the text on standard input comes from. -/
inductive StandardInput where
  /-- A text that can be read again and again. -/
  | fixed (text : String)
  /-- Lines that are typed ahead and can be read once. -/
  | lines (rest : List String)
  deriving Repr

/-- The answer to a wait for a key. -/
inductive KeyAnswer where
  | key (name : String)
  /-- There will be no more keys. -/
  | ended
  /-- The shell was signalled first. -/
  | interrupted
  deriving DecidableEq, Repr

/-- The terminal. -/
structure Host where
  events : Array HostEvent := #[]
  input : StandardInput := .fixed ""
  /-- Keys that have been pressed and not been read. -/
  keys : List String := []
  /-- After the keys at hand there are no more. -/
  ended : Bool := false
  /-- Who is to be woken by the next key. -/
  keyWaiter : Option Waker := none
  columns : Nat := 80
  rows : Nat := 24

namespace Host

/-- The key that ends a line. -/
def enter : String := "Enter"

/-- Tells the host something. -/
def tell (h : Host) (event : HostEvent) : Host :=
  { h with events := h.events.push event }

/-- Takes what the host has been told so far. -/
def takeEvents (h : Host) : List HostEvent × Host :=
  (h.events.toList, { h with events := #[] })

/-- Reads all of standard input. -/
def readAll (h : Host) : String × Host :=
  match h.input with
  | .fixed text => (text, h)
  | .lines rest => ("\n".intercalate rest, { h with input := .lines [] })

/-- The keys that a line gives. -/
def lineKeys (line : String) : List String :=
  line.toList.map String.singleton ++ [enter]

/-- The host with the next line broken into keys, if no key is at hand. -/
def refill (h : Host) : Host :=
  match h.keys, h.input with
  | [], .lines (line :: rest) => { h with keys := lineKeys line, input := .lines rest }
  | _, _ => h

/-- Takes a key, or remembers who waits for one; nothing is given as long as there is no answer. -/
def nextKey (h : Host) (waiter : Waker) : Option KeyAnswer × Host :=
  let h := h.refill
  match h.keys with
  | key :: keys => (some (.key key), { h with keys })
  | [] =>
    if h.ended then (some .ended, h) else (none, { h with keyWaiter := some waiter })

/-- The number of keys that can be read without waiting. -/
def keysAhead (h : Host) : Nat :=
  h.keys.length +
    match h.input with
    | .fixed _ => 0
    | .lines rest => rest.foldr (fun line n => line.length + 1 + n) 0

/-- Wakes who waits for a key. -/
def wakeKey (h : Host) : Host × List Nat :=
  ({ h with keyWaiter := none }, Waker.tasks h.keyWaiter.toList)

/-- Presses keys. -/
def press (h : Host) (keys : List String) : Host × List Nat :=
  { h with keys := h.keys ++ keys }.wakeKey

/-- Types a line ahead. -/
def typeLine (h : Host) (line : String) : Host × List Nat :=
  let input : StandardInput :=
    match h.input with
    | .fixed _ => .lines [line]
    | .lines rest => .lines (rest ++ [line])
  { h with input }.wakeKey

/-- Takes the next of the lines typed ahead. -/
def takeLine (h : Host) : Option String × Host :=
  match h.input with
  | .lines (line :: rest) => (some line, { h with input := .lines rest })
  | _ => (none, h)

/-- Ends the input, or opens it again. -/
def setEnded (h : Host) (ended : Bool) : Host × List Nat :=
  { h with ended }.wakeKey

end Host

end MountShell
