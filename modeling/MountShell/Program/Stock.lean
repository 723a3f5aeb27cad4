import MountShell.Program.Script

/-!
# Stock programs

The programs that every shell has, and the tree that holds them (`Stock.tree`): everyday commands in
`/bin` and `/usr/bin`, a message of the day, and directories for scratch files.

Programs that can run for a while are computations (`Computation`), so that they can be cancelled
between their steps.
-/

namespace MountShell

/-- What goes on after a program has been started. -/
inductive Computation where
  /-- Writes a word for ever. -/
  | yes (word : String)
  /-- Waits for a delay. -/
  | sleep (delay : Millis)
  /-- The delay is over. -/
  | slept
  /-- Writes whole numbers up to the last one. -/
  | seq (next last : Int)
  /-- Reads keys up to the first `Enter`; holds what the last reading gave. -/
  | pager (answer : Option KeyAnswer)
  | script (run : ScriptRun)

namespace Stock

open Routine

/-- The name and the version that the shell goes by. -/
def systemName : String := "vsh"

/-- The version of the shell. -/
def version : String := "0.1.0"

/-- The architecture that the shell reports. -/
def architecture : String := "x86_64"

/-- The message of the day. -/
def motd : String := "Welcome to vsh!"

/-- A routine that ends with an exit code. -/
abbrev Run := Routine (Outcome Computation)

/-- Reports what is wrong and ends with code 1. -/
def fail (report : String) : Run := do
  writeErrorLine report
  return .exit 1

/-- Writes lines that tell what can be done. -/
def help : Run := do
  writeLines [
    "I am here to help. Type commands to interact with the shell.",
    "The most important ones are:",
    "",
    "- ls: list all files",
    "- cat <file>: show the content of a file, e.g. try 'cat /etc/motd'",
    "- cd <dir>: change the working directory, e.g. try 'cd /etc' and then 'cat motd'",
    "- fortune: like a fortune cookie, but only the message",
    "",
    "There are many more commands. Press Tab to get a list of all of them."]
  return .exit 0

/-- Writes the arguments, separated by blanks. -/
def echo (args : List String) : Run := do
  writeLine (" ".intercalate args)
  return .exit 0

/-- The text of a file, or a report of what is wrong. -/
def readFile (path : String) : Routine (Except String String) := do
  match ← request (.getPath path) with
  | .error (.pathNotFound _) => return .error (path ++ ": No such file or directory")
  | .error e => return .error (path ++ ": " ++ e.message)
  | .ok entry =>
    if entry.isDirectory then return .error (path ++ ": Is a directory")
    else
      match ← request (.readEntry entry) with
      | .ok text => return .ok text
      | .error e => return .error (path ++ ": " ++ (ShellError.ofFsError e).message)

/-- Writes files one after the other. Ends with code 1 if one of them cannot be read. -/
def catFiles : List String → Int → Run
  | [], code => return .exit code
  | path :: rest, code => do
    match ← readFile path with
    | .ok text =>
      writeLine text
      catFiles rest code
    | .error report =>
      writeErrorLine ("cat: " ++ report)
      catFiles rest 1

/-- Writes files, or all input. -/
def cat : List String → Run
  | [] => do
    match ← request .readAll with
    | .ok text =>
      writeLine text
      return .exit 0
    | .error e => fail ("cat: " ++ e.message)
  | paths => catFiles paths 0

/-- Changes the working directory, to the home directory unless another is named. -/
def cd (args : List String) : Run := do
  let target ←
    match args with
    | [] => getenvOr "HOME" "/"
    | target :: _ => pure target
  match ← request (.getPath target) with
  | .ok entry =>
    if entry.isDirectory then
      request (.setenv "PWD" entry.path)
      return .nothing
    else fail ("cd: not a directory " ++ target)
  | .error _ => fail ("cd: No such file or directory: " ++ target)

/-- Lists a directory, or names a file. -/
def ls (args : List String) : Run := do
  let target := args.headD "."
  match ← request (.getPath target) with
  | .ok entry =>
    writeLine (if entry.isDirectory then " ".intercalate entry.children else entry.name)
    return .exit 0
  | .error _ => fail ("ls: No such file or directory: " ++ target)

/-- Writes all variables. -/
def env : Run := do
  writeLine (← request .listing)
  return .exit 0

/-- Writes the working directory. -/
def pwd : Run := do
  writeLine (← request .cwd)
  return .exit 0

/-- Writes the name of the user. -/
def whoami : Run := do
  writeLine (← getenvOr "USER" "")
  return .exit 0

/-- Writes the arguments for ever. -/
def yes (args : List String) : Run :=
  return .suspend (.yes (if args.isEmpty then "y" else " ".intercalate args))

/-- The milliseconds of a number of seconds, if it is one that can be waited for. -/
def delayOf (seconds : String) : Option Millis :=
  match Text.readFloat seconds with
  | some s => if s.isFinite && 0 ≤ s then some (.real (s * 1000)) else none
  | none => none

/-- Waits for some seconds. -/
def sleep (args : List String) : Run :=
  match args.head?.bind delayOf with
  | some delay => return .suspend (.sleep delay)
  | none => fail "sleep: invalid time interval"

/-- Writes all input with references replaced. -/
def envsubst : Run := do
  match ← request .readAll with
  | .ok text =>
    writeLine (← request (.substitute text))
    return .exit 0
  | .error e => fail ("envsubst: " ++ e.message)

/-- The bits of the numbers that are counted with. -/
def countBits : Nat := 64

/-- The largest number that is counted to. -/
def maxCount : Int := Int.ofNat (Nat.pow 2 (countBits - 1)) - 1

/-- Writes the whole numbers from the first to the last one, from 1 if only the last is given. -/
def seq (args : List String) : Run :=
  match args.mapM (Text.readInt countBits) with
  | some [last] => return .suspend (.seq 1 last)
  | some [first, last] => return .suspend (.seq first last)
  | _ => fail "usage: seq [FIRST] LAST"

/-- Becomes the superuser. -/
def su : Run := do
  writeLine "¯\\_(ツ)_/¯"
  request (.setenv "USER" "root")
  return .nothing

/-- Writes what system this is. -/
def uname : Run := do
  let host ← getenvOr "HOSTNAME" "localhost"
  writeLine (" ".intercalate [systemName, host, version, architecture])
  return .nothing

/-- Lists the mounts. -/
def mount : Run := do
  writeLines (← request .mountLines)
  return .exit 0

/-- Sets or clears the flags of nodes one after the other. Ends with code 1 if that fails for one.
-/
def chmodAll (mode : String) : List String → Int → Run
  | [], code => return .exit code
  | path :: rest, code => do
    if ← request (.chmod path mode) then chmodAll mode rest code
    else
      writeErrorLine ("chmod: cannot change " ++ path)
      chmodAll mode rest 1

/-- Sets or clears the flags of nodes. -/
def chmod : List String → Run
  | mode :: path :: paths =>
    if mode = "+w" ∨ mode = "-w" then chmodAll mode (path :: paths) 0
    else fail "usage: chmod +w|-w PATH..."
  | _ => fail "usage: chmod +w|-w PATH..."

/-- Writes the date. -/
def date : Run := do
  writeLine (← request .today)
  return .exit 0

/-- Creates those files that are missing. Ends with code 1 if that fails for one. -/
def touch : List String → Int → Run
  | [], code => return .exit code
  | path :: rest, code => do
    match ← request (.getPath path) with
    | .ok _ => touch rest code
    | .error _ =>
      match ← request (.createFile path) with
      | .ok _ => touch rest code
      | .error _ =>
        writeErrorLine ("touch: " ++ path ++ ": Permission denied")
        touch rest 1

/-- Shows a file until a key ends it. -/
def less : List String → Run
  | [] => fail "less: missing file operand"
  | path :: _ => do
    match ← readFile path with
    | .error report => fail ("less: " ++ report)
    | .ok text =>
      request .clear
      writeLines [text, "", " === Press Enter to Finish === "]
      return .suspend (.pager none)

/-- The sayings to choose from. -/
def sayings : List String := [
  "Darmok and Jalad at Tanagra.",
  "Shaka, when the walls fell.",
  "Temba, his arms wide!",
  "Resistance is futile.",
  "Live long and prosper.",
  "I believe in coincidences. Coincidences happen every day. But I don't trust coincidences.",
  "The truth is usually just an excuse for lack of imagination.",
  "A friend is a present you give yourself.",
  "A smile is your personal welcome mat.",
  "All the effort you are making will ultimately pay off.",
  "An inch of time is an inch of gold.",
  "Curiosity kills boredom. Nothing can kill curiosity.",
  "Don't just think, act!",
  "Every flower blooms in its own sweet time.",
  "Fortune Not Found: Abort, Retry, Ignore?",
  "Have a beautiful day.",
  "Now is the time to try something new.",
  "Practice makes perfect.",
  "There's no such thing as an ordinary cat."]

/-- Writes one of the sayings. -/
def fortune : Run := do
  let n ← request .draw
  writeLine (sayings.getD (n.val % sayings.length) "")
  return .exit 0

/-- The stock program of a name. -/
def program? (name : String) (args : List String) : Option Run :=
  match name with
  | "help" => some help
  | "echo" => some (echo args)
  | "cat" => some (cat args)
  | "cd" => some (cd args)
  | "ls" => some (ls args)
  | "env" => some env
  | "pwd" => some pwd
  | "whoami" => some whoami
  | "yes" => some (yes args)
  | "sleep" => some (sleep args)
  | "envsubst" => some envsubst
  | "seq" => some (seq args)
  | "su" => some su
  | "uname" => some uname
  | "mount" => some mount
  | "chmod" => some (chmod args)
  | "date" => some date
  | "touch" => some (touch args 0)
  | "less" => some (less args)
  | "fortune" => some fortune
  | _ => none

/-- The names of the programs in `/bin`. -/
def binNames : List String :=
  ["help", "echo", "cat", "cd", "ls", "env", "pwd", "whoami", "yes", "sleep", "envsubst", "seq",
    "su", "uname", "mount", "chmod"]

/-- The names of the programs in `/usr/bin`. -/
def usrBinNames : List String := ["date", "touch", "less", "fortune"]

/-- A directory of programs. -/
def programDir (names : List String) : Node :=
  .dir (names.map fun name => (name, .program name))

/-- The tree that is mounted at the root unless another is configured. -/
def tree : Node :=
  .dir [
    ("bin", programDir binNames),
    ("usr", .dir [("bin", programDir usrBinNames)]),
    ("etc", .dir [("motd", .text motd)]),
    ("home", .dir []),
    ("tmp", .dir [] true),
    ("var", .dir [] true)]

/-- The outcome of a scripted program as one of a program of any kind. -/
def liftOutcome : Outcome ScriptRun → Outcome Computation
  | .exit code => .exit code
  | .nothing => .nothing
  | .suspend run => .suspend (.script run)

/-- The step of a scripted computation as one of a computation of any kind. -/
def liftStep : Step ScriptRun Millis → Step Computation Millis
  | .again run => .again (.script run)
  | .sleep delay run => .sleep delay (.script run)
  | .key next => .key fun answer => .script (next answer)
  | .done code => .done code

/-- Takes a step of a computation. -/
def step : Computation → Routine (Step Computation Millis)
  | .yes word => do
    writeLine word
    return .again (.yes word)
  | .sleep delay => return .sleep delay .slept
  | .slept => return .done (some 0)
  | .seq next last =>
    if last < next then return .done (some 0)
    else do
      writeLine (Text.showInt next)
      if next = maxCount then return .done (some 0) else return .again (.seq (next + 1) last)
  | .pager (some .ended) => return .done (some 0)
  | .pager (some (.key name)) =>
    if name = Host.enter then return .done (some 0)
    else return .key fun answer => .pager (some answer)
  | .pager _ => return .key fun answer => .pager (some answer)
  | .script run => return liftStep (← run.step)

/-- How many steps a computation may take in one poll beside those that read keys at hand. -/
def patience : Computation → Nat
  | .script run => run.steps.length + 1
  | _ => 2

/-- Runs a program: a stock program, or the script of that name. -/
def run (scripts : List (String × ProgramScript)) (name : String) (args : List String) : Run :=
  match program? name args with
  | some routine => routine
  | none =>
    match NameMap.find? name scripts with
    | some script => return liftOutcome (← script.run args)
    | none => return .nothing

/-- The stock programs together with scripted ones. -/
def programs (scripts : List (String × ProgramScript)) : Programs Computation Millis where
  run := run scripts
  step := step
  patience := patience

end Stock

/-- The devices of every host: the stock tree under its name. -/
def Devices.stock : Devices where
  trees := [(baseDevice, Stock.tree)]

end MountShell
