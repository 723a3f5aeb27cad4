import MountShell.Config
import MountShell.FileSystem.Basic
import MountShell.Line.Command
import MountShell.Shell.Host
import MountShell.Signal

/-!
# The shell

The state of a shell: variables, filesystem, host, and where it stands with the command that is
running. What only looks something up is defined here as well: paths relative to the working
directory, the commands that can be found, the prompt, and the completions of a line.
-/

namespace MountShell

/-- Where the shell stands with a command. -/
inductive Phase where
  /-- No command has been accepted. -/
  | idle
  /-- The command has still to be found. -/
  | resolving
  /-- The redirections are being opened. -/
  | buildingIo
  | running
  deriving DecidableEq, Repr

/-- A shell. -/
structure Shell where
  env : Environment := {}
  fs : FileSystem
  host : Host := {}
  phase : Phase := .idle
  /-- Raising it cancels the running command. -/
  flag : SignalFlag Waker := {}
  /-- The exit code, once the shell has been asked to exit. -/
  exitRequest : Option Int := none
  /-- The command to run first. -/
  motd : Option String := none
  draws : Draws
  /-- The date as it is shown. -/
  today : String := ""

/-- The commands that belong to the shell itself. -/
inductive Builtin where
  | clear
  | exit
  deriving DecidableEq, Repr

/-- What a command name stands for. -/
inductive Command where
  | builtin (b : Builtin)
  | program (name : String)
  deriving DecidableEq, Repr

/-- The commands of the shell by name. -/
def Builtin.table : List (String × Command) :=
  [("clear", .builtin .clear), ("exit", .builtin .exit)]

namespace Shell

/-- The shell that a configuration describes, with its mounts made in the filesystem `fs`. -/
def ofConfig (config : Config) (devices : Devices) (fs : FileSystem) (host : Host) (draws : Draws)
    (today : String) : Shell where
  env := config.environment
  fs := fs.remount config.fstab devices
  host := host
  motd := config.motd
  draws := draws
  today := today

/-! ### Variables -/

/-- The value of a variable. -/
def getenv (sh : Shell) (name : String) : Option String × Shell :=
  let (value, draws) := sh.env.get name sh.draws
  (value, { sh with draws })

/-- Stores a variable. -/
def setenv (sh : Shell) (name value : String) : Shell :=
  { sh with env := sh.env.set name value }

/-- The text with its references replaced. -/
def substitute (sh : Shell) (text : String) : String × Shell :=
  let (value, draws) := MountShell.substitute sh.env [] text sh.draws
  (value, { sh with draws })

/-- The bits of an exit code. -/
def codeBits : Nat := 32

/-- The exit code of the last command; a status that is no code counts as zero. -/
def lastStatus (sh : Shell) : Int :=
  ((sh.env.stored statusName).bind (Text.readInt codeBits)).getD 0

/-- The working directory. -/
def cwd (sh : Shell) : String :=
  (sh.env.stored "PWD").getD "/"

/-! ### Paths -/

/-- The absolute path that a text stands for in the working directory. -/
def resolvePath (sh : Shell) (path : String) : String :=
  Path.resolveFrom sh.cwd path

/-- What is shown of the node at a path. -/
def getPath (sh : Shell) (path : String) : Except ShellError Entry × Shell :=
  match sh.fs.get (sh.resolvePath path) with
  | (.ok entry, fs) => (.ok entry, { sh with fs })
  | (.error e, fs) => (.error (.ofFsError e), { sh with fs })

/-- Creates an empty file. -/
def createFile (sh : Shell) (path : String) : Except ShellError Unit × Shell :=
  match sh.fs.create (sh.resolvePath path) with
  | (.ok _, fs) => (.ok (), { sh with fs })
  | (.error e, fs) => (.error (.ofFsError e), { sh with fs })

/-- Sets or clears the flag of a node. -/
def chmod (sh : Shell) (path mode : String) : Bool × Shell :=
  let (done, fs) := sh.fs.chmod (sh.resolvePath path) mode
  (done, { sh with fs })

/-- Opens a file. -/
def openFile (sh : Shell) (path : String) (mode : OpenMode) : OpenFile × Shell :=
  let (file, fs) := sh.fs.openFile (sh.resolvePath path) mode
  (file, { sh with fs })

/-- The text of an entry's file. -/
def readEntry (sh : Shell) (entry : Entry) : Except FsError String × Shell :=
  let (text, outside) := entry.read sh.fs.outside
  (text, { sh with fs := { sh.fs with outside } })

/-! ### Finding commands -/

/-- Adds those names in a directory that stand for programs and do not stand for a command yet. -/
def addPrograms (dir : String) :
    List String → List (String × Command) → FileSystem → List (String × Command) × FileSystem
  | [], found, fs => (found, fs)
  | name :: names, found, fs =>
    if NameMap.contains name found then addPrograms dir names found fs
    else
      match fs.program? (Path.resolveFrom dir name) with
      | (some program, fs) =>
        addPrograms dir names (NameMap.insert name (.program program) found) fs
      | (none, fs) => addPrograms dir names found fs

/-- Adds the programs in the given directories, which count from the working directory. A directory
that cannot be had is passed over. -/
def addDirectories (cwd : String) :
    List String → List (String × Command) → FileSystem → List (String × Command) × FileSystem
  | [], found, fs => (found, fs)
  | dir :: dirs, found, fs =>
    let dir := Path.resolveFrom cwd dir
    match fs.get dir with
    | (.error _, fs) => addDirectories cwd dirs found fs
    | (.ok entry, fs) =>
      let (found, fs) := addPrograms dir entry.children found fs
      addDirectories cwd dirs found fs

/-- The commands that can be called by their bare names, in increasing order of the names: those of
the shell itself, and the programs in the directories of the search path, of which an earlier one
wins. -/
def commands (sh : Shell) : List (String × Command) × Shell :=
  let dirs := (Text.split ':' ((sh.env.stored "PATH").getD "")).filter (· ≠ "")
  let (found, fs) := addDirectories sh.cwd dirs Builtin.table sh.fs
  (found, { sh with fs })

/-- The command that a name stands for: one of the shell itself, one on the search path, or the
program at that path. -/
def resolveCommand (sh : Shell) (name : String) : Option Command × Shell :=
  match NameMap.find? name Builtin.table with
  | some command => (some command, sh)
  | none =>
    let (found, sh) := sh.commands
    match NameMap.find? name found with
    | some command => (some command, sh)
    | none =>
      let (program, fs) := sh.fs.program? (sh.resolvePath name)
      (program.map Command.program, { sh with fs })

/-! ### Signals -/

/-- Asks the shell to exit. -/
def requestExit (sh : Shell) (code : Int) : Shell :=
  { sh with exitRequest := some code }

/-- Raises the flag. Gives the tasks that are to be woken. -/
def raise (sh : Shell) : Shell × List Nat :=
  let (flag, waiter) := sh.flag.raise
  ({ sh with flag }, Waker.tasks waiter.toList)

/-- Lowers the flag, and tells whether it was raised. -/
def takeFlag (sh : Shell) : Bool × Shell :=
  let (flag, raised) := sh.flag.take
  (raised, { sh with flag })

/-- Delivers a signal from the host. An interrupt cancels the command in progress; without one it
asks the shell to exit, and so does a hangup in any case. -/
def trap (sh : Shell) (signal : Signal) : Shell × List Nat :=
  if signal = .interrupt ∧ sh.phase ≠ .idle then sh.raise
  else (sh.requestExit sh.lastStatus, [])

/-! ### Line editing -/

/-- The working directory, with the home directory shown as a tilde. -/
def displayCwd (sh : Shell) : String :=
  let cwd := sh.cwd
  match sh.env.stored "HOME" with
  | none => cwd
  | some home =>
    if cwd = home then "~"
    else if home = "/" then cwd
    else
      match Text.dropHead? (home.toList ++ ['/']) cwd.toList with
      | some rest => "~/" ++ String.ofList rest
      | none => cwd

/-- The text that a letter after a backslash stands for in a prompt. -/
def promptPart (sh : Shell) (c : Char) : String :=
  if c = 'u' then (sh.env.stored "USER").getD ""
  else if c = 'h' then (sh.env.stored "HOSTNAME").getD ""
  else if c = 'w' then sh.displayCwd
  else String.ofList ['\\', c]

/-- A prompt with its escapes replaced. -/
def expandPrompt (sh : Shell) : List Char → String
  | [] => ""
  | ['\\'] => "\\"
  | '\\' :: c :: rest => sh.promptPart c ++ expandPrompt sh rest
  | c :: rest => String.singleton c ++ expandPrompt sh rest

/-- The prompt. -/
def prompt (sh : Shell) : String :=
  match sh.env.stored "PS1" with
  | none => "$ "
  | some ps1 => sh.expandPrompt ps1.toList

/-- The candidates for the last word of a line: command names for the first word, and what is in a
directory for the others. -/
def completions (sh : Shell) (line : String) : List String × Shell :=
  let line := Text.trimStart line
  match Text.splitLast ' ' line with
  | none =>
    let (found, sh) := sh.commands
    ((NameMap.names found).filter fun name => Text.startsWith line name, sh)
  | some (_, word) =>
    let (dir, start) :=
      match Text.splitLast '/' word with
      | some (dir, start) => (dir ++ "/", start)
      | none => ("", word)
    match sh.getPath (if dir = "" then "." else dir) with
    | (.error _, sh) => ([], sh)
    | (.ok entry, sh) =>
      ((entry.children.filter fun name => Text.startsWith start name).map (dir ++ ·), sh)

end Shell

end MountShell
