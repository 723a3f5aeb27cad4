import MountShell.Program.Stock
import MountShell.Terminal.Basic
import MountShell.Text.Lines

/-!
# Invocations

What the program is asked to do by its arguments and by the variables of its environment
(`Invocation.parse`), and what comes of it on a machine whose disk and input are given
(`Invocation.play`).
-/

namespace MountShell

/-- The settings of a session at a terminal. -/
structure Options where
  /-- The file with the configuration. -/
  config : Option String := none
  /-- The one command line to carry out. -/
  command : Option String := none
  /-- The directory that remote bodies come from. -/
  remoteRoot : Option String := none
  /-- The directory that kept trees go to. -/
  stateDir : Option String := none
  /-- How much is logged; nothing is. -/
  logLevel : Option String := none
  deriving DecidableEq, Repr

/-- What the program is asked to do. -/
inductive Invocation where
  | showVersion
  | session (options : Options)
  deriving DecidableEq, Repr

/-- What is wrong with the arguments. -/
inductive UsageError where
  | unexpected (argument : String)
  | missingValue (option : String)
  | repeated (option : String)
  deriving DecidableEq, Repr

/-- The text of a usage error. -/
def UsageError.message : UsageError → String
  | unexpected argument => "unexpected argument: " ++ argument
  | missingValue option => "a value is required for " ++ option
  | repeated option => option ++ " cannot be used multiple times"

/-- The code that the program ends with if it cannot begin. -/
def usageCode : Nat := 2

/-- An option that takes a value. -/
structure ValueOption where
  name : String
  /-- The variable that gives the value if the arguments do not. -/
  variableName : Option String := none
  /-- The value may be empty. -/
  empty : Bool := false
  get : Options → Option String
  set : Options → String → Options

namespace Invocation

/-- The options that take values. -/
def valueOptions : List ValueOption :=
  [{ name := "--config", variableName := some "VSH_CONFIG",
     get := Options.config, set := fun o v => { o with config := some v } },
   { name := "-c", empty := true,
     get := Options.command, set := fun o v => { o with command := some v } },
   { name := "--remote-root",
     get := Options.remoteRoot, set := fun o v => { o with remoteRoot := some v } },
   { name := "--state-dir", variableName := some "VSH_STATE_DIR",
     get := Options.stateDir, set := fun o v => { o with stateDir := some v } },
   { name := "--log-level", empty := true,
     get := Options.logLevel, set := fun o v => { o with logLevel := some v } }]

/-- An argument that begins with a hyphen, and is more than that, is no value. -/
def isValue (argument : String) : Bool :=
  match argument.toList with
  | '-' :: _ :: _ => false
  | _ => true

/-- The value that stands in one argument with the name of its option: after an equals sign, or
right after a name of one letter. -/
def attached? (name argument : String) : Option String :=
  match Text.dropHead? name.toList argument.toList with
  | some ('=' :: value) => some (String.ofList value)
  | some (c :: value) => if name.length = 2 then some (String.ofList (c :: value)) else none
  | _ => none

/-- Stores the value of an option, which can be done once. -/
def store (option : ValueOption) (value : String) (o : Options) : Except UsageError Options :=
  if (option.get o).isSome then .error (.repeated option.name)
  else if value = "" ∧ option.empty = false then .error (.missingValue option.name)
  else .ok (option.set o value)

/-- The values of options that the arguments have left open. -/
def fromVariables (vars : List (String × String)) :
    List ValueOption → Options → Except UsageError Options
  | [], o => .ok o
  | option :: rest, o =>
    match option.get o, option.variableName.bind fun name => NameMap.find? name vars with
    | none, some value => do fromVariables vars rest (← store option value o)
    | _, _ => fromVariables vars rest o

/-- The option that asks for the version, which may have anything right after its letter. -/
def asksVersion (argument : String) : Bool :=
  argument = "--version" || (Text.dropHead? ['-', 'V'] argument.toList).isSome

/-- Reads arguments one by one. Two hyphens end the options, and nothing may follow them. -/
def parseFrom (vars : List (String × String)) :
    List String → Options → Except UsageError Invocation
  | [], o => return .session (← fromVariables vars valueOptions o)
  | ["--"], o => return .session (← fromVariables vars valueOptions o)
  | "--" :: argument :: _, _ => .error (.unexpected argument)
  | argument :: rest, o =>
    if asksVersion argument then .ok .showVersion
    else
      match valueOptions.find? fun option => option.name = argument with
      | some option =>
        match rest with
        | value :: rest =>
          if isValue value then do parseFrom vars rest (← store option value o)
          else .error (.missingValue option.name)
        | [] => .error (.missingValue option.name)
      | none =>
        match valueOptions.findSome? fun option =>
            (attached? option.name argument).map fun value => (option, value) with
        | some (option, value) => do parseFrom vars rest (← store option value o)
        | none => .error (.unexpected argument)

/-- What the program is asked to do by its arguments and by the variables of its environment. -/
def parse (arguments : List String) (vars : List (String × String)) :
    Except UsageError Invocation :=
  parseFrom vars arguments {}

end Invocation

/-- What remains when the program has ended. -/
structure Transcript where
  code : Nat
  out : String := ""
  err : String := ""
  disk : Disk

namespace Options

/-- What can be mounted. -/
def devices (o : Options) : Devices :=
  { Devices.stock with fetcher := o.remoteRoot.isSome, store := o.stateDir.isSome }

/-- What lies outside the filesystem on a machine with the given disk. -/
def outside (o : Options) (disk : Disk) : Outside :=
  { disk
    fetcher := .directory (o.remoteRoot.getD "")
    store := .directory (o.stateDir.getD "") }

/-- The session at a terminal that has just begun. -/
def terminal (o : Options) (config : Config) (outside : Outside) (draws : Draws) (today : String) :
    Terminal Computation Millis :=
  let sh := Shell.ofConfig config o.devices { outside } { input := .lines [] } draws today
  match o.command with
  | some line => .forCommand sh line
  | none => .interactive sh

/-- The configuration of a session. -/
def loadConfig (o : Options) (disk : Disk) : Except ConfigError Config :=
  match o.config with
  | some path => Config.load disk path
  | none => .ok {}

end Options

namespace Invocation

/-- The text that tells the version. -/
def versionLine : String := Stock.systemName ++ " " ++ Stock.version ++ "\n"

/-- What comes of a session whose input is given as a whole, with at most the given number of steps.
-/
def playSession (o : Options) (disk : Disk) (input : String) (draws : Draws) (today : String)
    (steps : Nat) : Transcript :=
  match o.loadConfig disk with
  | .error e => { code := usageCode, err := "vsh: " ++ e.message ++ "\n", disk }
  | .ok config =>
    let start := o.terminal config (o.outside disk) draws today
    let ready := ((Text.lines input).foldl Terminal.typeLine start).endInput
    let (code, t) := ready.run (Stock.programs []) steps
    { code := code.getD failureCode
      out := t.output
      err := t.errors
      disk := t.shell.fs.outside.disk }

/-- What comes of an invocation on a machine whose disk and input are given. -/
def play (arguments : List String) (vars : List (String × String)) (disk : Disk)
    (input : String) (draws : Draws) (today : String) (steps : Nat) : Transcript :=
  match parse arguments vars with
  | .error e => { code := usageCode, err := "vsh: " ++ e.message ++ "\n", disk }
  | .ok .showVersion => { code := 0, out := versionLine, disk }
  | .ok (.session o) => playSession o disk input draws today steps

end Invocation

end MountShell
