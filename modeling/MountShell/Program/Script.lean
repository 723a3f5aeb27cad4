import MountShell.Shell.Routine
import MountShell.Timer.Millis

/-!
# Scripted programs

Programs that are described as data: actions to carry out at once, and then an exit code or a
computation whose steps are described in the same way.
-/

namespace MountShell

/-- One action of a scripted program. -/
inductive ScriptAction where
  /-- Write a line. -/
  | out (line : String)
  /-- Write a line to the error stream. -/
  | err (line : String)
  /-- Write the arguments, separated by bars. -/
  | args
  /-- Write all input, or the reason why it cannot be read to the error stream. -/
  | cat
  | clear
  /-- Write the size of the screen. -/
  | size
  /-- Write the value of a variable. -/
  | getenv (name : String)
  | setenv (name value : String)
  /-- Close the redirections, and write their number to the error stream. -/
  | release
  | raise
  /-- Write the phase of the shell to the error stream. -/
  | phase
  deriving Repr

/-- How a step of a scripted computation ends. -/
inductive ScriptNext where
  | wait (delay : Millis)
  | key
  | done (code : Option Int)
  | again

/-- A step of a scripted computation. -/
structure ScriptStep where
  actions : List ScriptAction
  next : ScriptNext

/-- How a scripted program goes on after its actions. -/
inductive ScriptEnd where
  | exit (code : Int)
  | suspend (steps : List ScriptStep)
  | nothing

/-- A scripted program. -/
structure ProgramScript where
  actions : List ScriptAction
  ending : ScriptEnd

/-- A scripted computation: its arguments, the key that the last step has read, and the steps that
are left. -/
structure ScriptRun where
  args : List String
  key : Option KeyAnswer := none
  steps : List ScriptStep

/-- The name of a phase. -/
def Phase.name : Phase → String
  | idle => "Idle"
  | resolving => "Resolving"
  | buildingIo => "BuildingIo"
  | running => "Running"

namespace ScriptAction

open Routine

/-- Carries out an action. -/
def run (arguments : List String) : ScriptAction → Routine Unit
  | out line => writeLine line
  | err line => writeErrorLine line
  | args => writeLine ("|".intercalate arguments)
  | cat => do
    match ← request .readAll with
    | .ok text => writeLine text
    | .error e => writeErrorLine e.message
  | clear => request .clear
  | size => do
    let (columns, rows) ← request .size
    writeLine (toString columns ++ "x" ++ toString rows)
  | getenv name => do
    writeLine (← getenvOr name "(unset)")
  | setenv name value => request (.setenv name value)
  | release => do
    let n ← request .release
    writeErrorLine ("released " ++ toString n)
  | raise => request .raise
  | phase => do
    let phase ← request .phase
    writeErrorLine phase.name

/-- Carries out actions in order. -/
def runAll (arguments : List String) : List ScriptAction → Routine Unit
  | [] => return ()
  | action :: rest => do
    action.run arguments
    runAll arguments rest

end ScriptAction

namespace ScriptRun

/-- Reports the key that the last step has read. -/
def reportKey : Option KeyAnswer → Routine Unit
  | none => return ()
  | some (.key name) => Routine.writeLine ("key:" ++ name)
  | some .ended => Routine.writeLine "key:EOF"
  | some .interrupted => Routine.writeLine ("key:" ++ ShellError.interrupted.message)

/-- Takes a step: the key is reported, the actions of the next step are carried out, and the
computation goes on as that step says. -/
def step (run : ScriptRun) : Routine (Step ScriptRun Millis) := do
  reportKey run.key
  match run.steps with
  | [] => return .done none
  | first :: rest =>
    ScriptAction.runAll run.args first.actions
    let next : ScriptRun := { run with key := none, steps := rest }
    match first.next with
    | .wait delay => return .sleep delay next
    | .key => return .key fun answer => { next with key := some answer }
    | .done code => return .done code
    | .again => return .again next

end ScriptRun

/-- Runs a scripted program with arguments. -/
def ProgramScript.run (script : ProgramScript) (args : List String) :
    Routine (Outcome ScriptRun) := do
  ScriptAction.runAll args script.actions
  match script.ending with
  | .exit code => return .exit code
  | .suspend steps => return .suspend { args, steps }
  | .nothing => return .nothing

end MountShell
