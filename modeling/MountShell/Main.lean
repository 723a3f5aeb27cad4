import MountShell.Terminal.Invocation
import Std.Time

/-!
# The program

The session at the terminal with the streams, the clock and the files of the machine: its text is
written, lines are read and time is waited for as the session asks for it.

The files that a session can use are copied into its disk at the start, under the names of
`remoteCopy` and `stateCopy`; after every write to the store, the files there are written back.
-/

namespace MountShell.Main

/-- The directory of the disk that the remote bodies are copied to. -/
def remoteCopy : String := "remote"

/-- The directory of the disk that the kept trees are copied to. -/
def stateCopy : String := "state"

/-- The machine's text for a file that cannot be used. -/
def reasonOf : IO.Error → String
  | .noFileOrDirectory .. => HostError.noEntry.message
  | .inappropriateType .. => HostError.isDirectory.message
  | e => toString e

/-- Copies a file or a directory; what cannot be read is left out. -/
partial def copyEntry (entry : IO.FS.DirEntry) : IO (Option (String × DiskNode)) := do
  try
    if ← entry.path.isDir then
      let entries ← (← entry.path.readDir).filterMapM copyEntry
      return some (entry.fileName, .directory (NameMap.ofList entries.toList))
    else
      return some (entry.fileName, .file (← IO.FS.readFile entry.path))
  catch _ => return none

/-- Copies a directory under a name, if it is there. -/
def copyDirectory (name : String) : Option String → IO (List (String × DiskNode))
  | none => return []
  | some dir => do
    let dir := (← IO.currentDir) / dir
    if ← dir.isDir then
      let entries ← (← dir.readDir).filterMapM copyEntry
      return [(name, .directory (NameMap.ofList entries.toList))]
    else
      return []

/-- Writes the files of the store back to their directory. -/
def writeBack (dir : String) (disk : Disk) : IO Unit := do
  IO.FS.createDirAll dir
  match disk.start.at? [stateCopy] with
  | some (.directory entries) =>
    for (name, node) in entries do
      match node with
      | .file body => IO.FS.writeFile (Disk.inside dir name) body
      | .directory _ => pure ()
  | _ => pure ()

/-- Reads the configuration of a session. -/
def loadConfig : Option String → IO (Except ConfigError Config)
  | none => return .ok {}
  | some path => do
    try
      return Config.read (← IO.FS.readFile path)
    catch e => return .error (.unreadable path (reasonOf e))

/-- Writes what a session has to write. -/
def emit (t : Terminal Computation Millis) : IO (Terminal Computation Millis) := do
  let out ← IO.getStdout
  let err ← IO.getStderr
  for w in t.written do
    match w with
    | .out text => out.putStr text
    | .err text => err.putStr text
  out.flush
  err.flush
  return { t with written := #[] }

/-- The milliseconds since a moment. -/
def elapsed (since : Nat) : IO Nat := do
  return (← IO.monoMsNow) - since

/-- Takes the steps of a session that began at a moment. `sets` counts the writes to the store that
have been written back. -/
partial def play (o : Options) (since sets : Nat) (t : Terminal Computation Millis) :
    IO UInt32 := do
  let (demand, t) := (t.passTime (.ofNat (← elapsed since))).step (Stock.programs [])
  let t ← emit t
  let outside := t.shell.fs.outside
  if sets < outside.sets then
    if let some dir := o.stateDir then writeBack dir outside.disk
  match demand with
  | .nothing => play o since outside.sets t
  | .time deadline =>
    IO.sleep (deadline.wait (← elapsed since))
    play o since outside.sets t
  | .line =>
    let line ← (← IO.getStdin).getLine
    let t := if line.isEmpty then t.endInput else (Text.lines line).foldl Terminal.typeLine t
    play o since outside.sets t
  | .leave code => return code.toUInt32

/-- Carries out a session. -/
def session (o : Options) : IO UInt32 := do
  match ← loadConfig o.config with
  | .error e =>
    (← IO.getStderr).putStr ("vsh: " ++ e.message ++ "\n")
    return usageCode.toUInt32
  | .ok config =>
    let remote ← copyDirectory remoteCopy o.remoteRoot
    let state ← copyDirectory stateCopy o.stateDir
    let copied := { o with
      remoteRoot := o.remoteRoot.map fun _ => remoteCopy
      stateDir := o.stateDir.map fun _ => stateCopy }
    let disk := Disk.ofEntries (NameMap.ofList (remote ++ state))
    let today := (← Std.Time.PlainDate.now).format "EEE MMM dd uuuu"
    let draws := Draws.ofSeed (← IO.rand 0 4294967295)
    play o (← IO.monoMsNow) 0 (copied.terminal config (copied.outside disk) draws today)

/-- The variables of the environment that give values to options. -/
def optionVars : IO (List (String × String)) := do
  let names := Invocation.valueOptions.filterMap ValueOption.variableName
  let values ← names.filterMapM fun name => do
    return (← IO.getEnv name).map fun value => (name, value)
  return NameMap.ofList values

end MountShell.Main

open MountShell in
/-- Runs the shell. -/
def main (arguments : List String) : IO UInt32 := do
  match Invocation.parse arguments (← Main.optionVars) with
  | .error e =>
    (← IO.getStderr).putStr ("vsh: " ++ e.message ++ "\n")
    return usageCode.toUInt32
  | .ok .showVersion =>
    (← IO.getStdout).putStr Invocation.versionLine
    return 0
  | .ok (.session o) => Main.session o
