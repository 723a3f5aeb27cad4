import MountShell.FileSystem.Basic
import MountShell.Line.Command
import MountShell.Shell.Host

/-!
# Input and output of a command

Without redirections a command talks to the host. With them its lines go to every output, and what
it reads are the inputs, joined by newlines. An output that does not take a line leads to a line on
the error stream of the host.
-/

namespace MountShell

/-- A target of lines, and what has gone through it. -/
structure Output where
  file : OpenFile
  body : String := ""
  lines : Nat := 0

/-- The redirections of a command that have not been released. -/
structure Io where
  /-- The name of the command, which reports begin with. -/
  command : String
  outputs : List Output := []
  inputs : List OpenFile := []

/-- How a redirection opens its target. -/
def RedirectMode.openMode : RedirectMode → OpenMode
  | read => .read
  | overwrite => .overwrite
  | append => .append

/-- Does a redirection take output? -/
def RedirectMode.isWrite : RedirectMode → Bool
  | read => false
  | overwrite | append => true

namespace Output

/-- The data that a line adds, and the output after it. An overwriting handle replaces the whole
text each time, so that it is given all lines so far; an appending one gets the new line alone. -/
def addLine (out : Output) (line : String) : String × Output :=
  match out.file.handle.mode with
  | .overwrite =>
    let body := if 0 < out.lines then out.body ++ "\n" ++ line else line
    (body, { out with body, lines := out.lines + 1 })
  | _ => (if out.lines = 0 then line else "\n" ++ line, { out with lines := out.lines + 1 })

/-- Writes a line. Gives the reason if it is not taken. -/
def write (out : Output) (line : String) (fs : FileSystem) :
    Option String × Output × FileSystem :=
  match out.file.handle.errorMessage with
  | some reason => (some reason, out, fs)
  | none =>
    let (data, out) := out.addLine line
    match fs.write out.file data with
    | (.ok _, fs) => (none, out, fs)
    | (.error e, fs) => (some e.message, out, fs)

end Output

namespace Io

/-- Writes a line to each of the given outputs, and reports those that do not take it. -/
def writeOutputs (command line : String) :
    List Output → FileSystem → Host → List Output × FileSystem × Host
  | [], fs, host => ([], fs, host)
  | out :: rest, fs, host =>
    let (refusal, out, fs) := out.write line fs
    let host :=
      match refusal with
      | none => host
      | some reason =>
        let report := ShellError.redirectionUnavailable out.file.handle.path reason
        host.tell (.errorLine (command ++ ": " ++ report.message))
    let (rest, fs, host) := writeOutputs command line rest fs host
    (out :: rest, fs, host)

/-- Writes a line. -/
def writeLine (io : Io) (line : String) (fs : FileSystem) (host : Host) :
    Io × FileSystem × Host :=
  if io.outputs.isEmpty then (io, fs, host.tell (.line line))
  else
    let (outputs, fs, host) := writeOutputs io.command line io.outputs fs host
    ({ io with outputs }, fs, host)

/-- Reads files one after the other, up to the first failure. -/
def readFiles : List OpenFile → FileSystem → Except ShellError (List String) × FileSystem
  | [], fs => (.ok [], fs)
  | file :: rest, fs =>
    match fs.read file with
    | (.error e, fs) => (.error (.ofFsError e), fs)
    | (.ok body, fs) =>
      match readFiles rest fs with
      | (.ok bodies, fs) => (.ok (body :: bodies), fs)
      | (.error e, fs) => (.error e, fs)

/-- Reads all input. -/
def readAll (io : Io) (fs : FileSystem) (host : Host) :
    Except ShellError String × FileSystem × Host :=
  if io.inputs.isEmpty then
    let (text, host) := host.readAll
    (.ok text, fs, host)
  else
    let (bodies, fs) := readFiles io.inputs fs
    (bodies.map ("\n".intercalate ·), fs, host)

/-- Closes files that are not there to report a failure only. Gives how many were closed. -/
def closeFiles : List OpenFile → FileSystem → Nat × FileSystem
  | [], fs => (0, fs)
  | file :: rest, fs =>
    if file.handle.isError then closeFiles rest fs
    else
      match fs.close file with
      | (.ok _, fs) =>
        let (n, fs) := closeFiles rest fs
        (n + 1, fs)
      | (.error _, fs) => closeFiles rest fs

/-- Closes the redirections, which are gone after that. Gives how many were closed. -/
def release (io : Io) (fs : FileSystem) : Nat × Io × FileSystem :=
  let (n, fs) := closeFiles (io.outputs.map Output.file ++ io.inputs) fs
  (n, { io with outputs := [], inputs := [] }, fs)

end Io

end MountShell
