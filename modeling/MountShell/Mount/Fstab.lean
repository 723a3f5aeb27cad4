import MountShell.Text.Blank
import MountShell.Text.Lowercase
import MountShell.Text.Split

/-!
# Mount descriptions

The entries from which a filesystem is put together: which device is mounted where, as which type of
filesystem and with which options. `FstabEntry.parse` reads an entry from a line.
-/

namespace MountShell

/-- The types of filesystem. -/
inductive FsType where
  /-- A tree that the host supplies. -/
  | static
  /-- A read-only tree described by a remote index. -/
  | remote
  /-- Scratch space in memory. -/
  | scratch
  /-- A tree that is kept in a store. -/
  | persistent
  /-- A type that cannot be mounted. -/
  | other (name : String)
  deriving DecidableEq, Repr

namespace FsType

/-- The type with the given name, in letters of either case. -/
def ofName (name : String) : FsType :=
  let name := Text.lowercase name
  if name = "jfs" ∨ name = "static" then static
  else if name = "httpfs" ∨ name = "remote" then remote
  else if name = "tmpfs" then scratch
  else if name = "wsfs" ∨ name = "persist" then persistent
  else other name

/-- The name by which a type is shown. -/
def name : FsType → String
  | static => "jfs"
  | remote => "httpfs"
  | scratch => "tmpfs"
  | persistent => "wsfs"
  | other name => name

/-- Is the type one that cannot be mounted? -/
def isOther : FsType → Bool
  | other _ => true
  | _ => false

end FsType

/-- The options of a mount that change what it allows. -/
structure MountOptions where
  /-- Creating and writing is refused. -/
  readOnly : Bool := false
  /-- Executables are not run. -/
  noExec : Bool := false
  deriving DecidableEq, Repr

namespace MountOptions

/-- The options after one more word. Unknown words change nothing. -/
def add (options : MountOptions) (word : String) : MountOptions :=
  if word = "ro" ∨ word = "readonly" then { options with readOnly := true }
  else if word = "rw" ∨ word = "readwrite" then { options with readOnly := false }
  else if word = "noexec" then { options with noExec := true }
  else if word = "exec" then { options with noExec := false }
  else options

/-- Reads options separated by commas; a later word overrides an earlier one. -/
def parse (text : String) : MountOptions :=
  (Text.split ',' text).foldl (fun options word => options.add (Text.trim word)) {}

end MountOptions

/-- One mount of a configuration. -/
structure FstabEntry where
  /-- The source: the name of a static tree, the location of a remote one, or a key of the store. -/
  device : String
  mountPoint : String
  typeName : String
  options : String := ""
  /-- The entry is mounted at the start. -/
  automount : Bool := true
  deriving DecidableEq, Repr

namespace FstabEntry

/-- The type of filesystem that the entry asks for. -/
def fsType (entry : FstabEntry) : FsType :=
  FsType.ofName entry.typeName

/-- The options that the entry asks for. -/
def flags (entry : FstabEntry) : MountOptions :=
  MountOptions.parse entry.options

/-- Reads an entry from a line of words: device, mount point, type and, possibly, options. Blank
lines, lines that start with a number sign and lines of fewer than three words hold no entry. -/
def parse (line : String) : Option FstabEntry :=
  if Text.startsWith "#" (Text.trim line) then none
  else
    match Text.words line with
    | device :: point :: type :: rest =>
      some { device, mountPoint := point, typeName := type, options := rest.headD "" }
    | _ => none

end FstabEntry

end MountShell
