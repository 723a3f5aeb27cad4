import MountShell.Disk
import MountShell.Environment
import MountShell.Json.Form
import MountShell.Mount.Fstab

/-!
# Configuration

What a shell starts with: variables, mounts and a command to run first. A configuration is read from
JSON, where every part may be left out (`Config.read`), and it gives the variables of a new shell
(`Config.environment`).
-/

namespace MountShell

/-- The name of the device that holds the stock tree. -/
def baseDevice : String := "base"

/-- The directories that commands are looked for in, unless others are configured. -/
def defaultPath : String := "/bin/:/usr/bin/"

/-- What a shell starts with. -/
structure Config where
  /-- Variables, in increasing order of their names. -/
  vars : List (String × String) := NameMap.ofList
    [("USER", "guest"), ("HOSTNAME", "vsh"), ("HOME", "/home"), ("PS1", "\\u@\\h:\\w$ ")]
  /-- The mounts, in order. -/
  fstab : List FstabEntry :=
    [{ device := baseDevice, mountPoint := "/", typeName := "jfs", options := "rw" },
      { device := "scratch", mountPoint := "/tmp", typeName := "tmpfs", options := "rw" }]
  /-- The command to run first. -/
  motd : Option String := some "cat /etc/motd"
  deriving DecidableEq, Repr

/-- Why there is no configuration. -/
inductive ConfigError where
  /-- Its file cannot be read. -/
  | unreadable (path reason : String)
  /-- It is not what it should be. -/
  | invalid (fault : Json.Fault)
  deriving DecidableEq, Repr

/-- The text of a missing configuration. -/
def ConfigError.message : ConfigError → String
  | unreadable path reason => "cannot read config " ++ path ++ ": " ++ reason
  | invalid fault => "invalid config: " ++ fault.message

namespace Config

open Json (Reader)

/-- A mount of which some parts have been read. -/
structure EntryParts where
  device : Option String := none
  mountPoint : Option String := none
  typeName : Option String := none
  options : Option String := none
  automount : Option Bool := none

/-- The parts of a mount, in their order. The first three have to be there. -/
def entryFields : List (Reader.Field EntryParts) :=
  [{ name := "device_spec", required := true, known := fun p => p.device.isSome,
     read := fun p => return { p with device := some (← Reader.text) } },
   { name := "mount_point", required := true, known := fun p => p.mountPoint.isSome,
     read := fun p => return { p with mountPoint := some (← Reader.text) } },
   { name := "fs_type", required := true, known := fun p => p.typeName.isSome,
     read := fun p => return { p with typeName := some (← Reader.text) } },
   { name := "options", required := false, known := fun p => p.options.isSome,
     read := fun p => return { p with options := some (← Reader.text) } },
   { name := "automount", required := false, known := fun p => p.automount.isSome,
     read := fun p => return { p with automount := some (← Reader.flag) } }]

/-- Reads a mount. -/
def entry : Reader FstabEntry := do
  let parts ← Reader.record "FstabEntry" entryFields {}
  return {
    device := parts.device.getD ""
    mountPoint := parts.mountPoint.getD ""
    typeName := parts.typeName.getD ""
    options := parts.options.getD ""
    automount := parts.automount.getD true }

/-- A configuration of which some parts have been read. -/
structure Parts where
  vars : Option (List (String × String)) := none
  fstab : Option (List FstabEntry) := none
  motd : Option (Option String) := none

/-- The parts of a configuration, in their order. -/
def fields : List (Reader.Field Parts) :=
  [{ name := "environment", required := false, known := fun p => p.vars.isSome,
     read := fun p => return { p with vars := some (← Reader.mapOf Reader.text) } },
   { name := "fstab", required := false, known := fun p => p.fstab.isSome,
     read := fun p => return { p with fstab := some (← Reader.listOf entry) } },
   { name := "motd", required := false, known := fun p => p.motd.isSome,
     read := fun p => return { p with motd := some (← Reader.optional Reader.text) } }]

/-- Reads a configuration. Parts that are left out are those of the default one. -/
def reader : Reader Config := do
  let parts ← Reader.record "ShellConfig" fields {}
  let standard : Config := {}
  return {
    vars := parts.vars.getD standard.vars
    fstab := parts.fstab.getD standard.fstab
    motd := parts.motd.getD standard.motd }

/-- Reads a configuration from a text. -/
def read (s : String) : Except ConfigError Config :=
  match (Reader.whole reader).run s with
  | .ok config => .ok config
  | .error fault => .error (.invalid fault)

/-- Reads a configuration from a file of the host. -/
def load (disk : Disk) (path : String) : Except ConfigError Config :=
  match disk.read path with
  | .ok body => read body
  | .error e => .error (.unreadable path e.message)

/-- The variables of a new shell: the status 0, the working directory at home, and the default
search path, overridden by the variables of the configuration. -/
def environment (config : Config) : Environment :=
  let home := (NameMap.find? "HOME" config.vars).getD "/"
  let start := Environment.ofList [(statusName, "0"), ("PWD", home), ("PATH", defaultPath)]
  config.vars.foldl (fun env (name, value) => env.set name value) start

end Config

end MountShell
