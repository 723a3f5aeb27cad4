import MountShell.Mount.Table
import MountShell.Volume.Basic

/-!
# The filesystem

Volumes mounted at points of one name space. A path is resolved first and then belongs to the mount
with the longest point that contains it; the volume sees what remains behind the point.

A volume stays in the list of volumes for good, so that handles on it work even after another one
has been mounted in its place.

Main definitions: `FileSystem.mount`, `FileSystem.ofFstab`, `FileSystem.locate`, and the operations
on paths and on open files.
-/

namespace MountShell

/-- A handle on a node of one of the volumes. -/
structure OpenFile where
  volume : Nat
  handle : FileHandle

/-- Volumes and where they are mounted. -/
structure FileSystem where
  mounts : List Mount := []
  volumes : List Volume := []
  outside : Outside := {}

/-- What a host makes available for mounting. -/
structure Devices where
  /-- Trees by name. -/
  trees : List (String × Node) := []
  fetcher : Bool := false
  store : Bool := false

namespace FileSystem

/-- Mounts a volume as an entry describes it. -/
def mount (fs : FileSystem) (entry : FstabEntry) (v : Volume) : FileSystem :=
  let new : Mount :=
    { device := entry.device
      path := Path.resolve entry.mountPoint
      resolved := Path.resolve_resolve entry.mountPoint
      fsType := v.fsType
      options := entry.options
      flags := entry.flags
      volume := fs.volumes.length }
  { fs with mounts := new.insert fs.mounts, volumes := fs.volumes ++ [v] }

/-- Mounts an empty read-only tree at the root if nothing is mounted there. -/
def ensureRoot (fs : FileSystem) : FileSystem :=
  if fs.mounts.any fun m => m.path = "/" then fs
  else
    fs.mount { device := "none", mountPoint := "/", typeName := "jfs", options := "ro" }
      (.supplied (.directory false []))

/-- The volume that an entry asks for, if it can be had. -/
def volumeFor (devices : Devices) (entry : FstabEntry) (o : Outside) : Option Volume :=
  match entry.fsType with
  | .static => (NameMap.find? entry.device devices.trees).map Volume.supplied
  | .remote => if devices.fetcher then some (.remote entry.device) else none
  | .scratch => some .scratch
  | .persistent => if devices.store then some (.kept entry.device o) else none
  | .other _ => none

/-- Mounts what an entry asks for, if it is to be mounted at the start and can be. -/
def mountEntry (devices : Devices) (fs : FileSystem) (entry : FstabEntry) : FileSystem :=
  if entry.automount then
    match volumeFor devices entry fs.outside with
    | some v => fs.mount entry v
    | none => fs
  else fs

/-- A filesystem with nothing but an empty read-only root. -/
def new (o : Outside) : FileSystem :=
  ensureRoot { outside := o }

/-- The filesystem with the mounts that entries describe in place of its own. Its volumes stay, so
that files that are open keep working. -/
def remount (fs : FileSystem) (entries : List FstabEntry) (devices : Devices) : FileSystem :=
  ensureRoot (entries.foldl (mountEntry devices) { fs with mounts := [] })

/-- The filesystem that entries describe. -/
def ofFstab (entries : List FstabEntry) (devices : Devices) (o : Outside) : FileSystem :=
  remount { outside := o } entries devices

/-- A path on its way to a volume. -/
structure Place where
  mount : Mount
  /-- The resolved path. -/
  full : String
  /-- The path that the volume sees. -/
  inner : String
  deriving DecidableEq

/-- Where a path leads. -/
def locate (fs : FileSystem) (path : String) : Except FsError Place :=
  let full := Path.resolve path
  match Mount.containing full fs.mounts with
  | some m => .ok { mount := m, full, inner := Path.inside m.path full }
  | none => .error (.notFound full)

/-- The volume with the given place in the list. -/
def volume (fs : FileSystem) (i : Nat) : Volume :=
  fs.volumes.getD i (.supplied (.directory false []))

/-- The filesystem after a volume and what lies outside have changed. -/
def put (fs : FileSystem) (i : Nat) (v : Volume) (o : Outside) : FileSystem :=
  { fs with volumes := fs.volumes.set i v, outside := o }

/-- The names of the mount points right below a directory. -/
def pointsBelow (fs : FileSystem) (dir : String) : List String :=
  Mount.namesBelow dir fs.mounts

/-- The node at a path. -/
def node (fs : FileSystem) (path : String) : Except FsError Node × FileSystem :=
  match fs.locate path with
  | .error e => (.error e, fs)
  | .ok place =>
    let i := place.mount.volume
    let (result, v, o) := (fs.volume i).get place.inner fs.outside
    (result, fs.put i v o)

/-- What is shown of the node at a path. A directory also lists the mount points right below it. -/
def get (fs : FileSystem) (path : String) : Except FsError Entry × FileSystem :=
  let full := Path.resolve path
  match fs.node path with
  | (.ok node, fs) => (.ok ((Entry.ofNode node full).addNames (fs.pointsBelow full)), fs)
  | (.error e, fs) => (.error e, fs)

/-- The text of the file at a path. -/
def readText (fs : FileSystem) (path : String) : Except FsError String × FileSystem :=
  match fs.get path with
  | (.ok entry, fs) =>
    let (text, o) := entry.read fs.outside
    (text, { fs with outside := o })
  | (.error e, fs) => (.error e, fs)

/-- Creates an empty file, unless its mount is read-only. -/
def create (fs : FileSystem) (path : String) : Except FsError Node × FileSystem :=
  match fs.locate path with
  | .error e => (.error e, fs)
  | .ok place =>
    if place.mount.flags.readOnly then
      (.error (.permissionDenied (Path.basename place.full)), fs)
    else
      let i := place.mount.volume
      let (result, v, o) := (fs.volume i).create place.inner fs.outside
      (result, fs.put i v o)

/-- Opens a file; a read-only mount refuses the modes for writing. -/
def openFile (fs : FileSystem) (path : String) (mode : OpenMode) : OpenFile × FileSystem :=
  match fs.locate path with
  | .error e => (⟨0, .failed (Path.resolve path) e⟩, fs)
  | .ok place =>
    let i := place.mount.volume
    if place.mount.flags.readOnly && mode.isWrite then
      (⟨i, .failed place.full (.permissionDenied (Path.basename place.full))⟩, fs)
    else
      let (h, v, o) := (fs.volume i).openFile place.inner mode fs.outside
      (⟨i, { h with path := place.full }⟩, fs.put i v o)

/-- Sets or clears the flag of a node, unless its mount is read-only. -/
def chmod (fs : FileSystem) (path mode : String) : Bool × FileSystem :=
  match fs.locate path with
  | .error _ => (false, fs)
  | .ok place =>
    if place.mount.flags.readOnly then (false, fs)
    else
      let i := place.mount.volume
      let (done, v, o) := (fs.volume i).chmod place.inner mode fs.outside
      (done, fs.put i v o)

/-- The program that the file at a path runs, if its mount allows that. -/
def program? (fs : FileSystem) (path : String) : Option String × FileSystem :=
  match fs.locate path with
  | .error _ => (none, fs)
  | .ok place =>
    if place.mount.flags.noExec then (none, fs)
    else
      match fs.node path with
      | (.ok node, fs) => (node.program?, fs)
      | (.error _, fs) => (none, fs)

/-- Sets the flag of the node at a path directly. -/
def setFlag (fs : FileSystem) (path : String) (w : Bool) : FileSystem :=
  match fs.locate path with
  | .error _ => fs
  | .ok place =>
    let i := place.mount.volume
    fs.put i ((fs.volume i).setFlag place.inner w) fs.outside

/-- One line for each mount, in order. -/
def mountLines (fs : FileSystem) : List String :=
  fs.mounts.map Mount.describe

/-- The locations outside that are read or written, for each mount point. -/
def backingStore (fs : FileSystem) : List (String × List String) :=
  fs.mounts.map fun m => (m.path, (fs.volume m.volume).backingStore)

/-- Reads an open file. -/
def read (fs : FileSystem) (file : OpenFile) : Except FsError String × FileSystem :=
  let (result, o) := (fs.volume file.volume).read file.handle fs.outside
  (result, { fs with outside := o })

/-- Writes to an open file. -/
def write (fs : FileSystem) (file : OpenFile) (data : String) :
    Except FsError Unit × FileSystem :=
  let (result, v, o) := (fs.volume file.volume).write file.handle data fs.outside
  (result, fs.put file.volume v o)

/-- Closes an open file. -/
def close (fs : FileSystem) (file : OpenFile) : Except FsError OpenFile × FileSystem :=
  let (result, v, o) := (fs.volume file.volume).close file.handle fs.outside
  (result.map fun h => { file with handle := h }, fs.put file.volume v o)

end FileSystem

end MountShell
