import MountShell.Mount.Fstab
import MountShell.Tree.Handle
import MountShell.Tree.Search
import MountShell.Volume.Index
import MountShell.Volume.Outside
import MountShell.Volume.Snapshot

/-!
# Volumes

A volume is a tree together with what backs it: nothing, a store that the tree is kept in, or a
remote index that it is read from. All volumes are walked in the same way; they differ in where the
tree comes from and in what happens when it changes.

* A tree that the host supplies is given as it is (`Volume.supplied`); how the host puts it together
  is not described.
* A tree in a store is kept as one snapshot, which is written after each change. A store that fails
  does not fail the operation, and the tree in memory stays what counts.
* A remote tree is fetched at the first use and stays as it is from then on; an index that cannot be
  fetched or read is asked for again at the next use.

Every operation takes what lies outside and gives it back.
-/

namespace MountShell

/-- What backs the tree of a volume. -/
inductive Backing where
  /-- A tree that the host supplies. -/
  | supplied
  /-- Memory. -/
  | scratch
  /-- The snapshot under a key of the store. -/
  | store (key : String)
  /-- The index at a location. -/
  | index (location : String)
  deriving DecidableEq, Repr

/-- A tree and what backs it. -/
structure Volume where
  backing : Backing
  /-- The tree, unless it has still to be fetched. -/
  root : Option Node

namespace Volume

/-- A tree that the host supplies. -/
def supplied (root : Node) : Volume := ⟨.supplied, some root⟩

/-- Empty scratch space. -/
def scratch : Volume := ⟨.scratch, some (.directory true [])⟩

/-- The remote tree at a location; slashes at the end of the location do not count. -/
def remote (location : String) : Volume := ⟨.index (Path.trimSlashes location), none⟩

/-- The tree kept under a key, or an empty writeable one if there is none that can be read. -/
def kept (key : String) (o : Outside) : Volume :=
  let snapshot :=
    match o.stored key with
    | .ok (some body) => Snapshot.read body
    | _ => none
  ⟨.store key, some ((snapshot.map Snapshot.restore).getD (.directory true []))⟩

/-- The type of filesystem of a volume. -/
def fsType (v : Volume) : FsType :=
  match v.backing with
  | .supplied => .static
  | .scratch => .scratch
  | .store _ => .persistent
  | .index _ => .remote

/-- The location of the index of the tree at a location. -/
def indexLocation (location : String) : String :=
  location ++ "/" ++ Index.fileName

/-- Keeps the tree, if it is one of a store. -/
def sync (v : Volume) (o : Outside) : Outside :=
  match v.backing, v.root with
  | .store key, some root =>
    match Snapshot.capture root with
    | some snapshot => (o.keep key snapshot.write).2
    | none => o
  | _, _ => o

/-- The volume with another tree, which is kept if it is one of a store. -/
def change (v : Volume) (root : Node) (o : Outside) : Volume × Outside :=
  let v := { v with root := some root }
  (v, v.sync o)

/-- The tree of a volume, which is fetched if it has not been yet. -/
def tree (v : Volume) (o : Outside) : Except FsError Node × Volume × Outside :=
  match v.root with
  | some root => (.ok root, v, o)
  | none =>
    match v.backing with
    | .index location =>
      let place := indexLocation location
      match o.fetch place with
      | (.error e, o) => (.error (.fetch e), v, o)
      | (.ok body, o) =>
        match Index.read location body with
        | .ok root => (.ok root, { v with root := some root }, o)
        | .error reason => (.error (.fetch ⟨place, reason⟩), v, o)
    | _ => (.error (.notFound "/"), v, o)

/-- The node at a path. -/
def get (v : Volume) (path : String) (o : Outside) : Except FsError Node × Volume × Outside :=
  match v.tree o with
  | (.ok root, v, o) => (Tree.walk root path, v, o)
  | (.error e, v, o) => (.error e, v, o)

/-- Is the tree one that never takes new files? -/
def isRemote (v : Volume) : Bool :=
  match v.backing with
  | .index _ => true
  | _ => false

/-- Creates an empty file. -/
def create (v : Volume) (path : String) (o : Outside) : Except FsError Node × Volume × Outside :=
  if v.isRemote then (.error (.permissionDenied (Path.basename path)), v, o)
  else
    match v.tree o with
    | (.error e, v, o) => (.error e, v, o)
    | (.ok root, v, o) =>
      match Tree.create root path .emptyFile with
      | .ok root =>
        let (v, o) := v.change root o
        (.ok .emptyFile, v, o)
      | .error e => (.error e, v, o)

/-- Opens a file, creating it if it is missing and the tree takes new files. A tree of a store is
kept after a file was created, unless the handle only tells about a failure. -/
def openFile (v : Volume) (path : String) (mode : OpenMode) (o : Outside) :
    FileHandle × Volume × Outside :=
  match v.tree o with
  | (.error e, v, o) => (.failed path e, v, o)
  | (.ok root, v, o) =>
    if v.isRemote then
      match Tree.walk root path with
      | .ok _ => (.ofNode (Path.walkSteps path) path mode, v, o)
      | .error _ => (.failed path (.permissionDenied (Path.basename path)), v, o)
    else
      match Tree.openFile root path mode with
      | (h, none) => (h, v, o)
      | (h, some root) =>
        if h.isError then (h, { v with root := some root }, o)
        else
          let (v, o) := v.change root o
          (h, v, o)

/-- Sets or clears the flag of a node, and tells whether it was done. -/
def chmod (v : Volume) (path mode : String) (o : Outside) : Bool × Volume × Outside :=
  if v.isRemote then (false, v, o)
  else
    match v.root.bind fun root => Tree.chmod root path mode with
    | some root =>
      let (v, o) := v.change root o
      (true, v, o)
    | none => (false, v, o)

/-- The locations outside that the volume reads or writes. -/
def backingStore (v : Volume) : List String :=
  let remotes := (v.root.map Node.remoteLocations).getD []
  match v.backing with
  | .supplied => remotes
  | .scratch => []
  | .store key => [key]
  | .index location => indexLocation location :: remotes

/-- Sets the flag of a node directly; nothing is kept. -/
def setFlag (v : Volume) (path : String) (w : Bool) : Volume :=
  { v with root := v.root.map (Node.update (Node.setWriteable w) (Path.walkSteps path)) }

/-- Reads through a handle. -/
def read (v : Volume) (h : FileHandle) (o : Outside) : Except FsError String × Outside :=
  match h.content (v.root.getD .emptyFile) with
  | .error e => (.error e, o)
  | .ok content => content.read h.path o

/-- Writes through a handle. -/
def write (v : Volume) (h : FileHandle) (data : String) (o : Outside) :
    Except FsError Unit × Volume × Outside :=
  match h.write (v.root.getD .emptyFile) data with
  | .error e => (.error e, v, o)
  | .ok root =>
    let (v, o) := v.change root o
    (.ok (), v, o)

/-- Closes a handle. -/
def close (v : Volume) (h : FileHandle) (o : Outside) :
    Except FsError FileHandle × Volume × Outside :=
  match h.close (v.root.getD .emptyFile) with
  | .error e => (.error e, v, o)
  | .ok (h, none) => (.ok h, v, o)
  | .ok (h, some root) =>
    let (v, o) := v.change root o
    (.ok h, v, o)

end Volume

end MountShell
