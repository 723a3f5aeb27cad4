import MountShell.Mount.Fstab
import MountShell.Path

/-!
# The mount table

The volumes that are mounted, each at the path of its mount point. A path belongs to the mount with
the longest text among those whose points contain it, and its volume sees what remains of the path
behind the point. All of this is done on the texts of paths in normal form.

Main definitions: `Path.contains` and `Path.inside`, one path within another; `Mount.insert`,
`Mount.containing` and `Mount.namesBelow`, on lists of mounts.
-/

namespace MountShell

namespace Path

/-- Is `path` the path `point`, or does it lie below it? -/
def contains (point path : String) : Bool :=
  point = "/" || path = point ||
    match Text.dropHead? point.toList path.toList with
    | some rest => rest.head? = some '/'
    | none => false

/-- The path `path` as it is seen from the directory `point` that contains it. -/
def inside (point path : String) : String :=
  if point = "/" then path
  else
    match Text.dropHead? point.toList path.toList with
    | some (c :: rest) => String.ofList (c :: rest)
    | some [] | none => "/"

end Path

/-- A volume at a point of the name space. -/
structure Mount where
  device : String
  /-- The path of the mount point. -/
  path : String
  /-- It is in normal form. -/
  resolved : Path.resolve path = path
  fsType : FsType
  /-- The options as they are written. -/
  options : String
  flags : MountOptions
  /-- The place of the volume in the list of volumes. -/
  volume : Nat
  deriving DecidableEq, Repr

namespace Mount

/-- The segments of the mount point. -/
@[irreducible] def point (m : Mount) : List String :=
  Path.segmentsOf m.path

theorem point_eq (m : Mount) : m.point = Path.segmentsOf m.path := by
  unfold point
  rfl

/-- The line that shows a mount. -/
def describe (m : Mount) : String :=
  m.device ++ " on " ++ m.path ++ " type " ++ m.fsType.name ++ " (" ++ m.options ++ ")"

/-- The list with a mount in it, in place of an earlier one at the same point. -/
def insert (new : Mount) : List Mount → List Mount
  | [] => [new]
  | m :: rest => if m.path = new.path then new :: rest else m :: insert new rest

/-- The mount with the longer path of two, the second if they are equally long. -/
def longer (best : Option Mount) (m : Mount) : Option Mount :=
  match best with
  | none => some m
  | some other => if m.path.utf8ByteSize < other.path.utf8ByteSize then some other else some m

/-- The mount that holds a path in normal form: the one with the longest path of those whose points
contain it. -/
def containing (path : String) (mounts : List Mount) : Option Mount :=
  (mounts.filter fun m => Path.contains m.path path).foldl longer none

/-- The name of the mount point if it lies right below a directory. -/
def nameBelow? (dir : String) (m : Mount) : Option String :=
  if m.path = "/" || m.path = dir then none
  else
    let (parent, name) := Path.splitParent m.path
    if parent = dir then some name else none

/-- The names of the mount points right below a directory. -/
def namesBelow (dir : String) (mounts : List Mount) : List String :=
  mounts.filterMap (nameBelow? dir)

end Mount

end MountShell
