import MountShell.NameMap
import MountShell.Text.Split

/-!
# The disk of the host

A directory tree of the machine that the shell runs on, as far as it is known: the directory the
shell was started in with what lies beneath, and one directory above it. Paths are followed the way
the machine follows them, one piece after the other, and what goes wrong is a `HostError`.
-/

namespace MountShell

/-- What the machine reports when a file cannot be used. -/
inductive HostError where
  | noEntry
  | entryExists
  | notDirectory
  | isDirectory
  | nameTooLong
  /-- A path holds the character NUL. -/
  | badPath
  deriving DecidableEq, Repr

/-- The machine's text for an error. -/
def HostError.message : HostError → String
  | noEntry => "No such file or directory (os error 2)"
  | entryExists => "File exists (os error 17)"
  | notDirectory => "Not a directory (os error 20)"
  | isDirectory => "Is a directory (os error 21)"
  | nameTooLong => "File name too long (os error 36)"
  | badPath => "file name contained an unexpected NUL byte"

/-- A file or a directory of the host. -/
inductive DiskNode where
  | file (body : String)
  | directory (entries : List (String × DiskNode))
  deriving Repr

namespace DiskNode

/-- The node at the end of a list of names. -/
def at? : DiskNode → List String → Option DiskNode
  | node, [] => some node
  | file _, _ :: _ => none
  | directory entries, name :: names =>
    match NameMap.find? name entries with
    | some node => node.at? names
    | none => none

/-- The tree with `new` at the end of a list of names, the directory of which exists. -/
def put : DiskNode → List String → DiskNode → DiskNode
  | _, [], new => new
  | file body, _ :: _, _ => file body
  | directory entries, name :: names, new =>
    match NameMap.find? name entries with
    | some node => directory (NameMap.insert name (node.put names new) entries)
    | none =>
      if names.isEmpty then directory (NameMap.insert name new entries) else directory entries

mutual

/-- The files of a tree with their paths, which start with `above`. -/
def files (above : String) : DiskNode → List (String × String)
  | file body => [(above, body)]
  | directory entries => filesOf above entries

/-- The files of the entries of a directory, whose path is `above`. -/
def filesOf (above : String) : List (String × DiskNode) → List (String × String)
  | [] => []
  | (name, node) :: rest =>
    node.files (if above = "" then name else above ++ "/" ++ name) ++ filesOf above rest

end

end DiskNode

/-- The name that the directory the shell was started in has in the one above it. No path can spell
it, so that a path that leaves this directory does not come back. -/
def startName : String := ""

/-- The tree whose top is the directory above the one that the shell was started in. -/
structure Disk where
  root : DiskNode := .directory [(startName, .directory [])]
  deriving Repr

namespace Disk

/-- The disk with the given entries in the directory that the shell was started in. -/
def ofEntries (entries : List (String × DiskNode)) : Disk :=
  { root := .directory [(startName, .directory entries)] }

/-- The directory that the shell was started in. -/
def start (disk : Disk) : DiskNode :=
  (disk.root.at? [startName]).getD (.directory [])

/-- The longest name of a file, in bytes. -/
def maxName : Nat := 255

/-- The length in bytes from which on a path is too long. -/
def maxPath : Nat := 4096

/-- One step along a path. The names of the place reached are kept with the last one first. Going
up from the root stays there. -/
def walkStep (disk : Disk) (reached : List String) (piece : String) :
    Except HostError (List String) :=
  match disk.root.at? reached.reverse with
  | none => .error .noEntry
  | some (.file _) => .error .notDirectory
  | some (.directory entries) =>
    if piece = "" ∨ piece = "." then .ok reached
    else if piece = ".." then .ok reached.tail
    else if maxName < piece.utf8ByteSize then .error .nameTooLong
    else if NameMap.contains piece entries then .ok (piece :: reached)
    else .error .noEntry

/-- The faults of a path by itself. -/
def checkPath (path : String) : Except HostError Unit :=
  if path.toList.any fun c => c.toNat = 0 then .error .badPath
  else if maxPath ≤ path.utf8ByteSize then .error .nameTooLong
  else if path = "" then .error .noEntry
  else .ok ()

/-- Where a path starts: an absolute one at the root, any other where the shell was started. -/
def origin (path : String) : List String :=
  if Text.startsWith "/" path then [] else [startName]

/-- The names that lead from the root to the end of a path. -/
def locate (disk : Disk) (path : String) : Except HostError (List String) := do
  checkPath path
  let reached ← (Text.split '/' path).foldlM disk.walkStep (origin path)
  return reached.reverse

/-- The text of the file at a path. -/
def read (disk : Disk) (path : String) : Except HostError String := do
  match disk.root.at? (← disk.locate path) with
  | some (.file body) => return body
  | some (.directory _) => .error .isDirectory
  | none => .error .noEntry

/-- Is there a directory at the end of the pieces of a path? -/
def isDirectory (disk : Disk) (start pieces : List String) : Bool :=
  match pieces.foldlM disk.walkStep start with
  | .ok reached =>
    match disk.root.at? reached.reverse with
    | some (.directory _) => true
    | _ => false
  | .error _ => false

/-- Makes one directory, in another that exists. Slashes at the end of its path do not count, but a
dot there is taken for a name that is in use. -/
def makeDirectory (disk : Disk) (start pieces : List String) : Except HostError Disk := do
  match pieces.reverse.dropWhile (· = "") with
  | [] => .error .entryExists
  | name :: above =>
    let reached ← above.reverse.foldlM disk.walkStep start
    match disk.root.at? reached.reverse with
    | some (.directory entries) =>
      if name = "." ∨ name = ".." then .error .entryExists
      else if maxName < name.utf8ByteSize then .error .nameTooLong
      else if NameMap.contains name entries then .error .entryExists
      else return { root := disk.root.put (name :: reached).reverse (.directory []) }
    | some (.file _) => .error .notDirectory
    | none => .error .noEntry

/-- What comes of making a directory, which may exist already. -/
def settle (disk : Disk) (start pieces : List String) :
    Except HostError Disk → Except HostError Unit × Disk
  | .ok made => (.ok (), made)
  | .error e => (if disk.isDirectory start pieces then .ok () else .error e, disk)

/-- Makes a directory. If its path leads through a missing one, those above are made first, and they
stay even if the directory itself then cannot be made. -/
def makeBelow (disk : Disk) (start pieces : List String)
    (makeAbove : Disk → Except HostError Unit × Disk) : Except HostError Unit × Disk :=
  match disk.makeDirectory start pieces with
  | .error .noEntry =>
    match makeAbove disk with
    | (.ok (), disk) => disk.settle start pieces (disk.makeDirectory start pieces)
    | (.error e, disk) => (.error e, disk)
  | made => disk.settle start pieces made

/-- Makes a directory and those above it, as far as they are missing. The last name comes first. -/
def makeNames (disk : Disk) (start : List String) : List String → Except HostError Unit × Disk
  | [] => (.ok (), disk)
  | name :: above =>
    disk.makeBelow start (name :: above).reverse fun disk => disk.makeNames start above

/-- Makes the directory at a path and those above it, as far as they are missing. Those above are
the ones that the names in the path stand for, so that a dot at the end leads into a directory that
nothing makes. -/
def makeDirectories (disk : Disk) (path : String) : Except HostError Unit × Disk :=
  if path = "" then (.ok (), disk)
  else
    match checkPath path with
    | .error e => (.error e, disk)
    | .ok () =>
      let pieces := Text.split '/' path
      let names := pieces.filter fun piece => piece ≠ "" ∧ piece ≠ "."
      disk.makeBelow (origin path) pieces fun disk =>
        disk.makeNames (origin path) names.reverse.tail

/-- The path of a name in a directory. -/
def inside (dir name : String) : String :=
  if dir = "" then name else if dir.endsWith "/" then dir ++ name else dir ++ "/" ++ name

/-- Writes a file in a directory, replacing one of the same name. -/
def write (disk : Disk) (dir name body : String) : Except HostError Disk := do
  checkPath (inside dir name)
  let place ← if dir = "" then .ok [startName] else disk.locate dir
  match disk.root.at? place with
  | some (.directory entries) =>
    if maxName < name.utf8ByteSize then .error .nameTooLong
    else
      match NameMap.find? name entries with
      | some (.directory _) => .error .isDirectory
      | _ => return { root := disk.root.put (place ++ [name]) (.file body) }
  | _ => .error .notDirectory

/-- The disk with one more file, or one more directory if the path ends in a slash. -/
def add (disk : Disk) (path body : String) : Disk :=
  if path.endsWith "/" then (disk.makeDirectories path).2
  else
    let (dir, name) := (Text.splitLast '/' path).getD ("", path)
    let made := (disk.makeDirectories dir).2
    (made.write dir name body).toOption.getD made

/-- The disk that holds the given files. -/
def ofFiles (files : List (String × String)) : Disk :=
  files.foldl (fun disk (path, body) => disk.add path body) {}

/-- All files below the directory that the shell was started in, with their paths. -/
def files (disk : Disk) : List (String × String) :=
  disk.start.files ""

end Disk

end MountShell
