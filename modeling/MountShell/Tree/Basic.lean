import MountShell.Error
import MountShell.Tree.Node

/-!
# Operations on a tree

Finding and creating nodes by their paths. A path is followed from the root; empty pieces and `.`
are passed over, and a piece `..` is a name like any other. Each operation that changes a tree gives
the new tree.
-/

namespace MountShell.Tree

/-- The node at the end of the steps of a walk, after the steps `walked`. The walk ends early at a
child that is missing or at a file that is taken for a directory. -/
def follow (path : String) : Node → List String → List String → Except FsError Node
  | node, _, [] => .ok node
  | .directory _ children, walked, name :: names =>
    match NameMap.find? name children with
    | some child => follow path child (walked ++ [name]) names
    | none => .error (.notFound path)
  | .file _ _, walked, _ :: _ => .error (.notADirectory (Path.ofSegments walked))

/-- The node at a path. -/
def walk (root : Node) (path : String) : Except FsError Node :=
  follow path root [] (Path.walkSteps path)

/-- What is shown of the node at a path. -/
def look (root : Node) (path : String) : Except FsError Entry :=
  match walk root path with
  | .ok node => .ok (Entry.ofNode node path)
  | .error e => .error e

/-- The tree with a new node at a path. The parent has to be a writeable directory without a child
of that name. -/
def create (root : Node) (path : String) (new : Node) : Except FsError Node :=
  let (parent, name) := Path.splitParent path
  if name = "" ∨ name = "." ∨ name = ".." then .error (.alreadyExists path)
  else
    match walk root parent with
    | .error e => .error e
    | .ok (.file _ _) => .error (.notADirectory parent)
    | .ok (.directory writeable children) =>
      if !writeable then .error (.permissionDenied name)
      else if NameMap.contains name children then .error (.alreadyExists path)
      else .ok (root.update (Node.addChild name new) (Path.walkSteps parent))

/-- The flag that a mode asks for: `+w` somewhere in it sets the flag, else `-w` clears it. -/
def modeFlag? (mode : String) : Option Bool :=
  if Text.occursIn ['+', 'w'] mode.toList then some true
  else if Text.occursIn ['-', 'w'] mode.toList then some false
  else none

/-- The tree with the flag of the node at a path set or cleared; nothing if there is no such node or
the mode asks for no flag. -/
def chmod (root : Node) (path mode : String) : Option Node :=
  match modeFlag? mode, walk root path with
  | some w, .ok _ => some (root.update (Node.setWriteable w) (Path.walkSteps path))
  | _, _ => none

end MountShell.Tree
