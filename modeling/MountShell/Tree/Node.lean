import MountShell.NameMap
import MountShell.Path

/-!
# Nodes

A tree of directories and files. A file holds text, or the name of the program that it runs, or the
location of a body that lies elsewhere.

A tree is a plain value. No step builds it from a description: what the host describes, an index
says or a snapshot holds is the tree itself, of which only the order of the names is settled when it
is put together (`Node.dir`). For the same reason a node has no identity of its own. The node at the
end of a list of names is whatever the tree has there, and two handles are on one node just when
they are on one volume and have the same names. This is enough to speak of a node over time because
nodes are never removed or moved, and no file becomes a directory, so that the names from the root
stand for it for good; and because no node of one tree is shared with another place or another tree.

Main definitions: `Node.at?`, the node at the end of a list of names; `Node.update` and
`Node.addChild`, the changes of a tree; `Node.size`, the number of its nodes; and `Entry`, what is
shown of a node.
-/

namespace MountShell

/-- What a file holds. -/
inductive Content where
  | text (body : String)
  /-- The name of a program. -/
  | program (name : String)
  /-- The location of a body that is fetched when it is read. -/
  | remote (location : String)
  deriving DecidableEq, Repr

/-- Is the file one that can be run? -/
def Content.isProgram : Content → Bool
  | program _ => true
  | _ => false

/-- A directory or a file. -/
inductive Node where
  | directory (writeable : Bool) (children : List (String × Node))
  | file (writeable : Bool) (content : Content)
  deriving Repr

namespace Node

/-- A new file: empty and writeable. -/
def emptyFile : Node := file true (.text "")

/-- A file of text. -/
def text (body : String) (writeable : Bool := false) : Node := file writeable (.text body)

/-- A file that runs a program. -/
def program (name : String) : Node := file false (.program name)

/-- A file whose body lies elsewhere. -/
def remote (location : String) : Node := file false (.remote location)

/-- A directory with the given children. -/
def dir (children : List (String × Node)) (writeable : Bool := false) : Node :=
  directory writeable (NameMap.ofList children)

/-- The flag that allows changes. -/
def writeable : Node → Bool
  | directory w _ => w
  | file w _ => w

/-- The node with another flag. -/
def setWriteable (w : Bool) : Node → Node
  | directory _ children => directory w children
  | file _ content => file w content

/-- The program that the node runs, if it is such a file. -/
def program? : Node → Option String
  | file _ (.program name) => some name
  | _ => none

/-- The child of the given name. -/
def child? (name : String) : Node → Option Node
  | directory _ children => NameMap.find? name children
  | file _ _ => none

/-- The node at the end of a list of names. -/
def at? : Node → List String → Option Node
  | node, [] => some node
  | node, name :: names =>
    match node.child? name with
    | some child => child.at? names
    | none => none

/-- The tree with the node at the end of a list of names replaced by its image under `f`. -/
def update (f : Node → Node) : List String → Node → Node
  | [], node => f node
  | name :: names, directory w children =>
    directory w (NameMap.modify name (update f names) children)
  | _ :: _, file w content => file w content

/-- The node with one more child. -/
def addChild (name : String) (new : Node) : Node → Node
  | directory w children => directory w (NameMap.insert name new children)
  | file w content => file w content

mutual

/-- The number of nodes of a tree. -/
def size : Node → Nat
  | directory _ children => sizeOfAll children + 1
  | file _ _ => 1

/-- The number of nodes below the children of a directory, these included. -/
def sizeOfAll : List (String × Node) → Nat
  | [] => 0
  | (_, child) :: rest => child.size + sizeOfAll rest

end

end Node

/-- What is shown of a node, apart from its flag. -/
inductive EntryKind where
  /-- The names of the children, in increasing order. -/
  | directory (children : List String)
  | file (content : Content)
  deriving DecidableEq, Repr

/-- What is shown of a node at a path. -/
structure Entry where
  path : String
  name : String
  writeable : Bool
  kind : EntryKind
  deriving DecidableEq, Repr

namespace Entry

/-- What is shown of a node found at a path. -/
def ofNode (node : Node) (path : String) : Entry where
  path := path
  name := Path.basename path
  writeable := node.writeable
  kind :=
    match node with
    | .directory _ children => .directory (NameMap.names children)
    | .file _ content => .file content

/-- Is a directory shown? -/
def isDirectory (entry : Entry) : Bool :=
  match entry.kind with
  | .directory _ => true
  | .file _ => false

/-- The names of the children; a file has none. -/
def children (entry : Entry) : List String :=
  match entry.kind with
  | .directory names => names
  | .file _ => []

/-- The entry with further names among its children, if it shows a directory. -/
def addNames (entry : Entry) (names : List String) : Entry :=
  match entry.kind with
  | .directory own => { entry with kind := .directory (sortNames (own ++ names)) }
  | .file _ => entry

end Entry

end MountShell
