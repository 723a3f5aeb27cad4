import MountShell.Json.Document
import MountShell.Tree.Node

/-!
# Snapshots

The part of a tree that can be kept: its directories and text files. A snapshot is taken of a node
(`Snapshot.capture`), turned into a node again (`Snapshot.restore`), and written as JSON and read
from it (`Snapshot.write`, `Snapshot.read`).

In JSON a node is an object whose field `type` says what it is, or a list of that and its other
fields in order. Below the root the type may also be given by its number.
-/

namespace MountShell

/-- A tree of directories and texts. -/
inductive Snapshot where
  | directory (writeable : Bool) (children : List (String × Snapshot))
  | file (writeable : Bool) (content : String)
  deriving Repr

namespace Snapshot

mutual

/-- The part of a node that can be kept; files that hold no text are left out. -/
def capture : Node → Option Snapshot
  | .directory w children => some (directory w (captureAll children))
  | .file w (.text body) => some (file w body)
  | .file _ _ => none

/-- The parts of the children of a directory that can be kept. -/
def captureAll : List (String × Node) → List (String × Snapshot)
  | [] => []
  | (name, child) :: rest =>
    match capture child with
    | some kept => (name, kept) :: captureAll rest
    | none => captureAll rest

end

mutual

/-- The node that a snapshot stands for. -/
def restore : Snapshot → Node
  | directory w children => .directory w (restoreAll children)
  | file w content => .file w (.text content)

/-- The nodes that the children of a directory stand for. -/
def restoreAll : List (String × Snapshot) → List (String × Node)
  | [] => []
  | (name, child) :: rest => (name, child.restore) :: restoreAll rest

end

mutual

/-- The JSON value of a snapshot. -/
def toJson : Snapshot → Json
  | directory w children =>
    .object [("type", .text "directory"), ("writeable", .bool w),
      ("children", .object (toJsonAll children))]
  | file w content =>
    .object [("type", .text "file"), ("writeable", .bool w), ("content", .text content)]

/-- The JSON fields of the children of a directory. -/
def toJsonAll : List (String × Snapshot) → List (String × Json)
  | [] => []
  | (name, child) :: rest => (name, child.toJson) :: toJsonAll rest

end

/-- The text of a snapshot. -/
def write (s : Snapshot) : String :=
  s.toJson.compact

/-- What a node of a snapshot is. -/
inductive Tag where
  | directory
  | file
  deriving DecidableEq, Repr

/-- Reads what a node is. -/
def Tag.ofJson? (top : Bool) : Json → Option Tag
  | .text "directory" => some directory
  | .text "file" => some file
  | .number (.whole 0) => if top then none else some directory
  | .number (.whole 1) => if top then none else some file
  | _ => none

/-- The value of a field that occurs exactly once. -/
def only? (name : String) (fields : List (String × Json)) : Option Json :=
  match fields.filter fun field => field.1 = name with
  | [(_, value)] => some value
  | _ => none

/-- The parts of a node of either form: its tag, its flag and its children or content. -/
def parts? (top : Bool) : Json → Option (Tag × Bool × Json)
  | .object fields => do
    let tag ← Tag.ofJson? top (← only? "type" fields)
    let .bool w ← only? "writeable" fields | none
    let value ← only? (if tag = .directory then "children" else "content") fields
    return (tag, w, value)
  | .list [tag, .bool w, value] => do
    let tag ← Tag.ofJson? top tag
    return (tag, w, value)
  | _ => none

/-- Reads a node in which at most `depth` nodes lie inside each other. -/
def ofJson? (top : Bool) : Nat → Json → Option Snapshot
  | 0, _ => none
  | depth + 1, json => do
    let (tag, w, value) ← parts? top json
    match tag, value with
    | .directory, .object fields =>
      let children ← fields.mapM fun (name, child) => do
        return (name, ← ofJson? false depth child)
      return directory w (NameMap.ofList children)
    | .file, .text content => return file w content
    | _, _ => none

/-- Reads the text of a snapshot. -/
def read (s : String) : Option Snapshot :=
  match Json.read s with
  | .ok json => ofJson? true (Json.maxDepth + 1) json
  | .error _ => none

end Snapshot

end MountShell
