import MountShell.Json.Document
import MountShell.Tree.Node

/-!
# Indexes of remote trees

A remote tree is described by a JSON document whose field `/` stands for the root. A string is a
file with that text, an object with an object under `children` is a directory, and anything else is
a file whose body lies at the location of the tree followed by the path of the file.
-/

namespace MountShell.Index

/-- The name of the document below the location of its tree. -/
def fileName : String := "_index.json"

mutual

/-- The node that a value stands for, at a path in a tree at a location. -/
def node (location path : String) : Json → Node
  | .text body => Node.text body
  | .object fields =>
    match children? location path fields with
    | some (some children) => Node.dir children
    | _ => Node.remote (location ++ path)
  | _ => Node.remote (location ++ path)

/-- The children of a directory, from the last of the fields that are named `children`; nothing
inside if that field is not an object. -/
def children? (location path : String) :
    List (String × Json) → Option (Option (List (String × Node)))
  | [] => none
  | (name, value) :: rest =>
    (children? location path rest).or <|
      if name = "children" then
        match value with
        | .object fields => some (some (nodes location path fields))
        | _ => some none
      else none

/-- The nodes that the fields of an object stand for. -/
def nodes (location path : String) : List (String × Json) → List (String × Node)
  | [] => []
  | (name, value) :: rest =>
    (name, node location (path ++ "/" ++ name) value) :: nodes location path rest

end

/-- The tree that a document describes, or what is wrong with it. -/
def read (location body : String) : Except String Node :=
  match Json.read body with
  | .error fault => .error ("malformed index: " ++ fault.message)
  | .ok document =>
    match document.field? "/" with
    | some root => .ok (node location "" root)
    | none => .error "malformed index: missing \"/\" entry"

end MountShell.Index
