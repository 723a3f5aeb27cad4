import MountShell.Tree.Basic

/-!
# File handles

A handle binds a node of a tree to a mode. Handles for writing end the file with a newline when they
are closed; a handle can be closed only once. A handle that failed to open is closed from the start
and tells why.

Main definitions: `Tree.openFile`, and `FileHandle.write` and `FileHandle.close`, which give the
changed tree. Reading is `FileHandle.content`, which gives what has to be read.
-/

namespace MountShell

/-- How a file is opened. -/
inductive OpenMode where
  | read
  | append
  | overwrite
  /-- Opening failed. -/
  | failed
  deriving DecidableEq, Repr

/-- Can a handle of the mode be written to? -/
def OpenMode.isWrite : OpenMode → Bool
  | append | overwrite => true
  | read | failed => false

/-- A node of a tree together with the way it is used. -/
structure FileHandle where
  /-- The path that is reported. -/
  path : String
  mode : OpenMode
  closed : Bool
  /-- The names from the root to the node, or why opening failed. -/
  binding : Except FsError (List String)

namespace FileHandle

/-- A handle on the node at the end of a list of names. -/
def ofNode (segments : List String) (path : String) (mode : OpenMode) : FileHandle where
  path := path
  mode := mode
  closed := false
  binding := .ok segments

/-- A handle that failed to open. -/
def failed (path : String) (error : FsError) : FileHandle where
  path := path
  mode := .failed
  closed := true
  binding := .error error

/-- Does the handle only tell about a failure? -/
def isError (h : FileHandle) : Bool :=
  h.mode = .failed

/-- Why opening failed. -/
def errorMessage (h : FileHandle) : Option String :=
  match h.binding with
  | .error e => some e.message
  | .ok _ => none

/-- The node that the handle is bound to. -/
def node? (h : FileHandle) (root : Node) : Option Node :=
  match h.binding with
  | .ok segments => root.at? segments
  | .error _ => none

/-- The content that is read through the handle. -/
def content (h : FileHandle) (root : Node) : Except FsError Content :=
  match h.binding with
  | .error e => .error e
  | .ok segments =>
    if h.closed then .error .handleClosed
    else
      match root.at? segments with
      | none => .error .handleClosed
      | some (.directory _ _) => .error (.isADirectory h.path)
      | some (.file _ content) => .ok content

/-- The text after data has been written to it. -/
def writeText (mode : OpenMode) (body data : String) : String :=
  match mode with
  | .overwrite => data
  | _ => body ++ data

/-- Writes to the file. Overwriting replaces the whole text, appending adds to its end. -/
def write (h : FileHandle) (root : Node) (data : String) : Except FsError Node :=
  match h.binding with
  | .error e => .error e
  | .ok segments =>
    if h.closed then .error .handleClosed
    else if !h.mode.isWrite then .error (.readOnly h.path)
    else
      match root.at? segments with
      | none => .error .handleClosed
      | some (.directory _ _) => .error (.isADirectory h.path)
      | some (.file writeable content) =>
        if !writeable then .error (.permissionDenied (Path.basename h.path))
        else
          match content with
          | .text body =>
            .ok (root.update (fun _ => .file true (.text (writeText h.mode body data))) segments)
          | _ => .error (.readOnly h.path)

/-- Closes the handle. The tree is given if it changes, which is when a writeable text is ended with
a newline. -/
def close (h : FileHandle) (root : Node) : Except FsError (FileHandle × Option Node) :=
  if h.closed then .error .handleClosed
  else
    let closed := { h with closed := true }
    match h.binding with
    | .error _ => .ok (closed, none)
    | .ok segments =>
      match h.mode.isWrite, root.at? segments with
      | true, some (.file true (.text body)) =>
        .ok (closed, some (root.update (fun _ => .file true (.text (body ++ "\n"))) segments))
      | _, _ => .ok (closed, none)

end FileHandle

/-- Opens the file at a path, creating it if it is missing. The tree is given if it changes. -/
def Tree.openFile (root : Node) (path : String) (mode : OpenMode) : FileHandle × Option Node :=
  let refused := FileHandle.failed path (.permissionDenied (Path.basename path))
  let segments := Path.walkSteps path
  match walk root path with
  | .ok _ => (.ofNode segments path mode, none)
  | .error (.notFound _) =>
    match create root path .emptyFile with
    | .ok root => (.ofNode segments path mode, some root)
    | .error _ => (refused, none)
  | .error _ => (refused, none)

end MountShell
