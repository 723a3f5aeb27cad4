/-!
# Errors

What can go wrong, one type for each layer, and the text that reports it (`message`). An error of
the filesystem that reaches the shell becomes a `ShellError`, which has an exit code.
-/

namespace MountShell

/-- A remote resource could not be fetched. -/
structure FetchError where
  location : String
  reason : String
  deriving DecidableEq, Repr

/-- A store could not be read or written, or what it holds makes no sense. -/
inductive StoreError where
  | io (key reason : String)
  | corrupt (key reason : String)
  deriving DecidableEq, Repr

/-- An operation on the filesystem failed. -/
inductive FsError where
  /-- There is no node at a path. -/
  | notFound (path : String)
  /-- A file was taken for a directory. -/
  | notADirectory (path : String)
  /-- The parent directory is not writeable, or a file cannot be opened. -/
  | permissionDenied (name : String)
  /-- A new node would replace another one. -/
  | alreadyExists (path : String)
  /-- The handle has been closed before. -/
  | handleClosed
  /-- A handle for reading was written to, or a file that holds no text. -/
  | readOnly (path : String)
  /-- A directory was taken for a file. -/
  | isADirectory (path : String)
  | fetch (error : FetchError)
  | store (error : StoreError)
  deriving DecidableEq, Repr

/-- A command line could not be carried out as asked. -/
inductive ShellError where
  | commandNotFound (name : String)
  /-- A redirection has no effect. -/
  | redirectionUnavailable (target reason : String)
  | permissionDenied (name : String)
  | pathNotFound (path : String)
  | notADirectory (path : String)
  | fetchFailed (report : String)
  /-- Another command is running. -/
  | busy
  /-- A signal arrived while input was awaited. -/
  | interrupted
  /-- Any other failure of the filesystem. -/
  | filesystem (report : String)
  deriving DecidableEq, Repr

/-- The text of a failed fetch. -/
def FetchError.message (e : FetchError) : String :=
  "fetch " ++ e.location ++ " failed: " ++ e.reason

/-- The text of a failure of a store. -/
def StoreError.message : StoreError → String
  | io key reason => "store i/o error on " ++ key ++ ": " ++ reason
  | corrupt key reason => "corrupt snapshot under " ++ key ++ ": " ++ reason

/-- The text of a failure of the filesystem. -/
def FsError.message : FsError → String
  | notFound path => "no such file or directory: " ++ path
  | notADirectory path => "not a directory: " ++ path
  | permissionDenied name => "permission denied: " ++ name
  | alreadyExists path => "file exists: " ++ path
  | handleClosed => "handle closed"
  | readOnly path => "read-only: " ++ path
  | isADirectory path => "is a directory: " ++ path
  | fetch error => error.message
  | store error => error.message

namespace ShellError

/-- The text of a failure of the shell. -/
def message : ShellError → String
  | commandNotFound name => "Command not found: " ++ name
  | redirectionUnavailable target reason => target ++ ": " ++ reason
  | permissionDenied name => "permission denied: " ++ name
  | pathNotFound path => "no such file or directory: " ++ path
  | notADirectory path => "not a directory: " ++ path
  | fetchFailed report => report
  | busy => "shell is busy"
  | interrupted => "interrupted"
  | filesystem report => report

/-- The exit code of a command that fails in this way. -/
def exitCode : ShellError → Int
  | commandNotFound _ => 127
  | _ => 1

/-- The failure of the shell that a failure of the filesystem amounts to. -/
def ofFsError : FsError → ShellError
  | .notFound path => pathNotFound path
  | .notADirectory path => notADirectory path
  | .permissionDenied name => permissionDenied name
  | .fetch error => fetchFailed error.message
  | error => filesystem error.message

end ShellError

end MountShell
