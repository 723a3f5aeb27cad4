import MountShell.Disk
import MountShell.Error
import MountShell.Tree.Node

/-!
# Outside the filesystem

What a host supplies to the filesystem: a fetcher for bodies that lie elsewhere and a store for
trees that are kept. Either works in memory or on the disk of the host. The locations that were
asked for and the number of writes to the store are kept count of.
-/

namespace MountShell

/-- Where remote bodies come from. -/
inductive Fetcher where
  /-- Bodies by location. -/
  | bodies (entries : List (String × String))
  /-- Files below a directory of the host. -/
  | directory (root : String)
  deriving Repr

/-- The path below the root of a directory fetcher that a location stands for. A scheme and a host
name in front do not count. -/
def Fetcher.localPath (location : String) : String :=
  let path :=
    match Text.splitAround "://".toList location.toList with
    | some (_, rest) => ((Text.splitOnceChars '/' rest).map Prod.snd).getD []
    | none => location.toList
  String.ofList (path.dropWhile (· = '/'))

/-- The body at a location, or why there is none. -/
def Fetcher.answer (fetcher : Fetcher) (disk : Disk) (location : String) :
    Except FetchError String :=
  match fetcher with
  | bodies entries =>
    match NameMap.find? location entries with
    | some body => .ok body
    | none => .error ⟨location, "404 not found"⟩
  | directory root =>
    match disk.read (Disk.inside root (Fetcher.localPath location)) with
    | .ok body => .ok body
    | .error e => .error ⟨location, e.message⟩

/-- Where kept texts go. -/
inductive Store where
  /-- Texts by key; reading and writing may be refused. -/
  | memory (entries : List (String × String)) (refuseGet refuseSet : Bool)
  /-- One file for each key in a directory of the host. -/
  | directory (dir : String)
  deriving Repr

/-- The name of the file for a key: letters, digits, hyphens and underscores of ASCII stay, and
every other character becomes an underscore. -/
def Store.fileName (key : String) : String :=
  let keep (c : Char) : Char := if c.isAlphanum || c = '-' || c = '_' then c else '_'
  String.ofList (key.toList.map keep) ++ ".json"

/-- What lies outside the filesystem. -/
structure Outside where
  disk : Disk := {}
  fetcher : Fetcher := .bodies []
  store : Store := .memory [] false false
  /-- The locations asked for, in order. -/
  asked : List String := []
  /-- The number of writes to the store, refused ones included. -/
  sets : Nat := 0

namespace Outside

/-- Fetches the body at a location. -/
def fetch (o : Outside) (location : String) : Except FetchError String × Outside :=
  (o.fetcher.answer o.disk location, { o with asked := o.asked ++ [location] })

/-- The text that the store holds under a key. -/
def stored (o : Outside) (key : String) : Except StoreError (Option String) :=
  match o.store with
  | .memory entries refuse _ =>
    if refuse then .error (.io key "refused") else .ok (NameMap.find? key entries)
  | .directory dir =>
    match o.disk.read (Disk.inside dir (Store.fileName key)) with
    | .ok body => .ok (some body)
    | .error .noEntry => .ok none
    | .error e => .error (.io key e.message)

/-- Puts a text into the store under a key. -/
def keep (o : Outside) (key body : String) : Except StoreError Unit × Outside :=
  let o := { o with sets := o.sets + 1 }
  match o.store with
  | .memory entries refuseGet refuse =>
    if refuse then (.error (.io key "refused"), o)
    else (.ok (), { o with store := .memory (NameMap.insert key body entries) refuseGet refuse })
  | .directory dir =>
    match o.disk.makeDirectories dir with
    | (.error e, disk) => (.error (.io key e.message), { o with disk })
    | (.ok (), disk) =>
      match disk.write dir (Store.fileName key) body with
      | .ok disk => (.ok (), { o with disk })
      | .error e => (.error (.io key e.message), { o with disk })

end Outside

/-- The text of a file found at a path; a remote body is fetched. -/
def Content.read (content : Content) (path : String) (o : Outside) :
    Except FsError String × Outside :=
  match content with
  | .text body => (.ok body, o)
  | .program _ => (.error (.permissionDenied (Path.basename path)), o)
  | .remote location =>
    match o.fetch location with
    | (.ok body, o) => (.ok body, o)
    | (.error e, o) => (.error (.fetch e), o)

/-- The text of what an entry shows. -/
def Entry.read (entry : Entry) (o : Outside) : Except FsError String × Outside :=
  match entry.kind with
  | .directory _ => (.error (.isADirectory entry.path), o)
  | .file content => content.read entry.path o

end MountShell
