import MountShell.Proofs.FileSystem.Listing
import MountShell.Proofs.FileSystem.Text
import MountShell.Proofs.Json.Takes
import MountShell.Proofs.Volume.Index

/-!
# What a remote tree makes a host fetch

The bodies of remote files are fetched from locations that an index leads to, and an index comes
from outside.  Still it cannot lead anywhere else: wherever in the tree a remote file stands, its
body lies at the location of the tree followed by the names that lead there (`Volume.Confined`), and
a path only leads along names without slashes other than `.` and `..`.  Nothing that is done to a
volume changes this, and no operation asks for anything but the index and the body of the file that
is read.

Main statements: `Volume.lasting_confined`, trees stay confined; and `FileSystemUse.remote_run`,
what an index denotes, and what is asked for when a path of a remote mount is read, at once or
through a file that has been opened.
-/

namespace MountShell

/-- What has been asked for since is allowed. -/
def Outside.Asks (allowed : String → Prop) (o later : Outside) : Prop :=
  ∃ more, later.asked = o.asked ++ more ∧ ∀ location ∈ more, allowed location

namespace Outside

variable {allowed : String → Prop} {o later : Outside}

theorem Asks.refl (allowed : String → Prop) (o : Outside) : Asks allowed o o :=
  ⟨[], (List.append_nil _).symm, fun _ hmem => absurd hmem List.not_mem_nil⟩

theorem Asks.trans {last : Outside} (h : Asks allowed o later) (hlast : Asks allowed later last) :
    Asks allowed o last := by
  obtain ⟨first, hfirst, hall⟩ := h
  obtain ⟨rest, hrest, hmore⟩ := hlast
  refine ⟨first ++ rest, ?_, List.forall_mem_append.2 ⟨hall, hmore⟩⟩
  rw [hrest, hfirst, List.append_assoc]

theorem Asks.imp {other : String → Prop} (h : Asks allowed o later)
    (himp : ∀ location, allowed location → other location) : Asks other o later := by
  obtain ⟨more, hmore, hall⟩ := h
  exact ⟨more, hmore, fun location hmem => himp location (hall location hmem)⟩

theorem asks_fetch (o : Outside) (location : String) :
    Asks (fun asked => asked = location) o (o.fetch location).2 :=
  ⟨[location], rfl, fun _ hmem => List.mem_singleton.1 hmem⟩

/-- Only the body of a remote file is asked for. -/
theorem asks_read (content : Content) (path : String) (o : Outside) :
    Asks (fun asked => content = .remote asked) o (content.read path o).2 := by
  cases content with
  | text body => exact .refl _ o
  | program name => exact .refl _ o
  | remote location =>
    have hfetch : (Content.read (.remote location) path o).2 = (o.fetch location).2 := by
      rw [Content.read]
      rcases o.fetch location with ⟨e | body, later⟩ <;> rfl
    rw [hfetch]
    exact (asks_fetch o location).imp fun _ heq => congrArg Content.remote heq.symm

end Outside

/-! ### Confined trees -/

namespace Volume

variable {v : Volume} {location : String}

/-- A remote tree that is there is the one of some index. -/
def Indexed (v : Volume) : Prop :=
  ∀ location root, v.backing = .index location → v.root = some root →
    ∃ value, root = Index.node location "" value

/-- The body of a remote file of a remote tree lies at the location of the tree followed by the
names that lead to the file. -/
def Confined (v : Volume) : Prop :=
  ∀ location, v.backing = .index location →
    ∀ names w place, (v.root.getD .emptyFile).at? names = some (.file w (.remote place)) →
      place = location ++ Path.below names

theorem Indexed.confined (h : v.Indexed) : v.Confined := by
  intro location hbacking names w place hat
  cases hroot : v.root with
  | some root =>
    obtain ⟨value, rfl⟩ := h location root hbacking hroot
    rw [hroot, Option.getD_some] at hat
    obtain ⟨entry, -, hdenotes⟩ := Index.denotes_of_at? hat
    rw [hdenotes.eq_of_remote, String.empty_append]
  | none =>
    rw [hroot, Option.getD_none, Node.emptyFile] at hat
    cases names with
    | nil => exact absurd hat (by simp [Node.at?_nil])
    | cons name rest => exact absurd hat (by simp [Node.at?_file_cons])

theorem indexed_of_made (h : v.Made) : v.Indexed := by
  intro location root hbacking hroot
  cases h with
  | remote place => exact absurd hroot (by simp [remote])
  | _ => exact absurd hbacking (by simp [supplied, scratch, kept])

theorem Confined.tree (h : v.Confined) (o : Outside) : (v.tree o).2.1.Confined := by
  unfold Volume.tree
  cases hroot : v.root with
  | some root => exact h
  | none =>
    cases hbacking : v.backing with
    | index place =>
      simp only []
      rcases o.fetch (indexLocation place) with ⟨e | body, later⟩
      · exact h
      · simp only []
        cases hread : Index.read place body with
        | error reason => exact h
        | ok root =>
          -- the new tree is that of the index, under the location that backs the volume
          refine Indexed.confined fun location found hsame hfound => ?_
          obtain rfl : place = location := Backing.index.inj hsame
          obtain rfl : root = found := Option.some.inj hfound
          exact Index.exists_of_read hread
    | _ => exact h

/-- A text that takes the place of a text leaves a tree confined. -/
theorem Confined.update (h : v.Confined) {segments : List String} {body : String}
    (hat : (v.root.getD .emptyFile).at? segments = some (.file true (.text body))) (text : String) :
    ({ v with root := some ((v.root.getD .emptyFile).update
      (fun _ => .file true (.text text)) segments) } : Volume).Confined := by
  intro location hbacking names w place hplace
  rw [Option.getD_some] at hplace
  by_cases hsame : names = segments
  · subst hsame
    rw [Node.at?_update _ hat] at hplace
    exact absurd hplace (by simp)
  · exact h location hbacking names w place (Node.at?_of_update hat rfl hplace hsame)

theorem Confined.acts {after : Volume} (h : v.Confined) (hacts : v.Acts after) :
    after.Confined := by
  have hremote : ∀ location, after.backing = .index location → v.isRemote = true := by
    intro location hbacking
    rw [hacts.backing] at hbacking
    rw [isRemote, hbacking]
  -- a volume that is not remote is confined in any case
  by_cases hindex : v.isRemote = true
  swap
  · exact fun location hbacking => absurd (hremote location hbacking) hindex
  cases hacts with
  | get path o =>
    rw [get_snd]
    exact h.tree o
  | create path o =>
    unfold Volume.create
    rw [if_pos hindex]
    exact h
  | openFile path mode o =>
    rw [(openFile_of_isRemote hindex path mode o).1]
    exact h.tree o
  | chmod path mode o =>
    unfold Volume.chmod
    rw [if_pos hindex]
    exact h
  | write handle data o =>
    unfold Volume.write
    cases hwrite : handle.write (v.root.getD .emptyFile) data with
    | error e => exact h
    | ok root =>
      obtain ⟨segments, body, -, -, -, hat, rfl⟩ := (FileHandle.write_eq_ok_iff _ _ _ _).1 hwrite
      exact h.update hat _
  | close handle o =>
    unfold Volume.close
    rw [FileHandle.close_eq]
    by_cases hclosed : handle.closed = true
    · rw [if_pos hclosed]
      exact h
    · rw [if_neg hclosed]
      cases hending : handle.ending? (v.root.getD .emptyFile) with
      | none => exact h
      | some root =>
        obtain ⟨segments, body, -, -, hat, rfl⟩ := (FileHandle.ending?_eq_some_iff _ _ _).1 hending
        exact h.update hat _

/-- Every volume as it is made is confined, and stays so whatever is done to it. -/
theorem lasting_confined : Lasting Confined where
  made hmade := (indexed_of_made hmade).confined
  acts h hacts := h.acts hacts

/-! ### What a volume asks for -/

/-- The tree of a remote volume needs the index. -/
theorem asks_tree (hbacking : v.backing = .index location) (o : Outside) :
    o.Asks (fun asked => asked = indexLocation location) (v.tree o).2.2 := by
  have hfetch := o.asks_fetch (indexLocation location)
  unfold Volume.tree
  cases v.root with
  | some root => exact .refl _ o
  | none =>
    simp only [hbacking]
    rcases hresult : o.fetch (indexLocation location) with ⟨e | body, later⟩
    · rw [hresult] at hfetch
      exact hfetch
    · rw [hresult] at hfetch
      simp only []
      cases Index.read location body <;> exact hfetch

/-- Reading through a handle on a node of a remote tree needs the body of that node. -/
theorem Confined.asks_read (h : v.Confined) (hbacking : v.backing = .index location)
    {handle : FileHandle} {segments : List String}
    (hbinding : ∀ own, handle.binding = .ok own → own = segments) (o : Outside) :
    o.Asks (fun asked => asked = location ++ Path.below segments) (v.read handle o).2 := by
  unfold Volume.read
  cases hcontent : handle.content (v.root.getD .emptyFile) with
  | error e => exact .refl _ o
  | ok content =>
    obtain ⟨own, w, hown, hat⟩ := FileHandle.at?_of_content hcontent
    obtain rfl := hbinding own hown
    refine (Outside.asks_read content handle.path o).imp ?_
    rintro place rfl
    exact h location hbacking own w place hat

end Volume

/-! ### What a filesystem asks for -/

namespace FileSystem

variable {fs : FileSystem} {path location : String} {place : Place}

/-- The segments of a path that remain below the point of a mount. -/
def Place.remaining (place : Place) (path : String) : List String :=
  (Path.segmentsOf path).drop place.mount.point.length

/-- The volume walks the segments that remain. -/
theorem walkSteps_of_locate (h : fs.locate path = .ok place) :
    Path.walkSteps place.inner = place.remaining path := by
  obtain ⟨m, -, rfl⟩ := locate_eq_ok_iff.1 h
  exact walkSteps_inner path m.point.length

theorem asks_node (h : fs.locate path = .ok place)
    (hbacking : (fs.volume place.mount.volume).backing = .index location) :
    fs.outside.Asks (fun asked => asked = Volume.indexLocation location)
      (fs.node path).2.outside := by
  rw [node_snd, h]
  simp only [Volume.get_snd]
  exact Volume.asks_tree hbacking fs.outside

theorem asks_openFile (h : fs.locate path = .ok place)
    (hbacking : (fs.volume place.mount.volume).backing = .index location) (mode : OpenMode) :
    fs.outside.Asks (fun asked => asked = Volume.indexLocation location)
      (fs.openFile path mode).2.outside := by
  have hremote : (fs.volume place.mount.volume).isRemote = true := by
    rw [Volume.isRemote, hbacking]
  rw [openFile_snd h]
  by_cases hrefused : (place.mount.flags.readOnly && mode.isWrite) = true
  · rw [if_pos hrefused]
    exact .refl _ fs.outside
  · rw [if_neg hrefused]
    simp only [(Volume.openFile_of_isRemote hremote place.inner mode fs.outside).1]
    exact Volume.asks_tree hbacking fs.outside

/-- A remote file that is found lies where its volume is, at the path that remains. -/
theorem eq_of_found (hconfined : (fs.volume place.mount.volume).Confined)
    (h : fs.locate path = .ok place)
    (hbacking : (fs.volume place.mount.volume).backing = .index location) {w : Bool}
    {asked : String}
    (hfound : ((fs.volume place.mount.volume).get place.inner fs.outside).1 =
      .ok (.file w (.remote asked))) :
    asked = location ++ Path.below (place.remaining path) := by
  obtain ⟨root, hroot, hwalk⟩ := Volume.root_of_get hfound
  have hacts := Volume.Acts.get (v := fs.volume place.mount.volume) place.inner fs.outside
  rw [Tree.walk_eq_ok_iff, walkSteps_of_locate h] at hwalk
  refine hconfined.acts hacts location (hacts.backing.trans hbacking) _ w asked ?_
  rw [hroot]
  exact hwalk

/-- Reading a path of a remote mount asks for its index and for the body at the path. -/
theorem asks_readText (hconfined : (fs.volume place.mount.volume).Confined)
    (h : fs.locate path = .ok place)
    (hbacking : (fs.volume place.mount.volume).backing = .index location) :
    fs.outside.Asks
      (fun asked => asked = Volume.indexLocation location ∨
        asked = location ++ Path.below (place.remaining path))
      (fs.readText path).2.outside := by
  have hindex : fs.outside.Asks
      (fun asked => asked = Volume.indexLocation location ∨
        asked = location ++ Path.below (place.remaining path))
      (fs.node path).2.outside := (asks_node h hbacking).imp fun _ => .inl
  have hget := get_of_locate h
  rw [← get_snd] at hindex
  unfold readText
  rcases hresult : fs.get path with ⟨e | entry, after⟩
  · rw [hresult] at hindex
    exact hindex
  · -- the entry is the node at the path, and its content lies where the index has it
    rw [hresult] at hindex hget
    refine hindex.trans ?_
    cases hnode : ((fs.volume place.mount.volume).get place.inner fs.outside).1 with
    | error e =>
      rw [hnode] at hget
      exact absurd hget (by simp [Except.map])
    | ok node =>
      rw [hnode] at hget
      obtain rfl := Except.ok.inj hget
      cases node with
      | directory w children => exact .refl _ after.outside
      | file w content =>
        refine (Outside.asks_read content _ after.outside).imp fun asked hasked => .inr ?_
        subst hasked
        exact eq_of_found hconfined h hbacking hnode

end FileSystem

/-! ### Histories -/

namespace FileSystemUse

variable {u : FileSystemUse} {path location : String} {place : FileSystem.Place}

/-- What is asked for when a path is read that leads to a remote tree at a location: its index, or
the body of the file at the path, which lies at the location followed by the segments that remain
of the path. -/
structure AsksWithin (u : FileSystemUse) : Prop where
  /-- When the text at a path is read at once. -/
  text : ∀ path place location, u.fs.locate path = .ok place →
    (u.fs.volume place.mount.volume).backing = .index location →
    u.fs.outside.Asks
      (fun asked => asked = Volume.indexLocation location ∨
        asked = location ++ Path.below (place.remaining path))
      (u.fs.readText path).2.outside
  /-- When the file at a path is opened. -/
  opened : ∀ path place location mode, u.fs.locate path = .ok place →
    (u.fs.volume place.mount.volume).backing = .index location →
    u.fs.outside.Asks (fun asked => asked = Volume.indexLocation location)
      (u.fs.openFile path mode).2.outside
  /-- When it is read later, whatever has happened in between. -/
  read : ∀ path place location mode later file, u.fs.locate path = .ok place →
    (u.fs.volume place.mount.volume).backing = .index location →
    (∀ entry v, .mount entry v ∈ later → v.Indexed) →
    ((u.perform (.openFile path mode)).run later).files[u.files.length]? = some file →
    let fs := ((u.perform (.openFile path mode)).run later).fs
    fs.outside.Asks (fun asked => asked = location ++ Path.below (place.remaining path))
      (fs.read file).2.outside

/-- A file that has been opened on a remote tree is read from there. -/
theorem asks_read_later (hwell : u.WellMounted) (hconfined : ∀ v ∈ u.fs.volumes, v.Confined)
    (hlocate : u.fs.locate path = .ok place)
    (hbacking : (u.fs.volume place.mount.volume).backing = .index location) {mode : OpenMode}
    {later : List FileSystemEvent} {file : OpenFile}
    (hmounts : ∀ entry v, .mount entry v ∈ later → v.Indexed)
    (hfile : ((u.perform (.openFile path mode)).run later).files[u.files.length]? = some file) :
    ((u.perform (.openFile path mode)).run later).fs.outside.Asks
      (fun asked => asked = location ++ Path.below (place.remaining path))
      (((u.perform (.openFile path mode)).run later).fs.read file).2.outside := by
  obtain ⟨same, hsame, hvolume, hbinding⟩ := files_run (files_openFile u path mode) later
  obtain rfl : same = file := Option.some.inj (hsame.symm.trans hfile)
  rcases u.fs.openFile_fst path mode with ⟨other, hother, hfst⟩ | ⟨i, reported, e, hfailed⟩
  · obtain rfl : place = other := Except.ok.inj (hlocate.symm.trans hother)
    rw [hfst] at hvolume hbinding
    have hlt := hwell.below _ (FileSystem.mem_of_locate hlocate)
    obtain ⟨hlt, hkept⟩ := backing_after hlt (.op (.openFile path mode))
    have hlater := (backing_run hlt later).trans (hkept.trans hbacking)
    have hall := forall_run Volume.lasting_confined
      (forall_perform Volume.lasting_confined hconfined (.openFile path mode))
      fun entry v hv => (hmounts entry v hv).confined
    refine Volume.Confined.asks_read (FileSystem.forall_volume Volume.lasting_confined hall _)
      (hvolume ▸ hlater) (fun own hown => ?_) _
    rw [hbinding] at hown
    rw [← FileSystem.walkSteps_of_locate hlocate]
    exact (Except.ok.inj hown).symm
  · have hnothing : ((u.perform (.openFile path mode)).run later).fs.read same =
        (.error e, ((u.perform (.openFile path mode)).run later).fs) := by
      rw [hfailed] at hbinding
      unfold FileSystem.read Volume.read FileHandle.content
      rw [hbinding]
      rfl
    rw [hnothing]
    exact .refl _ _

/-- What an index denotes, on a volume whose index can be fetched and read; and that, whatever an
index says, and whatever is mounted and done, nothing but the index and the body of the file that is
read is asked for. -/
theorem remote_run :
    (∀ (location body : String) (document value : Json) (o : Outside),
      Json.read body = .ok document → document.field? "/" = some value →
      o.fetcher.answer o.disk (Volume.indexLocation (Path.trimSlashes location)) = .ok body →
      (Volume.remote location).Shows (Path.trimSlashes location) value o ∧
        ∀ path later, ((Volume.remote location).get path o).2.1.Shows
          (Path.trimSlashes location) value later) ∧
    ∀ (entries : List FstabEntry) (devices : Devices) (o : Outside)
      (events : List FileSystemEvent), (∀ entry v, .mount entry v ∈ events → v.Indexed) →
      ((start entries devices o).run events).AsksWithin := by
  refine ⟨fun location body document value o hread hroot hfetch =>
    Volume.shows_remote hread hroot hfetch, fun entries devices o events hmounts => ?_⟩
  have hwell := (wellMounted_start entries devices o).run events
  have hconfined := forall_run Volume.lasting_confined
    (forall_start Volume.lasting_confined entries devices o)
    fun entry v hv => (hmounts entry v hv).confined
  refine ⟨fun path place location hlocate hbacking => ?_,
    fun path place location mode hlocate hbacking =>
      FileSystem.asks_openFile hlocate hbacking mode,
    fun path place location mode later file hlocate hbacking hlater hfile =>
      asks_read_later hwell hconfined hlocate hbacking hlater hfile⟩
  exact FileSystem.asks_readText
    (FileSystem.forall_volume Volume.lasting_confined hconfined _) hlocate hbacking

/-! ### An index that tries to lead elsewhere -/

/-- An index with a key for the way up and one with a slash in it. -/
def hostileIndex : Json :=
  .object [("/", .object [("children", .object [("..", .object []), ("a/b", .object []),
    ("d", .object [("children", .object [("e", .bool true)])])])])]

theorem plainWithin_hostileIndex : hostileIndex.PlainWithin Json.maxDepth := by
  have hfile : ∀ depth, (Json.object []).PlainWithin (depth + 1) := fun _ =>
    .object fun field hfield => absurd hfield List.not_mem_nil
  refine .object fun field hfield => ?_
  obtain rfl := List.mem_singleton.1 hfield
  refine .object fun field hfield => ?_
  obtain rfl := List.mem_singleton.1 hfield
  refine .object fun field hfield => ?_
  simp only [List.mem_cons, List.not_mem_nil, or_false] at hfield
  rcases hfield with rfl | rfl | rfl
  · exact hfile _
  · exact hfile _
  · refine .object fun field hfield => ?_
    obtain rfl := List.mem_singleton.1 hfield
    refine .object fun field hfield => ?_
    obtain rfl := List.mem_singleton.1 hfield
    exact .bool true

/-- A host that has this index. -/
def hostileHost : Outside where
  fetcher := .bodies [("far/_index.json", hostileIndex.compact)]

/-- The tree of the index is mounted. -/
def hostileMounted : FileSystemUse :=
  (start [] {} hostileHost).run
    [.mount { device := "far/", mountPoint := "/r", typeName := "" } (.remote "far/")]

/-- Where the path of the file `e` leads. -/
def hostilePlace : FileSystem.Place where
  mount :=
    { device := "far/", path := "/r", resolved := by decide +kernel, fsType := .remote,
      options := "", flags := MountOptions.parse "", volume := 1 }
  full := "/r/d/e"
  inner := "/d/e"

/-- The file has been opened and everything been mounted anew. -/
def hostileRemounted : FileSystemUse :=
  (hostileMounted.perform (.openFile "/r/d/e" .read)).run [.remount [] {}]

/-- The file `e` is found; nothing is found at `a/b`, which is a key but no path; and reading the
file asks for nothing but the index and its body, also when it has been opened before and its path
leads to another mount by now. -/
theorem remote_hostile :
    (∃ node, ((Volume.remote "far/").get "/d/e" hostileHost).1 = .ok node ∧
      Index.Denotes "far/d/e" (.bool true) node) ∧
    (∃ e, ((Volume.remote "far/").get "/a/b" hostileHost).1 = .error e) ∧
    hostileMounted.fs.outside.Asks (fun asked => asked = "far/_index.json" ∨ asked = "far/d/e")
      (hostileMounted.fs.readText "/r/d/e").2.outside ∧
    (hostileRemounted.fs.locate "/r/d/e").toOption.map (fun place => place.mount.point) =
      some [] ∧
    ∃ file, hostileRemounted.files[hostileMounted.files.length]? = some file ∧
      hostileRemounted.fs.outside.Asks (fun asked => asked = "far/d/e")
        (hostileRemounted.fs.read file).2.outside := by
  have hfetch : hostileHost.fetcher.answer hostileHost.disk
      (Volume.indexLocation (Path.trimSlashes "far/")) = .ok hostileIndex.compact := rfl
  obtain ⟨⟨hfound, hmissing⟩, -⟩ := remote_run.1 "far/" hostileIndex.compact hostileIndex _
    hostileHost (Json.read_compact plainWithin_hostileIndex) rfl hfetch
  have hwithin : hostileMounted.AsksWithin := by
    refine remote_run.2 [] {} hostileHost _ fun entry v hv => ?_
    obtain ⟨-, rfl⟩ := FileSystemEvent.mount.inj (List.mem_singleton.1 hv)
    exact Volume.indexed_of_made (.remote "far/")
  have hlocate : hostileMounted.fs.locate "/r/d/e" = .ok hostilePlace := by
    have hfound : (hostileMounted.fs.locate "/r/d/e").toOption = some hostilePlace := by
      decide +kernel
    rcases hresult : hostileMounted.fs.locate "/r/d/e" with e | place <;> rw [hresult] at hfound
    · exact absurd hfound (by simp [Except.toOption])
    · exact congrArg Except.ok (Option.some.inj hfound)
  have hbacking : (hostileMounted.fs.volume hostilePlace.mount.volume).backing = .index "far" := rfl
  have hremaining : hostilePlace.remaining "/r/d/e" = ["d", "e"] := by decide +kernel
  have hbody : "far" ++ Path.below ["d", "e"] = "far/d/e" := by decide +kernel
  have hindex : Volume.indexLocation "far" = "far/_index.json" := by decide +kernel
  refine ⟨?_, ?_, ?_, ?_, ?_⟩
  · have hnode := hfound ["d", "e"] (.bool true) (by decide) rfl
    have htrim : Path.trimSlashes "far/" = "far" := by decide +kernel
    have hpath : Path.ofSegments ["d", "e"] = "/d/e" := by decide +kernel
    rwa [htrim, hbody, hpath] at hnode
  · have hnone := hmissing ["a", "b"] (by decide) rfl
    have hpath : Path.ofSegments ["a", "b"] = "/a/b" := by decide +kernel
    rwa [hpath] at hnone
  · have htext := hwithin.text "/r/d/e" hostilePlace "far" hlocate hbacking
    rwa [hremaining, hbody, hindex] at htext
  · decide +kernel
  · obtain ⟨file, hfile, -⟩ :=
      files_run (files_openFile hostileMounted "/r/d/e" .read) [.remount [] {}]
    have hread := hwithin.read "/r/d/e" hostilePlace "far" .read [.remount [] {}] file hlocate
      hbacking (fun entry v hv => absurd hv (by simp)) hfile
    rw [hremaining, hbody] at hread
    exact ⟨file, hfile, hread⟩

end FileSystemUse

end MountShell
