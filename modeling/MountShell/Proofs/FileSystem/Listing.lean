import MountShell.Proofs.FileSystem.Routing
import MountShell.Proofs.FileSystem.Volumes
import MountShell.Proofs.Text.ByteOrder
import MountShell.Proofs.Tree.Update

/-!
# Listings

The children that are listed for a directory are those of its node and the mount points right below
it. A lookup of a child goes another way: it finds the mount with the longest point for the longer
path. The two agree (`FileSystem.Tabled.mem_children_iff`): a name is listed just when looking it up
below the directory finds something, or a mount right there whose tree cannot be fetched.

This needs the tree of every volume to be there, unless it has still to be fetched
(`Volume.Rooted`). It is so for all volumes that can be made, and all that is done to them keeps it.

Main statement: `FileSystemUse.listing_run`.
-/

namespace MountShell

namespace Volume

/-- A volume without a tree is one whose tree has still to be fetched. -/
def Rooted (v : Volume) : Prop :=
  v.root = none → v.isRemote = true

theorem rooted_of_root {v : Volume} {root : Node} (h : v.root = some root) : v.Rooted :=
  fun hnone => absurd (hnone.symm.trans h) (by simp)

theorem Rooted.loads {v after : Volume} (h : v.Rooted) (hloads : v.Loads after) :
    after.Rooted := by
  rcases hloads with rfl | ⟨-, root, -, rfl⟩
  · exact h
  · exact rooted_of_root rfl

theorem Rooted.create {v : Volume} (h : v.Rooted) (path : String) (o : Outside) :
    (v.create path o).2.1.Rooted := by
  have htree := h.loads (tree_loads v o).1
  unfold Volume.create
  by_cases hremote : v.isRemote = true
  · rw [if_pos hremote]
    exact h
  · rw [if_neg hremote]
    rcases hresult : v.tree o with ⟨result | root, loaded, later⟩
    · rw [hresult] at htree
      exact htree
    · rw [hresult] at htree
      simp only []
      cases Tree.create root path .emptyFile with
      | error e => exact htree
      | ok made => exact rooted_of_root rfl

theorem Rooted.openFile {v : Volume} (h : v.Rooted) (path : String) (mode : OpenMode)
    (o : Outside) : (v.openFile path mode o).2.1.Rooted := by
  rcases v.openFile_cases path mode o with ⟨-, hloads, -⟩ | ⟨-, _, made, -, -, hmade, -⟩
  · exact h.loads hloads
  · rw [hmade]
    exact rooted_of_root rfl

theorem Rooted.chmod {v : Volume} (h : v.Rooted) (path mode : String) (o : Outside) :
    (v.chmod path mode o).2.1.Rooted := by
  unfold Volume.chmod
  by_cases hremote : v.isRemote = true
  · rw [if_pos hremote]
    exact h
  · rw [if_neg hremote]
    cases v.root.bind fun root => Tree.chmod root path mode with
    | none => exact h
    | some changed => exact rooted_of_root rfl

theorem Rooted.write {v : Volume} (h : v.Rooted) (handle : FileHandle) (data : String)
    (o : Outside) : (v.write handle data o).2.1.Rooted := by
  unfold Volume.write
  cases handle.write (v.root.getD .emptyFile) data with
  | error e => exact h
  | ok changed => exact rooted_of_root rfl

theorem Rooted.close {v : Volume} (h : v.Rooted) (handle : FileHandle) (o : Outside) :
    (v.close handle o).2.1.Rooted := by
  unfold Volume.close
  rcases handle.close (v.root.getD .emptyFile) with e | ⟨closed, _ | changed⟩
  · exact h
  · exact h
  · exact rooted_of_root rfl

theorem rooted_remote (location : String) : (remote location).Rooted :=
  fun _ => rfl

/-- Every volume as it is made has its tree or has still to fetch it, and no operation takes a tree
away. -/
theorem lasting_rooted : Lasting Rooted where
  made hmade := by
    cases hmade with
    | remote location => exact rooted_remote location
    | _ => exact rooted_of_root rfl
  acts h hacts := by
    cases hacts with
    | get path o => exact h.loads (get_loads _ path o).1
    | create path o => exact h.create path o
    | openFile path mode o => exact h.openFile path mode o
    | chmod path mode o => exact h.chmod path mode o
    | write handle data o => exact h.write handle data o
    | close handle o => exact h.close handle o

/-- A tree that has still to be fetched is fetched, or the fetch fails. -/
theorem Rooted.tree_cases {v : Volume} (h : v.Rooted) (o : Outside) :
    (∃ root, (v.tree o).1 = .ok root) ∨
      (∃ e, (v.tree o).1 = .error (.fetch e)) ∧ v.root = none ∧ v.isRemote = true := by
  rcases Option.eq_none_or_eq_some v.root with hroot | ⟨root, hroot⟩
  · have hremote := h hroot
    cases hbacking : v.backing with
    | index location =>
      unfold tree
      simp only [hroot, hbacking]
      rcases o.fetch (indexLocation location) with ⟨e | body, later⟩
      · exact Or.inr ⟨⟨e, rfl⟩, trivial, hremote⟩
      · simp only []
        cases Index.read location body with
        | error reason => exact Or.inr ⟨⟨_, rfl⟩, trivial, hremote⟩
        | ok root => exact Or.inl ⟨root, rfl⟩
    | _ => exact absurd hremote (by simp [isRemote, hbacking])
  · exact Or.inl ⟨root, by rw [tree_of_root hroot]⟩

/-- What is found is found in the tree of the volume, which is there from then on. -/
theorem root_of_get {v : Volume} {path : String} {o : Outside} {node : Node}
    (h : (v.get path o).1 = .ok node) :
    ∃ root, (v.get path o).2.1.root = some root ∧ Tree.walk root path = .ok node := by
  unfold get at h ⊢
  rcases hresult : v.tree o with ⟨e | root, after, later⟩
  · rw [hresult] at h
    exact absurd h (by simp)
  · rw [hresult] at h
    exact ⟨root, root_of_tree hresult, h⟩

end Volume

namespace Tree

/-- A walk that fails finds something missing or a file, it fetches nothing. -/
theorem walk_ne_fetch (root : Node) (path : String) (e : FetchError) :
    walk root path ≠ .error (.fetch e) := by
  have hfollow : ∀ (names : List String) (node : Node) (walked : List String),
      follow path node walked names ≠ .error (.fetch e) := by
    intro names
    induction names with
    | nil =>
      intro node walked
      cases node <;> simp [follow]
    | cons name names ih =>
      intro node walked
      cases node with
      | file w content => simp [follow]
      | directory w children =>
        rw [follow]
        cases NameMap.find? name children with
        | none => simp
        | some child => exact ih child _
  exact hfollow _ root []

/-- The children of a directory are what a walk of one more step finds. -/
theorem isOk_walk_child_iff {root : Node} {names : List String} {w : Bool}
    {children : List (String × Node)} (hat : root.at? names = some (.directory w children))
    {path name : String} (hsteps : Path.walkSteps path = names ++ [name]) :
    (∃ node, walk root path = .ok node) ↔ name ∈ NameMap.names children := by
  have hchild : root.at? (names ++ [name]) = NameMap.find? name children := by
    rw [Node.at?_append, hat, Option.bind_some, Node.at?_cons, Node.child?]
    cases NameMap.find? name children with
    | none => rfl
    | some child => exact Node.at?_nil child
  rw [← NameMap.contains_iff_mem_names, NameMap.contains, Option.isSome_iff_exists, ← hchild,
    ← hsteps]
  exact exists_congr fun node => walk_eq_ok_iff root node path

end Tree

namespace FileSystem

/-- Every volume has its tree, or has still to fetch it. -/
def Rooted (fs : FileSystem) : Prop :=
  ∀ v ∈ fs.volumes, v.Rooted

/-! ### The way to a child -/

variable {fs after : FileSystem} {path name : String}

/-- The mount with the longest point is the one that a path leads to. -/
theorem Tabled.locate_eq (h : Tabled fs.mounts) {m : Mount}
    (hlongest : IsLongest (Path.segmentsOf path) fs.mounts m) :
    fs.locate path = .ok
      { mount := m
        full := Path.resolve path
        inner := Path.ofSegments ((Path.segmentsOf path).drop m.point.length) } := by
  obtain ⟨found, hfound, honly⟩ := h.longest (Path.segmentsOf path)
  obtain rfl := (honly m).2 hlongest
  rw [FileSystem.locate_eq, hfound]

/-- A path that is a mount point leads to the mount there. -/
theorem isLongest_of_point_eq {segments : List String} {mounts : List Mount} {m : Mount}
    (hm : m ∈ mounts) (hpoint : m.point = segments) : IsLongest segments mounts m := by
  refine ⟨hm, hpoint ▸ List.prefix_refl _, fun other _ hbegins => ?_⟩
  rw [hpoint]
  exact hbegins.length_le

/-- Where nothing is mounted at a child, it belongs to the mount of its parent. -/
theorem IsLongest.child {segments : List String} {mounts : List Mount} {m : Mount}
    (h : IsLongest segments mounts m) (hnone : ∀ other ∈ mounts, other.point ≠ segments ++ [name]) :
    IsLongest (segments ++ [name]) mounts m := by
  obtain ⟨hm, hbegins, hlongest⟩ := h
  refine ⟨hm, hbegins.trans (List.prefix_append _ _), fun other hother hlonger => ?_⟩
  rcases List.prefix_concat_iff.1 hlonger with heq | hshorter
  · exact absurd heq (hnone other hother)
  · exact hlongest other hother hshorter

/-- Looking a path up gives what its volume gives. -/
theorem get_of_locate {place : Place} (h : fs.locate path = .ok place) :
    (fs.get path).1 =
      ((fs.volume place.mount.volume).get place.inner fs.outside).1.map fun node =>
        (Entry.ofNode node (Path.resolve path)).addNames
          (fs.pointsBelow (Path.resolve path)) := by
  unfold get node
  rw [h]
  simp only []
  rcases (fs.volume place.mount.volume).get place.inner fs.outside with ⟨e | node, v, o⟩ <;> rfl

theorem ok_iff_of_locate {place : Place} (h : fs.locate path = .ok place) :
    (∃ shown, (fs.get path).1 = .ok shown) ↔
      ∃ node, ((fs.volume place.mount.volume).get place.inner fs.outside).1 = .ok node := by
  rw [get_of_locate h]
  cases ((fs.volume place.mount.volume).get place.inner fs.outside).1 <;> simp [Except.map]

theorem error_iff_of_locate {place : Place} (h : fs.locate path = .ok place) (e : FsError) :
    (fs.get path).1 = .error e ↔
      ((fs.volume place.mount.volume).get place.inner fs.outside).1 = .error e := by
  rw [get_of_locate h]
  cases ((fs.volume place.mount.volume).get place.inner fs.outside).1 <;> simp [Except.map]

/-- The children that are listed are those of the node and the mount points right below it. -/
theorem mem_children_addNames {w : Bool} {children : List (String × Node)} {points : List String} :
    name ∈ ((Entry.ofNode (.directory w children) path).addNames points).children ↔
      name ∈ NameMap.names children ∨ name ∈ points := by
  show name ∈ sortNames (NameMap.names children ++ points) ↔ _
  rw [mem_sortNames, List.mem_append]

/-- The volume walks the segments that remain. -/
theorem walkSteps_inner (path : String) (n : Nat) :
    Path.walkSteps (Path.ofSegments ((Path.segmentsOf path).drop n)) =
      (Path.segmentsOf path).drop n :=
  Path.walkSteps_ofSegments fun _ hs => Path.isSegment_of_mem_segmentsOf (List.mem_of_mem_drop hs)

/-- A directory that is shown lies in the tree of the mount with the longest point, and lists its
own children and the mount points right below it. -/
theorem Tabled.directory_of_get (h : Tabled fs.mounts)
    (hbelow : ∀ m ∈ fs.mounts, m.volume < fs.volumes.length) {entry : Entry}
    (hget : fs.get path = (.ok entry, after)) (hdirectory : entry.isDirectory = true) :
    after.mounts = fs.mounts ∧
      ∃ m root w children, IsLongest (Path.segmentsOf path) fs.mounts m ∧
        (after.volume m.volume).root = some root ∧
        root.at? ((Path.segmentsOf path).drop m.point.length) = some (.directory w children) ∧
        ∀ name, name ∈ entry.children ↔
          name ∈ NameMap.names children ∨
            ∃ other ∈ fs.mounts, other.point = Path.segmentsOf path ++ [name] := by
  obtain ⟨m, -, honly⟩ := h.longest (Path.segmentsOf path)
  have hlongest := (honly m).1 rfl
  have hlocate := h.locate_eq hlongest
  have hafter : (fs.node path).2 = after := by rw [← get_snd, hget]
  have hmounts : after.mounts = fs.mounts := by
    rw [← hafter]
    exact congrArg Prod.fst (shape_node fs path)
  have hentry : (fs.get path).1 = .ok entry := by rw [hget]
  rw [get_of_locate hlocate] at hentry
  rw [node_snd, hlocate] at hafter
  simp only [] at hentry hafter
  cases hnode : ((fs.volume m.volume).get
      (Path.ofSegments ((Path.segmentsOf path).drop m.point.length)) fs.outside).1 with
  | error e =>
    rw [hnode] at hentry
    exact absurd hentry (by simp [Except.map])
  | ok node =>
    obtain ⟨root, hroot, hwalk⟩ := Volume.root_of_get hnode
    have hsteps := walkSteps_inner path m.point.length
    rw [Tree.walk_eq_ok_iff, hsteps] at hwalk
    rw [hnode] at hentry
    obtain rfl := Except.ok.inj hentry
    cases node with
    | file w content => exact absurd hdirectory Bool.false_ne_true
    | directory w children =>
      refine ⟨hmounts, m, root, w, children, hlongest, ?_, hwalk, fun name => ?_⟩
      · rw [← hafter, volume_put_self (hbelow m hlongest.1)]
        exact hroot
      · rw [mem_children_addNames, mem_pointsBelow]

/-- At a mount point something is found, unless the tree there cannot be fetched. -/
theorem Tabled.get_point (h : Tabled fs.mounts) {m : Mount} (hm : m ∈ fs.mounts)
    (hpoint : m.point = Path.segmentsOf path) (hrooted : (fs.volume m.volume).Rooted) :
    (∃ shown, (fs.get path).1 = .ok shown) ∨
      (∃ e, (fs.get path).1 = .error (.fetch e)) ∧
        (fs.volume m.volume).isRemote = true ∧ (fs.volume m.volume).root = none := by
  have hlocate := h.locate_eq (isLongest_of_point_eq hm hpoint)
  have hsteps : Path.walkSteps
      (Path.ofSegments ((Path.segmentsOf path).drop m.point.length)) = [] := by
    rw [walkSteps_inner, hpoint, List.drop_length]
  rcases hrooted.tree_cases fs.outside with ⟨root, hroot⟩ | ⟨⟨e, hfetch⟩, hnone, hremote⟩
  · refine Or.inl ((ok_iff_of_locate hlocate).2 ⟨root, ?_⟩)
    rw [Volume.get_fst, hroot]
    exact (Tree.walk_eq_ok_iff root root _).2 (hsteps ▸ Node.at?_nil root)
  · refine Or.inr ⟨⟨e, (error_iff_of_locate hlocate _).2 ?_⟩, hremote, hnone⟩
    rw [Volume.get_fst, hfetch]
    rfl

/-- Where nothing is mounted, a lookup below a directory finds its children, and needs to fetch
nothing. -/
theorem Tabled.get_child (h : Tabled fs.mounts) {m : Mount}
    (hlongest : IsLongest (Path.segmentsOf path) fs.mounts m) {root : Node} {w : Bool}
    {children : List (String × Node)} (hroot : (fs.volume m.volume).root = some root)
    (hat : root.at? ((Path.segmentsOf path).drop m.point.length) = some (.directory w children))
    (hname : Path.IsSegment name)
    (hnone : ∀ other ∈ fs.mounts, other.point ≠ Path.segmentsOf path ++ [name]) :
    ((∃ shown, (fs.get (path ++ "/" ++ name)).1 = .ok shown) ↔
        name ∈ NameMap.names children) ∧
      ∀ e, (fs.get (path ++ "/" ++ name)).1 ≠ .error (.fetch e) := by
  have hjoin := Path.segmentsOf_join path hname
  have hlonger : IsLongest (Path.segmentsOf (path ++ "/" ++ name)) fs.mounts m :=
    hjoin ▸ hlongest.child hnone
  have hlocate := h.locate_eq hlonger
  have hsteps : Path.walkSteps
      (Path.ofSegments ((Path.segmentsOf (path ++ "/" ++ name)).drop m.point.length)) =
        (Path.segmentsOf path).drop m.point.length ++ [name] := by
    rw [walkSteps_inner, hjoin, List.drop_append_of_le_length hlongest.2.1.length_le]
  have htree := Volume.tree_of_root hroot fs.outside
  constructor
  · rw [ok_iff_of_locate hlocate, Volume.get_fst, htree]
    exact Tree.isOk_walk_child_iff hat hsteps
  · intro e herror
    rw [error_iff_of_locate hlocate, Volume.get_fst, htree] at herror
    exact Tree.walk_ne_fetch root _ e herror

theorem Rooted.volume (h : fs.Rooted) (i : Nat) : (fs.volume i).Rooted :=
  forall_volume Volume.lasting_rooted h i

/-- A child of a directory is listed just when looking it up finds something, or a mount right there
whose tree cannot be fetched; no other lookup needs to fetch anything. -/
theorem Tabled.mem_children_iff (h : Tabled fs.mounts)
    (hbelow : ∀ m ∈ fs.mounts, m.volume < fs.volumes.length)
    (hrooted : after.Rooted) {entry : Entry}
    (hget : fs.get path = (.ok entry, after)) (hdirectory : entry.isDirectory = true)
    (hname : Path.IsSegment name) (outside : Outside) :
    let result := (({ after with outside } : FileSystem).get (path ++ "/" ++ name)).1
    (name ∈ entry.children ↔
        (∃ shown, result = .ok shown) ∨ ∃ e, result = .error (.fetch e)) ∧
      ∀ e, result = .error (.fetch e) →
        ∃ m ∈ after.mounts, m.point = Path.segmentsOf path ++ [name] ∧
          (after.volume m.volume).isRemote = true ∧ (after.volume m.volume).root = none := by
  intro result
  obtain ⟨hmounts, m, root, w, children, hlongest, hroot, hat, hchildren⟩ :=
    h.directory_of_get hbelow hget hdirectory
  rw [← hmounts] at h hlongest
  simp only [← hmounts] at hchildren
  rw [hchildren]
  -- A mount right at the child is what a lookup of it leads to; otherwise both paths lead into one
  -- tree.
  by_cases hpoint : ∃ other ∈ after.mounts, other.point = Path.segmentsOf path ++ [name]
  · obtain ⟨other, hother, heq⟩ := hpoint
    have hfound := @Tabled.get_point { after with outside } _ h other hother
      (heq.trans (Path.segmentsOf_join path hname).symm) (hrooted.volume other.volume)
    constructor
    · refine iff_of_true (Or.inr ⟨other, hother, heq⟩) ?_
      rcases hfound with hok | ⟨hfetch, -⟩
      · exact Or.inl hok
      · exact Or.inr hfetch
    · intro e herror
      rcases hfound with ⟨shown, hok⟩ | ⟨-, hremote, hnone⟩
      · exact absurd (herror.symm.trans hok) (by simp)
      · exact ⟨other, hother, heq, hremote, hnone⟩
  · have hnone : ∀ other ∈ after.mounts, other.point ≠ Path.segmentsOf path ++ [name] :=
      fun other hother heq => hpoint ⟨other, hother, heq⟩
    obtain ⟨hok, hfetch⟩ :=
      @Tabled.get_child { after with outside } path name h m hlongest root w children hroot hat
        hname hnone
    constructor
    · rw [or_iff_left hpoint, ← hok]
      exact (or_iff_left fun ⟨e, herror⟩ => hfetch e herror).symm
    · exact fun e herror => absurd herror (hfetch e)

/-- The children that are listed increase strictly, byte by byte. -/
theorem Tabled.pairwise_children (h : Tabled fs.mounts) {entry : Entry}
    (hget : fs.get path = (.ok entry, after)) :
    entry.children.Pairwise fun a b => Text.bytes a < Text.bytes b := by
  have hsorted : ∀ (shown : Entry) (names : List String), shown.isDirectory = true →
      (shown.addNames names).children.Pairwise fun a b => Text.bytes a < Text.bytes b := by
    rintro ⟨_, _, _, own | content⟩ names hdirectory
    · exact (pairwise_sortNames (own ++ names)).imp fun hlt => (Text.lt_iff_bytes_lt _ _).1 hlt
    · exact absurd hdirectory Bool.false_ne_true
  obtain ⟨place, hlocate, -⟩ := h.routes path
  have hentry : (fs.get path).1 = .ok entry := by rw [hget]
  rw [get_of_locate hlocate] at hentry
  cases hnode : ((fs.volume place.mount.volume).get place.inner fs.outside).1 with
  | error e =>
    rw [hnode] at hentry
    exact absurd hentry (by simp [Except.map])
  | ok node =>
    rw [hnode] at hentry
    obtain rfl := Except.ok.inj hentry
    cases node with
    | file w content => exact List.Pairwise.nil
    | directory w children => exact hsorted _ _ rfl

end FileSystem

namespace FileSystemUse

/-- Whatever is mounted and done, a directory lists a name just when looking the name up below it
finds something, or fails to fetch the tree of a mount that lies right there; and the names that are
listed increase strictly, byte by byte. -/
theorem listing_run (entries : List FstabEntry) (devices : Devices) (o : Outside)
    (events : List FileSystemEvent) (hmounts : ∀ entry v, .mount entry v ∈ events → v.Rooted)
    (path : String) (entry : Entry) (after : FileSystem)
    (hget : ((start entries devices o).run events).fs.get path = (.ok entry, after))
    (hdirectory : entry.isDirectory = true) :
    (entry.children.Pairwise fun a b => Text.bytes a < Text.bytes b) ∧
      ∀ name, Path.IsSegment name → ∀ outside,
        let result := (({ after with outside } : FileSystem).get (path ++ "/" ++ name)).1
        (name ∈ entry.children ↔
            (∃ shown, result = .ok shown) ∨ ∃ e, result = .error (.fetch e)) ∧
          ∀ e, result = .error (.fetch e) →
            ∃ m ∈ after.mounts, m.point = Path.segmentsOf path ++ [name] ∧
              (after.volume m.volume).isRemote = true ∧ (after.volume m.volume).root = none := by
  have htabled := tabled_run (tabled_start entries devices o) events
  have hwell := (wellMounted_start entries devices o).run events
  have hrooted : after.Rooted := by
    have hlater := forall_perform Volume.lasting_rooted
      (forall_run Volume.lasting_rooted (forall_start Volume.lasting_rooted entries devices o)
        hmounts) (.get path)
    rw [perform, hget] at hlater
    exact hlater
  refine ⟨htabled.pairwise_children hget, fun name hname outside => ?_⟩
  exact htabled.mem_children_iff hwell.below hrooted hget hdirectory hname outside

/-- Scratch space over a node of a directory, a remote tree beside it that cannot be fetched, and a
mount below a name that is no node. -/
def shadowing : List FileSystemEvent :=
  let point (path : String) : FstabEntry := { device := "d", mountPoint := path, typeName := "" }
  [.mount (point "/") (.supplied (.dir [("d", .dir [("m", .emptyFile), ("a", .emptyFile)])])),
    .mount (point "/d/m") .scratch, .mount (point "/d/r") (.remote "far"),
    .mount (point "/d/x/y") .scratch]

/-- The name of the mount that hides a node is listed once, and so is that of the remote tree; the
name that only leads on to another mount point is not listed, and nothing is found there. -/
theorem listing_shadowing :
    ∃ entry after, ((start [] {} {}).run shadowing).fs.get "/d" = (.ok entry, after) ∧
      entry.children = ["a", "m", "r"] ∧
      (entry.children.Pairwise fun a b => Text.bytes a < Text.bytes b) ∧
      (∃ shown, (after.get ("/d" ++ "/" ++ "m")).1 = .ok shown) ∧
      (∃ e, (after.get ("/d" ++ "/" ++ "r")).1 = .error (.fetch e)) ∧
      ¬∃ shown, (after.get ("/d" ++ "/" ++ "x")).1 = .ok shown := by
  have hmounts : ∀ entry v, .mount entry v ∈ shadowing → v.Rooted := by
    intro entry v hv
    simp only [shadowing, List.mem_cons, List.not_mem_nil, or_false, FileSystemEvent.mount.injEq]
      at hv
    rcases hv with ⟨-, rfl⟩ | ⟨-, rfl⟩ | ⟨-, rfl⟩ | ⟨-, rfl⟩
    · exact Volume.rooted_of_root rfl
    · exact Volume.rooted_of_root rfl
    · exact Volume.rooted_remote "far"
    · exact Volume.rooted_of_root rfl
  have hchildren : (((start [] {} {}).run shadowing).fs.get "/d").1.toOption.map (fun entry =>
      (entry.isDirectory, entry.children)) = some (true, ["a", "m", "r"]) := by
    decide +kernel
  have hlater : ∀ name, name = "m" ∨ name = "r" →
      ((((start [] {} {}).run shadowing).fs.get "/d").2.get ("/d" ++ "/" ++ name)).1.toOption.isSome
        = decide (name = "m") := by
    rintro name (rfl | rfl)
    · decide +kernel
    · decide +kernel
  rcases hget : ((start [] {} {}).run shadowing).fs.get "/d" with ⟨e | entry, after⟩
  · rw [hget] at hchildren
    exact absurd hchildren (by simp [Except.toOption])
  · rw [hget] at hchildren hlater
    obtain ⟨hdirectory, hnames⟩ := Prod.mk.inj (Option.some.inj hchildren)
    obtain ⟨hpairwise, hfound⟩ := listing_run [] {} {} shadowing hmounts "/d" entry after hget
      hdirectory
    refine ⟨entry, after, rfl, hnames, hpairwise, ?_, ?_, ?_⟩
    · have hlisted : "m" ∈ entry.children := hnames ▸ by decide
      rcases ((hfound "m" (by decide) after.outside).1).1 hlisted with hok | ⟨e, hfetch⟩
      · exact hok
      · have hsome := hlater "m" (Or.inl rfl)
        rw [hfetch] at hsome
        exact absurd hsome (by simp [Except.toOption])
    · have hlisted : "r" ∈ entry.children := hnames ▸ by decide
      rcases ((hfound "r" (by decide) after.outside).1).1 hlisted with ⟨shown, hok⟩ | hfetch
      · have hnone := hlater "r" (Or.inr rfl)
        rw [hok] at hnone
        exact absurd hnone (by simp [Except.toOption])
      · exact hfetch
    · intro hshown
      have hx := ((hfound "x" (by decide) after.outside).1).2 (Or.inl hshown)
      rw [hnames] at hx
      exact absurd hx (by decide)

end FileSystemUse

end MountShell
