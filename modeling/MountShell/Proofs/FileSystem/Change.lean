import MountShell.Proofs.FileSystem.Remote
import MountShell.Proofs.FileSystem.Text
import MountShell.Proofs.Volume.Change

/-!
# The changes of a filesystem

An operation of a filesystem changes the tree of at most one volume, and in one way only.  The
reasons for a change are few (`FileSystemUse.Changes`): creating or opening adds a file at the path,
unless the mount forbids it, a mode sets the flag of the node at the path, and writing to or closing
a file that is open for writing replaces the text that the file is bound to.

That an open file is bound to the node at its path, if its mount is still there, is an invariant of
everything that can happen (`FileSystemUse.Bound`).

Main statement: `FileSystemUse.perform_cases`.
-/

namespace MountShell

namespace FileSystemUse

/-- The reasons for which an operation changes the tree of a volume, and how. -/
inductive Changes (u : FileSystemUse) : FileSystemOp → Nat → TreeChange → Prop
  | create {path name : String} {place : FileSystem.Place} {parent : List String} :
      u.fs.locate path = .ok place → place.mount.flags.readOnly = false →
      place.remaining path = parent ++ [name] →
      Changes u (.create path) place.mount.volume (.addFile parent name)
  | openFile {path name : String} {mode : OpenMode} {place : FileSystem.Place}
      {parent : List String} :
      u.fs.locate path = .ok place → (place.mount.flags.readOnly && mode.isWrite) = false →
      place.remaining path = parent ++ [name] →
      Changes u (.openFile path mode) place.mount.volume (.addFile parent name)
  | chmod {path mode : String} {place : FileSystem.Place} {w : Bool} :
      u.fs.locate path = .ok place → place.mount.flags.readOnly = false →
      Tree.modeFlag? mode = some w →
      Changes u (.chmod path mode) place.mount.volume (.setFlag (place.remaining path) w)
  | write {i : Nat} {data body : String} {file : OpenFile} {segments : List String} :
      u.files[i]? = some file → file.handle.binding = .ok segments → file.handle.closed = false →
      file.handle.mode.isWrite = true → u.fs.textAt? ⟨file.volume, segments⟩ = some body →
      Changes u (.write i data) file.volume
        (.setText segments (FileHandle.writeText file.handle.mode body data))
  | close {i : Nat} {body : String} {file : OpenFile} {segments : List String} :
      u.files[i]? = some file → file.handle.binding = .ok segments → file.handle.closed = false →
      file.handle.mode.isWrite = true → u.fs.textAt? ⟨file.volume, segments⟩ = some body →
      Changes u (.close i) file.volume (.setText segments (body ++ "\n"))

/-- One volume is changed and the others stay as they are. -/
def ChangesVolume (u after : FileSystemUse) (i : Nat) (c : TreeChange) : Prop :=
  (u.fs.volume i).Changed c (after.fs.volume i) ∧
    ∀ j, j ≠ i → after.fs.volume j = u.fs.volume j

/-! ### What open files are bound to -/

/-- A file that could be opened lies on a volume that has its tree, and is bound to the node at the
path that it was opened at, as seen by the mount of the volume. -/
structure BoundTo (u : FileSystemUse) (file : OpenFile) (segments : List String) : Prop where
  below : file.volume < u.fs.volumes.length
  rooted : (u.fs.volume file.volume).root.isSome = true
  path : ∀ m ∈ u.fs.mounts, m.volume = file.volume →
    Path.segmentsOf file.handle.path = m.point ++ segments

/-- All files that could be opened are bound to nodes. -/
def Bound (u : FileSystemUse) : Prop :=
  ∀ file ∈ u.files, ∀ segments, file.handle.binding = .ok segments → u.BoundTo file segments

end FileSystemUse

namespace FileSystem

/-- A path leads to the mount with the longest point. -/
theorem isLongest_of_locate {fs : FileSystem} {path : String} {place : Place}
    (h : fs.locate path = .ok place) : IsLongest (Path.segmentsOf path) fs.mounts place.mount := by
  obtain ⟨m, hlongest, rfl⟩ := locate_eq_ok_iff.1 h
  rcases longest_cases (Path.segmentsOf path) fs.mounts with ⟨hnone, -⟩ | ⟨other, hother, hm⟩
  · exact absurd (hnone.symm.trans hlongest) (by simp)
  · obtain rfl := Option.some.inj (hother.symm.trans hlongest)
    exact hm

/-- The segments of a path are those of the mount point and those that remain. -/
theorem segmentsOf_of_locate {fs : FileSystem} {path : String} {place : Place}
    (h : fs.locate path = .ok place) :
    Path.segmentsOf path = place.mount.point ++ place.remaining path := by
  obtain ⟨rest, hrest⟩ := (isLongest_of_locate h).2.1
  rw [Place.remaining, ← hrest, List.drop_left]

/-- The parent and the name of the path that a volume sees. -/
theorem remaining_of_splitParent {fs : FileSystem} {path parent name : String} {place : Place}
    (h : fs.locate path = .ok place) (hsplit : Path.splitParent place.inner = (parent, name))
    (hname : name ≠ "") : place.remaining path = Path.walkSteps parent ++ [name] := by
  obtain ⟨m, -, rfl⟩ := locate_eq_ok_iff.1 h
  have hsegments : ∀ s ∈ (Path.segmentsOf path).drop m.point.length, Path.IsSegment s :=
    fun s hs => Path.isSegment_of_mem_segmentsOf (List.mem_of_mem_drop hs)
  simp only [Place.remaining] at hsplit ⊢
  rcases List.eq_nil_or_concat' ((Path.segmentsOf path).drop m.point.length) with
    hnil | ⟨front, last, hlast⟩
  · have hroot : Path.splitParent (Path.ofSegments []) = ("/", "") := by decide
    rw [hnil, hroot] at hsplit
    exact absurd (Prod.mk.inj hsplit).2.symm hname
  · rw [hlast] at hsegments hsplit ⊢
    rw [Path.splitParent_ofSegments (hsegments last (by simp))] at hsplit
    obtain ⟨rfl, rfl⟩ := Prod.mk.inj hsplit
    rw [Path.walkSteps_ofSegments fun s hs => hsegments s (List.mem_append_left _ hs)]

/-- The path above one that lies below a mount point leads to the same mount. -/
theorem Tabled.locate_above {fs : FileSystem} (h : Tabled fs.mounts) {path above name : String}
    {place : Place} {parent : List String} (hlocate : fs.locate path = .ok place)
    (hremaining : place.remaining path = parent ++ [name])
    (habove : Path.segmentsOf above = place.mount.point ++ parent) :
    ∃ own, fs.locate above = .ok own ∧ own.mount = place.mount ∧ own.remaining above = parent := by
  have hpath : Path.segmentsOf path = Path.segmentsOf above ++ [name] := by
    rw [segmentsOf_of_locate hlocate, hremaining, habove, List.append_assoc]
  obtain ⟨hmem, -, hlongest⟩ := isLongest_of_locate hlocate
  have habove' : IsLongest (Path.segmentsOf above) fs.mounts place.mount := by
    refine ⟨hmem, habove ▸ List.prefix_append _ _, fun other hother hbegins => ?_⟩
    exact hlongest other hother (hpath ▸ hbegins.trans (List.prefix_append _ _))
  refine ⟨_, h.locate_eq habove', rfl, ?_⟩
  rw [Place.remaining, habove, List.drop_left]

/-- Where a name remains of a path, no mount point has that name: it would be that of the path. -/
theorem not_mem_pointsBelow_of_locate {fs : FileSystem} {path above name : String} {place : Place}
    {parent : List String} (hlocate : fs.locate path = .ok place)
    (hremaining : place.remaining path = parent ++ [name])
    (hpath : Path.segmentsOf path = Path.segmentsOf above ++ [name]) :
    name ∉ fs.pointsBelow (Path.resolve above) := by
  rw [mem_pointsBelow]
  rintro ⟨m, hm, hpoint⟩
  have hsame : m.point = Path.segmentsOf path := hpoint.trans hpath.symm
  have hbegins : m.point <+: Path.segmentsOf path := hsame ▸ List.prefix_refl m.point
  have hshorter := (isLongest_of_locate hlocate).2.2 m hm hbegins
  have hlength := congrArg List.length (segmentsOf_of_locate hlocate)
  rw [← hsame, hremaining] at hlength
  simp only [List.length_append, List.length_singleton] at hlength
  omega

/-- Where one volume at most loads its tree, all do. -/
theorem loads_put {fs : FileSystem} {i : Nat} {v : Volume} (h : (fs.volume i).Loads v)
    (o : Outside) (j : Nat) : (fs.volume j).Loads ((fs.put i v o).volume j) := by
  rcases fs.volume_put_cases i v o j with hsame | ⟨rfl, hnew⟩
  · exact Or.inl hsame
  · rw [hnew]
    exact h

end FileSystem

namespace FileSystemUse

variable {u : FileSystemUse}

/-- The trees stay as they are, apart from those that are fetched for the first time. -/
def LoadsOnly (u after : FileSystemUse) : Prop :=
  ∀ j, (u.fs.volume j).Loads (after.fs.volume j)

theorem loadsOnly_of_fs {after : FileSystemUse} (h : after.fs.volumes = u.fs.volumes) :
    u.LoadsOnly after := fun j => Or.inl (by rw [FileSystem.volume, FileSystem.volume, h])

/-- An operation that is done by one volume, or refused, loads a tree or changes one. -/
theorem cases_of_put {after : FileSystemUse} {i : Nat} {v : Volume} {o : Outside}
    {P : TreeChange → Prop} (hafter : after.fs = u.fs.put i v o) (hi : i < u.fs.volumes.length)
    (h : (u.fs.volume i).Loads v ∨ ∃ c, P c ∧ (u.fs.volume i).Changed c v) :
    u.LoadsOnly after ∨ ∃ c, P c ∧ u.ChangesVolume after i c := by
  rcases h with hloads | ⟨c, hc, hchanged⟩
  · refine Or.inl fun j => ?_
    rw [hafter]
    exact FileSystem.loads_put hloads o j
  · refine Or.inr ⟨c, hc, ?_, fun j hj => ?_⟩
    · rw [hafter, FileSystem.volume_put_self hi]
      exact hchanged
    · rw [hafter, FileSystem.volume_put_of_ne hj]

/-- What an operation does to the volumes: it loads a tree or changes one for one of the reasons. -/
def Performs (u : FileSystemUse) (op : FileSystemOp) : Prop :=
  u.LoadsOnly (u.perform op) ∨
    ∃ i c, i < u.fs.volumes.length ∧ u.Changes op i c ∧ u.ChangesVolume (u.perform op) i c

/-- One volume is asked for a new file, unless the mount refuses that. -/
theorem performs_of_creates {op : FileSystemOp} {path : String} {place : FileSystem.Place}
    (hlocate : u.fs.locate path = .ok place)
    (hbelow : place.mount.volume < u.fs.volumes.length) {v : Volume} {o : Outside}
    (hafter : (u.perform op).fs = u.fs.put place.mount.volume v o)
    (hchange : (u.fs.volume place.mount.volume).Loads v ∨
      (u.fs.volume place.mount.volume).Creates place.inner v)
    (hreason : ∀ parent name, place.remaining path = parent ++ [name] →
      u.Changes op place.mount.volume (.addFile parent name)) : u.Performs op := by
  have hcases := cases_of_put (P := u.Changes op place.mount.volume) hafter hbelow
    (hchange.imp_right ?_)
  · exact hcases.imp_right fun ⟨c, hc, hchanges⟩ => ⟨_, c, hbelow, hc, hchanges⟩
  · rintro ⟨parent, name, hsplit, hname, hchanged⟩
    exact ⟨_, hreason _ name (FileSystem.remaining_of_splitParent hlocate hsplit hname), hchanged⟩

theorem performs_of_node {op : FileSystemOp} {path : String}
    (h : (u.perform op).fs = (u.fs.node path).2) : u.Performs op := by
  refine Or.inl fun j => ?_
  rw [h, FileSystem.node_snd]
  cases u.fs.locate path with
  | error e => exact Or.inl rfl
  | ok place => exact FileSystem.loads_put (Volume.get_loads _ _ _).1 _ j

/-- A file through which a text is replaced. -/
theorem performs_of_file {op : FileSystemOp} {file : OpenFile} (hfile : file ∈ u.files)
    (hbound : u.Bound) {v : Volume} {o : Outside}
    (hafter : (u.perform op).fs = u.fs.put file.volume v o)
    (herror : ∀ e, file.handle.binding = .error e → v = u.fs.volume file.volume)
    (hchange : ∀ root, (u.fs.volume file.volume).root = some root →
      v = u.fs.volume file.volume ∨ ∃ segments body text, file.handle.binding = .ok segments ∧
        root.at? segments = some (.file true (.text body)) ∧
        (u.fs.textAt? ⟨file.volume, segments⟩ = some body →
          u.Changes op file.volume (.setText segments text)) ∧
        (u.fs.volume file.volume).Changed (.setText segments text) v) : u.Performs op := by
  cases hbinding : file.handle.binding with
  | error e =>
    refine Or.inl fun j => ?_
    rw [hafter, herror e hbinding]
    exact FileSystem.loads_put (Or.inl rfl) o j
  | ok segments =>
    have hto := hbound file hfile segments hbinding
    obtain ⟨root, hroot⟩ := Option.isSome_iff_exists.1 hto.rooted
    have hcases := cases_of_put (P := u.Changes op file.volume) hafter hto.below
      ((hchange root hroot).imp Or.inl ?_)
    · exact hcases.imp_right fun ⟨c, hc, hchanges⟩ => ⟨_, c, hto.below, hc, hchanges⟩
    · rintro ⟨_, body, text, -, hat, hreason, hchanged⟩
      exact ⟨_, hreason ((FileSystem.textAt?_eq_some_iff _ _ _).2 ⟨root, hroot, hat⟩), hchanged⟩

theorem performs_create (hwell : u.WellMounted) (path : String) : u.Performs (.create path) := by
  have hfs : (u.perform (.create path)).fs = (u.fs.create path).2 := rfl
  rw [FileSystem.create_snd] at hfs
  cases hlocate : u.fs.locate path with
  | error e =>
    rw [hlocate] at hfs
    exact Or.inl (loadsOnly_of_fs (by rw [hfs]))
  | ok place =>
    rw [hlocate] at hfs
    cases hro : place.mount.flags.readOnly with
    | true =>
      simp only [hro, if_true] at hfs
      exact Or.inl (loadsOnly_of_fs (by rw [hfs]))
    | false =>
      simp only [hro, Bool.false_eq_true, if_false] at hfs
      exact performs_of_creates hlocate (hwell.below _ (FileSystem.mem_of_locate hlocate)) hfs
        (Volume.create_change _ _ _) fun parent name hremaining => .create hlocate hro hremaining

theorem performs_openFile (hwell : u.WellMounted) (path : String) (mode : OpenMode) :
    u.Performs (.openFile path mode) := by
  have hfs : (u.perform (.openFile path mode)).fs = (u.fs.openFile path mode).2 := rfl
  cases hlocate : u.fs.locate path with
  | error e =>
    have hsame : (u.fs.openFile path mode).2 = u.fs := by
      unfold FileSystem.openFile
      rw [hlocate]
    exact Or.inl (loadsOnly_of_fs (by rw [hfs, hsame]))
  | ok place =>
    rw [FileSystem.openFile_snd hlocate] at hfs
    cases hrefused : place.mount.flags.readOnly && mode.isWrite with
    | true =>
      rw [if_pos hrefused] at hfs
      exact Or.inl (loadsOnly_of_fs (by rw [hfs]))
    | false =>
      rw [if_neg (by simp [hrefused])] at hfs
      exact performs_of_creates hlocate (hwell.below _ (FileSystem.mem_of_locate hlocate)) hfs
        (Volume.openFile_change _ _ _ _) fun parent name hremaining =>
          .openFile hlocate hrefused hremaining

theorem performs_chmod (hwell : u.WellMounted) (path mode : String) :
    u.Performs (.chmod path mode) := by
  have hfs : (u.perform (.chmod path mode)).fs = (u.fs.chmod path mode).2 := rfl
  rw [FileSystem.chmod_snd] at hfs
  cases hlocate : u.fs.locate path with
  | error e =>
    rw [hlocate] at hfs
    exact Or.inl (loadsOnly_of_fs (by rw [hfs]))
  | ok place =>
    rw [hlocate] at hfs
    cases hro : place.mount.flags.readOnly with
    | true =>
      simp only [hro, if_true] at hfs
      exact Or.inl (loadsOnly_of_fs (by rw [hfs]))
    | false =>
      simp only [hro, Bool.false_eq_true, if_false] at hfs
      have hbelow := hwell.below _ (FileSystem.mem_of_locate hlocate)
      have hcases := cases_of_put (P := u.Changes (.chmod path mode) place.mount.volume) hfs
        hbelow ((Volume.chmod_change _ _ _ _).imp Or.inl ?_)
      · exact hcases.imp_right fun ⟨c, hc, hchanges⟩ => ⟨_, c, hbelow, hc, hchanges⟩
      · rintro ⟨w, hw, hchanged⟩
        rw [FileSystem.walkSteps_of_locate hlocate] at hchanged
        exact ⟨_, .chmod hlocate hro hw, hchanged⟩

theorem performs_write (hbound : u.Bound) (i : Nat) (data : String) :
    u.Performs (.write i data) := by
  cases hfile : u.files[i]? with
  | none => exact Or.inl (loadsOnly_of_fs (by rw [perform, hfile]))
  | some file =>
    have hfs : (u.perform (.write i data)).fs = (u.fs.write file data).2 := by
      rw [perform, hfile]
    refine performs_of_file (List.mem_of_getElem? hfile) hbound hfs (fun e he => ?_)
      fun root hroot => ?_
    · unfold FileHandle.write
      rw [he]
    · refine (Volume.write_change hroot file.handle data u.fs.outside).imp_right ?_
      rintro ⟨segments, body, hbinding, hclosed, hmode, hat, hchanged⟩
      exact ⟨segments, body, _, hbinding, hat, .write hfile hbinding hclosed hmode, hchanged⟩

theorem performs_close (hbound : u.Bound) (i : Nat) : u.Performs (.close i) := by
  have hfs := u.perform_close_fs i
  cases hfile : u.files[i]? with
  | none =>
    rw [hfile] at hfs
    exact Or.inl (loadsOnly_of_fs (by rw [hfs]))
  | some file =>
    rw [hfile] at hfs
    refine performs_of_file (List.mem_of_getElem? hfile) hbound hfs (fun e he => ?_)
      fun root hroot => ?_
    · have hnone : file.handle.ending? ((u.fs.volume file.volume).root.getD .emptyFile) = none := by
        unfold FileHandle.ending?
        rw [he]
      unfold Volume.close
      rw [FileHandle.close_eq, hnone]
      by_cases hclosed : file.handle.closed = true <;> simp [hclosed]
    · refine (Volume.close_change hroot file.handle u.fs.outside).imp_right ?_
      rintro ⟨segments, body, hbinding, hclosed, hmode, hat, hchanged⟩
      exact ⟨segments, body, _, hbinding, hat, .close hfile hbinding hclosed hmode, hchanged⟩

/-- An operation changes the tree of at most one volume, for one of few reasons, and apart from that
trees are at most fetched for the first time. -/
theorem perform_cases (hwell : u.WellMounted) (hbound : u.Bound) (op : FileSystemOp) :
    u.Performs op := by
  cases op with
  | get path => exact performs_of_node (FileSystem.get_snd u.fs path)
  | create path => exact performs_create hwell path
  | openFile path mode => exact performs_openFile hwell path mode
  | chmod path mode => exact performs_chmod hwell path mode
  | program path =>
    rcases u.fs.program?_snd path with hsame | hnode
    · exact Or.inl (loadsOnly_of_fs (by rw [perform, hsame]))
    · exact performs_of_node hnode
  | read i =>
    refine Or.inl (loadsOnly_of_fs ?_)
    rw [perform]
    cases u.files[i]? <;> rfl
  | write i data => exact performs_write hbound i data
  | close i => exact performs_close hbound i

/-! ### Files stay bound -/

/-- A tree that is there is not taken away. -/
theorem Performs.isSome_root {op : FileSystemOp} (h : u.Performs op) {j : Nat}
    (hroot : (u.fs.volume j).root.isSome = true) :
    ((u.perform op).fs.volume j).root.isSome = true := by
  rcases h with hloads | ⟨i, c, -, -, hchanged, hothers⟩
  · exact Volume.isSome_root_of_loads (hloads j) hroot
  · by_cases hj : j = i
    · subst hj
      obtain ⟨root, -, -, hafter⟩ := hchanged
      rw [hafter]
      rfl
    · rw [hothers j hj]
      exact hroot

/-- A file that has just been opened is bound to the node at its path. -/
theorem boundTo_openFile (hwell : u.WellMounted) {path : String} {mode : OpenMode}
    {segments : List String} (h : (u.fs.openFile path mode).1.handle.binding = .ok segments) :
    (u.perform (.openFile path mode)).BoundTo (u.fs.openFile path mode).1 segments := by
  have hshape := shape_perform u (.openFile path mode)
  have hmounts : (u.perform (.openFile path mode)).fs.mounts = u.fs.mounts :=
    congrArg Prod.fst hshape
  have hlength : (u.perform (.openFile path mode)).fs.volumes.length = u.fs.volumes.length :=
    congrArg Prod.snd hshape
  rcases u.fs.openFile_fst path mode with ⟨place, hlocate, hopened⟩ | ⟨i, reported, e, hfailed⟩
  · have hmem := FileSystem.mem_of_locate hlocate
    have hsegments : place.remaining path = segments := by
      rw [hopened] at h
      rw [← FileSystem.walkSteps_of_locate hlocate]
      exact Except.ok.inj h
    refine ⟨?_, ?_, fun m hm heq => ?_⟩
    · rw [hlength, hopened]
      exact hwell.below _ hmem
    · have hfs : (u.perform (.openFile path mode)).fs = (u.fs.openFile path mode).2 := rfl
      rw [hfs, FileSystem.openFile_snd hlocate, hopened]
      unfold FileSystem.openFile at h
      rw [hlocate] at h
      cases hrefused : place.mount.flags.readOnly && mode.isWrite with
      | true =>
        simp only [hrefused, if_true] at h
        exact absurd h (by simp [FileHandle.failed])
      | false =>
        simp only [hrefused, Bool.false_eq_true, if_false] at h ⊢
        rw [FileSystem.volume_put_self (hwell.below _ hmem)]
        exact Volume.root_of_openFile h
    · rw [hmounts] at hm
      -- a volume is mounted at one point only, so that any mount of it is the one of the path
      have hsame : m = place.mount := by
        refine hwell.own m hm _ hmem ?_
        rw [heq, hopened]
      have hpath := FileSystem.path_openFile u.fs path mode
      rw [hpath, Path.segmentsOf_resolve, FileSystem.segmentsOf_of_locate hlocate, hsame, hsegments]
  · rw [hfailed] at h
    exact absurd h (by simp [FileHandle.failed])

theorem Bound.perform (hwell : u.WellMounted) (h : u.Bound) (op : FileSystemOp) :
    (u.perform op).Bound := by
  intro file hfile segments hbinding
  rcases mem_files_perform hfile with ⟨old, hold, hvolume, -, hsame, hpath⟩ | ⟨path, mode, rfl, rfl⟩
  · have hto := h old hold segments (hsame ▸ hbinding)
    have hshape := shape_perform u op
    have hmounts : (u.perform op).fs.mounts = u.fs.mounts := congrArg Prod.fst hshape
    have hlength : (u.perform op).fs.volumes.length = u.fs.volumes.length :=
      congrArg Prod.snd hshape
    refine ⟨?_, ?_, ?_⟩
    · rw [hlength, hvolume]
      exact hto.below
    · rw [hvolume]
      exact (perform_cases hwell h op).isSome_root hto.rooted
    · rw [hmounts, hvolume, hpath]
      exact hto.path
  · exact boundTo_openFile hwell hbinding

/-- A new mount has a volume that no file lies on. -/
theorem Bound.mount {fs : FileSystem} (h : Bound { u with fs }) (entry : FstabEntry) (v : Volume) :
    Bound { u with fs := fs.mount entry v } := by
  intro file hfile segments hbinding
  have hto := h file hfile segments hbinding
  refine ⟨?_, ?_, fun m hm heq => ?_⟩
  · have hlength : (fs.mount entry v).volumes.length = fs.volumes.length + 1 := List.length_append
    rw [hlength]
    exact Nat.lt_succ_of_lt hto.below
  · rw [FileSystem.volume_mount hto.below]
    exact hto.rooted
  · rcases mem_mounts_mount hm with rfl | hm
    · exact absurd heq (Nat.ne_of_gt hto.below)
    · exact hto.path m hm heq

theorem Bound.after (hwell : u.WellMounted) (h : u.Bound) (event : FileSystemEvent) :
    (u.after event).Bound := by
  cases event with
  | op op => exact h.perform hwell op
  | mount entry v => exact Bound.mount (u := u) h entry v
  | remount entries devices =>
    refine FileSystem.remount_induction (Q := fun fs => Bound { u with fs })
      (fun _ entry v hfs _ => hfs.mount entry v) entries devices
      fun file hfile segments hbinding => ?_
    have hto := h file hfile segments hbinding
    exact ⟨hto.below, hto.rooted, fun m hm => absurd hm List.not_mem_nil⟩
  | host o =>
    intro file hfile segments hbinding
    have hto := h file hfile segments hbinding
    exact ⟨hto.below, hto.rooted, hto.path⟩

theorem bound_start (entries : List FstabEntry) (devices : Devices) (o : Outside) :
    (start entries devices o).Bound :=
  fun _ hfile => absurd hfile List.not_mem_nil

/-- Whatever happens, the files stay bound to the nodes at their paths. -/
theorem Bound.run (hwell : u.WellMounted) (h : u.Bound) (events : List FileSystemEvent) :
    (u.run events).Bound := by
  induction events generalizing u with
  | nil => exact h
  | cons event rest ih => exact ih (hwell.after event) (h.after hwell event)

end FileSystemUse

end MountShell
