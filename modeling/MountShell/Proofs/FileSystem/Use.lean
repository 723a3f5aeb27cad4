import MountShell.Proofs.FileSystem.Points
import MountShell.Proofs.Volume.Access

/-!
# A filesystem in use

The operations of a filesystem together with those on the files that it has opened (`FileSystemOp`),
and what a host may do in between (`FileSystemEvent`): mounting something, mounting everything anew,
and changes of what lies outside.

Main statements: `WellMounted.run`, in every filesystem that comes about in this way each mount has
a volume of its own, with the flags that its options stand for, and no file of a read-only mount is
open for writing; and `volume_put_of_ne`, what is done to one volume leaves the others alone.
-/

namespace MountShell

/-- What is done to a filesystem, or through one of the files opened so far, which are numbered from
zero. -/
inductive FileSystemOp where
  | get (path : String)
  | create (path : String)
  | openFile (path : String) (mode : OpenMode)
  | chmod (path mode : String)
  | program (path : String)
  | read (i : Nat)
  | write (i : Nat) (data : String)
  | close (i : Nat)

/-- Something that happens to a filesystem. -/
inductive FileSystemEvent where
  | op (op : FileSystemOp)
  /-- Something more is mounted. -/
  | mount (entry : FstabEntry) (v : Volume)
  /-- Everything is mounted anew. -/
  | remount (entries : List FstabEntry) (devices : Devices)
  /-- Something happens outside. -/
  | host (outside : Outside)

/-- A filesystem with the files that it has opened. -/
structure FileSystemUse where
  fs : FileSystem
  files : List OpenFile := []

namespace FileSystemUse

/-- A filesystem with the mounts of some entries and no file open. -/
def start (entries : List FstabEntry) (devices : Devices) (o : Outside) : FileSystemUse where
  fs := .ofFstab entries devices o

/-- The filesystem after an operation. A number without a file does nothing. -/
def perform (u : FileSystemUse) : FileSystemOp → FileSystemUse
  | .get path => { u with fs := (u.fs.get path).2 }
  | .create path => { u with fs := (u.fs.create path).2 }
  | .openFile path mode =>
    let (file, fs) := u.fs.openFile path mode
    { fs, files := u.files ++ [file] }
  | .chmod path mode => { u with fs := (u.fs.chmod path mode).2 }
  | .program path => { u with fs := (u.fs.program? path).2 }
  | .read i =>
    match u.files[i]? with
    | none => u
    | some file => { u with fs := (u.fs.read file).2 }
  | .write i data =>
    match u.files[i]? with
    | none => u
    | some file => { u with fs := (u.fs.write file data).2 }
  | .close i =>
    match u.files[i]? with
    | none => u
    | some file =>
      match u.fs.close file with
      | (.ok file, fs) => { fs, files := u.files.set i file }
      | (.error _, fs) => { u with fs }

/-- What comes after an event. -/
def after (u : FileSystemUse) : FileSystemEvent → FileSystemUse
  | .op op => u.perform op
  | .mount entry v => { u with fs := u.fs.mount entry v }
  | .remount entries devices => { u with fs := u.fs.remount entries devices }
  | .host outside => { u with fs := { u.fs with outside } }

/-- What comes after a list of events. -/
def run (u : FileSystemUse) (events : List FileSystemEvent) : FileSystemUse :=
  events.foldl after u

end FileSystemUse

namespace FileSystem

/-! ### Volumes -/

/-- Putting a volume back leaves the others. -/
theorem volume_put_of_ne {i j : Nat} (h : i ≠ j) (fs : FileSystem) (v : Volume) (o : Outside) :
    (fs.put j v o).volume i = fs.volume i := by
  simp only [volume, put, List.getD_eq_getElem?_getD, List.getElem?_set_ne (Ne.symm h)]

/-- The volume that was put is there. -/
theorem volume_put_self {i : Nat} {fs : FileSystem} (h : i < fs.volumes.length) (v : Volume)
    (o : Outside) : (fs.put i v o).volume i = v := by
  simp only [volume, put, List.getD_eq_getElem?_getD, List.getElem?_set_self h, Option.getD_some]

/-- A volume is the one that was put, or has been left alone. -/
theorem volume_put_cases (fs : FileSystem) (i : Nat) (v : Volume) (o : Outside) (j : Nat) :
    (fs.put i v o).volume j = fs.volume j ∨ (i = j ∧ (fs.put i v o).volume j = v) := by
  by_cases hj : j = i
  · subst hj
    by_cases hlt : j < fs.volumes.length
    · exact Or.inr ⟨rfl, volume_put_self hlt v o⟩
    · rw [put, List.set_eq_of_length_le (Nat.not_lt.1 hlt)]
      exact Or.inl rfl
  · exact Or.inl (volume_put_of_ne hj fs v o)

/-- Putting a volume back changes nothing but what lies outside. -/
theorem put_volume (fs : FileSystem) (i : Nat) (o : Outside) :
    fs.put i (fs.volume i) o = { fs with outside := o } := by
  have hset : fs.volumes.set i (fs.volume i) = fs.volumes := by
    by_cases hi : i < fs.volumes.length
    · simp only [volume, List.getD_eq_getElem?_getD, List.getElem?_eq_getElem hi, Option.getD_some,
        List.set_getElem_self]
    · exact List.set_eq_of_length_le (Nat.not_lt.1 hi)
  rw [put, hset]

/-- A mount leaves the volumes that there are. -/
theorem volume_mount {i : Nat} {fs : FileSystem} (h : i < fs.volumes.length) (entry : FstabEntry)
    (v : Volume) : (fs.mount entry v).volume i = fs.volume i := by
  simp only [volume, mount, List.getD_eq_getElem?_getD, List.getElem?_append_left h]

/-- The mounts and the number of volumes, which no operation changes. -/
def shape (fs : FileSystem) : List Mount × Nat :=
  (fs.mounts, fs.volumes.length)

/-- Putting a volume back keeps the mounts and the number of volumes. -/
theorem shape_put (fs : FileSystem) (i : Nat) (v : Volume) (o : Outside) :
    (fs.put i v o).shape = fs.shape := by
  simp only [shape, put, List.length_set]

/-! ### Where a path leads -/

/-- A path leads to one of the mounts. -/
theorem mem_of_locate {fs : FileSystem} {path : String} {place : Place}
    (h : fs.locate path = .ok place) : place.mount ∈ fs.mounts := by
  obtain ⟨m, hlongest, rfl⟩ := locate_eq_ok_iff.1 h
  exact (Mount.mem_of_longest hlongest).1

/-! ### Mounting -/

end FileSystem

/-- A volume as it is made, when nothing has been done to it. -/
inductive Volume.Made : Volume → Prop
  | supplied (root : Node) : Made (.supplied root)
  | scratch : Made .scratch
  | kept (key : String) (o : Outside) : Made (.kept key o)
  | remote (location : String) : Made (.remote location)

namespace FileSystem

/-- A volume that an entry asks for has been made. -/
theorem made_volumeFor {devices : Devices} {entry : FstabEntry} {o : Outside} {v : Volume}
    (h : volumeFor devices entry o = some v) : v.Made := by
  unfold volumeFor at h
  cases htype : entry.fsType with
  | static =>
    rw [htype] at h
    obtain ⟨root, -, rfl⟩ := Option.map_eq_some_iff.1 h
    exact .supplied root
  | remote =>
    simp only [htype, Option.ite_none_right_eq_some, Option.some.injEq] at h
    exact h.2 ▸ .remote entry.device
  | scratch =>
    simp only [htype, Option.some.injEq] at h
    exact h ▸ .scratch
  | persistent =>
    simp only [htype, Option.ite_none_right_eq_some, Option.some.injEq] at h
    exact h.2 ▸ .kept entry.device o
  | other name => exact absurd h (by simp [htype])

section Mounting

variable {Q : FileSystem → Prop} {fs : FileSystem}
  (hmount : ∀ (fs : FileSystem) (entry : FstabEntry) (v : Volume), Q fs → v.Made →
    Q (fs.mount entry v))

include hmount

/-- What a mount keeps is kept when the mounts of a list of entries are made. -/
theorem mountEntries_induction (devices : Devices) (entries : List FstabEntry) (h : Q fs) :
    Q (entries.foldl (mountEntry devices) fs) := by
  induction entries generalizing fs with
  | nil => exact h
  | cons entry rest ih =>
    refine ih ?_
    unfold mountEntry
    by_cases hauto : entry.automount = true
    · rw [if_pos hauto]
      cases hvolume : volumeFor devices entry fs.outside with
      | none => exact h
      | some v => exact hmount fs entry v h (made_volumeFor hvolume)
    · rw [if_neg hauto]
      exact h

/-- What a mount keeps is kept when everything is mounted anew. -/
theorem remount_induction (entries : List FstabEntry) (devices : Devices)
    (h : Q { fs with mounts := [] }) : Q (fs.remount entries devices) := by
  have hmounted := mountEntries_induction hmount devices entries h
  show Q (ensureRoot _)
  unfold ensureRoot
  split
  · exact hmounted
  · exact hmount _ _ _ hmounted (.supplied _)

end Mounting

/-! ### What an operation leaves -/

/-- Closing succeeds unless the file is closed already. -/
theorem close_fst (fs : FileSystem) (file : OpenFile) :
    (fs.close file).1 =
      if file.handle.closed then .error .handleClosed
      else .ok { file with handle := { file.handle with closed := true } } := by
  unfold close
  simp only [Volume.close_fst]
  by_cases hclosed : file.handle.closed = true
  · rw [if_pos hclosed, if_pos hclosed]
    rfl
  · rw [if_neg hclosed, if_neg hclosed]
    rfl

/-- Looking a node up is done by one volume. -/
theorem node_snd (fs : FileSystem) (path : String) :
    (fs.node path).2 =
      match fs.locate path with
      | .error _ => fs
      | .ok place =>
        let found := (fs.volume place.mount.volume).get place.inner fs.outside
        fs.put place.mount.volume found.2.1 found.2.2 := by
  unfold node
  cases fs.locate path <;> rfl

/-- An entry is looked up by its node. -/
theorem get_snd (fs : FileSystem) (path : String) : (fs.get path).2 = (fs.node path).2 := by
  unfold get
  cases hnode : fs.node path with
  | mk result after => cases result <;> rfl

/-- A program is looked up by its node, unless it may not be run. -/
theorem program?_snd (fs : FileSystem) (path : String) :
    (fs.program? path).2 = fs ∨ (fs.program? path).2 = (fs.node path).2 := by
  unfold program?
  cases fs.locate path with
  | error e => exact Or.inl rfl
  | ok place =>
    simp only
    by_cases hexec : place.mount.flags.noExec = true
    · rw [if_pos hexec]
      exact Or.inl rfl
    · rw [if_neg hexec]
      refine Or.inr ?_
      cases hnode : fs.node path with
      | mk result after => cases result <;> simp

/-- A lookup keeps the mounts and the number of volumes. -/
theorem shape_node (fs : FileSystem) (path : String) : (fs.node path).2.shape = fs.shape := by
  rw [node_snd]
  cases fs.locate path with
  | error e => rfl
  | ok place => exact shape_put _ _ _ _

/-- Creating a file is done by one volume, unless it is refused. -/
theorem create_snd (fs : FileSystem) (path : String) :
    (fs.create path).2 =
      match fs.locate path with
      | .error _ => fs
      | .ok place =>
        if place.mount.flags.readOnly then fs
        else
          let made := (fs.volume place.mount.volume).create place.inner fs.outside
          fs.put place.mount.volume made.2.1 made.2.2 := by
  unfold create
  cases fs.locate path with
  | error e => rfl
  | ok place => by_cases hro : place.mount.flags.readOnly = true <;> simp only [hro] <;> rfl

/-- Changing flags is done by one volume, unless it is refused. -/
theorem chmod_snd (fs : FileSystem) (path mode : String) :
    (fs.chmod path mode).2 =
      match fs.locate path with
      | .error _ => fs
      | .ok place =>
        if place.mount.flags.readOnly then fs
        else
          let changed := (fs.volume place.mount.volume).chmod place.inner mode fs.outside
          fs.put place.mount.volume changed.2.1 changed.2.2 := by
  unfold chmod
  cases fs.locate path with
  | error e => rfl
  | ok place => by_cases hro : place.mount.flags.readOnly = true <;> simp only [hro] <;> rfl

/-- Opening a file is done by one volume, unless it is refused. -/
theorem openFile_snd {fs : FileSystem} {path : String} {place : Place}
    (h : fs.locate path = .ok place) (mode : OpenMode) :
    (fs.openFile path mode).2 =
      if place.mount.flags.readOnly && mode.isWrite then fs
      else
        let opened := (fs.volume place.mount.volume).openFile place.inner mode fs.outside
        fs.put place.mount.volume opened.2.1 opened.2.2 := by
  unfold openFile
  rw [h]
  simp only
  by_cases hrefused : (place.mount.flags.readOnly && mode.isWrite) = true
  · rw [if_pos hrefused, if_pos hrefused]
  · rw [if_neg hrefused, if_neg hrefused]

/-- Opening a file leaves a volume alone, or opens it on that volume. -/
theorem volume_openFile_cases (fs : FileSystem) (path : String) (mode : OpenMode) (j : Nat) :
    (fs.openFile path mode).2.volume j = fs.volume j ∨
      ∃ inner, (fs.openFile path mode).2.volume j =
        ((fs.volume j).openFile inner mode fs.outside).2.1 := by
  cases hlocate : fs.locate path with
  | error e =>
    rw [openFile, hlocate]
    exact Or.inl rfl
  | ok place =>
    rw [openFile_snd hlocate mode]
    by_cases hrefused : (place.mount.flags.readOnly && mode.isWrite) = true
    · rw [if_pos hrefused]
      exact Or.inl rfl
    · rw [if_neg hrefused]
      rcases fs.volume_put_cases place.mount.volume _ _ j with hsame | ⟨rfl, hnew⟩
      · exact Or.inl hsame
      · exact Or.inr ⟨place.inner, hnew⟩

/-- What one volume does, or is refused, leaves the mounts and the number of volumes. -/
theorem shape_of_locate {fs after : FileSystem} {path : String} {refused : Place → Bool}
    {act : Place → Volume × Outside}
    (h : after =
      match fs.locate path with
      | .error _ => fs
      | .ok place =>
        if refused place then fs else fs.put place.mount.volume (act place).1 (act place).2) :
    after.shape = fs.shape := by
  rw [h]
  cases fs.locate path with
  | error e => rfl
  | ok place =>
    simp only
    by_cases hrefused : refused place = true
    · rw [if_pos hrefused]
    · rw [if_neg hrefused]
      exact shape_put _ _ _ _

/-- So does opening a file. -/
theorem shape_openFile (fs : FileSystem) (path : String) (mode : OpenMode) :
    (fs.openFile path mode).2.shape = fs.shape := by
  cases hlocate : fs.locate path with
  | error e => rw [openFile, hlocate]
  | ok place =>
    rw [openFile_snd hlocate mode]
    by_cases hrefused : (place.mount.flags.readOnly && mode.isWrite) = true
    · rw [if_pos hrefused]
    · rw [if_neg hrefused]
      exact shape_put _ _ _ _

/-- A file that is opened for writing lies on a mount that is not read-only. -/
theorem openFile_isWrite {fs : FileSystem} {path : String} {mode : OpenMode}
    (h : (fs.openFile path mode).1.handle.mode.isWrite = true) :
    ∃ m ∈ fs.mounts, (fs.openFile path mode).1.volume = m.volume ∧ m.flags.readOnly = false := by
  unfold openFile at h ⊢
  cases hlocate : fs.locate path with
  | error e =>
    rw [hlocate] at h
    exact absurd h (by simp [FileHandle.failed, OpenMode.isWrite])
  | ok place =>
    rw [hlocate] at h
    simp only at h ⊢
    by_cases hrefused : (place.mount.flags.readOnly && mode.isWrite) = true
    · rw [if_pos hrefused] at h
      exact absurd h (by simp [FileHandle.failed, OpenMode.isWrite])
    · rw [if_neg hrefused] at h ⊢
      have hmode : mode.isWrite = true := Volume.isWrite_openFile _ _ _ _ h
      refine ⟨place.mount, mem_of_locate hlocate, rfl, ?_⟩
      simpa [hmode] using hrefused

end FileSystem

namespace FileSystemUse

/-- Closing a file is done by its volume. -/
theorem perform_close_fs (u : FileSystemUse) (i : Nat) :
    (u.perform (.close i)).fs =
      match u.files[i]? with
      | none => u.fs
      | some file =>
        let closed := (u.fs.volume file.volume).close file.handle u.fs.outside
        u.fs.put file.volume closed.2.1 closed.2.2 := by
  rw [perform]
  cases u.files[i]? with
  | none => rfl
  | some file =>
    have hfs : (u.fs.close file).2 = u.fs.put file.volume
        ((u.fs.volume file.volume).close file.handle u.fs.outside).2.1
        ((u.fs.volume file.volume).close file.handle u.fs.outside).2.2 := rfl
    simp only
    cases hclose : u.fs.close file with
    | mk result fs =>
      rw [hclose] at hfs
      cases result <;> exact hfs

/-- No operation changes the mounts or the number of volumes. -/
theorem shape_perform (u : FileSystemUse) (op : FileSystemOp) :
    (u.perform op).fs.shape = u.fs.shape := by
  cases op with
  | get path =>
    show (u.fs.get path).2.shape = _
    rw [FileSystem.get_snd, FileSystem.shape_node]
  | create path => exact FileSystem.shape_of_locate (FileSystem.create_snd u.fs path)
  | openFile path mode => exact FileSystem.shape_openFile u.fs path mode
  | chmod path mode => exact FileSystem.shape_of_locate (FileSystem.chmod_snd u.fs path mode)
  | program path =>
    show (u.fs.program? path).2.shape = _
    rcases FileSystem.program?_snd u.fs path with h | h
    · rw [h]
    · rw [h, FileSystem.shape_node]
  | read i =>
    rw [perform]
    cases u.files[i]? <;> rfl
  | write i data =>
    rw [perform]
    cases u.files[i]? with
    | none => rfl
    | some file => exact FileSystem.shape_put _ _ _ _
  | close i =>
    rw [perform_close_fs]
    cases u.files[i]? with
    | none => rfl
    | some file => exact FileSystem.shape_put _ _ _ _

/-- A file comes from one that was open before, or has just been opened. -/
theorem mem_files_perform {u : FileSystemUse} {op : FileSystemOp} {file : OpenFile}
    (h : file ∈ (u.perform op).files) :
    (∃ old ∈ u.files, file.volume = old.volume ∧ file.handle.mode = old.handle.mode ∧
        file.handle.binding = old.handle.binding ∧ file.handle.path = old.handle.path) ∨
      ∃ path mode, op = .openFile path mode ∧ file = (u.fs.openFile path mode).1 := by
  have hold : file ∈ u.files → ∃ old ∈ u.files, file.volume = old.volume ∧
      file.handle.mode = old.handle.mode ∧ file.handle.binding = old.handle.binding ∧
      file.handle.path = old.handle.path :=
    fun hmem => ⟨file, hmem, rfl, rfl, rfl, rfl⟩
  cases op with
  | openFile path mode =>
    rcases List.mem_append.1 h with h | h
    · exact Or.inl (hold h)
    · exact Or.inr ⟨path, mode, rfl, List.mem_singleton.1 h⟩
  | close i =>
    refine Or.inl ?_
    rw [perform] at h
    cases hfile : u.files[i]? with
    | none =>
      rw [hfile] at h
      exact hold h
    | some old =>
      rw [hfile] at h
      simp only at h
      have hmem : old ∈ u.files := List.mem_of_getElem? hfile
      cases hclose : u.fs.close old with
      | mk result fs =>
        rw [hclose] at h
        cases result with
        | error e => exact hold h
        | ok closed =>
          -- the closed handle stands in the place of the old one, with all but its flag
          rcases List.mem_or_eq_of_mem_set h with h | rfl
          · exact hold h
          · have hresult := FileSystem.close_fst u.fs old
            rw [hclose] at hresult
            by_cases hclosed : old.handle.closed = true
            · exact absurd hresult (by simp [hclosed])
            · rw [if_neg hclosed] at hresult
              obtain rfl := Except.ok.inj hresult
              exact ⟨old, hmem, rfl, rfl, rfl, rfl⟩
  | read i =>
    rw [perform] at h
    cases hfile : u.files[i]? <;> rw [hfile] at h <;> exact Or.inl (hold h)
  | write i data =>
    rw [perform] at h
    cases hfile : u.files[i]? <;> rw [hfile] at h <;> exact Or.inl (hold h)
  | _ => exact Or.inl (hold h)

/-! ### Mounts and their volumes -/

/-- Each mount has a volume of its own and the flags that its options stand for, and the files open
for writing lie on mounts that are not read-only. -/
structure WellMounted (u : FileSystemUse) : Prop where
  below : ∀ m ∈ u.fs.mounts, m.volume < u.fs.volumes.length
  own : ∀ m ∈ u.fs.mounts, ∀ other ∈ u.fs.mounts, m.volume = other.volume → m = other
  flags : ∀ m ∈ u.fs.mounts, m.flags = MountOptions.parse m.options
  writers : ∀ file ∈ u.files, file.handle.mode.isWrite = true →
    file.volume < u.fs.volumes.length ∧
      ∀ m ∈ u.fs.mounts, m.volume = file.volume → m.flags.readOnly = false

/-- An operation leaves every mount with its volume. -/
theorem WellMounted.perform {u : FileSystemUse} (h : WellMounted u) (op : FileSystemOp) :
    WellMounted (u.perform op) := by
  have hshape := shape_perform u op
  have hmounts : (u.perform op).fs.mounts = u.fs.mounts := congrArg Prod.fst hshape
  have hlength : (u.perform op).fs.volumes.length = u.fs.volumes.length :=
    congrArg Prod.snd hshape
  refine ⟨?_, ?_, ?_, ?_⟩
  · rw [hmounts, hlength]
    exact h.below
  · rw [hmounts]
    exact h.own
  · rw [hmounts]
    exact h.flags
  · rw [hmounts, hlength]
    intro file hfile hwrite
    rcases mem_files_perform hfile with ⟨old, hold, hvolume, hmode, -⟩ | ⟨path, mode, -, rfl⟩
    · rw [hvolume]
      exact h.writers old hold (hmode ▸ hwrite)
    · obtain ⟨m, hm, hvolume, hro⟩ := FileSystem.openFile_isWrite hwrite
      rw [hvolume]
      refine ⟨h.below m hm, fun other hother heq => ?_⟩
      rw [h.own other hother m hm heq]
      exact hro

/-- A table has the new mount and some of the old ones. -/
theorem mem_insert {new m : Mount} {mounts : List Mount} (h : m ∈ new.insert mounts) :
    m = new ∨ m ∈ mounts := by
  induction mounts with
  | nil => exact Or.inl (List.mem_singleton.1 h)
  | cons first rest ih =>
    unfold Mount.insert at h
    by_cases hpath : first.path = new.path
    · rw [if_pos hpath] at h
      rcases List.mem_cons.1 h with h | h
      · exact Or.inl h
      · exact Or.inr (List.mem_cons_of_mem _ h)
    · rw [if_neg hpath] at h
      rcases List.mem_cons.1 h with rfl | h
      · exact Or.inr List.mem_cons_self
      · exact (ih h).imp_right (List.mem_cons_of_mem _)

/-- A mount is a new one with the next volume, or was there before. -/
theorem mem_mounts_mount {fs : FileSystem} {entry : FstabEntry} {v : Volume} {m : Mount}
    (h : m ∈ (fs.mount entry v).mounts) :
    m = { device := entry.device, path := Path.resolve entry.mountPoint,
          resolved := Path.resolve_resolve entry.mountPoint, fsType := v.fsType,
          options := entry.options, flags := entry.flags, volume := fs.volumes.length } ∨
      m ∈ fs.mounts :=
  mem_insert h

/-- A new mount has a new volume. -/
theorem WellMounted.mount {u : FileSystemUse} (h : WellMounted u) (entry : FstabEntry)
    (v : Volume) : WellMounted { u with fs := u.fs.mount entry v } := by
  have hlength : (u.fs.mount entry v).volumes.length = u.fs.volumes.length + 1 :=
    List.length_append
  have hold : ∀ m ∈ u.fs.mounts, m.volume ≠ u.fs.volumes.length := fun m hm =>
    Nat.ne_of_lt (h.below m hm)
  refine ⟨fun m hm => ?_, fun m hm other hother heq => ?_, fun m hm => ?_,
    fun file hfile hwrite => ?_⟩
  · rw [hlength]
    rcases mem_mounts_mount hm with rfl | hm
    · exact Nat.lt_succ_self _
    · exact Nat.lt_succ_of_lt (h.below m hm)
  · rcases mem_mounts_mount hm with rfl | hm <;> rcases mem_mounts_mount hother with rfl | hother
    · rfl
    · exact absurd heq.symm (hold other hother)
    · exact absurd heq (hold m hm)
    · exact h.own m hm other hother heq
  · rcases mem_mounts_mount hm with rfl | hm
    · rfl
    · exact h.flags m hm
  · obtain ⟨hbelow, hwriters⟩ := h.writers file hfile hwrite
    refine ⟨hlength ▸ Nat.lt_succ_of_lt hbelow, fun m hm heq => ?_⟩
    rcases mem_mounts_mount hm with rfl | hm
    · exact absurd heq.symm (Nat.ne_of_lt hbelow)
    · exact hwriters m hm heq

/-- The mounts of a list of entries have volumes of their own, in whatever place they are made. -/
theorem WellMounted.remount {u : FileSystemUse} (h : WellMounted u) (entries : List FstabEntry)
    (devices : Devices) : WellMounted { u with fs := u.fs.remount entries devices } := by
  have hbare : WellMounted { u with fs := { u.fs with mounts := [] } } := by
    refine ⟨?_, ?_, ?_, fun file hfile hwrite => ⟨(h.writers file hfile hwrite).1, ?_⟩⟩ <;>
      exact fun m hm => absurd hm List.not_mem_nil
  exact FileSystem.remount_induction (Q := fun fs => WellMounted { u with fs })
    (fun _ entry v hfs _ => hfs.mount entry v) entries devices hbare

/-- The filesystem is well mounted when it has been mounted. -/
theorem wellMounted_start (entries : List FstabEntry) (devices : Devices) (o : Outside) :
    WellMounted (start entries devices o) := by
  have hempty : WellMounted { fs := { outside := o } } := by
    refine ⟨?_, ?_, ?_, ?_⟩ <;> exact fun x hx => absurd hx List.not_mem_nil
  exact hempty.remount entries devices

/-- Every event leaves it so. -/
theorem WellMounted.after {u : FileSystemUse} (h : WellMounted u) (event : FileSystemEvent) :
    WellMounted (u.after event) := by
  cases event with
  | op op => exact h.perform op
  | mount entry v => exact h.mount entry v
  | remount entries devices => exact h.remount entries devices
  | host o => exact ⟨h.below, h.own, h.flags, h.writers⟩

/-- Whatever happens, every mount keeps a volume of its own. -/
theorem WellMounted.run {u : FileSystemUse} (h : WellMounted u) (events : List FileSystemEvent) :
    WellMounted (u.run events) := by
  induction events generalizing u with
  | nil => exact h
  | cons event rest ih => exact ih (h.after event)

end FileSystemUse

end MountShell
