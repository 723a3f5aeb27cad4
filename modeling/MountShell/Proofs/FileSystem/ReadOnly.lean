import MountShell.Proofs.FileSystem.Use

/-!
# Read-only mounts

What happens to the tree behind a read-only mount, and how many writes to the store are made for it.
Creating, writing and changing flags is refused, but an open that does not ask for writing may still
create a missing file in a writeable directory (`FileSystemUse.slip?`).

Main statements: `Guarded.after` and `Guarded.run`, such opens are all that reaches the tree, in one
step and in a run; and `read_only_mount_run`, the tree behind a read-only mount is what it was with
the files of these opens in it.
-/

namespace MountShell

namespace FileSystemUse

/-- The volume that an operation is about, whether or not it is allowed. -/
def volumeOf? (u : FileSystemUse) : FileSystemOp → Option Nat
  | .get path | .create path | .openFile path _ | .chmod path _ | .program path =>
    (u.fs.locate path).toOption.map fun place => place.mount.volume
  | .read i | .write i _ | .close i => (u.files[i]?).map OpenFile.volume

/-- The number of writes to the store that an event makes for a volume. -/
def setsOf (i : Nat) (u : FileSystemUse) : FileSystemEvent → Nat
  | .op op =>
    if u.volumeOf? op = some i then (u.perform op).fs.outside.sets - u.fs.outside.sets else 0
  | _ => 0

/-- The number of writes to the store that a run makes for a volume. -/
def setsFor (i : Nat) : FileSystemUse → List FileSystemEvent → Nat
  | _, [] => 0
  | u, event :: rest => u.setsOf i event + setsFor i (u.after event) rest

/-- An open that does not ask for writing and creates a file: its path in the volume and its
mode. -/
def slip? (i : Nat) (u : FileSystemUse) : FileSystemEvent → Option (String × OpenMode)
  | .op (.openFile path mode) =>
    match u.fs.locate path with
    | .ok place =>
      if place.mount.volume = i ∧ mode.isWrite = false ∧ (u.fs.volume i).creates place.inner = true
      then some (place.inner, mode)
      else none
    | .error _ => none
  | _ => none

/-- The opens of a run that create a file without asking for writing. -/
def slips (i : Nat) : FileSystemUse → List FileSystemEvent → List (String × OpenMode)
  | _, [] => []
  | u, event :: rest => (u.slip? i event).toList ++ slips i (u.after event) rest

/-- All mounts of a volume are read-only, and no file on it is open for writing. -/
structure Guarded (i : Nat) (u : FileSystemUse) : Prop where
  below : i < u.fs.volumes.length
  refuses : ∀ m ∈ u.fs.mounts, m.volume = i → m.flags.readOnly = true
  readers : ∀ file ∈ u.files, file.volume = i → file.handle.mode.isWrite = false

/-- The volume of a read-only mount is guarded. -/
theorem WellMounted.guarded {u : FileSystemUse} (h : WellMounted u) {m : Mount}
    (hm : m ∈ u.fs.mounts) (hro : (MountOptions.parse m.options).readOnly = true) :
    Guarded m.volume u := by
  have hflags : m.flags.readOnly = true := by rw [h.flags m hm, hro]
  refine ⟨h.below m hm, fun other hother heq => ?_, fun file hfile heq => ?_⟩
  · rw [h.own other hother m hm heq]
    exact hflags
  · refine Bool.eq_false_iff.2 fun hwrite => ?_
    have hnot := (h.writers file hfile hwrite).2 m hm heq.symm
    exact absurd (hnot.symm.trans hflags) (by simp)

/-! ### One step -/

/-- An event leaves a volume as it is, but for the first fetch of its tree, and makes no write for
it. -/
def Spares (i : Nat) (u : FileSystemUse) (event : FileSystemEvent) : Prop :=
  u.slip? i event = none ∧ (u.fs.volume i).Loads ((u.after event).fs.volume i) ∧
    u.setsOf i event = 0

/-- An event creates a file in a volume, through an open that does not ask for writing. -/
def Slips (i : Nat) (u : FileSystemUse) (event : FileSystemEvent) : Prop :=
  ∃ path mode root new, u.slip? i event = some (path, mode) ∧
    (u.fs.volume i).root = some root ∧ Tree.create root path .emptyFile = .ok new ∧
    (u.after event).fs.volume i = { u.fs.volume i with root := some new } ∧
    u.setsOf i event =
      if (u.fs.volume i).fsType = .persistent ∧ mode ≠ .failed then 1 else 0

/-- An operation on a volume that stores nothing counts no store. -/
theorem setsOf_eq_zero {i : Nat} {u : FileSystemUse} {op : FileSystemOp}
    (h : u.volumeOf? op = some i → (u.perform op).fs.outside.sets = u.fs.outside.sets) :
    u.setsOf i (.op op) = 0 := by
  rw [setsOf]
  by_cases hop : u.volumeOf? op = some i
  · rw [if_pos hop, h hop, Nat.sub_self]
  · rw [if_neg hop]

/-- A lookup changes a volume at most by loading its tree. -/
theorem node_loads {i : Nat} {fs : FileSystem} (h : i < fs.volumes.length) (path : String) :
    (fs.volume i).Loads ((fs.node path).2.volume i) ∧
      (fs.node path).2.outside.sets = fs.outside.sets := by
  rw [FileSystem.node_snd]
  cases fs.locate path with
  | error e => exact ⟨Or.inl rfl, rfl⟩
  | ok place =>
    obtain ⟨hloads, hsets⟩ :=
      Volume.get_loads (fs.volume place.mount.volume) place.inner fs.outside
    refine ⟨?_, hsets⟩
    by_cases hi : i = place.mount.volume
    · subst hi
      rw [FileSystem.volume_put_self h]
      exact hloads
    · rw [FileSystem.volume_put_of_ne hi]
      exact Or.inl rfl

/-- Looking something up spares every volume. -/
theorem spares_of_node {i : Nat} {u : FileSystemUse} (h : i < u.fs.volumes.length)
    {op : FileSystemOp} {path : String} (hslip : u.slip? i (.op op) = none)
    (hop : (u.perform op).fs = u.fs ∨ (u.perform op).fs = (u.fs.node path).2) :
    Spares i u (.op op) := by
  refine ⟨hslip, ?_, setsOf_eq_zero fun _ => ?_⟩
  · show (u.fs.volume i).Loads ((u.perform op).fs.volume i)
    rcases hop with hop | hop <;> rw [hop]
    · exact Or.inl rfl
    · exact (node_loads h path).1
  · rcases hop with hop | hop <;> rw [hop]
    exact (node_loads h path).2

/-- What is done to another volume, or refused, spares the volume. -/
theorem spares_of_frame {i : Nat} {u : FileSystemUse} {op : FileSystemOp}
    (hslip : u.slip? i (.op op) = none)
    (hvolume : (u.perform op).fs.volume i = u.fs.volume i)
    (hsets : u.volumeOf? op = some i → (u.perform op).fs.outside.sets = u.fs.outside.sets) :
    Spares i u (.op op) :=
  ⟨hslip, Or.inl hvolume, setsOf_eq_zero hsets⟩

/-- An operation that read-only mounts refuse spares the volume of one. -/
theorem Guarded.spares_of_refused {i : Nat} {u : FileSystemUse} (h : Guarded i u)
    {op : FileSystemOp} {path : String} (hslip : u.slip? i (.op op) = none)
    (hvolume : u.volumeOf? op =
      (u.fs.locate path).toOption.map fun place => place.mount.volume)
    (act : FileSystem.Place → Volume × Outside)
    (hop : (u.perform op).fs =
      match u.fs.locate path with
      | .error _ => u.fs
      | .ok place =>
        if place.mount.flags.readOnly then u.fs
        else u.fs.put place.mount.volume (act place).1 (act place).2) :
    Spares i u (.op op) := by
  cases hlocate : u.fs.locate path with
  | error e =>
    rw [hlocate] at hop
    exact spares_of_frame hslip (by rw [hop]) fun _ => by rw [hop]
  | ok place =>
    rw [hlocate] at hop hvolume
    simp only at hop
    by_cases hro : place.mount.flags.readOnly = true
    · rw [if_pos hro] at hop
      exact spares_of_frame hslip (by rw [hop]) fun _ => by rw [hop]
    · have hi : i ≠ place.mount.volume := fun hi =>
        hro (h.refuses place.mount (FileSystem.mem_of_locate hlocate) hi.symm)
      rw [if_neg hro] at hop
      refine spares_of_frame hslip ?_ fun hsome => ?_
      · rw [hop, FileSystem.volume_put_of_ne hi]
      · rw [hvolume] at hsome
        exact absurd (Option.some.inj hsome).symm hi

/-- Nothing is created below a mount that is read-only. -/
theorem Guarded.spares_create {i : Nat} {u : FileSystemUse} (h : Guarded i u) (path : String) :
    Spares i u (.op (.create path)) := by
  exact h.spares_of_refused rfl rfl
    (fun place => ((u.fs.volume place.mount.volume).create place.inner u.fs.outside).2)
    (FileSystem.create_snd u.fs path)

/-- No flag is set there. -/
theorem Guarded.spares_chmod {i : Nat} {u : FileSystemUse} (h : Guarded i u)
    (path mode : String) : Spares i u (.op (.chmod path mode)) := by
  exact h.spares_of_refused rfl rfl
    (fun place => ((u.fs.volume place.mount.volume).chmod place.inner mode u.fs.outside).2)
    (FileSystem.chmod_snd u.fs path mode)

/-- What is done through an open file spares every volume on which no file is open for writing. -/
theorem Guarded.spares_of_file {i : Nat} {u : FileSystemUse} (h : Guarded i u) {op : FileSystemOp}
    {k : Nat} (hslip : u.slip? i (.op op) = none)
    (hvolume : u.volumeOf? op = (u.files[k]?).map OpenFile.volume)
    (act : OpenFile → Volume × Outside)
    (hact : ∀ file ∈ u.files, file.handle.mode.isWrite = false →
      act file = (u.fs.volume file.volume, u.fs.outside))
    (hop : (u.perform op).fs =
      match u.files[k]? with
      | none => u.fs
      | some file => u.fs.put file.volume (act file).1 (act file).2) :
    Spares i u (.op op) := by
  cases hfile : u.files[k]? with
  | none =>
    rw [hfile] at hop
    exact spares_of_frame hslip (by rw [hop]) fun _ => by rw [hop]
  | some file =>
    rw [hfile] at hop hvolume
    simp only at hop
    by_cases hi : i = file.volume
    · have hmem := List.mem_of_getElem? hfile
      have hsame : (u.perform op).fs = u.fs := by
        rw [hop, hact file hmem (h.readers file hmem hi.symm), FileSystem.put_volume]
      exact spares_of_frame hslip (by rw [hsame]) fun _ => by rw [hsame]
    · refine spares_of_frame hslip ?_ fun hsome => ?_
      · rw [hop, FileSystem.volume_put_of_ne hi]
      · rw [hvolume] at hsome
        exact absurd (Option.some.inj hsome).symm hi

/-- No handle there takes data. -/
theorem Guarded.spares_write {i : Nat} {u : FileSystemUse} (h : Guarded i u) (k : Nat)
    (data : String) : Spares i u (.op (.write k data)) := by
  refine h.spares_of_file rfl rfl
    (fun file => ((u.fs.volume file.volume).write file.handle data u.fs.outside).2)
    (fun file _ hmode => Volume.write_of_not_isWrite hmode _ data _) ?_
  rw [perform]
  cases u.files[k]? <;> rfl

/-- No handle there is ended with a newline. -/
theorem Guarded.spares_close {i : Nat} {u : FileSystemUse} (h : Guarded i u) (k : Nat) :
    Spares i u (.op (.close k)) := by
  exact h.spares_of_file rfl rfl
    (fun file => ((u.fs.volume file.volume).close file.handle u.fs.outside).2)
    (fun file _ hmode => Volume.close_of_not_isWrite hmode _ _) (perform_close_fs u k)

/-- Reading changes no volume. -/
theorem spares_read (i : Nat) (u : FileSystemUse) (k : Nat) : Spares i u (.op (.read k)) := by
  refine ⟨rfl, Or.inl ?_, setsOf_eq_zero fun _ => ?_⟩
  · show (u.perform (.read k)).fs.volume i = _
    rw [perform]
    cases u.files[k]? <;> rfl
  · rw [perform]
    cases u.files[k]? with
    | none => rfl
    | some file => exact Volume.sets_read _ _ _

/-- What slips through is an open for reading that creates a file. -/
theorem slip?_openFile {u : FileSystemUse} {path : String} {place : FileSystem.Place}
    (h : u.fs.locate path = .ok place) (i : Nat) (mode : OpenMode) :
    u.slip? i (.op (.openFile path mode)) =
      if place.mount.volume = i ∧ mode.isWrite = false ∧
        (u.fs.volume i).creates place.inner = true then some (place.inner, mode) else none := by
  rw [slip?, h]

/-- An open works on the volume that its path is located at. -/
theorem volumeOf?_openFile {u : FileSystemUse} {path : String} {place : FileSystem.Place}
    (h : u.fs.locate path = .ok place) (mode : OpenMode) :
    u.volumeOf? (.openFile path mode) = some place.mount.volume := by
  rw [volumeOf?, h]
  rfl

/-- An open that does not ask for writing and is not refused spares the volume it is about, unless
it creates a file there. -/
theorem spares_or_slips_of_open {u : FileSystemUse} {path : String} {place : FileSystem.Place}
    {mode : OpenMode} (hlocate : u.fs.locate path = .ok place)
    (hbelow : place.mount.volume < u.fs.volumes.length) (hmode : mode.isWrite = false) :
    Spares place.mount.volume u (.op (.openFile path mode)) ∨
      Slips place.mount.volume u (.op (.openFile path mode)) := by
  have hslip := slip?_openFile hlocate place.mount.volume mode
  have hopen : (u.perform (.openFile path mode)).fs = _ := FileSystem.openFile_snd hlocate mode
  rw [hmode, Bool.and_false, if_neg Bool.false_ne_true] at hopen
  have hvolume : (u.perform (.openFile path mode)).fs.volume place.mount.volume =
      ((u.fs.volume place.mount.volume).openFile place.inner mode u.fs.outside).2.1 := by
    rw [hopen, FileSystem.volume_put_self hbelow]
  have hsets : (u.perform (.openFile path mode)).fs.outside.sets =
      ((u.fs.volume place.mount.volume).openFile place.inner mode u.fs.outside).2.2.sets := by
    rw [hopen]
    rfl
  rcases Volume.openFile_cases (u.fs.volume place.mount.volume) place.inner mode u.fs.outside with
    ⟨hcreates, hloads, hkeep⟩ | ⟨hcreates, root, new, hroot, hnew, hafter, hkeep⟩
  · have hnone : u.slip? place.mount.volume (.op (.openFile path mode)) = none := by
      rw [hslip, hcreates, if_neg (by simp)]
    refine Or.inl ⟨hnone, ?_, setsOf_eq_zero fun _ => hsets.trans hkeep⟩
    rw [← hvolume] at hloads
    exact hloads
  · have hsome : u.slip? place.mount.volume (.op (.openFile path mode)) =
        some (place.inner, mode) := by
      rw [hslip, if_pos ⟨rfl, hmode, hcreates⟩]
    refine Or.inr ⟨place.inner, mode, root, new, hsome, hroot, hnew, hvolume.trans hafter, ?_⟩
    rw [setsOf, if_pos (volumeOf?_openFile hlocate mode), hsets, hkeep, Nat.add_sub_cancel_left]

/-- An open spares the volume of a read-only mount, unless it does not ask for writing and creates a
file. -/
theorem Guarded.openFile {i : Nat} {u : FileSystemUse} (h : Guarded i u) (path : String)
    (mode : OpenMode) :
    Spares i u (.op (.openFile path mode)) ∨ Slips i u (.op (.openFile path mode)) := by
  cases hlocate : u.fs.locate path with
  | error e =>
    have hsame : (u.perform (.openFile path mode)).fs = u.fs := by
      show (u.fs.openFile path mode).2 = u.fs
      rw [FileSystem.openFile, hlocate]
    have hslip : u.slip? i (.op (.openFile path mode)) = none := by rw [slip?, hlocate]
    exact Or.inl (spares_of_frame hslip (by rw [hsame]) fun _ => by rw [hsame])
  | ok place =>
    have hslip := slip?_openFile hlocate i mode
    have hopen : (u.perform (.openFile path mode)).fs = _ := FileSystem.openFile_snd hlocate mode
    by_cases hi : i = place.mount.volume
    · subst hi
      -- every mount of the volume is read-only, and then a mode that writes is refused before the
      -- volume is asked
      have hro : place.mount.flags.readOnly = true :=
        h.refuses place.mount (FileSystem.mem_of_locate hlocate) rfl
      cases hmode : mode.isWrite with
      | true =>
        rw [hmode, if_neg (by simp)] at hslip
        rw [hro, hmode, Bool.and_self, if_pos rfl] at hopen
        exact Or.inl (spares_of_frame hslip (by rw [hopen]) fun _ => by rw [hopen])
      | false => exact spares_or_slips_of_open hlocate h.below hmode
    · have hother : (u.perform (.openFile path mode)).fs.volume i = u.fs.volume i := by
        rw [hopen]
        by_cases hrefused : (place.mount.flags.readOnly && mode.isWrite) = true
        · rw [if_pos hrefused]
        · rw [if_neg hrefused]
          exact FileSystem.volume_put_of_ne hi _ _ _
      rw [if_neg fun hand => hi hand.1.symm] at hslip
      refine Or.inl (spares_of_frame hslip hother fun hsome => ?_)
      rw [volumeOf?_openFile hlocate mode] at hsome
      exact absurd (Option.some.inj hsome).symm hi

/-- An operation spares the volume of a read-only mount, unless it is an open that does not ask for
writing and creates a file. -/
theorem Guarded.op {i : Nat} {u : FileSystemUse} (h : Guarded i u) (op : FileSystemOp) :
    Spares i u (.op op) ∨ Slips i u (.op op) := by
  cases op with
  | get path =>
    exact Or.inl (spares_of_node h.below rfl (Or.inr (FileSystem.get_snd u.fs path)))
  | program path =>
    exact Or.inl (spares_of_node h.below rfl (FileSystem.program?_snd u.fs path))
  | create path => exact Or.inl (h.spares_create path)
  | openFile path mode => exact h.openFile path mode
  | chmod path mode => exact Or.inl (h.spares_chmod path mode)
  | read k => exact Or.inl (spares_read i u k)
  | write k data => exact Or.inl (h.spares_write k data)
  | close k => exact Or.inl (h.spares_close k)

/-- A guarded volume stays guarded. -/
theorem Guarded.perform {i : Nat} {u : FileSystemUse} (h : Guarded i u) (op : FileSystemOp) :
    Guarded i (u.perform op) := by
  have hshape := shape_perform u op
  have hmounts : (u.perform op).fs.mounts = u.fs.mounts := congrArg Prod.fst hshape
  have hlength : (u.perform op).fs.volumes.length = u.fs.volumes.length :=
    congrArg Prod.snd hshape
  refine ⟨hlength ▸ h.below, hmounts ▸ h.refuses, fun file hfile heq => ?_⟩
  rcases mem_files_perform hfile with ⟨old, hold, hvolume, hmode, -⟩ | ⟨path, mode, -, rfl⟩
  · rw [hmode]
    exact h.readers old hold (hvolume ▸ heq)
  · refine Bool.eq_false_iff.2 fun hwrite => ?_
    obtain ⟨m, hm, hvolume, hro⟩ := FileSystem.openFile_isWrite hwrite
    exact absurd (h.refuses m hm (hvolume ▸ heq)) (by simp [hro])

/-! ### Mounting -/

/-- A volume is guarded, and it is the volume `v`. -/
def Holds (i : Nat) (v : Volume) (u : FileSystemUse) : Prop :=
  Guarded i u ∧ u.fs.volume i = v

/-- A mount leaves what other volumes hold. -/
theorem Holds.mount {i : Nat} {v : Volume} {u : FileSystemUse} (h : Holds i v u)
    (entry : FstabEntry) (new : Volume) : Holds i v { u with fs := u.fs.mount entry new } := by
  obtain ⟨hguarded, hvolume⟩ := h
  have hlength : (u.fs.mount entry new).volumes.length = u.fs.volumes.length + 1 :=
    List.length_append
  refine ⟨⟨?_, fun m hm heq => ?_, hguarded.readers⟩, ?_⟩
  · rw [hlength]
    exact Nat.lt_succ_of_lt hguarded.below
  · rcases mem_mounts_mount hm with rfl | hm
    · exact absurd heq.symm (Nat.ne_of_lt hguarded.below)
    · exact hguarded.refuses m hm heq
  · rw [FileSystem.volume_mount hguarded.below]
    exact hvolume

/-- So does mounting anew. -/
theorem Holds.remount {i : Nat} {v : Volume} {u : FileSystemUse} (h : Holds i v u)
    (entries : List FstabEntry) (devices : Devices) :
    Holds i v { u with fs := u.fs.remount entries devices } := by
  have hbare : Holds i v { u with fs := { u.fs with mounts := [] } } :=
    ⟨⟨h.1.below, fun m hm => absurd hm List.not_mem_nil, h.1.readers⟩, h.2⟩
  exact FileSystem.remount_induction (Q := fun fs => Holds i v { u with fs })
    (fun _ entry new hfs _ => hfs.mount entry new) entries devices hbare

/-- Whatever happens, a guarded volume stays guarded, and it is spared unless an open creates a file
in it without asking for writing. -/
theorem Guarded.after {i : Nat} {u : FileSystemUse} (h : Guarded i u) (event : FileSystemEvent) :
    Guarded i (u.after event) ∧ (Spares i u event ∨ Slips i u event) := by
  cases event with
  | op op => exact ⟨h.perform op, h.op op⟩
  | mount entry v =>
    obtain ⟨hguarded, hvolume⟩ := Holds.mount ⟨h, rfl⟩ entry v
    exact ⟨hguarded, Or.inl ⟨rfl, Or.inl hvolume, rfl⟩⟩
  | remount entries devices =>
    obtain ⟨hguarded, hvolume⟩ := Holds.remount ⟨h, rfl⟩ entries devices
    exact ⟨hguarded, Or.inl ⟨rfl, Or.inl hvolume, rfl⟩⟩
  | host o => exact ⟨⟨h.below, h.refuses, h.readers⟩, Or.inl ⟨rfl, Or.inl rfl, rfl⟩⟩

/-! ### Runs -/

/-- The tree after some files have been created in it, one after the other. -/
def createAll (root : Node) (files : List (String × OpenMode)) : Except FsError Node :=
  files.foldlM (fun root file => Tree.create root file.1 .emptyFile) root

/-- Each file that is created makes the tree larger by one. -/
theorem size_createAll {root final : Node} {files : List (String × OpenMode)}
    (h : createAll root files = .ok final) : final.size = root.size + files.length := by
  induction files generalizing root with
  | nil =>
    obtain rfl : root = final := Except.ok.inj h
    rfl
  | cons file rest ih =>
    rw [createAll, List.foldlM_cons] at h
    cases hcreate : Tree.create root file.1 .emptyFile with
    | error e =>
      rw [hcreate] at h
      exact absurd h (by simp [bind, Except.bind])
    | ok new =>
      rw [hcreate] at h
      have hrest : final.size = new.size + rest.length := ih h
      have hnew : new.size = root.size + 1 := Tree.size_create hcreate
      rw [hrest, hnew, List.length_cons]
      omega

/-- The writes to the store that are made when files are created by opens. -/
def setsOfSlips (v : Volume) (files : List (String × OpenMode)) : Nat :=
  if v.fsType = .persistent then (files.filter fun file => file.2 ≠ .failed).length else 0

/-- Each open that creates a file on a persistent volume stores the tree once, unless it is bound to
fail. -/
theorem setsOfSlips_cons (v : Volume) (path : String) (mode : OpenMode)
    (files : List (String × OpenMode)) :
    setsOfSlips v ((path, mode) :: files) =
      (if v.fsType = .persistent ∧ mode ≠ .failed then 1 else 0) + setsOfSlips v files := by
  unfold setsOfSlips
  by_cases hstore : v.fsType = .persistent
  · by_cases hmode : mode = .failed
    · simp [hstore, hmode]
    · simp [hstore, hmode, Nat.add_comm]
  · simp [hstore]

/-- No file is created in a remote tree. -/
theorem isRemote_of_slip {i : Nat} {u : FileSystemUse} {event : FileSystemEvent}
    {file : String × OpenMode} (h : u.slip? i event = some file) :
    (u.fs.volume i).isRemote = false := by
  have hcreates : ∃ path, (u.fs.volume i).creates path = true := by
    unfold slip? at h
    split at h
    next path mode =>
      split at h
      next place hlocate =>
        split at h
        next hall => exact ⟨place.inner, hall.2.2⟩
        next => exact absurd h (by simp)
      next => exact absurd h (by simp)
    next => exact absurd h (by simp)
  obtain ⟨path, hpath⟩ := hcreates
  unfold Volume.creates at hpath
  simpa using (Bool.and_eq_true_iff.1 hpath).1

/-- The tree of a guarded volume stays what it is but for the files of slips, and these are all that
is written to the store for it. -/
theorem Guarded.run {i : Nat} {u : FileSystemUse} (h : Guarded i u)
    (events : List FileSystemEvent) :
    (∀ root, (u.fs.volume i).root = some root →
      ∃ final, ((u.run events).fs.volume i).root = some final ∧
        createAll root (slips i u events) = .ok final) ∧
      setsFor i u events = setsOfSlips (u.fs.volume i) (slips i u events) ∧
      ((u.fs.volume i).isRemote = true → slips i u events = []) := by
  induction events generalizing u with
  | nil =>
    refine ⟨fun root hroot => ⟨root, hroot, rfl⟩, ?_, fun _ => rfl⟩
    simp [setsFor, slips, setsOfSlips]
  | cons event rest ih =>
    obtain ⟨hguarded, hstep⟩ := h.after event
    obtain ⟨htree, hsets, hremote⟩ := ih hguarded
    -- The first event spares the volume, or it is a slip that creates one file; the rest is that of
    -- the events after it.
    rcases hstep with ⟨hslip, hloads, hzero⟩ |
      ⟨path, mode, root, new, hslip, hroot, hcreate, hafter, hone⟩
    · have hbacking := Volume.backing_of_loads hloads
      have hslips : slips i u (event :: rest) = slips i (u.after event) rest := by
        rw [slips, hslip]
        rfl
      rw [hslips]
      refine ⟨fun root hroot => ?_, ?_, fun hindex => hremote ?_⟩
      · have hsame := Volume.root_of_loads hloads hroot
        exact htree root (hsame ▸ hroot)
      · rw [setsFor, hzero, Nat.zero_add, hsets, setsOfSlips, setsOfSlips, Volume.fsType,
          Volume.fsType, hbacking]
      · rw [Volume.isRemote, hbacking]
        exact hindex
    · have hslips : slips i u (event :: rest) = (path, mode) :: slips i (u.after event) rest := by
        rw [slips, hslip]
        rfl
      rw [hslips]
      refine ⟨fun other hother => ?_, ?_, fun hindex => ?_⟩
      · obtain rfl : root = other := Option.some.inj (hroot.symm.trans hother)
        obtain ⟨final, hfinal, hall⟩ := htree new (by rw [hafter])
        refine ⟨final, hfinal, ?_⟩
        rw [createAll, List.foldlM_cons, hcreate]
        exact hall
      · rw [setsFor, hone, hsets, setsOfSlips_cons, hafter]
        rfl
      · exact absurd ((isRemote_of_slip hslip).symm.trans hindex) (by simp)

/-! ### The tree behind a read-only mount -/

/-- Take any filesystem that comes about by mounting and use, a mount of it with options that stand
for read-only, and what follows later, when other things may have been mounted as well.  From the
time its tree is there, the tree behind the mount changes by the files alone that opens create which
do not ask for writing, and it is the same tree just when there are no such opens.  A write to the
store is made for each of these files, if the tree is kept in one and a handle was asked for, and no
other.  In a remote tree there are none. -/
theorem read_only_mount_run (entries : List FstabEntry) (devices : Devices) (o : Outside)
    (before : List FileSystemEvent) {m : Mount}
    (hm : m ∈ ((start entries devices o).run before).fs.mounts)
    (hro : (MountOptions.parse m.options).readOnly = true)
    (middle events : List FileSystemEvent) :
    let u := ((start entries devices o).run before).run middle
    (∀ root, (u.fs.volume m.volume).root = some root →
      ∃ final, ((u.run events).fs.volume m.volume).root = some final ∧
        createAll root (slips m.volume u events) = .ok final ∧
        (final = root ↔ slips m.volume u events = [])) ∧
      setsFor m.volume u events =
        setsOfSlips (u.fs.volume m.volume) (slips m.volume u events) ∧
      ((u.fs.volume m.volume).fsType = .remote → slips m.volume u events = []) := by
  intro u
  have hguarded : Guarded m.volume u := by
    have hstart := ((wellMounted_start entries devices o).run before).guarded hm hro
    have hkeep : ∀ (events : List FileSystemEvent) (v : FileSystemUse), Guarded m.volume v →
        Guarded m.volume (v.run events) := by
      intro events
      induction events with
      | nil => exact fun _ hv => hv
      | cons event rest ih => exact fun v hv => ih _ (hv.after event).1
    exact hkeep middle _ hstart
  obtain ⟨htree, hsets, hremote⟩ := hguarded.run events
  refine ⟨fun root hroot => ?_, hsets, fun htype => hremote ?_⟩
  · obtain ⟨final, hfinal, hall⟩ := htree root hroot
    refine ⟨final, hfinal, hall, fun heq => ?_, fun hnil => ?_⟩
    · have hsize := size_createAll hall
      rw [heq] at hsize
      exact List.length_eq_zero_iff.1 (by omega)
    · rw [hnil] at hall
      exact (Except.ok.inj hall).symm
  · unfold Volume.fsType at htype
    unfold Volume.isRemote
    cases hbacking : (u.fs.volume m.volume).backing with
    | index location => rfl
    | _ => exact absurd htype (by simp [hbacking])

/-- Scratch space mounted read-only at `/t`. -/
def readOnlyScratch : FileSystemUse :=
  start [{ device := "none", mountPoint := "/t", typeName := "tmpfs", options := "ro" }] {} {}

/-- The mount at `/t`. -/
def scratchMount : Mount where
  device := "none"
  path := "/t"
  resolved := by decide +kernel
  fsType := .scratch
  options := "ro"
  flags := { readOnly := true }
  volume := 0

/-- Scratch space that is mounted read-only takes no file and no change of its flag, and stays
empty. -/
theorem read_only_scratch_run :
    let events : List FileSystemEvent :=
      [.op (.create "/t/a"), .op (.openFile "/t/a" .append), .op (.write 0 "x"),
        .op (.chmod "/t" "-w"), .op (.close 0)]
    scratchMount ∈ readOnlyScratch.fs.mounts ∧
      (MountOptions.parse scratchMount.options).readOnly = true ∧
      ((readOnlyScratch.run events).fs.volume 0).root = some (.directory true []) ∧
      setsFor 0 readOnlyScratch events = 0 := by
  intro events
  have hm : scratchMount ∈ readOnlyScratch.fs.mounts := by decide +kernel
  have hro : (MountOptions.parse scratchMount.options).readOnly = true := by decide +kernel
  have hnone : slips 0 readOnlyScratch events = [] := by decide +kernel
  have hroot : (readOnlyScratch.fs.volume 0).root = some (.directory true []) := by rfl
  obtain ⟨htree, hsets, -⟩ := read_only_mount_run _ _ _ [] hm hro [] events
  obtain ⟨final, hfinal, -, hsame⟩ := htree (.directory true []) hroot
  have hslips : setsOfSlips (readOnlyScratch.fs.volume 0) [] = 0 := by rfl
  rw [← hnone] at hslips
  refine ⟨hm, hro, ?_, hsets.trans hslips⟩
  rw [← hsame.2 hnone]
  exact hfinal

/-- An open for reading creates a file in scratch space that is mounted read-only. -/
theorem read_only_scratch_slip :
    scratchMount ∈ readOnlyScratch.fs.mounts ∧
      (MountOptions.parse scratchMount.options).readOnly = true ∧
      (readOnlyScratch.fs.volume scratchMount.volume).root = some (.directory true []) ∧
      ((readOnlyScratch.run [.op (.openFile "/t/f" .read)]).fs.volume scratchMount.volume).root =
        some (.directory true [("f", .emptyFile)]) := by
  refine ⟨?_, ?_, ?_, ?_⟩
  · decide +kernel
  · decide +kernel
  · rfl
  · rfl

end FileSystemUse

end MountShell
