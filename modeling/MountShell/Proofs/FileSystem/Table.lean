import Mathlib.Data.List.Induction
import MountShell.Proofs.FileSystem.Routing

/-!
# The mounts of a list of entries

An entry counts if it is to be mounted at the start and the devices have what it asks for
(`Devices.mounts`).  The table that is put together from a list of entries has one mount for each
point of the entries that count.  It stands where the point comes first and is made as the last of
the entries for the point says (`FileSystem.MadeFrom`); the entries that do not count are as good as
not there.

Main statement: `FileSystem.ofFstab_table`.
-/

namespace MountShell

/-- The place where an entry is mounted, in normal form. -/
def FstabEntry.path (entry : FstabEntry) : String :=
  Path.resolve entry.mountPoint

theorem FstabEntry.resolve_path (entry : FstabEntry) : Path.resolve entry.path = entry.path :=
  Path.resolve_resolve entry.mountPoint

namespace Devices

/-- The devices have what an entry asks for: a tree of that name, the fetcher that a remote tree is
read with, or the store that a tree is kept in.  Scratch space can always be had, other types
never. -/
def supports (devices : Devices) (entry : FstabEntry) : Bool :=
  match entry.fsType with
  | .static => NameMap.contains entry.device devices.trees
  | .remote => devices.fetcher
  | .scratch => true
  | .persistent => devices.store
  | .other _ => false

/-- An entry is mounted at the start if it asks for that and the devices support it. -/
def mounts (devices : Devices) (entry : FstabEntry) : Bool :=
  entry.automount && devices.supports entry

end Devices

namespace FileSystem

/-! ### What an entry asks for -/

theorem isSome_volumeFor (devices : Devices) (entry : FstabEntry) (o : Outside) :
    (volumeFor devices entry o).isSome = devices.supports entry := by
  unfold volumeFor Devices.supports
  cases entry.fsType with
  | static => exact Option.isSome_map
  | remote => cases devices.fetcher <;> rfl
  | scratch => rfl
  | persistent => cases devices.store <;> rfl
  | other name => rfl

/-- A volume has the type that the entry names. -/
theorem fsType_volumeFor {devices : Devices} {entry : FstabEntry} {o : Outside} {v : Volume}
    (h : volumeFor devices entry o = some v) : v.fsType = entry.fsType := by
  unfold volumeFor at h
  cases htype : entry.fsType with
  | static =>
    rw [htype] at h
    obtain ⟨root, -, rfl⟩ := Option.map_eq_some_iff.1 h
    rfl
  | remote =>
    simp only [htype, Option.ite_none_right_eq_some, Option.some.injEq] at h
    exact h.2 ▸ rfl
  | scratch =>
    simp only [htype, Option.some.injEq] at h
    exact h ▸ rfl
  | persistent =>
    simp only [htype, Option.ite_none_right_eq_some, Option.some.injEq] at h
    exact h.2 ▸ rfl
  | other name => exact absurd h (by simp [htype])

/-- An entry that does not count changes nothing. -/
theorem mountEntry_of_not_mounts {devices : Devices} {entry : FstabEntry}
    (h : devices.mounts entry = false) (fs : FileSystem) : mountEntry devices fs entry = fs := by
  unfold mountEntry
  by_cases hauto : entry.automount = true
  · have hnone : volumeFor devices entry fs.outside = none := by
      rw [← Option.not_isSome_iff_eq_none, isSome_volumeFor]
      simpa [Devices.mounts, hauto] using h
    rw [if_pos hauto, hnone]
  · rw [if_neg hauto]

/-- An entry that counts is mounted. -/
theorem mountEntry_of_mounts {devices : Devices} {entry : FstabEntry}
    (h : devices.mounts entry = true) (fs : FileSystem) :
    ∃ v, volumeFor devices entry fs.outside = some v ∧
      mountEntry devices fs entry = fs.mount entry v := by
  obtain ⟨hauto, hsupports⟩ := Bool.and_eq_true_iff.1 h
  rw [← isSome_volumeFor devices entry fs.outside] at hsupports
  obtain ⟨v, hv⟩ := Option.isSome_iff_exists.1 hsupports
  refine ⟨v, hv, ?_⟩
  unfold mountEntry
  rw [if_pos hauto, hv]

/-- Only the entries that count matter. -/
theorem foldl_mountEntry_filter (devices : Devices) (entries : List FstabEntry) (fs : FileSystem) :
    (entries.filter devices.mounts).foldl (mountEntry devices) fs =
      entries.foldl (mountEntry devices) fs := by
  induction entries generalizing fs with
  | nil => rfl
  | cons entry rest ih =>
    cases hmounts : devices.mounts entry with
    | false =>
      rw [List.filter_cons_of_neg (by simp [hmounts]), List.foldl_cons,
        mountEntry_of_not_mounts hmounts, ih]
    | true => rw [List.filter_cons_of_pos hmounts, List.foldl_cons, List.foldl_cons, ih]

/-! ### One more mount -/

/-- The mount that an entry asks for, with the next volume. -/
def newMount (fs : FileSystem) (entry : FstabEntry) (v : Volume) : Mount where
  device := entry.device
  path := entry.path
  resolved := entry.resolve_path
  fsType := v.fsType
  options := entry.options
  flags := entry.flags
  volume := fs.volumes.length

theorem mounts_mount (fs : FileSystem) (entry : FstabEntry) (v : Volume) :
    (fs.mount entry v).mounts = (fs.newMount entry v).insert fs.mounts :=
  rfl

theorem path_newMount (fs : FileSystem) (entry : FstabEntry) (v : Volume) :
    (fs.newMount entry v).path = entry.path :=
  rfl

/-- The mount is the one that an entry asks for, with the volume that can be had for it. -/
structure MountOf (devices : Devices) (o : Outside) (fs : FileSystem) (entry : FstabEntry)
    (m : Mount) : Prop where
  path : m.path = entry.path
  device : m.device = entry.device
  fsType : m.fsType = entry.fsType
  options : m.options = entry.options
  flags : m.flags = MountOptions.parse entry.options
  below : m.volume < fs.volumes.length
  volume : volumeFor devices entry o = some (fs.volume m.volume)

/-- A mount stays what it is when something more is mounted. -/
theorem MountOf.mount {devices : Devices} {o : Outside} {fs : FileSystem} {entry : FstabEntry}
    {m : Mount} (h : MountOf devices o fs entry m) (other : FstabEntry) (v : Volume) :
    MountOf devices o (fs.mount other v) entry m where
  path := h.path
  device := h.device
  fsType := h.fsType
  options := h.options
  flags := h.flags
  below := by
    have hbelow := h.below
    simp only [FileSystem.mount, List.length_append]
    omega
  volume := by rw [volume_mount h.below, h.volume]

theorem volume_mount_self (fs : FileSystem) (entry : FstabEntry) (v : Volume) :
    (fs.mount entry v).volume fs.volumes.length = v := by
  simp [volume, mount]

variable {new : Mount} {mounts : List Mount}

/-- A mount whose path is taken keeps the order of the paths, any other comes last. -/
theorem paths_insert (new : Mount) (mounts : List Mount) :
    (new.insert mounts).map Mount.path =
      if new.path ∈ mounts.map Mount.path then mounts.map Mount.path
      else mounts.map Mount.path ++ [new.path] := by
  induction mounts with
  | nil => rfl
  | cons first rest ih =>
    unfold Mount.insert
    by_cases hpath : first.path = new.path
    · rw [if_pos hpath, if_pos (by simp [hpath]), List.map_cons, List.map_cons, hpath]
    · rw [if_neg hpath, List.map_cons, ih]
      by_cases hmem : new.path ∈ rest.map Mount.path <;> simp [hmem, Ne.symm hpath]

/-- After a mount none of the others has its path. -/
theorem mem_insert_iff (hdistinct : (mounts.map Mount.path).Nodup) (m : Mount) :
    m ∈ new.insert mounts ↔ m = new ∨ m ∈ mounts ∧ m.path ≠ new.path := by
  induction mounts with
  | nil => simp [Mount.insert]
  | cons first rest ih =>
    obtain ⟨hnew, hdistinct⟩ := List.nodup_cons.1 hdistinct
    unfold Mount.insert
    by_cases hpath : first.path = new.path
    · have hothers : ∀ other ∈ rest, other.path ≠ new.path := fun other hother heq =>
        hnew (hpath.trans heq.symm ▸ List.mem_map_of_mem hother)
      rw [if_pos hpath, List.mem_cons]
      constructor
      · rintro (rfl | hmem)
        · exact Or.inl rfl
        · exact Or.inr ⟨List.mem_cons_of_mem _ hmem, hothers m hmem⟩
      · rintro (rfl | ⟨hmem, hne⟩)
        · exact Or.inl rfl
        · rcases List.mem_cons.1 hmem with rfl | hmem
          · exact absurd hpath hne
          · exact Or.inr hmem
    · rw [if_neg hpath, List.mem_cons, ih hdistinct]
      constructor
      · rintro (rfl | rfl | ⟨hmem, hother⟩)
        · exact Or.inr ⟨List.mem_cons_self, hpath⟩
        · exact Or.inl rfl
        · exact Or.inr ⟨List.mem_cons_of_mem _ hmem, hother⟩
      · rintro (rfl | ⟨hmem, hother⟩)
        · exact Or.inr (Or.inl rfl)
        · exact (List.mem_cons.1 hmem).imp_right fun hmem => Or.inr ⟨hmem, hother⟩

/-! ### All mounts -/

/-- The mounts are those of the entries: one for each of their paths, in the order in which the
paths come first, each made as the last entry for its path says. -/
structure MadeFrom (devices : Devices) (o : Outside) (entries : List FstabEntry)
    (fs : FileSystem) : Prop where
  outside : fs.outside = o
  apart : Apart fs.mounts
  paths : fs.mounts.map Mount.path = (entries.map FstabEntry.path).eraseDups
  last : ∀ m ∈ fs.mounts, ∃ entry,
    (entries.filter fun e => e.path = m.path).getLast? = some entry ∧
      MountOf devices o fs entry m

theorem eraseDups_append_singleton (paths : List String) (path : String) :
    (paths ++ [path]).eraseDups =
      if path ∈ paths then paths.eraseDups else paths.eraseDups ++ [path] := by
  rw [List.eraseDups_append]
  by_cases h : path ∈ paths <;> simp [List.removeAll, h, List.eraseDups_cons]

/-- One more entry, for which a volume can be had. -/
theorem MadeFrom.mount {devices : Devices} {o : Outside} {entries : List FstabEntry}
    {fs : FileSystem} (h : MadeFrom devices o entries fs) {entry : FstabEntry} {v : Volume}
    (hv : volumeFor devices entry o = some v) :
    MadeFrom devices o (entries ++ [entry]) (fs.mount entry v) := by
  have hapart := h.apart.mount entry v
  refine ⟨h.outside, hapart, ?_, fun m hm => ?_⟩
  · rw [mounts_mount, paths_insert, h.paths, path_newMount, List.map_append, List.map_singleton,
      eraseDups_append_singleton]
    simp only [List.mem_eraseDups]
  · rcases (mem_insert_iff h.apart.distinct m).1 hm with rfl | ⟨hm, hne⟩
    · refine ⟨entry, ?_, ?_⟩
      · have hlast : [entry].filter (fun e => e.path = entry.path) = [entry] := by simp
        show ((entries ++ [entry]).filter fun e => e.path = entry.path).getLast? = some entry
        rw [List.filter_append, hlast, List.getLast?_append]
        rfl
      · refine ⟨rfl, rfl, fsType_volumeFor hv, rfl, rfl, ?_, ?_⟩
        · show fs.volumes.length < (fs.mount entry v).volumes.length
          simp [FileSystem.mount]
        · show volumeFor devices entry o = some ((fs.mount entry v).volume fs.volumes.length)
          rw [volume_mount_self, hv]
    · obtain ⟨last, hlast, hof⟩ := h.last m hm
      refine ⟨last, ?_, hof.mount entry v⟩
      have hother : [entry].filter (fun e => e.path = m.path) = [] := by
        have hne : entry.path ≠ m.path := fun heq => hne heq.symm
        simp [hne]
      rw [List.filter_append, hother, List.append_nil, hlast]

/-- The mounts of entries that count, made one after the other. -/
theorem madeFrom_foldl {devices : Devices} (o : Outside) (entries : List FstabEntry)
    (h : ∀ entry ∈ entries, devices.mounts entry = true) :
    MadeFrom devices o entries (entries.foldl (mountEntry devices) { outside := o }) := by
  induction entries using List.reverseRecOn with
  | nil => exact ⟨rfl, ⟨List.nodup_nil⟩, rfl, fun m hm => absurd hm List.not_mem_nil⟩
  | append_singleton entries entry ih =>
    have hmade := ih fun other hother => h other (List.mem_append_left _ hother)
    obtain ⟨v, hv, hmount⟩ := mountEntry_of_mounts (h entry (by simp))
      (entries.foldl (mountEntry devices) { outside := o })
    rw [List.foldl_append, List.foldl_cons, List.foldl_nil, hmount]
    exact hmade.mount (hmade.outside ▸ hv)

/-- The entry for a root that nothing is mounted at. -/
def rootEntry : FstabEntry where
  device := "none"
  mountPoint := "/"
  typeName := "jfs"
  options := "ro"

/-- The mount that is added where nothing is mounted at the root: an empty directory that takes
nothing. -/
structure EmptyRoot (fs : FileSystem) (m : Mount) : Prop where
  path : m.path = "/"
  device : m.device = "none"
  fsType : m.fsType = .static
  options : m.options = "ro"
  flags : m.flags = { readOnly := true, noExec := false }
  volume : fs.volume m.volume = .supplied (.directory false [])

/-- Where no entry is mounted at the root, an empty one is added at the end, and nothing else
changes. -/
theorem MadeFrom.ensureRoot {devices : Devices} {o : Outside} {entries : List FstabEntry}
    {fs : FileSystem} (h : MadeFrom devices o entries fs) :
    fs.ensureRoot.mounts.map Mount.path = (entries.map FstabEntry.path).eraseDups ++
        (if "/" ∈ entries.map FstabEntry.path then [] else ["/"]) ∧
      ∀ m ∈ fs.ensureRoot.mounts,
        (∃ entry, (entries.filter fun e => e.path = m.path).getLast? = some entry ∧
          MountOf devices o fs.ensureRoot entry m) ∨
        "/" ∉ entries.map FstabEntry.path ∧ EmptyRoot fs.ensureRoot m := by
  have hpath : (fs.newMount rootEntry (.supplied (.directory false []))).path = "/" :=
    show Path.resolve "/" = "/" by decide
  have hmem : "/" ∈ entries.map FstabEntry.path ↔ ∃ m ∈ fs.mounts, m.path = "/" := by
    rw [← List.mem_eraseDups, ← h.paths, List.mem_map]
  unfold FileSystem.ensureRoot
  by_cases hroot : (fs.mounts.any fun m => m.path = "/") = true
  · have hyes : "/" ∈ entries.map FstabEntry.path := hmem.2 (by simpa using hroot)
    rw [if_pos hroot, if_pos hyes, List.append_nil]
    exact ⟨h.paths, fun m hm => Or.inl (h.last m hm)⟩
  · have hno : "/" ∉ entries.map FstabEntry.path := fun hyes => hroot (by simpa using hmem.1 hyes)
    have hfree : "/" ∉ fs.mounts.map Mount.path := by
      rw [h.paths, List.mem_eraseDups]
      exact hno
    have hflags : rootEntry.flags = { readOnly := true, noExec := false } := by decide
    rw [if_neg hroot, if_neg hno]
    show (fs.mount rootEntry (.supplied (.directory false []))).mounts.map Mount.path = _ ∧ _
    refine ⟨?_, fun m hm => ?_⟩
    · rw [mounts_mount, paths_insert, hpath, if_neg hfree, h.paths]
    · rcases (mem_insert_iff h.apart.distinct m).1 hm with rfl | ⟨hm, -⟩
      · exact Or.inr ⟨hno, hpath, rfl, rfl, rfl, hflags, volume_mount_self fs rootEntry _⟩
      · obtain ⟨last, hlast, hof⟩ := h.last m hm
        exact Or.inl ⟨last, hlast, hof.mount rootEntry _⟩

/-- The table of a list of entries has one mount for each place that entries which count are mounted
at, in the order in which the places come first, and at the end an empty root if none of them is
the root.  Each mount is what the last of these entries for its place asks for.  Lists in which the
same entries count, in the same order, give the same filesystem. -/
theorem ofFstab_table (entries : List FstabEntry) (devices : Devices) (o : Outside) :
    let fs := ofFstab entries devices o
    let counted := entries.filter devices.mounts
    let places := counted.map FstabEntry.path
    fs.mounts.map Mount.path = places.eraseDups ++ (if "/" ∈ places then [] else ["/"]) ∧
      (∀ m ∈ fs.mounts,
        (∃ entry, (counted.filter fun e => e.path = m.path).getLast? = some entry ∧
          MountOf devices o fs entry m) ∨
        "/" ∉ places ∧ EmptyRoot fs m) ∧
      ∀ others : List FstabEntry, others.filter devices.mounts = counted →
        ofFstab others devices o = fs := by
  intro fs counted places
  have hmade : MadeFrom devices o counted
      (entries.foldl (mountEntry devices) { outside := o }) := by
    rw [← foldl_mountEntry_filter]
    exact madeFrom_foldl o counted fun entry hentry => (List.mem_filter.1 hentry).2
  refine ⟨hmade.ensureRoot.1, hmade.ensureRoot.2, fun others hothers => ?_⟩
  have hfold : others.foldl (mountEntry devices) { outside := o } =
      entries.foldl (mountEntry devices) { outside := o } := by
    rw [← foldl_mountEntry_filter, hothers, foldl_mountEntry_filter]
  exact congrArg FileSystem.ensureRoot hfold

end FileSystem

end MountShell
