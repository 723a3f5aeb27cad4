import Mathlib.Data.List.Nodup
import MountShell.Proofs.FileSystem.Use
import MountShell.Proofs.Path.Normal

/-!
# Where paths lead

A mount table has one mount at each of its points, and one of them at the root
(`FileSystem.Tabled`); mounting something keeps it so. For such a table looking a path up never
fails: the mount whose point is the longest among those that the segments of the path begin with is
the only one of its kind, and its volume sees the segments that remain (`FileSystem.Routes`).

Main statement: `FileSystemUse.routing_run`, for every filesystem that comes about from an empty one
or from a list of entries and by any further mounts, under whatever texts.
-/

namespace MountShell

namespace FileSystem

/-- Mounts at distinct points. -/
structure Apart (mounts : List Mount) : Prop where
  distinct : (mounts.map Mount.path).Nodup

/-- Mounts at distinct points, with one at the root. -/
structure Tabled (mounts : List Mount) : Prop extends Apart mounts where
  root : "/" ∈ mounts.map Mount.path

/-- The way of a path: the mount is the one with the longest point among those that the segments of
the path begin with, and its volume sees the segments that remain. -/
structure Routes (mounts : List Mount) (path : String) (place : Place) : Prop where
  full : place.full = Path.resolve path
  chosen : ∀ m, m = place.mount ↔
    m ∈ mounts ∧ Path.segmentsOf m.path <+: Path.segmentsOf path ∧
      ∀ other ∈ mounts, Path.segmentsOf other.path <+: Path.segmentsOf path →
        (Path.segmentsOf other.path).length ≤ (Path.segmentsOf m.path).length
  absolute : Path.isAbsolute place.inner = true
  remaining : Path.segmentsOf path =
    Path.segmentsOf place.mount.path ++ Path.walkSteps place.inner
  inner : place.inner = Path.ofSegments (Path.walkSteps place.inner)

/-! ### Mounting -/

/-- A mount takes the place of the one at its point or is a further one. -/
theorem mem_paths_insert (new : Mount) (mounts : List Mount) (path : String) :
    path ∈ (new.insert mounts).map Mount.path ↔
      path = new.path ∨ path ∈ mounts.map Mount.path := by
  induction mounts with
  | nil => simp [Mount.insert]
  | cons first rest ih =>
    unfold Mount.insert
    by_cases hpath : first.path = new.path
    · rw [if_pos hpath]
      simp [hpath]
    · rw [if_neg hpath, List.map_cons, List.mem_cons, ih, List.map_cons, List.mem_cons]
      exact or_left_comm

theorem nodup_paths_insert (new : Mount) {mounts : List Mount}
    (h : (mounts.map Mount.path).Nodup) : ((new.insert mounts).map Mount.path).Nodup := by
  induction mounts with
  | nil => exact List.nodup_cons.2 ⟨List.not_mem_nil, List.nodup_nil⟩
  | cons first rest ih =>
    obtain ⟨hfirst, hrest⟩ := List.nodup_cons.1 h
    unfold Mount.insert
    by_cases hpath : first.path = new.path
    · rw [if_pos hpath, List.map_cons, ← hpath]
      exact h
    · rw [if_neg hpath, List.map_cons]
      refine List.nodup_cons.2 ⟨fun hmem => ?_, ih hrest⟩
      rcases (mem_paths_insert new rest first.path).1 hmem with heq | hmem
      · exact hpath heq
      · exact hfirst hmem

theorem Apart.mount {fs : FileSystem} (h : Apart fs.mounts) (entry : FstabEntry) (v : Volume) :
    Apart (fs.mount entry v).mounts :=
  ⟨nodup_paths_insert _ h.distinct⟩

theorem Tabled.mount {fs : FileSystem} (h : Tabled fs.mounts) (entry : FstabEntry) (v : Volume) :
    Tabled (fs.mount entry v).mounts where
  toApart := h.toApart.mount entry v
  root := (mem_paths_insert _ _ _).2 (Or.inr h.root)

/-- With the root mounted the table is complete. -/
theorem Apart.ensureRoot {fs : FileSystem} (h : Apart fs.mounts) : Tabled fs.ensureRoot.mounts := by
  unfold FileSystem.ensureRoot
  by_cases hroot : (fs.mounts.any fun m => m.path = "/") = true
  · rw [if_pos hroot]
    obtain ⟨m, hm, hpath⟩ := List.any_eq_true.1 hroot
    exact ⟨h, List.mem_map.2 ⟨m, hm, of_decide_eq_true hpath⟩⟩
  · have hslash : Path.resolve "/" = "/" := by decide
    rw [if_neg hroot]
    exact ⟨h.mount _ _, (mem_paths_insert _ _ _).2 (Or.inl hslash.symm)⟩

theorem tabled_remount (fs : FileSystem) (entries : List FstabEntry) (devices : Devices) :
    Tabled (fs.remount entries devices).mounts := by
  have hempty : Apart ({ fs with mounts := [] } : FileSystem).mounts := ⟨List.nodup_nil⟩
  exact Apart.ensureRoot (mountEntries_induction (Q := fun fs => Apart fs.mounts)
    (fun _ entry v hfs _ => hfs.mount entry v) devices entries hempty)

/-! ### The longest point -/

/-- A mount whose point the segments begin with, and that has the longest such point. -/
def IsLongest (segments : List String) (mounts : List Mount) (m : Mount) : Prop :=
  m ∈ mounts ∧ m.point <+: segments ∧
    ∀ other ∈ mounts, other.point <+: segments → other.point.length ≤ m.point.length

/-- Either the segments begin with no point at all, or one of the longest points is found. -/
theorem longest_cases (segments : List String) (mounts : List Mount) :
    (Mount.longest segments mounts = none ∧ ∀ m ∈ mounts, ¬m.point <+: segments) ∨
      ∃ m, Mount.longest segments mounts = some m ∧ IsLongest segments mounts m := by
  induction mounts with
  | nil => exact Or.inl ⟨rfl, fun m hm => absurd hm List.not_mem_nil⟩
  | cons first rest ih =>
    rw [Mount.longest]
    rcases ih with ⟨hnone, hother⟩ | ⟨m, hm, hmem, hbegins, hlongest⟩
    · rw [hnone]
      by_cases hfirst : first.point <+: segments
      · refine Or.inr ⟨first, if_pos (List.isPrefixOf_iff_prefix.2 hfirst), List.mem_cons_self,
          hfirst, ?_⟩
        intro other hmem hbegins
        rcases List.mem_cons.1 hmem with rfl | hmem
        · exact Nat.le_refl _
        · exact absurd hbegins (hother other hmem)
      · refine Or.inl ⟨if_neg fun h => hfirst (List.isPrefixOf_iff_prefix.1 h), ?_⟩
        exact List.forall_mem_cons.2 ⟨hfirst, hother⟩
    · rw [hm]
      -- The first mount of the table takes the place of the best of the others only if its point is
      -- strictly longer.
      by_cases hlonger : first.point <+: segments ∧ m.point.length < first.point.length
      · have htest : (first.point.isPrefixOf segments &&
            decide (m.point.length < first.point.length)) = true := by
          simpa using hlonger
        refine Or.inr ⟨first, if_pos htest, List.mem_cons_self, hlonger.1, ?_⟩
        intro other hmem hbegins
        rcases List.mem_cons.1 hmem with rfl | hmem
        · exact Nat.le_refl _
        · exact Nat.le_trans (hlongest other hmem hbegins) (Nat.le_of_lt hlonger.2)
      · have htest : ¬(first.point.isPrefixOf segments &&
            decide (m.point.length < first.point.length)) = true := by
          simpa using hlonger
        refine Or.inr ⟨m, if_neg htest, List.mem_cons_of_mem _ hmem, hbegins, ?_⟩
        intro other hmem hbegins
        rcases List.mem_cons.1 hmem with rfl | hmem
        · exact Nat.not_lt.1 fun hlt => hlonger ⟨hbegins, hlt⟩
        · exact hlongest other hmem hbegins

/-- A point determines its mount. -/
theorem Apart.eq_of_point_eq {mounts : List Mount} (h : Apart mounts) {m other : Mount}
    (hm : m ∈ mounts) (hother : other ∈ mounts) (hpoint : m.point = other.point) : m = other :=
  List.inj_on_of_nodup_map h.distinct hm hother (Mount.path_eq_path_iff.2 hpoint)

/-- Of the mounts of a table only one has the longest point. -/
theorem Apart.eq_of_isLongest {mounts : List Mount} (h : Apart mounts) {segments : List String}
    {m other : Mount} (hm : IsLongest segments mounts m)
    (hother : IsLongest segments mounts other) : m = other := by
  obtain ⟨hmem, hbegins, hlongest⟩ := hm
  obtain ⟨hmem', hbegins', hlongest'⟩ := hother
  have hlength : m.point.length = other.point.length :=
    Nat.le_antisymm (hlongest' m hmem hbegins) (hlongest other hmem' hbegins')
  refine h.eq_of_point_eq hmem hmem' ?_
  rw [List.prefix_iff_eq_take.1 hbegins, List.prefix_iff_eq_take.1 hbegins', hlength]

/-- Looking a path up in a table finds the mount with the longest point. -/
theorem Tabled.longest {mounts : List Mount} (h : Tabled mounts) (segments : List String) :
    ∃ m, Mount.longest segments mounts = some m ∧
      ∀ other, other = m ↔ IsLongest segments mounts other := by
  rcases longest_cases segments mounts with ⟨-, hnone⟩ | ⟨m, hm, hlongest⟩
  · obtain ⟨root, hroot, hpath⟩ := List.mem_map.1 h.root
    have hpoint : root.point = [] := Mount.path_eq_root_iff.1 hpath
    exact absurd (hpoint ▸ List.nil_prefix) (hnone root hroot)
  · refine ⟨m, hm, fun other => ⟨fun heq => heq ▸ hlongest, fun hother => ?_⟩⟩
    exact h.eq_of_isLongest hother hlongest

/-! ### The way of a path -/

/-- In a table every path has a way. -/
theorem Tabled.routes {fs : FileSystem} (h : Tabled fs.mounts) (path : String) :
    ∃ place, fs.locate path = .ok place ∧ Routes fs.mounts path place := by
  obtain ⟨m, hm, honly⟩ := h.longest (Path.segmentsOf path)
  obtain ⟨-, ⟨rest, hrest⟩, -⟩ := (honly m).1 rfl
  have hsegments : ∀ s ∈ rest, Path.IsSegment s := fun s hs =>
    Path.isSegment_of_mem_segmentsOf (hrest ▸ List.mem_append_right m.point hs)
  have hwalk := Path.walkSteps_ofSegments hsegments
  have hlocate := fs.locate_eq path
  rw [hm] at hlocate
  simp only [← hrest, List.drop_left] at hlocate
  refine ⟨_, hlocate, ⟨rfl, fun other => ?_, Path.isAbsolute_ofSegments rest, ?_, ?_⟩⟩
  · rw [honly other]
    simp only [IsLongest, Mount.point_eq]
  · rw [hwalk, ← m.point_eq]
    exact hrest.symm
  · rw [hwalk]

/-! ### What carries a path -/

theorem name_ofNode (node : Node) (path : String) :
    (Entry.ofNode node path).name = Path.basename path := by
  simp only [Entry.ofNode]

/-- Further names leave an entry its path and its own name. -/
theorem path_addNames (entry : Entry) (names : List String) :
    (entry.addNames names).path = entry.path ∧ (entry.addNames names).name = entry.name := by
  unfold Entry.addNames
  cases entry.kind <;> exact ⟨rfl, rfl⟩

/-- What is shown of a node carries its resolved path and the last segment of that. -/
theorem path_of_get {fs after : FileSystem} {path : String} {entry : Entry}
    (h : fs.get path = (.ok entry, after)) :
    entry.path = Path.resolve path ∧ entry.name = (Path.segmentsOf path).getLastD "/" := by
  have hlast : Path.basename (Path.resolve path) = (Path.segmentsOf path).getLastD "/" :=
    Path.basename_ofSegments fun _ hs => Path.isSegment_of_mem_segmentsOf hs
  unfold get at h
  cases hnode : fs.node path with
  | mk result later =>
    rw [hnode] at h
    cases result with
    | error e => exact absurd (congrArg Prod.fst h) (by simp)
    | ok node =>
      simp only [Prod.mk.injEq, Except.ok.injEq] at h
      obtain ⟨rfl, -⟩ := h
      have hkept := path_addNames (Entry.ofNode node (Path.resolve path))
        (later.pointsBelow (Path.resolve path))
      rw [hkept.1, hkept.2, name_ofNode, hlast]
      exact ⟨rfl, rfl⟩

/-- Every handle carries its resolved path, whether opening worked or not. -/
theorem path_openFile (fs : FileSystem) (path : String) (mode : OpenMode) :
    (fs.openFile path mode).1.handle.path = Path.resolve path := by
  unfold openFile
  cases hlocate : fs.locate path with
  | error e => rfl
  | ok place =>
    have hfull : place.full = Path.resolve path := by
      unfold locate at hlocate
      simp only at hlocate
      cases hfound : Mount.containing (Path.resolve path) fs.mounts with
      | none => exact absurd hlocate (by simp [hfound])
      | some m =>
        simp only [hfound, Except.ok.injEq] at hlocate
        rw [← hlocate]
    simp only []
    by_cases hrefused : (place.mount.flags.readOnly && mode.isWrite) = true
    · rw [if_pos hrefused]
      exact hfull
    · rw [if_neg hrefused]
      exact hfull

end FileSystem

namespace FileSystemUse

/-! ### Runs -/

/-- No event makes the mounts less of a table. -/
theorem tabled_after {u : FileSystemUse} (h : FileSystem.Tabled u.fs.mounts)
    (event : FileSystemEvent) : FileSystem.Tabled (u.after event).fs.mounts := by
  cases event with
  | op op =>
    have hmounts : (u.perform op).fs.mounts = u.fs.mounts := congrArg Prod.fst (shape_perform u op)
    show FileSystem.Tabled (u.perform op).fs.mounts
    rw [hmounts]
    exact h
  | mount entry v => exact h.mount entry v
  | remount entries devices => exact FileSystem.tabled_remount u.fs entries devices
  | host o => exact h

theorem tabled_start (entries : List FstabEntry) (devices : Devices) (o : Outside) :
    FileSystem.Tabled (start entries devices o).fs.mounts :=
  FileSystem.tabled_remount _ entries devices

theorem tabled_run {u : FileSystemUse} (h : FileSystem.Tabled u.fs.mounts)
    (events : List FileSystemEvent) : FileSystem.Tabled (u.run events).fs.mounts := by
  induction events generalizing u with
  | nil => exact h
  | cons event rest ih => exact ih (tabled_after h event)

/-- In every filesystem that comes about from a list of entries, the empty one among them, by mounts
under whatever texts, the mount points are distinct paths in normal form with the root among them.
So no path is without a way: it leads to the one mount with the longest point that its segments
begin with, and the volume sees the segments that remain. What is shown of a node and every handle
carry the resolved path. -/
theorem routing_run (entries : List FstabEntry) (devices : Devices) (o : Outside)
    (events : List FileSystemEvent) (path : String) (mode : OpenMode) :
    let fs := ((start entries devices o).run events).fs
    ((∀ m ∈ fs.mounts, Path.IsNormal m.path) ∧ (fs.mounts.map Mount.path).Nodup ∧
        "/" ∈ fs.mounts.map Mount.path) ∧
      (∃ place, fs.locate path = .ok place ∧ FileSystem.Routes fs.mounts path place) ∧
      (∀ entry after, fs.get path = (.ok entry, after) →
        entry.path = Path.resolve path ∧
          entry.name = (Path.segmentsOf path).getLastD "/") ∧
      (fs.openFile path mode).1.handle.path = Path.resolve path := by
  intro fs
  have htabled : FileSystem.Tabled fs.mounts := tabled_run (tabled_start entries devices o) events
  refine ⟨⟨fun m _ => (Path.resolve_eq_self_iff m.path).1 m.resolved, htabled.distinct,
    htabled.root⟩, htabled.routes path, ?_, fs.path_openFile path mode⟩
  exact fun entry after hget => FileSystem.path_of_get hget

/-- Scratch space at the root, at `/bc` and, twice, at `/b`, each time under another text. -/
def oddlyMounted : List FstabEntry × List FileSystemEvent :=
  let space (point : String) : FstabEntry :=
    { device := "none", mountPoint := point, typeName := "tmpfs" }
  ([space "", space "/a/../b/", space "bc"], [.mount (space "b/.") .scratch])

/-- The directory `/b` is the root of the space that was mounted there last.  It holds nothing that
has its name in front of another one. -/
theorem routing_oddly_mounted :
    let fs := ((start oddlyMounted.1 {} {}).run oddlyMounted.2).fs
    fs.mounts.map Mount.path = ["/", "/b", "/bc"] ∧
      (fs.locate "/bcd").toOption.map (fun place => place.mount.path) = some "/" ∧
      ∃ place entry after, fs.locate "../b/c/.." = .ok place ∧
        FileSystem.Routes fs.mounts "../b/c/.." place ∧
        (place.mount.path, place.mount.volume, place.inner) = ("/b", 3, "/") ∧
        fs.get "../b/c/.." = (.ok entry, after) ∧ entry.path = "/b" ∧ entry.name = "b" ∧
        (fs.openFile "../b/c/.." .append).1.handle.path = "/b" := by
  intro fs
  obtain ⟨-, ⟨place, hlocate, hroutes⟩, hentry, hhandle⟩ :=
    routing_run oddlyMounted.1 {} {} oddlyMounted.2 "../b/c/.." .append
  have hwhere : (fs.locate "../b/c/..").toOption.map (fun place =>
      (place.mount.path, place.mount.volume, place.inner)) = some ("/b", 3, "/") := by
    decide +kernel
  have hplace : (place.mount.path, place.mount.volume, place.inner) = ("/b", 3, "/") := by
    rw [hlocate] at hwhere
    exact Option.some.inj hwhere
  have hfound : (fs.get "../b/c/..").1.toOption.isSome = true := by decide +kernel
  have hresolve : Path.resolve "../b/c/.." = "/b" := by decide +kernel
  have hlast : (Path.segmentsOf "../b/c/..").getLastD "/" = "b" := by decide +kernel
  refine ⟨by decide +kernel, by decide +kernel, place, ?_⟩
  rcases hget : fs.get "../b/c/.." with ⟨result | entry, after⟩
  · rw [hget] at hfound
    exact absurd hfound Bool.false_ne_true
  · obtain ⟨hpath, hname⟩ := hentry entry after hget
    exact ⟨entry, after, hlocate, hroutes, hplace, rfl, hpath.trans hresolve, hname.trans hlast,
      hhandle.trans hresolve⟩

end FileSystemUse

end MountShell
