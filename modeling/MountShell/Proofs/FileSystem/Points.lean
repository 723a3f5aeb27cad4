import Mathlib.Data.List.Basic
import MountShell.FileSystem.Basic
import MountShell.Proofs.Path.Containment

/-!
# Mount points as lists of segments

The mount table works on the texts of its points. As these are in normal form, each is the path of
a list of segments (`Mount.point`), and what is done on the texts has a law about these lists: the
mount that holds a path is the one with the longest point that the segments of the path begin with
(`Mount.containing_eq_longest`), its volume sees the segments that remain (`FileSystem.locate_eq`),
and a mount point lies right below a directory if it has one segment more
(`Mount.mem_namesBelow_iff`).
-/

namespace MountShell

namespace Mount

theorem isSegment_of_mem_point {m : Mount} {name : String} (h : name ∈ m.point) :
    Path.IsSegment name := by
  rw [point_eq] at h
  exact Path.isSegment_of_mem_segmentsOf h

/-- The path of a mount is that of its point. -/
theorem path_eq (m : Mount) : m.path = Path.ofSegments m.point := by
  rw [point_eq]
  exact m.resolved.symm

/-- Mounts have one point just when they have one path. -/
theorem path_eq_path_iff {m other : Mount} : m.path = other.path ↔ m.point = other.point := by
  rw [path_eq m, path_eq other]
  exact Path.ofSegments_inj (fun _ => isSegment_of_mem_point) fun _ => isSegment_of_mem_point

theorem path_eq_root_iff {m : Mount} : m.path = "/" ↔ m.point = [] := by
  rw [path_eq]
  exact Path.ofSegments_eq_root_iff fun _ => isSegment_of_mem_point

/-! ### The mount of a path -/

/-- The mount with the longest point among those given that `segments` begins with; the last of them
if there are several. -/
def longest (segments : List String) : List Mount → Option Mount
  | [] => none
  | m :: rest =>
    match longest segments rest with
    | some other =>
      if m.point.isPrefixOf segments && decide (other.point.length < m.point.length) then some m
      else some other
    | none => if m.point.isPrefixOf segments then some m else none

theorem mem_of_longest {segments : List String} {mounts : List Mount} {m : Mount}
    (h : longest segments mounts = some m) : m ∈ mounts ∧ m.point <+: segments := by
  induction mounts generalizing m with
  | nil => exact absurd h (by simp [longest])
  | cons first rest ih =>
    rw [longest] at h
    cases hrest : longest segments rest with
    | none =>
      rw [hrest] at h
      by_cases hfirst : first.point.isPrefixOf segments = true
      · simp only [hfirst, ↓reduceIte, Option.some.injEq] at h
        exact h ▸ ⟨List.mem_cons_self, List.isPrefixOf_iff_prefix.1 hfirst⟩
      · exact absurd h (by simp [hfirst])
    | some other =>
      rw [hrest] at h
      simp only at h
      split at h
      next hfirst =>
        obtain rfl := Option.some.inj h
        obtain ⟨hbegins, -⟩ := Bool.and_eq_true_iff.1 hfirst
        exact ⟨List.mem_cons_self, List.isPrefixOf_iff_prefix.1 hbegins⟩
      next =>
        obtain ⟨hmem, hbegins⟩ := ih (hrest.trans h)
        exact ⟨List.mem_cons_of_mem _ hmem, hbegins⟩

theorem longer_some (m other : Mount) :
    longer (some m) other =
      if other.path.utf8ByteSize < m.path.utf8ByteSize then some m else some other :=
  rfl

/-- Of three mounts, the second and the third may be compared first. -/
theorem longer_longer (best : Option Mount) (m other : Mount) :
    longer (longer best m) other =
      longer best (if other.path.utf8ByteSize < m.path.utf8ByteSize then m else other) := by
  cases best with
  | none =>
    have hnone : ∀ m, longer none m = some m := fun _ => rfl
    rw [hnone, hnone, longer_some, apply_ite some]
  | some first =>
    rw [longer_some first m, longer_some first]
    by_cases hfirst : m.path.utf8ByteSize < first.path.utf8ByteSize
    · rw [if_pos hfirst, longer_some]
      by_cases h : other.path.utf8ByteSize < m.path.utf8ByteSize
      · rw [if_pos h, if_pos hfirst, if_pos (Nat.lt_trans h hfirst)]
      · rw [if_neg h]
    · rw [if_neg hfirst, longer_some]
      by_cases h : other.path.utf8ByteSize < m.path.utf8ByteSize
      · rw [if_pos h, if_pos h, if_neg hfirst]
      · have hother : ¬other.path.utf8ByteSize < first.path.utf8ByteSize := fun hlt =>
          hfirst (Nat.lt_of_le_of_lt (Nat.not_lt.1 h) hlt)
        rw [if_neg h, if_neg h, if_neg hother]

/-- Mounts whose points contain one path have the longer text for the longer point. -/
theorem utf8ByteSize_path_lt_iff {segments : List String} (h : ∀ s ∈ segments, Path.IsSegment s)
    {m other : Mount} (hm : m.point <+: segments) (hother : other.point <+: segments) :
    m.path.utf8ByteSize < other.path.utf8ByteSize ↔ m.point.length < other.point.length := by
  rw [path_eq m, path_eq other]
  exact Path.utf8ByteSize_ofSegments_lt_iff h hm hother

/-- The mount that holds a path is the one with the longest point that its segments begin with. -/
theorem containing_eq_longest {segments : List String} (h : ∀ s ∈ segments, Path.IsSegment s)
    (mounts : List Mount) : containing (Path.ofSegments segments) mounts =
      longest segments mounts := by
  -- the best of the mounts so far is compared with the longest of those to come
  have hfold : ∀ best, (mounts.filter fun m =>
      Path.contains m.path (Path.ofSegments segments)).foldl longer best =
        (longest segments mounts).elim best (longer best) := by
    induction mounts with
    | nil => exact fun best => rfl
    | cons first rest ih =>
      intro best
      have hcontains : Path.contains first.path (Path.ofSegments segments) =
          first.point.isPrefixOf segments := by
        rw [Bool.eq_iff_iff, List.isPrefixOf_iff_prefix, path_eq first]
        exact Path.contains_ofSegments (fun _ => isSegment_of_mem_point) h
      rw [longest]
      by_cases hfirst : first.point.isPrefixOf segments = true
      · rw [List.filter_cons, hcontains, if_pos hfirst, List.foldl_cons, ih, hfirst]
        cases hrest : longest segments rest with
        | none => rfl
        | some other =>
          have hlonger := utf8ByteSize_path_lt_iff h (mem_of_longest hrest).2
            (List.isPrefixOf_iff_prefix.1 hfirst)
          simp only [Bool.true_and, decide_eq_true_eq, ← hlonger]
          rw [Option.elim_some, longer_longer]
          split <;> rfl
      · rw [List.filter_cons, hcontains, if_neg hfirst, ih, Bool.eq_false_iff.2 hfirst]
        cases longest segments rest <;> simp
  rw [containing, hfold none]
  cases longest segments mounts <;> rfl

/-! ### The mount points below a directory -/

/-- A mount point lies right below a directory if it has one segment more. -/
theorem nameBelow?_eq_some_iff {segments : List String} (h : ∀ s ∈ segments, Path.IsSegment s)
    (m : Mount) (name : String) :
    nameBelow? (Path.ofSegments segments) m = some name ↔ m.point = segments ++ [name] := by
  have hpoint : ∀ s ∈ m.point, Path.IsSegment s := fun _ => isSegment_of_mem_point
  unfold nameBelow?
  rw [path_eq m]
  rcases List.eq_nil_or_concat' m.point with hnil | ⟨front, last, hlast⟩
  · rw [hnil]
    simp [Path.ofSegments]
  · rw [hlast] at hpoint ⊢
    have hfront : ∀ s ∈ front, Path.IsSegment s := fun s hs => hpoint s (List.mem_append_left _ hs)
    have hroot : Path.ofSegments (front ++ [last]) ≠ "/" := by
      rw [Ne, Path.ofSegments_eq_root_iff hpoint]
      simp
    rw [Path.splitParent_ofSegments (hpoint last (by simp)), List.append_singleton_inj]
    simp only [Path.ofSegments_inj hpoint h, Path.ofSegments_inj hfront h, hroot, decide_false,
      Bool.false_or, decide_eq_true_eq]
    by_cases hself : front ++ [last] = segments
    · -- the directory is not below itself
      have hlength : front.length + 1 = segments.length := by simp [← hself]
      rw [if_pos hself]
      refine iff_of_false (by simp) fun hfront => ?_
      rw [hfront.1] at hlength
      omega
    · rw [if_neg hself]
      by_cases hparent : front = segments <;> simp [hparent]

theorem mem_namesBelow_iff {segments : List String} (h : ∀ s ∈ segments, Path.IsSegment s)
    {mounts : List Mount} {name : String} :
    name ∈ namesBelow (Path.ofSegments segments) mounts ↔
      ∃ m ∈ mounts, m.point = segments ++ [name] := by
  rw [namesBelow, List.mem_filterMap]
  exact exists_congr fun m => and_congr_right fun _ => nameBelow?_eq_some_iff h m name

end Mount

namespace FileSystem

/-- A path leads to the mount with the longest point that its segments begin with, and the volume
sees the path of the segments that remain. -/
theorem locate_eq (fs : FileSystem) (path : String) :
    fs.locate path =
      match Mount.longest (Path.segmentsOf path) fs.mounts with
      | some m =>
        .ok
          { mount := m
            full := Path.resolve path
            inner := Path.ofSegments ((Path.segmentsOf path).drop m.point.length) }
      | none => .error (.notFound (Path.resolve path)) := by
  have hsegments : ∀ s ∈ Path.segmentsOf path, Path.IsSegment s :=
    fun _ hs => Path.isSegment_of_mem_segmentsOf hs
  have hfound := Mount.containing_eq_longest hsegments fs.mounts
  unfold locate
  simp only [Path.resolve, hfound]
  cases hlongest : Mount.longest (Path.segmentsOf path) fs.mounts with
  | none => rfl
  | some m =>
    obtain ⟨rest, hrest⟩ := (Mount.mem_of_longest hlongest).2
    have hinside := Path.inside_ofSegments (fun _ => m.isSegment_of_mem_point) rest
    simp only
    rw [← hrest, List.drop_left, ← hinside, ← m.path_eq]

theorem locate_eq_ok_iff {fs : FileSystem} {path : String} {place : Place} :
    fs.locate path = .ok place ↔ ∃ m, Mount.longest (Path.segmentsOf path) fs.mounts = some m ∧
      place = { mount := m, full := Path.resolve path,
                inner := Path.ofSegments ((Path.segmentsOf path).drop m.point.length) } := by
  rw [locate_eq]
  cases hlongest : Mount.longest (Path.segmentsOf path) fs.mounts with
  | none => simp
  | some m => simp [eq_comm]

/-- The names of the mount points right below the directory at a path. -/
theorem mem_pointsBelow {fs : FileSystem} {path name : String} :
    name ∈ fs.pointsBelow (Path.resolve path) ↔
      ∃ m ∈ fs.mounts, m.point = Path.segmentsOf path ++ [name] :=
  Mount.mem_namesBelow_iff fun _ => Path.isSegment_of_mem_segmentsOf

end FileSystem

end MountShell
