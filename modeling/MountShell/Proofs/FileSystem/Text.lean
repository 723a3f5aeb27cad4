import MountShell.Proofs.FileSystem.Use

/-!
# The texts that files are opened on

What an open file is bound to, as a node of one of the volumes (`Spot`), and what opening and
closing files does to the texts at such spots.

Main statements: `textAt?_close`, closing a file that ends a text adds a newline to it and leaves
all other texts alone; `nodeAt?_openFile`, opening a file leaves what is there; and
`ends_openFile`, a file that is opened where there is a node is bound to that node.
-/

namespace MountShell

/-- A node of one of the volumes. -/
structure Spot where
  volume : Nat
  segments : List String
  deriving DecidableEq

/-- Is the file one for writing that is bound to the node at a spot, so that closing it ends the
text there? -/
def OpenFile.ends (file : OpenFile) (spot : Spot) : Bool :=
  file.handle.mode.isWrite && decide (file.volume = spot.volume) &&
    match file.handle.binding with
    | .ok segments => decide (segments = spot.segments)
    | .error _ => false

theorem OpenFile.ends_iff (file : OpenFile) (spot : Spot) :
    file.ends spot = true ↔
      file.handle.mode.isWrite = true ∧ file.volume = spot.volume ∧
        file.handle.binding = .ok spot.segments := by
  unfold ends
  cases hbinding : file.handle.binding with
  | error e => simp
  | ok segments => simp [and_assoc]

namespace FileSystem

/-- The node at a spot. -/
def nodeAt? (fs : FileSystem) (spot : Spot) : Option Node :=
  (fs.volume spot.volume).root.bind fun root => root.at? spot.segments

/-- The text of the file at a spot, if it is a writeable text. -/
def textAt? (fs : FileSystem) (spot : Spot) : Option String :=
  match fs.nodeAt? spot with
  | some (.file true (.text body)) => some body
  | _ => none

/-- The spot that a redirection for writing leads to, on a mount that is not read-only. -/
def target? (fs : FileSystem) (path : String) : Option Spot :=
  match fs.locate path with
  | .error _ => none
  | .ok place =>
    if place.mount.flags.readOnly then none
    else some ⟨place.mount.volume, Path.walkSteps place.inner⟩

/-- Where a redirection for writing leads, and over which mount. -/
theorem target?_eq_some_iff {fs : FileSystem} {path : String} {spot : Spot} :
    fs.target? path = some spot ↔
      ∃ place, fs.locate path = .ok place ∧ place.mount.flags.readOnly = false ∧
        spot = ⟨place.mount.volume, Path.walkSteps place.inner⟩ := by
  unfold target?
  cases fs.locate path with
  | error e => simp
  | ok place =>
    by_cases hro : place.mount.flags.readOnly = true
    · simp only [if_pos hro]
      refine ⟨fun h => absurd h (by simp), ?_⟩
      rintro ⟨other, hother, hwrites, -⟩
      obtain rfl := Except.ok.inj hother
      exact absurd hro (by simp [hwrites])
    · simp only [if_neg hro]
      constructor
      · exact fun h => ⟨place, rfl, Bool.eq_false_iff.2 hro, (Option.some.inj h).symm⟩
      · rintro ⟨other, hother, -, rfl⟩
        obtain rfl := Except.ok.inj hother
        rfl

theorem textAt?_eq_some_iff (fs : FileSystem) (spot : Spot) (body : String) :
    fs.textAt? spot = some body ↔
      ∃ root, (fs.volume spot.volume).root = some root ∧
        root.at? spot.segments = some (.file true (.text body)) := by
  unfold textAt? nodeAt?
  cases (fs.volume spot.volume).root with
  | none => simp
  | some root =>
    simp only [Option.bind_some, Option.some.injEq, exists_eq_left']
    split
    next other hat => simp [hat]
    next hnot =>
      constructor
      · intro h
        exact absurd h (by simp)
      · intro h
        exact absurd h (hnot body)

/-- So many newlines. -/
def endings : Nat → String
  | 0 => ""
  | n + 1 => "\n" ++ endings n

/-- A volume with a text is one of the list. -/
theorem lt_of_textAt? {fs : FileSystem} {spot : Spot} {body : String}
    (h : fs.textAt? spot = some body) : spot.volume < fs.volumes.length := by
  refine Decidable.byContradiction fun hlt => ?_
  obtain ⟨root, hroot, hat⟩ := (textAt?_eq_some_iff _ _ _).1 h
  have hvolume : fs.volume spot.volume = .supplied (.directory false []) := by
    rw [volume, List.getD_eq_getElem?_getD, List.getElem?_eq_none (Nat.not_lt.1 hlt)]
    rfl
  rw [hvolume] at hroot
  obtain rfl : Node.directory false [] = root := Option.some.inj hroot
  cases hsegments : spot.segments with
  | nil => exact absurd hat (by simp [hsegments, Node.at?_nil])
  | cons name names => exact absurd hat (by simp [hsegments, Node.at?_cons, Node.child?,
      NameMap.find?_nil])

/-! ### Closing -/

/-- Closing a file that is open changes the tree of its volume if that gets an ending. -/
theorem close_snd {fs : FileSystem} {file : OpenFile} (hopen : file.handle.closed = false) :
    (fs.close file).2 =
      match file.handle.ending? ((fs.volume file.volume).root.getD .emptyFile) with
      | none => fs
      | some after =>
        let changed := (fs.volume file.volume).change after fs.outside
        fs.put file.volume changed.1 changed.2 := by
  unfold close Volume.close
  rw [FileHandle.close_eq, hopen]
  cases file.handle.ending? ((fs.volume file.volume).root.getD .emptyFile) with
  | none => exact put_volume fs file.volume fs.outside
  | some after => rfl

/-- Closing a file that ends a text adds a newline to it; every other text stays as it is. -/
theorem textAt?_close {fs : FileSystem} {file : OpenFile} (hopen : file.handle.closed = false)
    {spot : Spot} {body : String} (h : fs.textAt? spot = some body) :
    (fs.close file).2.textAt? spot = some (if file.ends spot then body ++ "\n" else body) := by
  obtain ⟨root, hroot, hat⟩ := (textAt?_eq_some_iff _ _ _).1 h
  have hlt := lt_of_textAt? h
  rw [close_snd hopen]
  -- Nothing is written unless the handle ends a text; then it is this text, another of the same
  -- tree, or one of another volume.
  cases hending : file.handle.ending? ((fs.volume file.volume).root.getD .emptyFile) with
  | none =>
    have hnot : file.ends spot = false := by
      refine Bool.eq_false_iff.2 fun hends => ?_
      obtain ⟨hwrite, hvolume, hbinding⟩ := (file.ends_iff spot).1 hends
      have hsome := (FileHandle.ending?_eq_some_iff file.handle root _).2
        ⟨spot.segments, body, hbinding, hwrite, hat, rfl⟩
      rw [hvolume, hroot, Option.getD_some, hsome] at hending
      exact absurd hending (by simp)
    rw [hnot]
    exact h
  | some after =>
    obtain ⟨segments, old, hbinding, hwrite, hold, rfl⟩ :=
      (FileHandle.ending?_eq_some_iff _ _ _).1 hending
    simp only
    by_cases hvolume : file.volume = spot.volume
    · rw [hvolume, hroot, Option.getD_some] at hold
      refine (textAt?_eq_some_iff _ _ _).2 ?_
      rw [hvolume, volume_put_self hlt, hroot]
      refine ⟨_, rfl, ?_⟩
      by_cases hsegments : spot.segments = segments
      · have hends : file.ends spot = true :=
          (file.ends_iff spot).2 ⟨hwrite, hvolume, hsegments ▸ hbinding⟩
        rw [← hsegments] at hold ⊢
        obtain rfl : body = old := by simpa [hat] using hold
        rw [if_pos hends]
        exact Node.at?_update _ hold
      · have hends : file.ends spot = false := by
          refine Bool.eq_false_iff.2 fun hends => hsegments ?_
          obtain ⟨-, -, hother⟩ := (file.ends_iff spot).1 hends
          exact (Except.ok.inj (hbinding.symm.trans hother)).symm
        rw [hends]
        exact Node.at?_update_of_ne _ hold hat hsegments
    · have hends : file.ends spot = false := by
        refine Bool.eq_false_iff.2 fun hends => hvolume ?_
        exact ((file.ends_iff spot).1 hends).2.1
      refine (textAt?_eq_some_iff _ _ _).2 ⟨root, ?_, ?_⟩
      · rw [volume_put_of_ne (Ne.symm hvolume)]
        exact hroot
      · rw [hends]
        exact hat

/-! ### Opening -/

/-- The file is one on the node that the path leads to, unless opening fails. -/
theorem openFile_fst (fs : FileSystem) (path : String) (mode : OpenMode) :
    (∃ place, fs.locate path = .ok place ∧ (fs.openFile path mode).1 =
        ⟨place.mount.volume,
          { FileHandle.ofNode (Path.walkSteps place.inner) place.inner mode with
            path := place.full }⟩) ∨
      ∃ i reported e, (fs.openFile path mode).1 = ⟨i, .failed reported e⟩ := by
  unfold openFile
  cases fs.locate path with
  | error e => exact Or.inr ⟨_, _, _, rfl⟩
  | ok place =>
    simp only
    by_cases hrefused : (place.mount.flags.readOnly && mode.isWrite) = true
    · rw [if_pos hrefused]
      exact Or.inr ⟨_, _, _, rfl⟩
    · rw [if_neg hrefused]
      rcases (fs.volume place.mount.volume).openFile_fst place.inner mode fs.outside with
        hopened | ⟨e, hfailed⟩
      · refine Or.inl ⟨place, rfl, ?_⟩
        simp only [hopened]
      · refine Or.inr ⟨place.mount.volume, place.full, e, ?_⟩
        simp only [hfailed]
        rfl

/-- A file that could be opened is not closed. -/
theorem closed_openFile {fs : FileSystem} {path : String} {mode : OpenMode}
    (h : (fs.openFile path mode).1.handle.isError = false) :
    (fs.openFile path mode).1.handle.closed = false := by
  rcases fs.openFile_fst path mode with ⟨place, -, hopened⟩ | ⟨i, reported, e, hfailed⟩
  · rw [hopened]
    rfl
  · rw [hfailed] at h
    exact absurd h (by simp [FileHandle.isError, FileHandle.failed])

/-- What is there before an open is there after it. -/
theorem nodeAt?_openFile {fs : FileSystem} {spot : Spot} (h : (fs.nodeAt? spot).isSome = true)
    (path : String) (mode : OpenMode) : ((fs.openFile path mode).2.nodeAt? spot).isSome = true := by
  unfold nodeAt? at h ⊢
  rcases fs.volume_openFile_cases path mode spot.volume with hsame | ⟨inner, hopened⟩
  · rw [hsame]
    exact h
  · obtain ⟨node, hnode⟩ := Option.isSome_iff_exists.1 h
    obtain ⟨root, hroot, hat⟩ := Option.bind_eq_some_iff.1 hnode
    obtain ⟨after, hafter, hsome⟩ := Volume.isSome_at?_openFile hroot
      (Option.isSome_iff_exists.2 ⟨node, hat⟩) inner mode fs.outside
    rw [hopened, hafter]
    exact hsome

/-- A file that closing ends a text at has been opened for writing, by a path that leads there on a
mount which is not read-only. -/
theorem target?_of_ends {fs : FileSystem} {spot : Spot} {path : String} {mode : OpenMode}
    (h : (fs.openFile path mode).1.ends spot = true) :
    mode.isWrite = true ∧ fs.target? path = some spot := by
  rcases fs.openFile_fst path mode with ⟨place, hlocate, hopened⟩ | ⟨i, reported, e, hfailed⟩
  · obtain ⟨hwrite, hvolume, hbinding⟩ := (OpenFile.ends_iff _ _).1 h
    have hopens := hopened
    rw [hopened] at hwrite hvolume hbinding
    have hro : place.mount.flags.readOnly = false := by
      refine Bool.eq_false_iff.2 fun hro => ?_
      unfold openFile at hopens
      rw [hlocate] at hopens
      have hrefused : (place.mount.flags.readOnly && mode.isWrite) = true := by
        rw [hro]
        exact hwrite
      simp only [hrefused, ↓reduceIte] at hopens
      exact absurd (congrArg (·.handle.binding) hopens)
        (by simp [FileHandle.failed, FileHandle.ofNode])
    refine ⟨hwrite, target?_eq_some_iff.2 ⟨place, hlocate, hro, ?_⟩⟩
    exact (Spot.mk.injEq _ _ _ _).mpr ⟨hvolume.symm, (Except.ok.inj hbinding).symm⟩
  · rw [hfailed] at h
    exact absurd h Bool.false_ne_true

/-- A file that could be opened for writing, by a path that leads to a spot on a mount which is not
read-only, is bound to that spot. -/
theorem ends_of_target? {fs : FileSystem} {spot : Spot} {path : String} {mode : OpenMode}
    (hwrite : mode.isWrite = true) (htarget : fs.target? path = some spot)
    (hopens : (fs.openFile path mode).1.handle.isError = false) :
    (fs.openFile path mode).1.ends spot = true := by
  rcases fs.openFile_fst path mode with ⟨place, hlocate, hopened⟩ | ⟨i, reported, e, hfailed⟩
  · obtain ⟨found, hfound, -, rfl⟩ := target?_eq_some_iff.1 htarget
    obtain rfl := Except.ok.inj (hlocate.symm.trans hfound)
    rw [hopened, OpenFile.ends_iff]
    exact ⟨hwrite, rfl, rfl⟩
  · rw [hfailed] at hopens
    exact absurd hopens (by simp [FileHandle.isError, FileHandle.failed])

/-- Where there is a node, the files that closing ends are those opened for writing there. -/
theorem ends_openFile {fs : FileSystem} {spot : Spot} (h : (fs.nodeAt? spot).isSome = true)
    (path : String) (mode : OpenMode) :
    (fs.openFile path mode).1.ends spot =
      (mode.isWrite && decide (fs.target? path = some spot)) := by
  rw [Bool.eq_iff_iff, Bool.and_eq_true_iff, decide_eq_true_iff]
  refine ⟨target?_of_ends, fun ⟨hwrite, htarget⟩ => ends_of_target? hwrite htarget ?_⟩
  -- The mount does not refuse the path, and the volume finds the node.
  obtain ⟨place, hlocate, hro, rfl⟩ := target?_eq_some_iff.1 htarget
  obtain ⟨node, hnode⟩ := Option.isSome_iff_exists.1 h
  obtain ⟨root, hroot, hat⟩ := Option.bind_eq_some_iff.1 hnode
  unfold openFile
  rw [hlocate]
  simp only [hro, Bool.false_and, Bool.false_eq_true, ↓reduceIte]
  rw [Volume.openFile_of_at? hroot (Option.isSome_iff_exists.2 ⟨node, hat⟩)]
  cases mode <;> first | rfl | exact absurd hwrite Bool.false_ne_true

/-- Opening a file leaves the spots that paths lead to. -/
theorem target?_openFile (fs : FileSystem) (opened : String) (mode : OpenMode) (path : String) :
    (fs.openFile opened mode).2.target? path = fs.target? path := by
  have hshape := FileSystemUse.shape_perform { fs } (.openFile opened mode)
  have hmounts : (fs.openFile opened mode).2.mounts = fs.mounts := congrArg Prod.fst hshape
  unfold target? locate
  rw [hmounts]

end FileSystem

end MountShell
