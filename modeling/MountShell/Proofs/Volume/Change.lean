import MountShell.Proofs.Tree.Change
import MountShell.Proofs.Volume.Access

/-!
# The changes of a volume

Whatever is done to a volume, its tree is at most fetched for the first time (`Volume.Loads`), or it
is there and changes in one of the ways that a tree can change (`Volume.Changed`).  Each operation
has its own: creating and opening a file add the file, setting flags sets one, writing and closing
replace a text.
-/

namespace MountShell.Volume

/-- The volume with its tree changed, which was there and had what is changed. -/
def Changed (v : Volume) (c : TreeChange) (after : Volume) : Prop :=
  ∃ root, v.root = some root ∧ c.Allowed root ∧ after = { v with root := some (c.apply root) }

theorem fst_change (v : Volume) (root : Node) (o : Outside) :
    (v.change root o).1 = { v with root := some root } :=
  rfl

/-- The volume with a new file at a path. -/
def Creates (v : Volume) (path : String) (after : Volume) : Prop :=
  ∃ parent name, Path.splitParent path = (parent, name) ∧ name ≠ "" ∧
    v.Changed (.addFile (Path.walkSteps parent) name) after

theorem creates_of_create {v : Volume} {root after : Node} (hroot : v.root = some root)
    {path : String} (h : Tree.create root path .emptyFile = .ok after) :
    v.Creates path { v with root := some after } := by
  obtain ⟨parent, name, children, hsplit, hname, hat, hnone, rfl⟩ :=
    (Tree.create_eq_ok_iff _ _ _ _).1 h
  exact ⟨parent, name, hsplit, fun hempty => hname (Or.inl hempty), root, hroot,
    ⟨children, hat, hnone⟩, rfl⟩

/-- Only the tree of an index can still be had. -/
theorem tree_of_root_none {v : Volume} (h : v.isRemote = false) (hroot : v.root = none)
    (o : Outside) : v.tree o = (.error (.notFound "/"), v, o) := by
  unfold tree
  unfold isRemote at h
  rw [hroot]
  cases hbacking : v.backing with
  | index location => exact absurd h (by simp [hbacking])
  | _ => rfl

theorem create_change (v : Volume) (path : String) (o : Outside) :
    v.Loads (v.create path o).2.1 ∨ v.Creates path (v.create path o).2.1 := by
  unfold create
  by_cases hremote : v.isRemote = true
  · rw [if_pos hremote]
    exact Or.inl (Or.inl rfl)
  · rw [if_neg hremote]
    cases hroot : v.root with
    | none =>
      rw [tree_of_root_none (Bool.eq_false_iff.2 hremote) hroot]
      exact Or.inl (Or.inl rfl)
    | some root =>
      rw [tree_of_root hroot]
      simp only []
      cases hcreate : Tree.create root path .emptyFile with
      | error e => exact Or.inl (Or.inl rfl)
      | ok after =>
        refine Or.inr ?_
        simp only [fst_change]
        exact creates_of_create hroot hcreate

theorem openFile_change (v : Volume) (path : String) (mode : OpenMode) (o : Outside) :
    v.Loads (v.openFile path mode o).2.1 ∨ v.Creates path (v.openFile path mode o).2.1 := by
  rcases v.openFile_cases path mode o with
    ⟨-, hloads, -⟩ | ⟨-, root, after, hroot, hcreate, hafter, -⟩
  · exact Or.inl hloads
  · exact Or.inr (hafter ▸ creates_of_create hroot hcreate)

theorem chmod_change (v : Volume) (path mode : String) (o : Outside) :
    (v.chmod path mode o).2.1 = v ∨ ∃ w, Tree.modeFlag? mode = some w ∧
      v.Changed (.setFlag (Path.walkSteps path) w) (v.chmod path mode o).2.1 := by
  unfold chmod
  by_cases hremote : v.isRemote = true
  · rw [if_pos hremote]
    exact Or.inl rfl
  · rw [if_neg hremote]
    cases hchanged : v.root.bind fun root => Tree.chmod root path mode with
    | none => exact Or.inl rfl
    | some after =>
      obtain ⟨root, hroot, hchmod⟩ := Option.bind_eq_some_iff.1 hchanged
      unfold Tree.chmod at hchmod
      split at hchmod
      next w node hflag hwalk =>
        obtain rfl := Option.some.inj hchmod
        have hat := (Tree.walk_eq_ok_iff root node path).1 hwalk
        exact Or.inr ⟨w, hflag, root, hroot, Option.isSome_iff_exists.2 ⟨node, hat⟩, rfl⟩
      next => exact absurd hchmod (by simp)

variable {v : Volume} {root : Node} (hroot : v.root = some root)

include hroot

/-- A write that does something replaces the writeable text that the handle is bound to. -/
theorem write_change (h : FileHandle) (data : String) (o : Outside) :
    (v.write h data o).2.1 = v ∨ ∃ segments body, h.binding = .ok segments ∧ h.closed = false ∧
      h.mode.isWrite = true ∧ root.at? segments = some (.file true (.text body)) ∧
      v.Changed (.setText segments (FileHandle.writeText h.mode body data))
        (v.write h data o).2.1 := by
  unfold write
  rw [hroot, Option.getD_some]
  cases hwrite : h.write root data with
  | error e => exact Or.inl rfl
  | ok after =>
    obtain ⟨segments, body, hbinding, hclosed, hmode, hat, rfl⟩ :=
      (FileHandle.write_eq_ok_iff _ _ _ _).1 hwrite
    exact Or.inr ⟨segments, body, hbinding, hclosed, hmode, hat, root, hroot, ⟨body, hat⟩, rfl⟩

/-- A close that does something ends the writeable text that the handle is bound to with a
newline. -/
theorem close_change (h : FileHandle) (o : Outside) :
    (v.close h o).2.1 = v ∨ ∃ segments body, h.binding = .ok segments ∧ h.closed = false ∧
      h.mode.isWrite = true ∧ root.at? segments = some (.file true (.text body)) ∧
      v.Changed (.setText segments (body ++ "\n")) (v.close h o).2.1 := by
  unfold close
  rw [hroot, Option.getD_some, FileHandle.close_eq]
  by_cases hclosed : h.closed = true
  · rw [if_pos hclosed]
    exact Or.inl rfl
  · rw [if_neg hclosed]
    cases hending : h.ending? root with
    | none => exact Or.inl rfl
    | some after =>
      obtain ⟨segments, body, hbinding, hmode, hat, rfl⟩ :=
        (FileHandle.ending?_eq_some_iff _ _ _).1 hending
      exact Or.inr ⟨segments, body, hbinding, Bool.eq_false_iff.2 hclosed, hmode, hat, root, hroot,
        ⟨body, hat⟩, rfl⟩

omit hroot

/-- A volume that a file could be opened on has its tree. -/
theorem root_of_openFile {path : String} {mode : OpenMode} {o : Outside} {segments : List String}
    (h : (v.openFile path mode o).1.binding = .ok segments) :
    (v.openFile path mode o).2.1.root.isSome = true := by
  cases hroot : v.root with
  | some root =>
    rcases v.openFile_change path mode o with hloads | ⟨_, _, -, -, _, -, -, hafter⟩
    · rw [root_of_loads hloads hroot, hroot]
      rfl
    · rw [hafter]
      rfl
  | none =>
    cases hremote : v.isRemote with
    | false =>
      rw [openFile_of_root_none hremote hroot] at h
      exact absurd h (by simp [FileHandle.failed])
    | true =>
      have hsnd := (openFile_of_isRemote hremote path mode o).1
      rcases hresult : v.tree o with ⟨e | root, after, later⟩
      · unfold openFile at h
        rw [hresult] at h
        exact absurd h (by simp [FileHandle.failed])
      · rw [hresult] at hsnd
        rw [hsnd, root_of_tree hresult]
        rfl

/-- A tree that is there is not taken away. -/
theorem isSome_root_of_loads {after : Volume} (h : v.Loads after) (hsome : v.root.isSome = true) :
    after.root.isSome = true := by
  rcases h with rfl | ⟨-, root, -, rfl⟩
  · exact hsome
  · rfl

end MountShell.Volume
