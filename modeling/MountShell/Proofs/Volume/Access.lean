import MountShell.Proofs.Tree.Handle
import MountShell.Proofs.Volume.Store

/-!
# Access to a volume

What the operations of a volume leave of it when nothing is asked to be changed: looking something
up, opening a file, and reading, writing and closing through a handle that is not for writing.  None
of them changes a tree, apart from fetching it for the first time (`Volume.Loads`), with one
exception: an open creates a missing file (`openFile_cases`).
-/

namespace MountShell

namespace Outside

theorem sets_fetch (o : Outside) (location : String) : (o.fetch location).2.sets = o.sets :=
  rfl

theorem sets_read (content : Content) (path : String) (o : Outside) :
    (content.read path o).2.sets = o.sets := by
  cases content with
  | text body => rfl
  | program name => rfl
  | remote location =>
    rw [Content.read]
    cases hfetch : o.fetch location with
    | mk result after =>
      have hsets : after.sets = o.sets := by rw [← sets_fetch o location, hfetch]
      cases result <;> exact hsets

end Outside

namespace Volume

/-- The tree is the one that some index for the volume describes. -/
def Fetches (v : Volume) (root : Node) : Prop :=
  ∃ location body, v.backing = .index location ∧ Index.read location body = .ok root

/-- The volume is the same, or its tree has been fetched, which had not been there before. -/
def Loads (v after : Volume) : Prop :=
  after = v ∨ v.root = none ∧ ∃ root, v.Fetches root ∧ after = { v with root := some root }

/-- Would opening the file at a path create it? -/
def creates (v : Volume) (path : String) : Bool :=
  !v.isRemote && v.root.any fun root => (Tree.openFile root path .read).2.isSome

theorem backing_of_loads {v after : Volume} (h : v.Loads after) : after.backing = v.backing := by
  rcases h with rfl | ⟨-, root, -, rfl⟩ <;> rfl

/-- A tree that is there stays as it is. -/
theorem root_of_loads {v after : Volume} (h : v.Loads after) {root : Node}
    (hroot : v.root = some root) : after = v := by
  rcases h with rfl | ⟨hnone, -⟩
  · rfl
  · exact absurd (hnone.symm.trans hroot) (by simp)

theorem tree_loads (v : Volume) (o : Outside) :
    v.Loads (v.tree o).2.1 ∧ (v.tree o).2.2.sets = o.sets := by
  unfold tree
  cases hroot : v.root with
  | some root => exact ⟨Or.inl rfl, rfl⟩
  | none =>
    cases hbacking : v.backing with
    | index location =>
      simp only []
      cases hfetch : o.fetch (indexLocation location) with
      | mk result after =>
        have hsets : after.sets = o.sets := by rw [← Outside.sets_fetch o, hfetch]
        cases result with
        | error e => exact ⟨Or.inl rfl, hsets⟩
        | ok body =>
          simp only []
          cases hread : Index.read location body with
          | error reason => exact ⟨Or.inl rfl, hsets⟩
          | ok root =>
            exact ⟨Or.inr ⟨hroot, root, ⟨location, body, hbacking, hread⟩, by rw [hbacking]⟩, hsets⟩
    | _ => exact ⟨Or.inl rfl, rfl⟩

theorem get_fst (v : Volume) (path : String) (o : Outside) :
    (v.get path o).1 = (v.tree o).1.bind fun root => Tree.walk root path := by
  unfold get
  rcases v.tree o with ⟨e | root, after, later⟩ <;> rfl

theorem get_snd (v : Volume) (path : String) (o : Outside) : (v.get path o).2 = (v.tree o).2 := by
  unfold get
  rcases v.tree o with ⟨e | root, after, later⟩ <;> rfl

/-- Looking a node up changes nothing. -/
theorem get_loads (v : Volume) (path : String) (o : Outside) :
    v.Loads (v.get path o).2.1 ∧ (v.get path o).2.2.sets = o.sets := by
  rw [get_snd]
  exact tree_loads v o

/-- The tree of a volume that has one is there. -/
theorem tree_of_root {v : Volume} {root : Node} (h : v.root = some root) (o : Outside) :
    v.tree o = (.ok root, v, o) := by
  unfold tree
  rw [h]

/-- The tree that a volume gives is there from then on. -/
theorem root_of_tree {v after : Volume} {o later : Outside} {root : Node}
    (h : v.tree o = (.ok root, after, later)) : after.root = some root := by
  unfold tree at h
  cases hroot : v.root with
  | some own =>
    simp only [hroot, Prod.mk.injEq, Except.ok.injEq] at h
    obtain ⟨rfl, rfl, -⟩ := h
    exact hroot
  | none =>
    rw [hroot] at h
    cases hbacking : v.backing with
    | index location =>
      simp only [hbacking] at h
      rcases hfetch : o.fetch (indexLocation location) with ⟨e | body, fetched⟩
      · simp [hfetch] at h
      · rw [hfetch] at h
        simp only [] at h
        cases hread : Index.read location body with
        | error reason => simp [hread] at h
        | ok own =>
          simp only [hread, Prod.mk.injEq, Except.ok.injEq] at h
          obtain ⟨rfl, rfl, -⟩ := h
          rfl
    | _ => simp [hbacking] at h

/-- Whether an open creates the file does not depend on the mode. -/
theorem isSome_openFile_iff (root : Node) (path : String) (mode : OpenMode) :
    (Tree.openFile root path mode).2.isSome = true ↔
      (Tree.openFile root path .read).2.isSome = true := by
  have hany : ∀ mode, (Tree.openFile root path mode).2.isSome = true ↔
      ∃ after, (∃ missing, Tree.walk root path = .error (.notFound missing)) ∧
        Tree.create root path .emptyFile = .ok after := by
    intro mode
    constructor
    · intro h
      obtain ⟨after, hafter⟩ := Option.isSome_iff_exists.1 h
      have hopen : Tree.openFile root path mode =
          ((Tree.openFile root path mode).1, some after) := by rw [← hafter]
      obtain ⟨-, hcreated⟩ := (Tree.openFile_eq_some_iff _ _ _ _ _).1 hopen
      exact ⟨after, hcreated⟩
    · rintro ⟨after, hcreated⟩
      rw [(Tree.openFile_eq_some_iff root after path mode _).2 ⟨rfl, hcreated⟩]
      rfl
  rw [hany, hany]

theorem openFile_of_isRemote {v : Volume} (h : v.isRemote = true) (path : String)
    (mode : OpenMode) (o : Outside) :
    (v.openFile path mode o).2 = (v.tree o).2 ∧
      ((v.openFile path mode o).1 = .ofNode (Path.walkSteps path) path mode ∨
        ∃ e, (v.openFile path mode o).1 = .failed path e) := by
  have hafter : ∀ after : Volume, v.Loads after → after.isRemote = true := by
    intro after hloads
    rw [isRemote, backing_of_loads hloads]
    exact h
  have htree := (tree_loads v o).1
  unfold openFile
  cases hresult : v.tree o with
  | mk result after =>
    obtain ⟨w, p⟩ := after
    rw [hresult] at htree
    cases result with
    | error e => exact ⟨rfl, Or.inr ⟨e, rfl⟩⟩
    | ok root =>
      simp only [hafter w htree, ↓reduceIte]
      cases Tree.walk root path with
      | ok node => exact ⟨rfl, Or.inl rfl⟩
      | error e => exact ⟨rfl, Or.inr ⟨_, rfl⟩⟩

theorem openFile_of_root_none {v : Volume} (h : v.isRemote = false) (hroot : v.root = none)
    (path : String) (mode : OpenMode) (o : Outside) :
    v.openFile path mode o = (.failed path (.notFound "/"), v, o) := by
  unfold openFile tree
  unfold isRemote at h
  cases hbacking : v.backing with
  | index location => exact absurd h (by simp [hbacking])
  | _ => simp only [hroot]

theorem openFile_of_root {v : Volume} (h : v.isRemote = false) {root : Node}
    (hroot : v.root = some root) (path : String) (mode : OpenMode) (o : Outside) :
    v.openFile path mode o =
      match Tree.openFile root path mode with
      | (handle, none) => (handle, v, o)
      | (handle, some after) =>
        if handle.isError then (handle, { v with root := some after }, o)
        else (handle, (v.change after o).1, (v.change after o).2) := by
  unfold openFile
  rw [tree_of_root hroot]
  cases hopen : Tree.openFile root path mode with
  | mk handle changed => cases changed <;> simp only [h, hopen, Bool.false_eq_true, ↓reduceIte]

/-- A tree in which a file has been created has a snapshot. -/
theorem exists_capture_of_create {root after : Node} {path : String}
    (h : Tree.create root path .emptyFile = .ok after) :
    ∃ snapshot, Snapshot.capture after = some snapshot := by
  obtain ⟨parent, name, children, -, -, hat, -, rfl⟩ := (Tree.create_eq_ok_iff _ _ _ _).1 h
  cases root with
  | file w content =>
    cases hsteps : Path.walkSteps parent with
    | nil =>
      rw [hsteps, Node.at?_nil] at hat
      exact absurd hat (by simp)
    | cons first rest =>
      rw [hsteps, Node.at?_cons] at hat
      exact absurd hat (by simp [Node.child?])
  | directory w own =>
    cases Path.walkSteps parent with
    | nil => exact ⟨_, rfl⟩
    | cons first rest => exact ⟨_, rfl⟩

theorem sets_sync {v : Volume} {root : Node} (hroot : v.root = some root)
    (hcapture : ∃ snapshot, Snapshot.capture root = some snapshot) (o : Outside) :
    (v.sync o).sets = o.sets + if v.fsType = .persistent then 1 else 0 := by
  obtain ⟨snapshot, hsnapshot⟩ := hcapture
  unfold sync fsType
  cases hbacking : v.backing with
  | store key =>
    simp only [hroot, hsnapshot, ↓reduceIte]
    exact Outside.sets_keep o key _
  | _ => simp

/-- Opening a file changes nothing, unless the file is missing and can be created: then it is
created, and a tree of a store is kept if a handle on the file was asked for. -/
theorem openFile_cases (v : Volume) (path : String) (mode : OpenMode) (o : Outside) :
    (v.creates path = false ∧ v.Loads (v.openFile path mode o).2.1 ∧
        (v.openFile path mode o).2.2.sets = o.sets) ∨
      (v.creates path = true ∧ ∃ root after, v.root = some root ∧
        Tree.create root path .emptyFile = .ok after ∧
        (v.openFile path mode o).2.1 = { v with root := some after } ∧
        (v.openFile path mode o).2.2.sets =
          o.sets + if v.fsType = .persistent ∧ mode ≠ .failed then 1 else 0) := by
  cases hremote : v.isRemote with
  | true =>
    refine Or.inl ⟨by simp [creates, hremote], ?_⟩
    rw [(openFile_of_isRemote hremote path mode o).1]
    exact tree_loads v o
  | false =>
    cases hroot : v.root with
    | none =>
      refine Or.inl ⟨by simp [creates, hroot], ?_⟩
      rw [openFile_of_root_none hremote hroot]
      exact ⟨Or.inl rfl, rfl⟩
    | some root =>
      have hcreates : v.creates path = (Tree.openFile root path .read).2.isSome := by
        simp [creates, hremote, hroot]
      have hmode := isSome_openFile_iff root path mode
      rw [openFile_of_root hremote hroot, hcreates]
      -- Whether a file is created does not depend on the mode, but whether the tree is kept then
      -- does.
      cases hopen : Tree.openFile root path mode with
      | mk handle changed =>
        rw [hopen] at hmode
        cases changed with
        | none =>
          refine Or.inl ⟨Bool.eq_false_iff.2 fun hread => ?_, Or.inl rfl, rfl⟩
          exact absurd (hmode.2 hread) (by simp)
        | some after =>
          obtain ⟨rfl, -, hcreate⟩ := (Tree.openFile_eq_some_iff _ _ _ _ _).1 hopen
          refine Or.inr ⟨hmode.1 rfl, root, after, rfl, hcreate, ?_⟩
          by_cases herror : mode = .failed
          · subst herror
            exact ⟨rfl, by simp [FileHandle.isError, FileHandle.ofNode]⟩
          · have hnot : (FileHandle.ofNode (Path.walkSteps path) path mode).isError = false :=
              decide_eq_false herror
            simp only [hnot, Bool.false_eq_true, ↓reduceIte]
            refine ⟨rfl, ?_⟩
            have hsync := @sets_sync { v with root := some after } after rfl
              (exists_capture_of_create hcreate) o
            have hboth : (v.fsType = .persistent ∧ mode ≠ .failed) ↔ v.fsType = .persistent :=
              and_iff_left herror
            simp only [hboth]
            exact hsync

/-- The handle is one on the node at the path, unless opening fails. -/
theorem openFile_fst (v : Volume) (path : String) (mode : OpenMode) (o : Outside) :
    (v.openFile path mode o).1 = .ofNode (Path.walkSteps path) path mode ∨
      ∃ e, (v.openFile path mode o).1 = .failed path e := by
  cases hremote : v.isRemote with
  | true => exact (openFile_of_isRemote hremote path mode o).2
  | false =>
    cases hroot : v.root with
    | none =>
      rw [openFile_of_root_none hremote hroot]
      exact Or.inr ⟨_, rfl⟩
    | some root =>
      have htree := Tree.openFile_fst root path mode
      rw [openFile_of_root hremote hroot]
      cases hopen : Tree.openFile root path mode with
      | mk handle changed =>
        rw [hopen] at htree
        cases changed with
        | none => exact htree
        | some after => by_cases herror : handle.isError = true <;> simpa [herror] using htree

/-- The handle that an open gives is for writing only if that was asked for. -/
theorem isWrite_openFile (v : Volume) (path : String) (mode : OpenMode) (o : Outside)
    (h : (v.openFile path mode o).1.mode.isWrite = true) : mode.isWrite = true := by
  rcases v.openFile_fst path mode o with hopened | ⟨e, hfailed⟩
  · rwa [hopened] at h
  · rw [hfailed] at h
    exact absurd h (by simp [FileHandle.failed, OpenMode.isWrite])

/-- A node that is there is opened. -/
theorem openFile_of_at? {v : Volume} {root : Node} (hroot : v.root = some root) {path : String}
    (h : (root.at? (Path.walkSteps path)).isSome = true) (mode : OpenMode) (o : Outside) :
    v.openFile path mode o = (.ofNode (Path.walkSteps path) path mode, v, o) := by
  obtain ⟨node, hnode⟩ := Option.isSome_iff_exists.1 h
  have hwalk := (Tree.walk_eq_ok_iff root node path).2 hnode
  unfold openFile
  rw [tree_of_root hroot]
  simp only [hwalk, Tree.openFile, ite_self]

/-- What can be reached before an open can be reached after it. -/
theorem isSome_at?_openFile {v : Volume} {root : Node} (hroot : v.root = some root)
    {names : List String} (h : (root.at? names).isSome = true) (path : String) (mode : OpenMode)
    (o : Outside) :
    ∃ after, (v.openFile path mode o).2.1.root = some after ∧ (after.at? names).isSome = true := by
  rcases v.openFile_cases path mode o with
    ⟨-, hloads, -⟩ | ⟨-, old, after, hold, hcreate, hafter, -⟩
  · exact ⟨root, by rw [root_of_loads hloads hroot]; exact hroot, h⟩
  · obtain rfl : root = old := Option.some.inj (hroot.symm.trans hold)
    exact ⟨after, by rw [hafter], Tree.isSome_at?_create hcreate h⟩

/-- Reading writes nothing to the store. -/
theorem sets_read (v : Volume) (h : FileHandle) (o : Outside) : (v.read h o).2.sets = o.sets := by
  unfold read
  cases h.content (v.root.getD .emptyFile) with
  | error e => rfl
  | ok content => exact Outside.sets_read content h.path o

/-- A handle that is not for writing writes nothing. -/
theorem write_of_not_isWrite {h : FileHandle} (hmode : h.mode.isWrite = false) (v : Volume)
    (data : String) (o : Outside) : (v.write h data o).2 = (v, o) := by
  unfold write
  cases hwrite : h.write (v.root.getD .emptyFile) data with
  | error e => rfl
  | ok after =>
    obtain ⟨segments, body, -, -, hwritable, -⟩ := (FileHandle.write_eq_ok_iff _ _ _ _).1 hwrite
    exact absurd (hmode.symm.trans hwritable) (by simp)

/-- Closing succeeds unless the handle is closed already. -/
theorem close_fst (v : Volume) (h : FileHandle) (o : Outside) :
    (v.close h o).1 =
      if h.closed then .error .handleClosed else .ok { h with closed := true } := by
  unfold close
  rw [FileHandle.close_eq]
  by_cases hclosed : h.closed = true
  · rw [if_pos hclosed, if_pos hclosed]
  · rw [if_neg hclosed, if_neg hclosed]
    cases h.ending? (v.root.getD .emptyFile) <;> rfl

/-- Closing a handle that is not for writing changes nothing. -/
theorem close_of_not_isWrite {h : FileHandle} (hmode : h.mode.isWrite = false) (v : Volume)
    (o : Outside) : (v.close h o).2 = (v, o) := by
  have hending : h.ending? (v.root.getD .emptyFile) = none := by
    cases hsome : h.ending? (v.root.getD .emptyFile) with
    | none => rfl
    | some after =>
      obtain ⟨segments, body, -, hwritable, -⟩ := (FileHandle.ending?_eq_some_iff _ _ _).1 hsome
      exact absurd (hmode.symm.trans hwritable) (by simp)
  unfold close
  rw [FileHandle.close_eq, hending]
  by_cases hclosed : h.closed = true
  · rw [if_pos hclosed]
  · rw [if_neg hclosed]

end Volume

end MountShell
