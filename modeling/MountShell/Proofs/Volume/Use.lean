import MountShell.Proofs.Tree.Handle
import MountShell.Proofs.Volume.Snapshot
import MountShell.Proofs.Volume.Store

/-!
# A volume of a store in use

The operations of a volume together with those on the handles that it has handed out
(`VolumeOp`, `VolumeUse.perform`).  What an operation does to a tree that is kept in a store does
not depend on the store: it leaves some handles and a tree, which is put into the store, or not
(`VolumeOp.effect`).

Main statements: `VolumeUse.perform_eq`, an operation on a volume of a store has just that effect;
`VolumeOp.effect_eq_unkept_iff`, the one way in which a tree changes and is not kept; and
`VolumeOp.fits_effect`, a tree that fits goes on to fit.
-/

namespace MountShell

/-- What is done to a volume, or through one of the handles handed out so far, which are numbered
from zero. -/
inductive VolumeOp where
  | get (path : String)
  | create (path : String)
  | openFile (path : String) (mode : OpenMode)
  | chmod (path mode : String)
  | read (i : Nat)
  | write (i : Nat) (data : String)
  | close (i : Nat)

/-- A volume, the handles that it has handed out, and what lies outside. -/
structure VolumeUse where
  volume : Volume
  handles : List FileHandle := []
  outside : Outside

/-- The volume with what lies outside after an operation. A number without a handle does nothing. -/
def VolumeUse.perform (u : VolumeUse) : VolumeOp → VolumeUse
  | .get path =>
    let (_, volume, outside) := u.volume.get path u.outside
    { u with volume, outside }
  | .create path =>
    let (_, volume, outside) := u.volume.create path u.outside
    { u with volume, outside }
  | .openFile path mode =>
    let (h, volume, outside) := u.volume.openFile path mode u.outside
    { volume, handles := u.handles ++ [h], outside }
  | .chmod path mode =>
    let (_, volume, outside) := u.volume.chmod path mode u.outside
    { u with volume, outside }
  | .read i =>
    match u.handles[i]? with
    | none => u
    | some h => { u with outside := (u.volume.read h u.outside).2 }
  | .write i data =>
    match u.handles[i]? with
    | none => u
    | some h =>
      let (_, volume, outside) := u.volume.write h data u.outside
      { u with volume, outside }
  | .close i =>
    match u.handles[i]? with
    | none => u
    | some h =>
      match u.volume.close h u.outside with
      | (.ok h, volume, outside) => { volume, handles := u.handles.set i h, outside }
      | (.error _, volume, outside) => { u with volume, outside }

/-- What becomes of a tree. -/
inductive Change where
  | same
  /-- The tree is another one, which goes to the store. -/
  | kept (after : Node)
  /-- The tree is another one, and the store is not told. -/
  | unkept (after : Node)

namespace Change

/-- The tree after a change. -/
def tree (root : Node) : Change → Node
  | same => root
  | kept after | unkept after => after

/-- What lies outside after a change of the tree under a key. -/
def outside (key : String) (o : Outside) : Change → Outside
  | kept after => Volume.sync ⟨.store key, some after⟩ o
  | same | unkept _ => o

/-- A change that gives a tree, if there is one, to the store. -/
def ofOption : Option Node → Change
  | some after => kept after
  | none => same

end Change

/-- The handles after an operation on a tree of a store, and what becomes of the tree. -/
def VolumeOp.effect (root : Node) (handles : List FileHandle) :
    VolumeOp → List FileHandle × Change
  | .get _ => (handles, .same)
  | .create path => (handles, .ofOption (Tree.create root path .emptyFile).toOption)
  | .openFile path mode =>
    match Tree.openFile root path mode with
    | (h, some after) => (handles ++ [h], if h.isError then .unkept after else .kept after)
    | (h, none) => (handles ++ [h], .same)
  | .chmod path mode => (handles, .ofOption (Tree.chmod root path mode))
  | .read _ => (handles, .same)
  | .write i data =>
    (handles, .ofOption ((handles[i]?).bind fun h => (h.write root data).toOption))
  | .close i =>
    match (handles[i]?).bind fun h => (h.close root).toOption with
    | some (h, after) => (handles.set i h, .ofOption after)
    | none => (handles, .same)

/-! ### The effect of an operation -/

namespace Node

/-- The files of a tree that fits hold text. -/
theorem Fits.text_of_at? {levels : Nat} {node : Node} (h : node.Fits levels) {names : List String}
    {w : Bool} {content : Content} (hat : node.at? names = some (.file w content)) :
    ∃ body, content = .text body := by
  induction names generalizing levels node with
  | nil =>
    rw [at?_nil] at hat
    obtain rfl : node = .file w content := Option.some.inj hat
    cases h with
    | file _ body => exact ⟨body, rfl⟩
  | cons name names ih =>
    rw [at?_cons] at hat
    obtain ⟨child, hchild, hrest⟩ := Option.bind_eq_some_iff.1 hat
    cases h with
    | file _ body => exact absurd hchild (by simp [child?])
    | directory _ _ hchildren => exact ih (hchildren _ (NameMap.mem_of_find? hchild)) hrest

end Node

namespace VolumeUse

/-- Reading a tree of texts asks for nothing outside. -/
theorem read_outside {levels : Nat} {root : Node} (hfits : root.Fits levels) (key : String)
    (h : FileHandle) (o : Outside) :
    ((⟨.store key, some root⟩ : Volume).read h o).2 = o := by
  unfold Volume.read
  simp only [Option.getD_some]
  cases hcontent : h.content root with
  | error e => rfl
  | ok content =>
    obtain ⟨segments, w, -, hat⟩ := FileHandle.at?_of_content hcontent
    obtain ⟨body, rfl⟩ := hfits.text_of_at? hat
    rfl

/-- An operation on a volume of a store has its effect on the tree, and nothing else happens. -/
theorem perform_eq {u : VolumeUse} {key : String} {root : Node} {levels : Nat}
    (hvolume : u.volume = ⟨.store key, some root⟩) (hfits : root.Fits levels) (op : VolumeOp) :
    u.perform op =
      { volume := ⟨.store key, some ((op.effect root u.handles).2.tree root)⟩
        handles := (op.effect root u.handles).1
        outside := (op.effect root u.handles).2.outside key u.outside } := by
  obtain ⟨volume, handles, o⟩ := u
  obtain rfl : volume = ⟨.store key, some root⟩ := hvolume
  cases op with
  | get path => rfl
  | create path =>
    simp only [perform, VolumeOp.effect, Volume.create, Volume.isRemote, Volume.tree,
      Bool.false_eq_true, ↓reduceIte]
    cases Tree.create root path .emptyFile <;> rfl
  | openFile path mode =>
    simp only [perform, VolumeOp.effect, Volume.openFile, Volume.isRemote, Volume.tree,
      Bool.false_eq_true, ↓reduceIte]
    cases hopen : Tree.openFile root path mode with
    | mk h after =>
      cases after with
      | none => rfl
      | some after => by_cases herror : h.isError = true <;> simp only [herror] <;> rfl
  | chmod path mode =>
    simp only [perform, VolumeOp.effect, Volume.chmod, Volume.isRemote, Bool.false_eq_true,
      ↓reduceIte, Option.bind_some]
    cases Tree.chmod root path mode <;> rfl
  | read i =>
    simp only [perform, VolumeOp.effect]
    cases handles[i]? with
    | none => rfl
    | some h =>
      -- a tree that fits holds no remote file, so that reading asks for nothing outside
      simp only [read_outside hfits]
      rfl
  | write i data =>
    simp only [perform, VolumeOp.effect]
    cases handles[i]? with
    | none => rfl
    | some h =>
      simp only [Volume.write, Option.getD_some, Option.bind_some]
      cases h.write root data <;> rfl
  | close i =>
    simp only [perform, VolumeOp.effect]
    cases handles[i]? with
    | none => rfl
    | some h =>
      simp only [Volume.close, Option.getD_some, Option.bind_some]
      cases hclose : h.close root with
      | error e => rfl
      | ok pair =>
        obtain ⟨closed, after⟩ := pair
        cases after <;> rfl

end VolumeUse

/-! ### Trees after an operation -/

theorem Node.Fits.create {levels : Nat} {root after : Node} {path : String} (h : root.Fits levels)
    (hcreate : Tree.create root path .emptyFile = .ok after) : after.Fits levels := by
  obtain ⟨parent, name, children, -, -, -, -, rfl⟩ := (Tree.create_eq_ok_iff _ _ _ _).1 hcreate
  exact h.update (fun _ _ hnode => hnode.addChild name fun _ => .file true "") _

theorem Node.Fits.replaceText {levels : Nat} {root : Node} (h : root.Fits levels) (text : String)
    (segments : List String) :
    (root.update (fun _ => .file true (.text text)) segments).Fits levels :=
  h.update (fun _ _ _ => .file true text) segments

theorem Node.Fits.chmod {levels : Nat} {root after : Node} {path mode : String}
    (h : root.Fits levels) (hchmod : Tree.chmod root path mode = some after) :
    after.Fits levels := by
  unfold Tree.chmod at hchmod
  split at hchmod
  next w node hmode hwalk =>
    obtain rfl := Option.some.inj hchmod
    exact h.update (fun _ _ hnode => hnode.setWriteable w) _
  next => exact absurd hchmod (by simp)

namespace VolumeOp

theorem toOption_eq_some_iff {ε α : Type} {result : Except ε α} {x : α} :
    result.toOption = some x ↔ result = .ok x := by
  cases result <;> simp [Except.toOption]

theorem fits_ofOption {levels : Nat} {root : Node} (h : root.Fits levels) {after : Option Node}
    (hafter : ∀ node, after = some node → node.Fits levels) :
    ((Change.ofOption after).tree root).Fits levels := by
  cases after with
  | none => exact h
  | some node => exact hafter node rfl

/-- A tree that fits goes on to fit. -/
theorem fits_effect {levels : Nat} {root : Node} (h : root.Fits levels)
    (handles : List FileHandle) (op : VolumeOp) :
    ((op.effect root handles).2.tree root).Fits levels := by
  cases op with
  | get path => exact h
  | read i => exact h
  | create path =>
    simp only [effect]
    refine fits_ofOption h fun node hnode => ?_
    exact h.create (toOption_eq_some_iff.1 hnode)
  | openFile path mode =>
    rw [effect]
    cases hopen : Tree.openFile root path mode with
    | mk handle after =>
      cases after with
      | none => exact h
      | some after =>
        obtain ⟨-, -, hcreate⟩ := (Tree.openFile_eq_some_iff _ _ _ _ _).1 hopen
        have hafter := h.create hcreate
        by_cases herror : handle.isError = true
        · simp only [if_pos herror]
          exact hafter
        · simp only [if_neg herror]
          exact hafter
  | chmod path mode =>
    simp only [effect]
    exact fits_ofOption h fun node hnode => h.chmod hnode
  | write i data =>
    simp only [effect]
    refine fits_ofOption h fun node hnode => ?_
    obtain ⟨handle, -, hwrite⟩ := Option.bind_eq_some_iff.1 hnode
    obtain ⟨segments, body, -, -, -, -, rfl⟩ :=
      (FileHandle.write_eq_ok_iff _ _ _ _).1 (toOption_eq_some_iff.1 hwrite)
    exact h.replaceText _ segments
  | close i =>
    rw [effect]
    cases hclose : (handles[i]?).bind fun handle => (handle.close root).toOption with
    | none => exact h
    | some pair =>
      obtain ⟨closed, after⟩ := pair
      refine fits_ofOption h fun node hnode => ?_
      obtain ⟨handle, -, hok⟩ := Option.bind_eq_some_iff.1 hclose
      -- the close succeeded, so the handle was open, and a newline is added to its text at most
      have hending := toOption_eq_some_iff.1 hok
      rw [FileHandle.close_eq] at hending
      by_cases hclosed : handle.closed = true
      · exact absurd hending (by simp [hclosed])
      · rw [if_neg hclosed] at hending
        have hsome : handle.ending? root = some node := by
          rw [← hnode]
          exact congrArg Prod.snd (Except.ok.inj hending)
        obtain ⟨segments, body, -, -, -, rfl⟩ := (FileHandle.ending?_eq_some_iff _ _ _).1 hsome
        exact h.replaceText _ segments

theorem ofOption_ne_unkept (after : Option Node) (node : Node) :
    Change.ofOption after ≠ .unkept node := by
  cases after <;> simp [Change.ofOption]

/-- The one change of a tree that does not go to the store is a new file, created by an open that
asks for a handle on a failure. -/
theorem effect_eq_unkept_iff (root after : Node) (handles : List FileHandle) (op : VolumeOp) :
    (op.effect root handles).2 = .unkept after ↔
      ∃ path, op = .openFile path .failed ∧
        (∃ missing, Tree.walk root path = .error (.notFound missing)) ∧
        Tree.create root path .emptyFile = .ok after := by
  constructor
  · intro h
    cases op with
    | openFile path mode =>
      rw [effect] at h
      cases hopen : Tree.openFile root path mode with
      | mk handle changed =>
        rw [hopen] at h
        cases changed with
        | none => exact absurd h (by simp)
        | some changed =>
          obtain ⟨rfl, hmissing, hcreate⟩ := (Tree.openFile_eq_some_iff _ _ _ _ _).1 hopen
          by_cases herror : (FileHandle.ofNode (Path.walkSteps path) path mode).isError = true
          · simp only [if_pos herror, Change.unkept.injEq] at h
            obtain rfl : mode = .failed := of_decide_eq_true herror
            exact ⟨path, rfl, hmissing, h ▸ hcreate⟩
          · -- any other handle is no error, and then the tree is kept
            simp [herror] at h
    | close i =>
      rw [effect] at h
      cases hclose : (handles[i]?).bind fun handle => (handle.close root).toOption with
      | none => exact absurd h (by simp [hclose])
      | some pair => exact absurd (by simpa [hclose] using h) (ofOption_ne_unkept pair.2 after)
    | get path => exact absurd h (by simp [effect])
    | read i => exact absurd h (by simp [effect])
    | create path =>
      simp only [effect] at h
      exact absurd h (ofOption_ne_unkept _ after)
    | chmod path mode =>
      simp only [effect] at h
      exact absurd h (ofOption_ne_unkept _ after)
    | write i data =>
      simp only [effect] at h
      exact absurd h (ofOption_ne_unkept _ after)
  · rintro ⟨path, rfl, hmissing, hcreate⟩
    have hopen := (Tree.openFile_eq_some_iff root after path .failed _).2 ⟨rfl, hmissing, hcreate⟩
    rw [effect, hopen]
    rfl

end VolumeOp

end MountShell
