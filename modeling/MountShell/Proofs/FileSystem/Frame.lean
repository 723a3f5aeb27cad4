import MountShell.Proofs.FileSystem.Change

/-!
# What an operation leaves alone

However the trees were built, mounted over one another, replaced or kept, no two paths lead to the
same node: the volume and the names in its tree tell the mount and with it the whole path.  So an
operation at one path shows at no other path, with one exception: the parent of a file that comes
into being lists its name.

Main statement: `FileSystemUse.frame_run`.
-/

namespace MountShell

/-- What is shown of a node at a path. -/
def Face.entry (face : Face) (path : String) : Entry where
  path := path
  name := Path.basename path
  writeable := face.writeable
  kind := face.kind

theorem Entry.ofNode_eq (node : Node) (path : String) :
    ofNode node path = node.face.entry path := by
  cases node <;> rfl

/-- One more name among the children of a directory, and others among which it is sorted in. -/
theorem Entry.addNames_insertName (path name : String) (own points : List String) :
    (Face.entry ⟨true, .directory (insertName name own)⟩ path).addNames points =
      ((Face.entry ⟨true, .directory own⟩ path).addNames points).addNames [name] := by
  have hnames : sortNames (insertName name own ++ points) =
      sortNames (sortNames (own ++ points) ++ [name]) := by
    refine eq_sortNames (pairwise_sortNames _) fun other => ?_
    simp only [mem_sortNames, List.mem_append, mem_insertName, List.mem_singleton]
    tauto
  simp only [Entry.addNames, Face.entry, hnames]

namespace FileSystem

variable {fs : FileSystem} {path : String}

/-- What is shown of the node at a path, if there is one. -/
def shows (fs : FileSystem) (path : String) : Option Entry :=
  (fs.get path).1.toOption

/-- What is shown at a path of a node with the given face: a directory also lists the mount points
right below it. -/
def view (fs : FileSystem) (path : String) (face : Face) : Entry :=
  (face.entry (Path.resolve path)).addNames (fs.pointsBelow (Path.resolve path))

/-- The flag shows as it is. -/
theorem view_writeable (fs : FileSystem) (path : String) (face : Face) (w : Bool) :
    fs.view path { face with writeable := w } = { fs.view path face with writeable := w } := by
  obtain ⟨flag, names | content⟩ := face <;> simp only [view, Face.entry, Entry.addNames]

/-- A file shows its flag and its content. -/
theorem view_file (fs : FileSystem) (path : String) (w : Bool) (content : Content) :
    (fs.view path ⟨w, .file content⟩).writeable = w ∧
      (fs.view path ⟨w, .file content⟩).kind = .file content := by
  simp only [view, Face.entry, Entry.addNames, and_self]

theorem view_content (fs : FileSystem) (path : String) (w : Bool) (old new : Content) :
    fs.view path ⟨w, .file new⟩ = { fs.view path ⟨w, .file old⟩ with kind := .file new } := by
  simp only [view, Face.entry, Entry.addNames]

theorem toOption_walk (root : Node) (path : String) :
    (Tree.walk root path).toOption = root.at? (Path.walkSteps path) := by
  refine Option.ext fun node => ?_
  rw [← Tree.walk_eq_ok_iff]
  cases Tree.walk root path <;> simp [Except.toOption]

/-- What is shown at a path is what the tree of its mount holds at the names that remain. -/
theorem shows_of_locate {place : Place} {root : Node} (hlocate : fs.locate path = .ok place)
    (hroot : (fs.volume place.mount.volume).root = some root) :
    fs.shows path = ((root.at? (place.remaining path)).map Node.face).map (fs.view path) := by
  rw [shows, get_of_locate hlocate, Volume.get_fst, Volume.tree_of_root hroot,
    ← walkSteps_of_locate hlocate, ← toOption_walk]
  show ((Tree.walk root place.inner).map _).toOption = _
  cases Tree.walk root place.inner with
  | error e => rfl
  | ok node =>
    show some ((Entry.ofNode node (Path.resolve path)).addNames _) = _
    rw [Entry.ofNode_eq]
    rfl

/-- An operation at one path, as far as it shows at others: nothing changes, except that the parent
of a file that comes into being gets its name among its children. -/
structure FrameAt (fs after : FileSystem) (path : String) : Prop where
  others : ∀ other, Path.resolve other ≠ Path.resolve path →
    ¬ (fs.shows path = none ∧ (after.shows path).isSome = true ∧
      ∃ name, Path.segmentsOf path = Path.segmentsOf other ++ [name]) →
    after.shows other = fs.shows other
  parent : fs.shows path = none → (after.shows path).isSome = true → ∀ above name,
    Path.segmentsOf path = Path.segmentsOf above ++ [name] →
    ∃ entry, fs.shows above = some entry ∧ entry.isDirectory = true ∧ name ∉ entry.children ∧
      after.shows above = some (entry.addNames [name])

/-- Where nothing changes, nothing is seen to change. -/
theorem frameAt_of_same {after : FileSystem} (h : ∀ other, after.shows other = fs.shows other) :
    FrameAt fs after path where
  others other _ _ := h other
  parent hnone hsome := by
    rw [h, hnone] at hsome
    exact absurd hsome Bool.false_ne_true

end FileSystem

namespace FileSystemUse

/-- The path that an operation is about.  Writing and closing are about the path that the file was
opened at. -/
inductive Concerns (u : FileSystemUse) : FileSystemOp → String → Prop
  | create (path : String) : Concerns u (.create path) path
  | openFile (path : String) (mode : OpenMode) : Concerns u (.openFile path mode) path
  | chmod (path mode : String) : Concerns u (.chmod path mode) path
  | write {i : Nat} {data path : String} {file : OpenFile} : u.files[i]? = some file →
      file.handle.path = Path.resolve path → Concerns u (.write i data) path
  | close {i : Nat} {path : String} {file : OpenFile} : u.files[i]? = some file →
      file.handle.path = Path.resolve path → Concerns u (.close i) path

/-- What an operation may change of what is shown at its own path: creating and opening leave what
is there and may add an empty file, a mode changes the flag only, and writing and closing the text
only. -/
def OwnChange (before after : Option Entry) : FileSystemOp → Prop
  | .create _ | .openFile _ _ => after = before ∨ before = none ∧ ∃ entry, after = some entry ∧
      entry.writeable = true ∧ entry.kind = .file (.text "")
  | .chmod _ mode => after = before ∨ ∃ w, Tree.modeFlag? mode = some w ∧
      after = before.map fun entry => { entry with writeable := w }
  | .write _ _ | .close _ => after = before ∨ ∃ entry old text, before = some entry ∧
      entry.writeable = true ∧ entry.kind = .file (.text old) ∧
      after = some { entry with kind := .file (.text text) }
  | _ => after = before

theorem ownChange_of_same {before after : Option Entry} (h : after = before) (op : FileSystemOp) :
    OwnChange before after op := by
  cases op with
  | create path => exact Or.inl h
  | openFile path mode => exact Or.inl h
  | chmod path mode => exact Or.inl h
  | write i data => exact Or.inl h
  | close i => exact Or.inl h
  | _ => exact h

/-- All mounts have their trees. -/
def Loaded (u : FileSystemUse) : Prop :=
  ∀ m ∈ u.fs.mounts, (u.fs.volume m.volume).root.isSome = true

variable {u : FileSystemUse} {op : FileSystemOp} {path : String}

/-- An operation leaves the way of every path. -/
theorem locate_perform (u : FileSystemUse) (op : FileSystemOp) (path : String) :
    (u.perform op).fs.locate path = u.fs.locate path := by
  have hmounts : (u.perform op).fs.mounts = u.fs.mounts := congrArg Prod.fst (shape_perform u op)
  unfold FileSystem.locate
  rw [hmounts]

theorem view_perform (u : FileSystemUse) (op : FileSystemOp) (path : String) :
    (u.perform op).fs.view path = u.fs.view path := by
  have hmounts : (u.perform op).fs.mounts = u.fs.mounts := congrArg Prod.fst (shape_perform u op)
  unfold FileSystem.view FileSystem.pointsBelow
  rw [hmounts]

theorem shows_perform {place : FileSystem.Place} {root : Node}
    (hlocate : u.fs.locate path = .ok place)
    (hroot : ((u.perform op).fs.volume place.mount.volume).root = some root) :
    (u.perform op).fs.shows path =
      ((root.at? (place.remaining path)).map Node.face).map (u.fs.view path) := by
  rw [← view_perform u op]
  exact FileSystem.shows_of_locate ((locate_perform u op path).trans hlocate) hroot

/-- Without a change nothing shows. -/
theorem shows_of_loadsOnly (htabled : FileSystem.Tabled u.fs.mounts) (hloaded : u.Loaded)
    (h : u.LoadsOnly (u.perform op)) (other : String) :
    (u.perform op).fs.shows other = u.fs.shows other := by
  obtain ⟨place, hlocate, -⟩ := htabled.routes other
  obtain ⟨root, hroot⟩ := Option.isSome_iff_exists.1
    (hloaded _ (FileSystem.mem_of_locate hlocate))
  have hsame := Volume.root_of_loads (h place.mount.volume) hroot
  rw [FileSystem.shows_of_locate hlocate hroot, shows_perform hlocate (hsame ▸ hroot)]

/-- How a change of one volume shows at a path. -/
structure SeenAt (u after : FileSystemUse) (i : Nat) (c : TreeChange) (path : String)
    (place : FileSystem.Place) (old new : Option Face) : Prop where
  locate : u.fs.locate path = .ok place
  before : u.fs.shows path = old.map (u.fs.view path)
  later : after.fs.shows path = new.map (u.fs.view path)
  here : place.mount.volume = i → c.Seen (place.remaining path) old new
  elsewhere : place.mount.volume ≠ i → new = old

theorem exists_seenAt (htabled : FileSystem.Tabled u.fs.mounts) (hloaded : u.Loaded) {i : Nat}
    {c : TreeChange} (h : u.ChangesVolume (u.perform op) i c) (path : String) :
    ∃ place old new, u.SeenAt (u.perform op) i c path place old new := by
  obtain ⟨place, hlocate, -⟩ := htabled.routes path
  obtain ⟨root, hroot⟩ := Option.isSome_iff_exists.1
    (hloaded _ (FileSystem.mem_of_locate hlocate))
  have hold := FileSystem.shows_of_locate hlocate hroot
  by_cases hi : place.mount.volume = i
  · subst hi
    obtain ⟨⟨own, hown, hallowed, hafter⟩, -⟩ := h
    obtain rfl := Option.some.inj (hroot.symm.trans hown)
    have hnew := shows_perform hlocate (congrArg Volume.root hafter)
    exact ⟨place, _, _, hlocate, hold, hnew, fun _ => TreeChange.seen_apply hallowed _,
      fun hne => absurd rfl hne⟩
  · have hnew := shows_perform hlocate ((congrArg Volume.root (h.2 _ hi)).trans hroot)
    exact ⟨place, _, _, hlocate, hold, hnew, fun heq => absurd heq hi, fun _ => rfl⟩

/-- No other path leads to the node that an operation at a path changes. -/
theorem resolve_eq_of_target (hwell : u.WellMounted) (hbound : u.Bound) {i : Nat} {c : TreeChange}
    (hconcerns : u.Concerns op path) (hchanges : u.Changes op i c) {other : String}
    {place : FileSystem.Place} (hlocate : u.fs.locate other = .ok place)
    (hvolume : place.mount.volume = i) (hremaining : place.remaining other = c.target) :
    Path.resolve other = Path.resolve path := by
  have hmem := FileSystem.mem_of_locate hlocate
  have hother := FileSystem.segmentsOf_of_locate hlocate
  -- A path and a place: the mount is that of the volume, and the names that remain are the target.
  have hplace : ∀ {own : FileSystem.Place}, u.fs.locate path = .ok own → own.mount.volume = i →
      own.remaining path = c.target → Path.resolve other = Path.resolve path := by
    intro own hown hvolume' hremaining'
    have hmount := hwell.own _ hmem _ (FileSystem.mem_of_locate hown)
      (hvolume.trans hvolume'.symm)
    rw [Path.resolve, Path.resolve, hother, FileSystem.segmentsOf_of_locate hown, hmount,
      hremaining, hremaining']
  -- A file: its path is made of the point of any mount of its volume and the names it is bound to.
  have hfile : ∀ {k : Nat} {file : OpenFile} {segments : List String}, u.files[k]? = some file →
      file.handle.path = Path.resolve path → file.volume = i →
      file.handle.binding = .ok segments → segments = c.target →
      Path.resolve other = Path.resolve path := by
    intro k file segments hfile hpath hvolume' hbinding htarget
    have hto := hbound file (List.mem_of_getElem? hfile) segments hbinding
    have hsegments := hto.path _ hmem (hvolume.trans hvolume'.symm)
    rw [hpath, Path.segmentsOf_resolve, htarget, ← hremaining, ← hother] at hsegments
    rw [Path.resolve, Path.resolve, hsegments]
  cases hchanges with
  | create hown _ hparent =>
    cases hconcerns
    exact hplace hown rfl hparent
  | openFile hown _ hparent =>
    cases hconcerns
    exact hplace hown rfl hparent
  | chmod hown _ _ =>
    cases hconcerns
    exact hplace hown rfl rfl
  | write hk hbinding _ _ _ =>
    cases hconcerns with
    | write hk' hpath =>
      obtain rfl := Option.some.inj (hk.symm.trans hk')
      exact hfile hk hpath rfl hbinding rfl
  | close hk hbinding _ _ _ =>
    cases hconcerns with
    | close hk' hpath =>
      obtain rfl := Option.some.inj (hk.symm.trans hk')
      exact hfile hk hpath rfl hbinding rfl

/-- A file is added at the path that the operation is about. -/
theorem place_of_addFile (hconcerns : u.Concerns op path) {i : Nat} {parent : List String}
    {name : String} (hchanges : u.Changes op i (.addFile parent name)) :
    ∃ place, u.fs.locate path = .ok place ∧ place.mount.volume = i ∧
      place.remaining path = parent ++ [name] := by
  cases hchanges with
  | create hlocate _ hremaining =>
    cases hconcerns
    exact ⟨_, hlocate, rfl, hremaining⟩
  | openFile hlocate _ hremaining =>
    cases hconcerns
    exact ⟨_, hlocate, rfl, hremaining⟩

/-- What stood and what stands where a file was added. -/
theorem seen_added {parent names : List String} {name : String} {old new : Option Face}
    (h : (TreeChange.addFile parent name).Seen names old new) (hnames : names = parent ++ [name]) :
    old = none ∧ new = some ⟨true, .file (.text "")⟩ := by
  cases h with
  | same hplaces => exact absurd (hnames ▸ List.mem_cons_self) hplaces
  | added => exact ⟨rfl, rfl⟩
  | listed => exact absurd hnames (by simp)

/-- The names of the directory that a file was added to. -/
theorem seen_listed {parent names : List String} {name : String} {old new : Option Face}
    (h : (TreeChange.addFile parent name).Seen names old new) (hnames : names = parent) :
    ∃ own, name ∉ own ∧ old = some ⟨true, .directory own⟩ ∧
      new = some ⟨true, .directory (insertName name own)⟩ := by
  cases h with
  | same hplaces => exact absurd (by simp [TreeChange.places, hnames]) hplaces
  | added => exact absurd hnames (by simp)
  | listed hname => exact ⟨_, hname, rfl, rfl⟩

/-- Only a new file makes something appear. -/
theorem eq_addFile_of_appears (htabled : FileSystem.Tabled u.fs.mounts) (hloaded : u.Loaded)
    {i : Nat} {c : TreeChange} (hvolume : u.ChangesVolume (u.perform op) i c)
    (hnone : u.fs.shows path = none) (hsome : ((u.perform op).fs.shows path).isSome = true) :
    ∃ parent name, c = .addFile parent name := by
  obtain ⟨place, old, new, hseen⟩ := exists_seenAt htabled hloaded hvolume path
  have hold : old = none := by simpa [hseen.before] using hnone
  have hnew : new ≠ old := by
    rintro rfl
    rw [hseen.later, hold] at hsome
    exact absurd hsome Bool.false_ne_true
  have hi : place.mount.volume = i := Decidable.byContradiction fun hi =>
    hnew (hseen.elsewhere hi)
  have hhere := hseen.here hi
  rw [hold] at hhere
  generalize place.remaining path = names at hhere
  cases hhere with
  | same => exact absurd hold.symm hnew
  | added => exact ⟨_, _, rfl⟩

/-- Where another text shows, a writeable text was shown before. -/
theorem shows_of_setText (htabled : FileSystem.Tabled u.fs.mounts) (hloaded : u.Loaded) {i : Nat}
    {names : List String} {text : String}
    (hvolume : u.ChangesVolume (u.perform op) i (.setText names text)) (path : String) :
    (u.perform op).fs.shows path = u.fs.shows path ∨ ∃ entry old text,
      u.fs.shows path = some entry ∧ entry.writeable = true ∧ entry.kind = .file (.text old) ∧
        (u.perform op).fs.shows path = some { entry with kind := .file (.text text) } := by
  obtain ⟨place, old, new, hseen⟩ := exists_seenAt htabled hloaded hvolume path
  have hbefore := hseen.before
  have hlater := hseen.later
  by_cases hi : place.mount.volume = i
  · have hhere := hseen.here hi
    generalize place.remaining path = there at hhere
    cases hhere with
    | same => exact Or.inl (hlater.trans hbefore.symm)
    | @written _ body =>
      have hfile := u.fs.view_file path true (.text body)
      have hcontent := u.fs.view_content path true (.text body) (.text text)
      exact Or.inr ⟨_, body, text, hbefore, hfile.1, hfile.2,
        hlater.trans (congrArg some hcontent)⟩
  · rw [hseen.elsewhere hi] at hlater
    exact Or.inl (hlater.trans hbefore.symm)

section

variable (htabled : FileSystem.Tabled u.fs.mounts) (hwell : u.WellMounted) (hbound : u.Bound)
  (hloaded : u.Loaded) (hconcerns : u.Concerns op path) {i : Nat} {c : TreeChange}
  (hchanges : u.Changes op i c) (hvolume : u.ChangesVolume (u.perform op) i c)

include htabled hloaded hconcerns

/-- A file that is added was not there before. -/
theorem shows_of_addFile {parent : List String} {name : String}
    (hchanges : u.Changes op i (.addFile parent name))
    (hvolume : u.ChangesVolume (u.perform op) i (.addFile parent name)) :
    u.fs.shows path = none ∧
      (u.perform op).fs.shows path = some (u.fs.view path ⟨true, .file (.text "")⟩) := by
  obtain ⟨own, hown, hi, hremaining⟩ := place_of_addFile hconcerns hchanges
  obtain ⟨place, old, new, hseen⟩ := exists_seenAt htabled hloaded hvolume path
  obtain rfl := Except.ok.inj (hown.symm.trans hseen.locate)
  obtain ⟨rfl, rfl⟩ := seen_added (hseen.here hi) hremaining
  exact ⟨hseen.before, hseen.later⟩

include hwell hbound hchanges hvolume

/-- A change shows at no other path, apart from the parent of a new file. -/
theorem shows_of_ne {other : String} (hne : Path.resolve other ≠ Path.resolve path)
    (hparent : ¬ (u.fs.shows path = none ∧ ((u.perform op).fs.shows path).isSome = true ∧
      ∃ name, Path.segmentsOf path = Path.segmentsOf other ++ [name])) :
    (u.perform op).fs.shows other = u.fs.shows other := by
  obtain ⟨place, old, new, hseen⟩ := exists_seenAt htabled hloaded hvolume other
  rw [hseen.before, hseen.later]
  by_cases hi : place.mount.volume = i
  · have htarget : place.remaining other ≠ c.target := fun heq =>
      hne (resolve_eq_of_target hwell hbound hconcerns hchanges hseen.locate hi heq)
    have hhere := hseen.here hi
    generalize hnames : place.remaining other = names at hhere
    cases hhere with
    | same => rfl
    | added => exact absurd hnames htarget
    | @listed parent name own hname =>
      obtain ⟨hnone, hsome⟩ := shows_of_addFile htabled hloaded hconcerns hchanges hvolume
      obtain ⟨mine, hmine, hvolume', hremaining⟩ := place_of_addFile hconcerns hchanges
      have hmount := hwell.own _ (FileSystem.mem_of_locate hseen.locate) _
        (FileSystem.mem_of_locate hmine) (hi.trans hvolume'.symm)
      refine absurd ⟨hnone, by rw [hsome]; rfl, name, ?_⟩ hparent
      rw [FileSystem.segmentsOf_of_locate hmine, FileSystem.segmentsOf_of_locate hseen.locate,
        hremaining, hnames, hmount, List.append_assoc]
    | flagged => exact absurd hnames htarget
    | written => exact absurd hnames htarget
  · rw [hseen.elsewhere hi]

omit hwell hbound in
/-- The parent of a new file lists one name more. -/
theorem shows_parent (hnone : u.fs.shows path = none)
    (hsome : ((u.perform op).fs.shows path).isSome = true) {above name : String}
    (hsegments : Path.segmentsOf path = Path.segmentsOf above ++ [name]) :
    ∃ entry, u.fs.shows above = some entry ∧ entry.isDirectory = true ∧ name ∉ entry.children ∧
      (u.perform op).fs.shows above = some (entry.addNames [name]) := by
  obtain ⟨parent, own, rfl⟩ := eq_addFile_of_appears htabled hloaded hvolume hnone hsome
  obtain ⟨mine, hmine, hi, hremaining⟩ := place_of_addFile hconcerns hchanges
  have hpath := FileSystem.segmentsOf_of_locate hmine
  rw [hremaining, hsegments, ← List.append_assoc] at hpath
  obtain ⟨habove, hname⟩ := List.append_inj' hpath rfl
  obtain rfl : name = own := List.singleton_inj.1 hname
  obtain ⟨own, hown, hmount, hparent⟩ := htabled.locate_above hmine hremaining habove
  obtain ⟨place, old, new, hseen⟩ := exists_seenAt htabled hloaded hvolume above
  obtain rfl := Except.ok.inj (hown.symm.trans hseen.locate)
  have hhere := hseen.here (hmount ▸ hi)
  obtain ⟨listed, hlisted, rfl, rfl⟩ := seen_listed hhere hparent
  refine ⟨_, hseen.before, rfl, ?_, ?_⟩
  · have hpoints := FileSystem.not_mem_pointsBelow_of_locate hmine hremaining hsegments
    show name ∉ sortNames (listed ++ u.fs.pointsBelow (Path.resolve above))
    rw [mem_sortNames, List.mem_append]
    exact not_or.2 ⟨hlisted, hpoints⟩
  · rw [hseen.later]
    exact congrArg some (Entry.addNames_insertName _ _ _ _)

omit hwell hbound in
/-- What changes at the path itself. -/
theorem ownChange_of_changes :
    OwnChange (u.fs.shows path) ((u.perform op).fs.shows path) op := by
  obtain ⟨place, old, new, hseen⟩ := exists_seenAt htabled hloaded hvolume path
  have hadded : ∀ {parent : List String} {name : String}, c = .addFile parent name →
      u.fs.shows path = none ∧ ∃ entry, (u.perform op).fs.shows path = some entry ∧
        entry.writeable = true ∧ entry.kind = .file (.text "") := by
    rintro parent name rfl
    obtain ⟨hnone, hsome⟩ := shows_of_addFile htabled hloaded hconcerns hchanges hvolume
    exact ⟨hnone, _, hsome, FileSystem.view_file _ _ _ _⟩
  cases hchanges with
  | create _ _ _ => exact Or.inr (hadded rfl)
  | openFile _ _ _ => exact Or.inr (hadded rfl)
  | @chmod _ mode own w hown _ hflag =>
    cases hconcerns
    obtain rfl := Except.ok.inj (hown.symm.trans hseen.locate)
    have hhere := hseen.here rfl
    rw [hseen.before, hseen.later]
    generalize hnames : own.remaining path = names at hhere
    cases hhere with
    | same hplaces => exact Or.inl rfl
    | @flagged names w face =>
      refine Or.inr ⟨w, hflag, ?_⟩
      rw [Option.map_some, Option.map_some, Option.map_some, FileSystem.view_writeable]
  | write _ _ _ _ _ => exact shows_of_setText htabled hloaded hvolume path
  | close _ _ _ _ _ => exact shows_of_setText htabled hloaded hvolume path

end

/-- An operation at a path shows nowhere else, except that the parent of a new file lists it. -/
theorem frame_perform (htabled : FileSystem.Tabled u.fs.mounts) (hwell : u.WellMounted)
    (hbound : u.Bound) (hloaded : u.Loaded) (hconcerns : u.Concerns op path) :
    FileSystem.FrameAt u.fs (u.perform op).fs path ∧
      OwnChange (u.fs.shows path) ((u.perform op).fs.shows path) op := by
  rcases perform_cases hwell hbound op with hloads | ⟨i, c, -, hchanges, hvolume⟩
  · have hsame := shows_of_loadsOnly htabled hloaded hloads
    exact ⟨FileSystem.frameAt_of_same hsame, ownChange_of_same (hsame path) op⟩
  · refine ⟨⟨fun other hne hparent => ?_, fun hnone hsome above name hsegments => ?_⟩, ?_⟩
    · exact shows_of_ne htabled hwell hbound hloaded hconcerns hchanges hvolume hne hparent
    · exact shows_parent htabled hloaded hconcerns hchanges hvolume hnone hsome
        hsegments
    · exact ownChange_of_changes htabled hloaded hconcerns hchanges hvolume

/-- However a filesystem has come about from a list of entries, and whatever has been mounted and
done since: when the trees of all mounts are there, an operation at a path, or through a file that
was opened at it, shows at no path that is another one after resolution, neither as a node that
changes nor as one that appears.  The one exception is the parent of a file that comes into being,
which lists its name as well.  At the path itself only that changes which the operation is for. -/
theorem frame_run (entries : List FstabEntry) (devices : Devices) (o : Outside)
    (events : List FileSystemEvent) (op : FileSystemOp) (path : String)
    (hloaded : ((start entries devices o).run events).Loaded)
    (hconcerns : ((start entries devices o).run events).Concerns op path) :
    let u := (start entries devices o).run events
    FileSystem.FrameAt u.fs (u.perform op).fs path ∧
      OwnChange (u.fs.shows path) ((u.perform op).fs.shows path) op := by
  have hwell := wellMounted_start entries devices o
  exact frame_perform (tabled_run (tabled_start entries devices o) events) (hwell.run events)
    ((bound_start entries devices o).run hwell events) hloaded hconcerns

/-- One tree at two points, one below the other, with a file opened in the lower one. -/
def mountedTwice : List FstabEntry × Devices × List FileSystemEvent :=
  let entry (point : String) : FstabEntry :=
    { device := "tree", mountPoint := point, typeName := "static" }
  ([entry "/", entry "/d"], { trees := [("tree", .directory true [("f", .text "x" true)])] },
    [.op (.openFile "/d/f" .append), .op (.chmod "/f" "-w")])

/-- Writing to `/d/f` leaves `/f` alone, which is a file of the same tree as it was supplied. -/
theorem frame_mounted_twice :
    let u := (start mountedTwice.1 mountedTwice.2.1 {}).run mountedTwice.2.2
    let after := u.perform (.write 0 "y")
    u.Loaded ∧ u.Concerns (.write 0 "y") "/./d/f" ∧ after.fs.shows "/f" = u.fs.shows "/f" ∧
      (u.fs.shows "/f").map (·.kind) = some (.file (.text "x")) ∧
      (after.fs.shows "/d/f").map (·.kind) = some (.file (.text "xy")) := by
  intro u after
  have hloaded : u.Loaded := by
    unfold Loaded
    decide +kernel
  have hpath : u.files[0]?.map (·.handle.path) = some (Path.resolve "/./d/f") := by decide +kernel
  obtain ⟨file, hfile, hpath⟩ := Option.map_eq_some_iff.1 hpath
  have hconcerns : u.Concerns (.write 0 "y") "/./d/f" := .write hfile hpath
  obtain ⟨hframe, -⟩ := frame_run mountedTwice.1 mountedTwice.2.1 {} mountedTwice.2.2
    (.write 0 "y") "/./d/f" hloaded hconcerns
  refine ⟨hloaded, hconcerns, hframe.others "/f" (by decide +kernel) ?_, by decide +kernel,
    by decide +kernel⟩
  have hthere : (u.fs.shows "/./d/f").isSome = true := by decide +kernel
  rintro ⟨hnone, -⟩
  have hnone : u.fs.shows "/./d/f" = none := hnone
  rw [hnone] at hthere
  exact Bool.false_ne_true hthere

end FileSystemUse

end MountShell
