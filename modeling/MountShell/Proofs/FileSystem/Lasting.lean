import MountShell.Proofs.FileSystem.Growth
import MountShell.Proofs.FileSystem.Writing

/-!
# What lasts while files are opened

Files are opened one after the other, and what an open leaves the next one finds.  Where a file
could not be created, none can be created by a later open either, so that no text comes to stand
there (`FileSystem.Bars`): an open adds empty files, but it neither makes directories nor sets
flags.  And whatever is looked up, created or given another flag, a text keeps its body
(`FileSystem.bodyAt?_put`).

Main statements: `FileSystem.ends_openFile_or_bars`, a file that is opened for writing ends the text
at the spot that its path leads to, or no text will stand there; and `bodyAt?_get`,
`bodyAt?_create`, `bodyAt?_chmod` and `bodyAt?_program?`.
-/

namespace MountShell

/-! ### Where no text can come to stand -/

/-- The nodes of an index are not writeable. -/
theorem Volume.Fetches.not_text {v : Volume} {root : Node} {names : List String}
    (h : v.Fetches root) (body : String) : root.at? names ≠ some (.file true (.text body)) := by
  intro hat
  obtain ⟨location, index, -, hread⟩ := h
  obtain ⟨value, rfl⟩ := Index.exists_of_read hread
  obtain ⟨entry, -, hdenotes⟩ := Index.denotes_of_at? hat
  cases hdenotes

/-- A new file comes to stand nowhere but at its own place. -/
theorem TreeChange.Seen.eq_none {parent names : List String} {name : String} {new : Option Face}
    (h : (addFile parent name).Seen names none new) (hnames : names ≠ parent ++ [name]) :
    new = none := by
  cases h with
  | same => rfl
  | added => exact absurd rfl hnames

namespace Volume

variable {v : Volume} {names : List String} {path : String} {mode : OpenMode}

/-- No text stands at the end of the names, and none will because of an open: the tree is remote, or
what would be the directory of the file is no writeable one. -/
inductive Bars (v : Volume) (names : List String) : Prop
  | remote (isRemote : v.isRemote = true)
      (noText : ∀ root, v.root = some root →
        ∀ body, root.at? names ≠ some (.file true (.text body)))
  | closed (notRemote : v.isRemote = false)
      (missing : ∀ root, v.root = some root → root.at? names = none)
      (noDirectory : ∀ root, v.root = some root → ∀ parent name, names = parent ++ [name] →
        ∀ own, (root.at? parent).map Node.face ≠ some ⟨true, .directory own⟩)

/-- Where files are barred there is no text. -/
theorem Bars.not_text (h : v.Bars names) {root : Node} (hroot : v.root = some root)
    (body : String) : root.at? names ≠ some (.file true (.text body)) := by
  cases h with
  | remote _ noText => exact noText root hroot body
  | closed _ missing _ => simp [missing root hroot]

/-- Only a remote tree is fetched, and it holds no texts. -/
theorem Bars.loads {after : Volume} (h : v.Bars names) (hloads : v.Loads after) :
    after.Bars names := by
  rcases hloads with rfl | ⟨-, root, hfetches, rfl⟩
  · exact h
  · obtain ⟨location, index, hbacking, -⟩ := id hfetches
    refine .remote ?_ fun other hother body => ?_
    · unfold isRemote
      rw [hbacking]
    · obtain rfl : root = other := Option.some.inj hother
      exact hfetches.not_text body

/-- A new empty file makes no room for another one, because it is no directory. -/
theorem Bars.openFile (h : v.Bars names) (path : String) (mode : OpenMode) (o : Outside) :
    (v.openFile path mode o).2.1.Bars names := by
  rcases v.openFile_cases path mode o with
    ⟨-, hloads, -⟩ | ⟨hcreates, root, after, hroot, hcreate, hafter, -⟩
  · exact h.loads hloads
  cases h with
  | remote isRemote _ => simp [creates, isRemote] at hcreates
  | closed notRemote missing noDirectory =>
    obtain ⟨above, added, -, -, own, hown, hallowed, hchanged⟩ := creates_of_create hroot hcreate
    obtain rfl : root = own := Option.some.inj (hroot.symm.trans hown)
    generalize Path.walkSteps above = place at hallowed hchanged
    have htree : (v.openFile path mode o).2.1.root =
        some ((TreeChange.addFile place added).apply root) := by
      rw [hafter, hchanged]
    have hmissing := missing root hroot
    have hdirectory := noDirectory root hroot
    refine .closed (by rw [hafter]; exact notRemote) (fun later hlater => ?_)
      fun later hlater parent name hnames own hface => ?_
    · obtain rfl : _ = later := Option.some.inj (htree.symm.trans hlater)
      have hseen := TreeChange.seen_apply hallowed names
      rw [hmissing, Option.map_none] at hseen
      refine Option.map_eq_none_iff.1 (hseen.eq_none fun hnames => ?_)
      obtain ⟨children, hat, -⟩ := hallowed
      exact hdirectory place added hnames (NameMap.names children) (by rw [hat]; rfl)
    · obtain rfl : _ = later := Option.some.inj (htree.symm.trans hlater)
      have hseen := TreeChange.seen_apply hallowed parent
      rw [hface] at hseen
      have hold := hdirectory parent name hnames
      generalize (root.at? parent).map Node.face = old at hseen hold
      cases hseen with
      | same => exact hold own rfl
      | listed => exact hold _ rfl

/-- In a writeable directory without a child of the name a file can be opened, as it is created. -/
theorem isError_openFile_of_directory (hremote : v.isRemote = false) {root : Node}
    (hroot : v.root = some root) {parent : List String} {name : String}
    {children : List (String × Node)} (hsegments : ∀ s ∈ parent ++ [name], Path.IsSegment s)
    (hat : root.at? parent = some (.directory true children))
    (hnone : NameMap.find? name children = none) (hmode : mode ≠ .failed) (o : Outside) :
    (v.openFile (Path.ofSegments (parent ++ [name])) mode o).1.isError = false := by
  have hname : Path.IsSegment name := hsegments name (by simp)
  have hsteps := Path.walkSteps_ofSegments hsegments
  have habove : Path.walkSteps (Path.ofSegments parent) = parent :=
    Path.walkSteps_ofSegments fun s hs => hsegments s (List.mem_append_left _ hs)
  have hcreate := (Tree.create_eq_ok_iff root .emptyFile _ (Path.ofSegments (parent ++ [name]))).2
    ⟨Path.ofSegments parent, name, children, Path.splitParent_ofSegments hname,
      by simp [hname.1, hname.2.1, hname.2.2.1], habove.symm ▸ hat, hnone, rfl⟩
  have hwalk : Tree.walk root (Path.ofSegments (parent ++ [name])) =
      .error (.notFound (Path.ofSegments (parent ++ [name]))) := by
    rw [Tree.walk, hsteps]
    exact Tree.follow_of_missing _ hat hnone []
  have hopen := (Tree.openFile_eq_some_iff root _ _ mode _).2 ⟨rfl, ⟨_, hwalk⟩, hcreate⟩
  have hworks : (FileHandle.ofNode (Path.walkSteps (Path.ofSegments (parent ++ [name])))
      (Path.ofSegments (parent ++ [name])) mode).isError = false := decide_eq_false hmode
  rw [openFile_of_root hremote hroot, hopen]
  simp only [hworks, Bool.false_eq_true, ↓reduceIte]

/-- A file that is not there and cannot be opened will not come to be there. -/
theorem bars_of_isError (hsegments : ∀ s ∈ names, Path.IsSegment s)
    (hmissing : ∀ root, v.root = some root → root.at? names = none) (hmode : mode ≠ .failed)
    {o : Outside} (herror : (v.openFile (Path.ofSegments names) mode o).1.isError = true) :
    v.Bars names := by
  cases hremote : v.isRemote with
  | true => exact .remote hremote fun root hroot body => by simp [hmissing root hroot]
  | false =>
    refine .closed hremote hmissing fun root hroot parent name hnames own hface => ?_
    obtain ⟨node, hat, hnode⟩ := Option.map_eq_some_iff.1 hface
    cases node with
    | file w content => simp at hnode
    | directory w children =>
      obtain rfl : w = true := congrArg Face.writeable hnode
      have hnone : NameMap.find? name children = none := by
        have hchild := hmissing root hroot
        rw [hnames, Node.at?_append, hat, Option.bind_some, Node.at?_cons, Node.child?] at hchild
        simpa [Node.at?_nil] using hchild
      subst hnames
      rw [isError_openFile_of_directory hremote hroot hsegments hat hnone hmode] at herror
      exact absurd herror Bool.false_ne_true

end Volume

namespace FileSystem

variable {fs : FileSystem} {spot : Spot}

/-- No text stands at a spot, and none will because of an open. -/
def Bars (fs : FileSystem) (spot : Spot) : Prop :=
  (fs.volume spot.volume).Bars spot.segments

/-- Where files are barred there is no text. -/
theorem Bars.textAt?_eq_none (h : fs.Bars spot) : fs.textAt? spot = none := by
  refine Option.eq_none_iff_forall_ne_some.2 fun body htext => ?_
  obtain ⟨root, hroot, hat⟩ := (textAt?_eq_some_iff _ _ _).1 htext
  exact h.not_text hroot body hat

/-- Where files are barred they stay so when others are opened. -/
theorem Bars.openFile (h : fs.Bars spot) (path : String) (mode : OpenMode) :
    (fs.openFile path mode).2.Bars spot := by
  unfold Bars at h ⊢
  rcases fs.volume_openFile_cases path mode spot.volume with hsame | ⟨inner, hopened⟩
  · rw [hsame]
    exact h
  · rw [hopened]
    exact h.openFile inner mode fs.outside

/-- A file that cannot be opened for writing, although its path leads to a spot on a mount which is
not read-only, bars that spot if there is no node. -/
theorem bars_of_isError {path : String} {mode : OpenMode} (hnode : fs.nodeAt? spot = none)
    (hwrite : mode.isWrite = true) (htarget : fs.target? path = some spot)
    (herror : (fs.openFile path mode).1.handle.isError = true) : fs.Bars spot := by
  obtain ⟨place, hlocate, hro, rfl⟩ := target?_eq_some_iff.1 htarget
  obtain ⟨m, -, hplace⟩ := locate_eq_ok_iff.1 hlocate
  have hinner : place.inner = Path.ofSegments ((Path.segmentsOf path).drop m.point.length) := by
    rw [hplace]
  have hsegments : ∀ s ∈ (Path.segmentsOf path).drop m.point.length, Path.IsSegment s :=
    fun s hs => Path.isSegment_of_mem_segmentsOf (List.mem_of_mem_drop hs)
  rw [hinner, Path.walkSteps_ofSegments hsegments] at hnode ⊢
  unfold openFile at herror
  rw [hlocate] at herror
  simp only [hro, Bool.false_and, Bool.false_eq_true, ↓reduceIte] at herror
  have hfailed : ((fs.volume place.mount.volume).openFile place.inner mode
      fs.outside).1.isError = true := herror
  rw [hinner] at hfailed
  refine Volume.bars_of_isError hsegments (fun root hroot => ?_) ?_ hfailed
  · simpa [nodeAt?, hroot] using hnode
  · rintro rfl
    exact absurd hwrite Bool.false_ne_true

/-- A file that is opened for writing is bound to the spot that its path leads to, if that is on a
mount which is not read-only; or no text will come to stand at that spot. -/
theorem ends_openFile_or_bars (fs : FileSystem) (path : String) (mode : OpenMode) (spot : Spot) :
    (fs.openFile path mode).1.ends spot =
        (mode.isWrite && decide (fs.target? path = some spot)) ∨ fs.Bars spot := by
  cases hnode : fs.nodeAt? spot with
  | some node => exact Or.inl (ends_openFile (Option.isSome_of_eq_some hnode) path mode)
  | none =>
    by_cases htarget : mode.isWrite = true ∧ fs.target? path = some spot
    · cases herror : (fs.openFile path mode).1.handle.isError with
      | true => exact Or.inr (bars_of_isError hnode htarget.1 htarget.2 herror)
      | false =>
        rw [ends_of_target? htarget.1 htarget.2 herror, htarget.1, decide_eq_true htarget.2]
        exact Or.inl rfl
    · have hends : (fs.openFile path mode).1.ends spot = false :=
        Bool.eq_false_iff.2 fun hends => htarget (target?_of_ends hends)
      refine Or.inl (hends.trans (Eq.symm ?_))
      simpa [Bool.and_eq_false_iff] using htarget

/-! ### What keeps the body of a text -/

/-- The body of the text at a spot, writeable or not. -/
def bodyAt? (fs : FileSystem) (spot : Spot) : Option String :=
  match fs.face? spot with
  | some ⟨_, .file (.text body)⟩ => some body
  | _ => none

theorem bodyAt?_eq_some_iff (fs : FileSystem) (spot : Spot) (body : String) :
    fs.bodyAt? spot = some body ↔ ∃ w, fs.face? spot = some ⟨w, .file (.text body)⟩ := by
  unfold bodyAt?
  split <;> simp_all

/-- A writeable text has its body. -/
theorem bodyAt?_of_textAt? {body : String} (h : fs.textAt? spot = some body) :
    fs.bodyAt? spot = some body :=
  (bodyAt?_eq_some_iff _ _ _).2 ⟨true, (face?_eq_ofText_iff fs spot body).2 h⟩

end FileSystem

/-- A new file and a new flag leave the bodies of the texts that are there. -/
theorem TreeChange.Seen.text {c : TreeChange} {names : List String} {old new : Option Face}
    (h : c.Seen names old new) (hc : ∀ there text, c ≠ .setText there text) {w : Bool}
    {body : String} (hold : old = some ⟨w, .file (.text body)⟩) :
    ∃ w, new = some ⟨w, .file (.text body)⟩ := by
  cases h with
  | same => exact ⟨w, hold⟩
  | added => exact absurd hold (by simp)
  | listed => exact absurd hold (by simp)
  | flagged =>
    obtain rfl := Option.some.inj hold
    exact ⟨_, rfl⟩
  | written => exact absurd rfl (hc _ _)

namespace FileSystem

variable {fs : FileSystem} {spot : Spot} {body : String}

/-- Where a volume at most has its tree loaded, or changed otherwise than by another text, texts
keep their bodies. -/
theorem bodyAt?_put (h : fs.bodyAt? spot = some body) {i : Nat} {v : Volume}
    (hv : (fs.volume i).Loads v ∨
      ∃ c, (∀ there text, c ≠ TreeChange.setText there text) ∧ (fs.volume i).Changed c v)
    (o : Outside) : (fs.put i v o).bodyAt? spot = some body := by
  obtain ⟨w, hface⟩ := (bodyAt?_eq_some_iff _ _ _).1 h
  refine (bodyAt?_eq_some_iff _ _ _).2 ?_
  unfold face? nodeAt? at hface ⊢
  rcases fs.volume_put_cases i v o spot.volume with hsame | ⟨rfl, hnew⟩
  · rw [hsame]
    exact ⟨w, hface⟩
  · rw [hnew]
    obtain ⟨node, hnode, -⟩ := Option.map_eq_some_iff.1 hface
    obtain ⟨root, hroot, -⟩ := Option.bind_eq_some_iff.1 hnode
    rcases hv with hloads | ⟨c, hc, own, hown, hallowed, rfl⟩
    · rw [Volume.root_of_loads hloads hroot]
      exact ⟨w, hface⟩
    · obtain rfl : root = own := Option.some.inj (hroot.symm.trans hown)
      rw [hroot] at hface
      exact (TreeChange.seen_apply hallowed spot.segments).text hc hface

theorem bodyAt?_node (h : fs.bodyAt? spot = some body) (path : String) :
    (fs.node path).2.bodyAt? spot = some body := by
  rw [node_snd]
  cases fs.locate path with
  | error e => exact h
  | ok place => exact bodyAt?_put h (Or.inl (Volume.get_loads _ _ _).1) _

/-- Looking a path up keeps the bodies of texts. -/
theorem bodyAt?_get (h : fs.bodyAt? spot = some body) (path : String) :
    (fs.get path).2.bodyAt? spot = some body := by
  rw [get_snd]
  exact bodyAt?_node h path

/-- Looking for a program keeps the bodies of texts. -/
theorem bodyAt?_program? (h : fs.bodyAt? spot = some body) (path : String) :
    (fs.program? path).2.bodyAt? spot = some body := by
  rcases fs.program?_snd path with hsame | hnode
  · rw [hsame]
    exact h
  · rw [hnode]
    exact bodyAt?_node h path

/-- Creating a file keeps the bodies of texts. -/
theorem bodyAt?_create (h : fs.bodyAt? spot = some body) (path : String) :
    (fs.create path).2.bodyAt? spot = some body := by
  rw [create_snd]
  cases fs.locate path with
  | error e => exact h
  | ok place =>
    simp only
    by_cases hro : place.mount.flags.readOnly = true
    · rw [if_pos hro]
      exact h
    · rw [if_neg hro]
      refine bodyAt?_put h ?_ _
      rcases (fs.volume place.mount.volume).create_change place.inner fs.outside with
        hloads | ⟨parent, name, -, -, hchanged⟩
      · exact Or.inl hloads
      · exact Or.inr ⟨_, fun _ _ => TreeChange.noConfusion, hchanged⟩

/-- Setting or clearing a flag keeps the bodies of texts. -/
theorem bodyAt?_chmod (h : fs.bodyAt? spot = some body) (path mode : String) :
    (fs.chmod path mode).2.bodyAt? spot = some body := by
  rw [chmod_snd]
  cases fs.locate path with
  | error e => exact h
  | ok place =>
    simp only
    by_cases hro : place.mount.flags.readOnly = true
    · rw [if_pos hro]
      exact h
    · rw [if_neg hro]
      refine bodyAt?_put h ?_ _
      rcases (fs.volume place.mount.volume).chmod_change place.inner mode fs.outside with
        hsame | ⟨w, -, hchanged⟩
      · exact Or.inl (Or.inl hsame)
      · exact Or.inr ⟨_, fun _ _ => TreeChange.noConfusion, hchanged⟩

end FileSystem

end MountShell
