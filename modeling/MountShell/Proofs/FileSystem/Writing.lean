import MountShell.Proofs.FileSystem.Text
import MountShell.Proofs.Tree.Change
import MountShell.Proofs.Tree.Creation

/-!
# What writing through open files shows

A file that is open for writing takes what is written if it is bound to a writeable text, and tells
why it does not otherwise (`OpenFile.refusal?`).  Either way nothing else in any of the volumes
shows a change.  Several files that are written or closed one after the other change the texts they
take to, each on its own, as long as no two of them are bound to one node (`FileSystem.Written`).

Main statements: `write_of_takesAt`, `close_of_takesAt` and `write_of_refusal`, what one write or
close shows; `Written.cons` and `Written.trans`, what several of them show; and
`forOutput_openFile`, what opening a file for writing gives.
-/

namespace MountShell

/-! ### Texts that files take to -/

/-- A writeable text is shown. -/
def Face.ofText (body : String) : Face :=
  ⟨true, .file (.text body)⟩

namespace FileSystem

/-- What is shown of the node at a spot, if there is one. -/
def face? (fs : FileSystem) (spot : Spot) : Option Face :=
  (fs.nodeAt? spot).map Node.face

/-- Something is shown of every node. -/
theorem isSome_face? (fs : FileSystem) (spot : Spot) :
    (fs.face? spot).isSome = (fs.nodeAt? spot).isSome :=
  Option.isSome_map

/-- A spot looks like a writeable text just when there is one. -/
theorem face?_eq_ofText_iff (fs : FileSystem) (spot : Spot) (body : String) :
    fs.face? spot = some (.ofText body) ↔ fs.textAt? spot = some body := by
  unfold face? textAt? Face.ofText
  cases fs.nodeAt? spot with
  | none => simp
  | some node =>
    cases node with
    | directory w children => simp
    | file w content => cases w <;> cases content <;> simp

end FileSystem

namespace OpenFile

/-- The spot that the file is bound to, unless it failed to open. -/
def spot? (file : OpenFile) : Option Spot :=
  match file.handle.binding with
  | .ok segments => some ⟨file.volume, segments⟩
  | .error _ => none

/-- A file leads to a spot if it has its volume and is bound to its segments. -/
theorem spot?_eq_some_iff (file : OpenFile) (spot : Spot) :
    file.spot? = some spot ↔
      file.volume = spot.volume ∧ file.handle.binding = .ok spot.segments := by
  unfold spot?
  cases file.handle.binding with
  | error e => simp
  | ok segments =>
    rw [Option.some.injEq]
    constructor
    · rintro rfl
      exact ⟨rfl, rfl⟩
    · rintro ⟨hvolume, hsegments⟩
      obtain rfl := Except.ok.inj hsegments
      rw [hvolume]

/-- The file is for writing and bound to a writeable text at a spot. -/
structure TakesAt (file : OpenFile) (fs : FileSystem) (spot : Spot) (body : String) : Prop where
  bound : file.spot? = some spot
  write : file.handle.mode.isWrite = true
  text : fs.face? spot = some (.ofText body)

/-- A file takes data at one spot only. -/
theorem TakesAt.eq_of_spot? {file : OpenFile} {fs : FileSystem} {spot other : Spot} {body : String}
    (h : file.TakesAt fs other body) (hspot : file.spot? = some spot) : other = spot :=
  Option.some.inj (h.bound.symm.trans hspot)

/-- A file that failed to open takes none. -/
theorem not_takesAt_failed (i : Nat) (path : String) (e : FsError) (fs : FileSystem) (spot : Spot)
    (body : String) : ¬ TakesAt ⟨i, .failed path e⟩ fs spot body := by
  intro h
  have hnone : spot? ⟨i, .failed path e⟩ = none := rfl
  exact absurd (hnone.symm.trans h.bound) (by simp)

/-- The tree of the volume that a file takes to. -/
theorem TakesAt.exists_root {file : OpenFile} {fs : FileSystem} {spot : Spot} {body : String}
    (h : file.TakesAt fs spot body) :
    file.volume = spot.volume ∧ file.handle.binding = .ok spot.segments ∧
      spot.volume < fs.volumes.length ∧ ∃ root, (fs.volume spot.volume).root = some root ∧
        root.at? spot.segments = some (.file true (.text body)) := by
  obtain ⟨hvolume, hbinding⟩ := (file.spot?_eq_some_iff spot).1 h.bound
  have htext := (fs.face?_eq_ofText_iff spot body).1 h.text
  exact ⟨hvolume, hbinding, FileSystem.lt_of_textAt? htext,
    (FileSystem.textAt?_eq_some_iff _ _ _).1 htext⟩

end OpenFile

namespace FileSystem

/-- Another text in place of one shows at its spot alone. -/
theorem face?_put_text {fs : FileSystem} {spot : Spot} (hlt : spot.volume < fs.volumes.length)
    {root : Node} {old : String} (hroot : (fs.volume spot.volume).root = some root)
    (hat : root.at? spot.segments = some (.file true (.text old))) {body : String} {v : Volume}
    (hv : v.root = some (root.update (fun _ => .file true (.text body)) spot.segments))
    (o : Outside) (other : Spot) :
    (fs.put spot.volume v o).face? other =
      if other = spot then some (.ofText body) else fs.face? other := by
  unfold face? nodeAt?
  by_cases hvolume : other.volume = spot.volume
  · rw [hvolume, volume_put_self hlt, hv, hroot, Option.bind_some, Option.bind_some]
    by_cases hother : other = spot
    · rw [if_pos hother, hother, Node.at?_update _ hat]
      rfl
    · have hsegments : other.segments ≠ spot.segments := fun hsame =>
        hother ((Spot.mk.injEq _ _ _ _).mpr ⟨hvolume, hsame⟩)
      rw [if_neg hother]
      refine TreeChange.face_at?_of_below hat (fun name rest => ?_) hsegments
      rw [Node.at?_file_cons, Node.at?_file_cons]
  · rw [volume_put_of_ne hvolume, if_neg fun hother => hvolume (by rw [hother])]

variable {fs : FileSystem} {file : OpenFile} {spot : Spot} {body : String}

/-- A text takes what is written, and nothing else shows a change. -/
theorem write_of_takesAt (h : file.TakesAt fs spot body) (hopen : file.handle.closed = false)
    (data : String) :
    (fs.write file data).1 = .ok () ∧ ∀ other, (fs.write file data).2.face? other =
      if other = spot then some (.ofText (FileHandle.writeText file.handle.mode body data))
      else fs.face? other := by
  obtain ⟨hvolume, hbinding, hlt, root, hroot, hat⟩ := h.exists_root
  have hwrite := (FileHandle.write_eq_ok_iff file.handle root _ data).2
    ⟨spot.segments, body, hbinding, hopen, h.write, hat, rfl⟩
  unfold write Volume.write
  rw [hvolume, hroot, Option.getD_some, hwrite]
  exact ⟨rfl, fun other => face?_put_text hlt hroot hat rfl _ other⟩

/-- Closing the file ends the text with a newline, and nothing else shows a change. -/
theorem close_of_takesAt (h : file.TakesAt fs spot body) (hopen : file.handle.closed = false)
    (other : Spot) :
    (fs.close file).2.face? other =
      if other = spot then some (.ofText (body ++ "\n")) else fs.face? other := by
  obtain ⟨hvolume, hbinding, hlt, root, hroot, hat⟩ := h.exists_root
  have hending := (FileHandle.ending?_eq_some_iff file.handle root _).2
    ⟨spot.segments, body, hbinding, h.write, hat, rfl⟩
  rw [close_snd hopen, hvolume, hroot, Option.getD_some, hending]
  exact face?_put_text hlt hroot hat rfl _ other

/-- Closing a file that takes to no text changes nothing. -/
theorem close_of_not_takesAt (hopen : file.handle.closed = false)
    (h : ∀ spot body, ¬ file.TakesAt fs spot body)
    (hnode : ∀ spot, file.spot? = some spot → (fs.nodeAt? spot).isSome = true) :
    (fs.close file).2 = fs := by
  rw [close_snd hopen]
  cases hending : file.handle.ending? ((fs.volume file.volume).root.getD .emptyFile) with
  | none => rfl
  | some after =>
    obtain ⟨segments, body, hbinding, hwrite, hat, -⟩ :=
      (FileHandle.ending?_eq_some_iff _ _ _).1 hending
    have hspot : file.spot? = some ⟨file.volume, segments⟩ :=
      (file.spot?_eq_some_iff _).2 ⟨rfl, hbinding⟩
    refine absurd ⟨hspot, hwrite, (fs.face?_eq_ofText_iff _ body).2 ?_⟩ (h _ body)
    obtain ⟨node, hfound⟩ := Option.isSome_iff_exists.1 (hnode _ hspot)
    obtain ⟨root, hroot, -⟩ := Option.bind_eq_some_iff.1 hfound
    rw [hroot, Option.getD_some] at hat
    exact (textAt?_eq_some_iff _ _ _).2 ⟨root, hroot, hat⟩

end FileSystem

/-! ### Refusals -/

/-- Why what is shown takes nothing that is written through a handle with the given path. -/
def Face.refusal? (path : String) (face : Face) : Option FsError :=
  match face.writeable, face.kind with
  | _, .directory _ => some (.isADirectory path)
  | false, .file _ => some (.permissionDenied (Path.basename path))
  | true, .file (.text _) => none
  | true, .file _ => some (.readOnly path)

/-- Why a file that was opened for writing takes nothing, if it does not. -/
def OpenFile.refusal? (fs : FileSystem) (file : OpenFile) : Option String :=
  match file.handle.binding with
  | .error e => some e.message
  | .ok segments =>
    ((fs.face? ⟨file.volume, segments⟩).bind (Face.refusal? file.handle.path)).map FsError.message

/-- Whether a file refuses data is told by what its node looks like. -/
theorem OpenFile.refusal?_of_face? {fs : FileSystem} {file : OpenFile} {spot : Spot} {face : Face}
    (hspot : file.spot? = some spot) (hface : fs.face? spot = some face) :
    file.refusal? fs = (face.refusal? file.handle.path).map FsError.message := by
  obtain ⟨hvolume, hbinding⟩ := (file.spot?_eq_some_iff spot).1 hspot
  simp only [refusal?, hbinding, hvolume, hface, Option.bind_some]

/-- Only a writeable text takes data. -/
theorem Face.refusal?_eq_none_iff (path : String) (face : Face) :
    face.refusal? path = none ↔ ∃ body, face = .ofText body := by
  obtain ⟨w, kind⟩ := face
  unfold refusal? ofText
  cases kind with
  | directory names => simp
  | file content => cases w <;> cases content <;> simp

namespace FileSystem

/-- What is written to a file that does not take it changes nothing. -/
theorem write_of_refusal {fs : FileSystem} {file : OpenFile} {spot : Spot} {face : Face}
    {e : FsError} (hspot : file.spot? = some spot) (hopen : file.handle.closed = false)
    (hwrite : file.handle.mode.isWrite = true) (hface : fs.face? spot = some face)
    (he : face.refusal? file.handle.path = some e) (data : String) :
    fs.write file data = (.error e, fs) := by
  obtain ⟨hvolume, hbinding⟩ := (file.spot?_eq_some_iff spot).1 hspot
  obtain ⟨node, hnode, rfl⟩ := Option.map_eq_some_iff.1 hface
  obtain ⟨root, hroot, hat⟩ := Option.bind_eq_some_iff.1 hnode
  have hrefused : file.handle.write root data = .error e := by
    unfold FileHandle.write
    simp only [hbinding, hopen, hwrite, hat, Bool.false_eq_true, Bool.not_true, if_false]
    cases node with
    | directory w children => exact congrArg _ (Option.some.inj he)
    | file w content =>
      cases w with
      | false => exact congrArg _ (Option.some.inj he)
      | true =>
        cases content with
        | text body => exact absurd he (by simp [Face.refusal?])
        | program name => exact congrArg _ (Option.some.inj he)
        | remote location => exact congrArg _ (Option.some.inj he)
  unfold write Volume.write
  rw [hvolume, hroot, Option.getD_some, hrefused]
  exact congrArg _ (put_volume fs spot.volume fs.outside)

/-! ### Several files -/

/-- Each text that one of the files takes to becomes what `text` makes of it, for the mode of the
file, and nothing else shows a change. -/
structure Written (files : List OpenFile) (text : OpenMode → String → String)
    (fs after : FileSystem) : Prop where
  taken : ∀ file ∈ files, ∀ spot body, file.TakesAt fs spot body →
    after.face? spot = some (.ofText (text file.handle.mode body))
  kept : ∀ spot, (∀ file ∈ files, ∀ body, ¬ file.TakesAt fs spot body) →
    after.face? spot = fs.face? spot

variable {files : List OpenFile} {fs middle after : FileSystem} {file : OpenFile}
  {text first second : OpenMode → String → String}

/-- A file that takes data before a write takes them after it, to the text that it has made. -/
theorem Written.takesAt (h : Written files text fs after) (hmem : file ∈ files) {spot : Spot}
    {body : String} (htakes : file.TakesAt fs spot body) :
    file.TakesAt after spot (text file.handle.mode body) :=
  ⟨htakes.bound, htakes.write, h.taken file hmem spot body htakes⟩

/-- A file goes on to take to the text it took to, and to no other. -/
theorem Written.takesAt_iff (h : Written files text fs after) (hmem : file ∈ files) (spot : Spot) :
    (∃ body, file.TakesAt after spot body) ↔ ∃ body, file.TakesAt fs spot body := by
  constructor
  · rintro ⟨body, hafter⟩
    by_cases hsome : ∃ other ∈ files, ∃ old, other.TakesAt fs spot old
    · obtain ⟨other, -, old, hother⟩ := hsome
      exact ⟨old, hafter.bound, hafter.write, hother.text⟩
    · have hkept := h.kept spot fun other hmem old hother => hsome ⟨other, hmem, old, hother⟩
      exact ⟨body, hafter.bound, hafter.write, hkept ▸ hafter.text⟩
  · rintro ⟨body, hbefore⟩
    exact ⟨_, h.takesAt hmem hbefore⟩

/-- What is written at first and what is written then. -/
theorem Written.trans (h : Written files first fs middle)
    (hrest : Written files second middle after) :
    Written files (fun mode body => second mode (first mode body)) fs after := by
  refine ⟨fun file hmem spot body htakes => ?_, fun spot hnone => ?_⟩
  · exact hrest.taken file hmem spot _ (h.takesAt hmem htakes)
  · rw [hrest.kept spot fun file hmem body htakes => ?_, h.kept spot hnone]
    obtain ⟨old, hold⟩ := (h.takesAt_iff hmem spot).1 ⟨body, htakes⟩
    exact hnone file hmem old hold

/-- Writing to no files changes nothing. -/
theorem Written.nil (text : OpenMode → String → String) (fs : FileSystem) :
    Written [] text fs fs :=
  ⟨fun _ hmem => absurd hmem List.not_mem_nil, fun _ _ => rfl⟩

/-- What is written to one file and to others, none of which is bound to the same node. -/
theorem Written.cons (h : Written [file] text fs middle) (hrest : Written files text middle after)
    (hne : ∀ other ∈ files, ∀ spot, file.spot? = some spot → other.spot? ≠ some spot) :
    Written (file :: files) text fs after := by
  -- the others take to the same texts before the first is written as after it
  have hsame : ∀ other ∈ files, ∀ spot, other.spot? = some spot →
      middle.face? spot = fs.face? spot := by
    intro other hmem spot hspot
    refine h.kept spot fun one hone body htakes => ?_
    obtain rfl := List.mem_singleton.1 hone
    exact hne other hmem spot htakes.bound hspot
  refine ⟨fun other hmem spot body htakes => ?_, fun spot hnone => ?_⟩
  · rcases List.mem_cons.1 hmem with rfl | hmem
    · have hfirst := h.taken other List.mem_cons_self spot body htakes
      have hkept := hrest.kept spot fun one hone old hold =>
        hne one hone spot htakes.bound hold.bound
      rw [hkept, hfirst]
    · have htext := (hsame other hmem spot htakes.bound).trans htakes.text
      exact hrest.taken other hmem spot body ⟨htakes.bound, htakes.write, htext⟩
  · rw [hrest.kept spot fun other hmem body htakes => ?_,
      h.kept spot fun one hone body htakes => ?_]
    · obtain rfl := List.mem_singleton.1 hone
      exact hnone one List.mem_cons_self body htakes
    · have htext := (hsame other hmem spot htakes.bound).symm.trans htakes.text
      exact hnone other (List.mem_cons_of_mem _ hmem) body ⟨htakes.bound, htakes.write, htext⟩

/-- A file that takes to no text is not written to. -/
theorem Written.of_not_takesAt (h : ∀ spot body, ¬ file.TakesAt fs spot body)
    (text : OpenMode → String → String) : Written [file] text fs fs := by
  refine ⟨fun other hmem spot body htakes => ?_, fun _ _ => rfl⟩
  obtain rfl := List.mem_singleton.1 hmem
  exact absurd htakes (h spot body)

/-- A change that shows at the spot of the file alone. -/
theorem Written.of_takesAt {spot : Spot} {body : String} (h : file.TakesAt fs spot body)
    (hafter : ∀ other, after.face? other =
      if other = spot then some (.ofText (text file.handle.mode body)) else fs.face? other) :
    Written [file] text fs after := by
  refine ⟨fun other hmem there old htakes => ?_, fun there hnone => ?_⟩
  · obtain rfl := List.mem_singleton.1 hmem
    obtain rfl := htakes.eq_of_spot? h.bound
    obtain rfl : body = old := by simpa [Face.ofText] using h.text.symm.trans htakes.text
    rw [hafter, if_pos rfl]
  · have hthere : there ≠ spot := by
      rintro rfl
      exact hnone file List.mem_cons_self body h
    rw [hafter, if_neg hthere]

/-- What has been written shows at texts only, which stay texts. -/
theorem Written.face?_cases (h : Written files text fs after) (spot : Spot) :
    after.face? spot = fs.face? spot ∨
      ∃ old new, fs.face? spot = some (.ofText old) ∧ after.face? spot = some (.ofText new) := by
  by_cases hsome : ∃ file ∈ files, ∃ body, file.TakesAt fs spot body
  · obtain ⟨file, hmem, body, htakes⟩ := hsome
    exact Or.inr ⟨body, _, htakes.text, h.taken file hmem spot body htakes⟩
  · exact Or.inl (h.kept spot fun file hmem body htakes => hsome ⟨file, hmem, body, htakes⟩)

/-- A file goes on to take what is written, or to refuse it for the same reason. -/
theorem Written.refusal?_eq (h : Written files text fs after) (file : OpenFile) :
    file.refusal? after = file.refusal? fs := by
  unfold OpenFile.refusal?
  cases file.handle.binding with
  | error e => rfl
  | ok segments =>
    simp only
    rcases h.face?_cases ⟨file.volume, segments⟩ with hsame | ⟨old, new, hold, hnew⟩
    · rw [hsame]
    · rw [hold, hnew]
      rfl

end FileSystem

/-! ### Files for output -/

/-- A file as opening for output gives it: one that failed to open, or an unclosed one for writing,
bound to a node. -/
inductive OpenFile.ForOutput (fs : FileSystem) : OpenFile → Prop
  | failed (i : Nat) (path : String) (e : FsError) : ForOutput fs ⟨i, .failed path e⟩
  | opened {file : OpenFile} {spot : Spot} : file.spot? = some spot →
      (fs.nodeAt? spot).isSome = true → file.handle.closed = false →
      file.handle.mode.isWrite = true → ForOutput fs file

/-- A file for output stays one as long as no node goes away. -/
theorem OpenFile.ForOutput.of_nodes {file : OpenFile} {fs after : FileSystem}
    (h : file.ForOutput fs)
    (hnodes : ∀ spot, (fs.nodeAt? spot).isSome = true → (after.nodeAt? spot).isSome = true) :
    file.ForOutput after := by
  cases h with
  | failed i path e => exact .failed i path e
  | opened hspot hnode hopen hwrite => exact .opened hspot (hnodes _ hnode) hopen hwrite

namespace FileSystem

variable {files : List OpenFile} {fs after : FileSystem} {text : OpenMode → String → String}

/-- Writing leaves a file for output one. -/
theorem Written.forOutput (h : Written files text fs after) {file : OpenFile}
    (hfile : file.ForOutput fs) : file.ForOutput after := by
  refine hfile.of_nodes fun spot hnode => ?_
  rw [← isSome_face?] at hnode ⊢
  rcases h.face?_cases spot with hsame | ⟨old, new, -, hnew⟩
  · rw [hsame, hnode]
  · rw [hnew, Option.isSome_some]

end FileSystem

/-- A file for output refuses what is written just if it takes to no text. -/
theorem OpenFile.ForOutput.refusal?_eq_none_iff {file : OpenFile} {fs : FileSystem}
    (h : file.ForOutput fs) :
    file.refusal? fs = none ↔ ∃ spot old, file.TakesAt fs spot old := by
  cases h with
  | failed i path e =>
    constructor
    · intro hrefusal
      exact absurd hrefusal (by simp [OpenFile.refusal?, FileHandle.failed])
    · rintro ⟨spot, old, htakes⟩
      exact absurd htakes (OpenFile.not_takesAt_failed i path e fs spot old)
  | @opened _ spot hspot hnode hopen hwrite =>
    rw [← FileSystem.isSome_face?, Option.isSome_iff_exists] at hnode
    obtain ⟨face, hface⟩ := hnode
    rw [OpenFile.refusal?_of_face? hspot hface, Option.map_eq_none_iff,
      Face.refusal?_eq_none_iff]
    constructor
    · rintro ⟨old, rfl⟩
      exact ⟨spot, old, hspot, hwrite, hface⟩
    · rintro ⟨there, old, htakes⟩
      obtain rfl := htakes.eq_of_spot? hspot
      exact ⟨old, Option.some.inj (hface.symm.trans htakes.text)⟩

/-- The files lead to different nodes. -/
def OpenFile.Distinct (files : List OpenFile) : Prop :=
  (files.filterMap OpenFile.spot?).Nodup

/-- The first of different files leads elsewhere than the others. -/
theorem OpenFile.Distinct.cons {file : OpenFile} {files : List OpenFile}
    (h : Distinct (file :: files)) : Distinct files ∧
      ∀ other ∈ files, ∀ spot, file.spot? = some spot → other.spot? ≠ some spot := by
  unfold Distinct at h ⊢
  cases hspot : file.spot? with
  | none =>
    rw [List.filterMap_cons_none hspot] at h
    exact ⟨h, fun other hmem spot hsome => nomatch hsome⟩
  | some own =>
    rw [List.filterMap_cons_some hspot, List.nodup_cons] at h
    refine ⟨h.2, fun other hmem spot hsome hother => h.1 ?_⟩
    obtain rfl := Option.some.inj hsome
    exact List.mem_filterMap.2 ⟨other, hmem, hother⟩

/-! ### Opening for output -/

/-- A file that could be opened is there. -/
theorem Tree.isSome_at?_of_openFile {root : Node} {path : String} {mode : OpenMode}
    {segments : List String} (h : (openFile root path mode).1.binding = .ok segments) :
    (((openFile root path mode).2.getD root).at? segments).isSome = true := by
  unfold openFile at h ⊢
  cases hwalk : walk root path with
  | ok node =>
    rw [hwalk] at h
    obtain rfl : Path.walkSteps path = segments := Except.ok.inj h
    exact Option.isSome_of_eq_some ((walk_eq_ok_iff root node path).1 hwalk)
  | error e =>
    rw [hwalk] at h
    cases e with
    | notFound missing =>
      cases hcreate : create root path .emptyFile with
      | error reason =>
        rw [hcreate] at h
        exact absurd h (by simp [FileHandle.failed])
      | ok created =>
        rw [hcreate] at h
        obtain rfl : Path.walkSteps path = segments := Except.ok.inj h
        exact Option.isSome_of_eq_some ((walk_eq_ok_iff created _ path).1 (adds_create hcreate).1)
    | _ => exact absurd h (by simp [FileHandle.failed])

/-- A handle that a volume has opened is bound to a node of its tree. -/
theorem Volume.isSome_at?_of_openFile {v : Volume} {path : String} {mode : OpenMode} {o : Outside}
    {segments : List String} (h : (v.openFile path mode o).1.binding = .ok segments) :
    ∃ root, (v.openFile path mode o).2.1.root = some root ∧
      (root.at? segments).isSome = true := by
  unfold openFile at h ⊢
  rcases htree : v.tree o with ⟨e | root, w, later⟩
  · rw [htree] at h
    exact absurd h (by simp [FileHandle.failed])
  · have hroot := root_of_tree htree
    rw [htree] at h
    simp only at h ⊢
    by_cases hremote : w.isRemote = true
    · rw [if_pos hremote] at h ⊢
      cases hwalk : Tree.walk root path with
      | error e =>
        rw [hwalk] at h
        exact absurd h (by simp [FileHandle.failed])
      | ok node =>
        rw [hwalk] at h
        obtain rfl : Path.walkSteps path = segments := Except.ok.inj h
        exact ⟨root, hroot, Option.isSome_of_eq_some ((Tree.walk_eq_ok_iff root node path).1 hwalk)⟩
    · rw [if_neg hremote] at h ⊢
      rcases hopen : Tree.openFile root path mode with ⟨handle, none | created⟩
      · rw [hopen] at h
        have hthere := @Tree.isSome_at?_of_openFile root path mode segments (by rw [hopen]; exact h)
        rw [hopen] at hthere
        exact ⟨root, hroot, hthere⟩
      · have hbinding : handle.binding = .ok segments := by
          rw [hopen] at h
          by_cases herror : handle.isError = true <;> simpa [herror] using h
        have hthere := @Tree.isSome_at?_of_openFile root path mode segments
          (by rw [hopen]; exact hbinding)
        rw [hopen] at hthere
        refine ⟨created, ?_, hthere⟩
        by_cases herror : handle.isError = true <;> simp [herror, change]

namespace FileSystem

variable {fs : FileSystem} {path : String} {mode : OpenMode}

/-- A file that could be opened is bound to a node that is there. -/
theorem isSome_nodeAt?_of_openFile (hbelow : ∀ m ∈ fs.mounts, m.volume < fs.volumes.length)
    {spot : Spot} (h : (fs.openFile path mode).1.spot? = some spot) :
    ((fs.openFile path mode).2.nodeAt? spot).isSome = true := by
  obtain ⟨hvolume, hbinding⟩ := (OpenFile.spot?_eq_some_iff _ _).1 h
  unfold openFile at hvolume hbinding ⊢
  cases hlocate : fs.locate path with
  | error e =>
    rw [hlocate] at hbinding
    exact absurd hbinding (by simp [FileHandle.failed])
  | ok place =>
    rw [hlocate] at hvolume hbinding
    simp only at hvolume hbinding ⊢
    by_cases hrefused : (place.mount.flags.readOnly && mode.isWrite) = true
    · rw [if_pos hrefused] at hbinding
      exact absurd hbinding (by simp [FileHandle.failed])
    · rw [if_neg hrefused] at hvolume hbinding ⊢
      obtain ⟨root, hroot, hat⟩ := Volume.isSome_at?_of_openFile hbinding
      have hlt := hbelow _ (mem_of_locate hlocate)
      have hsame : place.mount.volume = spot.volume := hvolume
      unfold nodeAt?
      rw [← hsame, volume_put_self hlt, hroot]
      exact hat

/-- A file that is opened for writing is one for output. -/
theorem forOutput_openFile (hbelow : ∀ m ∈ fs.mounts, m.volume < fs.volumes.length)
    (hmode : mode.isWrite = true) :
    (fs.openFile path mode).1.ForOutput (fs.openFile path mode).2 := by
  have hnode := fun spot => @isSome_nodeAt?_of_openFile fs path mode hbelow spot
  rcases fs.openFile_fst path mode with ⟨place, -, hopened⟩ | ⟨i, reported, e, hfailed⟩
  · rw [hopened] at hnode ⊢
    exact .opened rfl (hnode _ rfl) rfl hmode
  · rw [hfailed]
    exact .failed i reported e

end FileSystem

/-- Opening another file leaves a file for output one. -/
theorem OpenFile.ForOutput.openFile {file : OpenFile} {fs : FileSystem} (h : file.ForOutput fs)
    (path : String) (mode : OpenMode) : file.ForOutput (fs.openFile path mode).2 :=
  h.of_nodes fun _ hnode => FileSystem.nodeAt?_openFile hnode path mode

end MountShell
