import MountShell.Proofs.FileSystem.Frame

/-!
# How a filesystem grows

Nothing is ever taken away, and nothing becomes something else: what is found at a path stays there,
as a directory, a text, the same program or the same remote file (`Nature`).  So a path never
becomes executable and never stops being so.  What is new is an empty writeable text in a directory
that was writeable, or it belongs to a remote tree whose index has only now been read; and a text
becomes another one only if it is writeable, through a file for writing that is open on it.

Main statements: `FileSystemUse.grows_after`, what one step does (`FileSystemUse.Grows`), and
`FileSystemUse.kept_run`, what stays in every run.
-/

namespace MountShell

/-- What a node is, apart from its flag and from what changes with it: its children or its text. -/
inductive Nature where
  | directory
  | text
  | program (name : String)
  | remote (location : String)
  deriving DecidableEq, Repr

/-- The nature of what is shown. -/
def EntryKind.nature : EntryKind → Nature
  | directory _ => .directory
  | file (.text _) => .text
  | file (.program name) => .program name
  | file (.remote location) => .remote location

/-- The nature of a node. -/
def Node.nature (node : Node) : Nature :=
  node.face.kind.nature

/-- The program that something of the given nature runs. -/
def Nature.program? : Nature → Option String
  | program name => some name
  | _ => none

/-- Which program a node runs is told by its nature. -/
theorem Node.program?_nature (node : Node) : node.nature.program? = node.program? := by
  rcases node with ⟨w, children⟩ | ⟨w, body | name | location⟩ <;> rfl

/-- A node with the face of a new file is one. -/
theorem Node.eq_emptyFile {node : Node} (h : node.face = ⟨true, .file (.text "")⟩) :
    node = .emptyFile := by
  cases node with
  | directory w children => simp at h
  | file w content =>
    simp only [face_file, Face.mk.injEq, EntryKind.file.injEq] at h
    rw [emptyFile, h.1, h.2]

/-- A node that looks like a directory is one. -/
theorem Node.nature_of_face_directory {node : Node} {w : Bool} {names : List String}
    (h : node.face = ⟨w, .directory names⟩) : node.nature = .directory := by
  rw [nature, h]
  rfl

/-- The nodes of an index do not run programs. -/
theorem Volume.Fetches.program?_eq_none {v : Volume} {root node : Node} {names : List String}
    (h : v.Fetches root) (hat : root.at? names = some node) : node.program? = none := by
  obtain ⟨location, body, -, hread⟩ := h
  obtain ⟨value, rfl⟩ := Index.exists_of_read hread
  obtain ⟨entry, -, hdenotes⟩ := Index.denotes_of_at? hat
  cases hdenotes <;> rfl

/-- A tree that comes into being is fetched. -/
theorem Volume.fetches_of_tree {v after : Volume} {o later : Outside} {root : Node}
    (hroot : v.root = none) (h : v.tree o = (.ok root, after, later)) : v.Fetches root := by
  have hloads := (v.tree_loads o).1
  have hafter := root_of_tree h
  rw [h] at hloads
  rcases hloads with rfl | ⟨-, found, hfound, rfl⟩
  · exact absurd (hafter.symm.trans hroot) (by simp)
  · obtain rfl : found = root := Option.some.inj hafter
    exact hfound

namespace FileSystem

variable {fs later : FileSystem} {path : String}

/-- The spot that a path leads to. -/
def spot? (fs : FileSystem) (path : String) : Option Spot :=
  match fs.locate path with
  | .error _ => none
  | .ok place => some ⟨place.mount.volume, place.remaining path⟩

/-- The node at a path, in the trees that are there. -/
def found? (fs : FileSystem) (path : String) : Option Node :=
  (fs.spot? path).bind fs.nodeAt?

/-- A path leads to a spot on the volume that it is located at. -/
theorem spot?_of_locate {place : Place} (h : fs.locate path = .ok place) :
    fs.spot? path = some ⟨place.mount.volume, place.remaining path⟩ := by
  rw [spot?, h]

/-- What is found there is the node of that volume at the segments that remain. -/
theorem found?_of_locate {place : Place} (h : fs.locate path = .ok place) :
    fs.found? path = (fs.volume place.mount.volume).root.bind (·.at? (place.remaining path)) := by
  rw [found?, spot?_of_locate h]
  rfl

/-- Something new that is an empty writeable text, in a directory that is writeable. -/
def IsNewFile (fs : FileSystem) (path : String) (node : Node) : Prop :=
  node = .emptyFile ∧ ∃ above name children,
    Path.segmentsOf path = Path.segmentsOf above ++ [name] ∧
      fs.found? above = some (.directory true children)

/-- Something new that belongs to the tree of an index which has not been read before. -/
def IsFetched (fs : FileSystem) (path : String) (node : Node) : Prop :=
  ∃ spot root, fs.spot? path = some spot ∧ (fs.volume spot.volume).root = none ∧
    (fs.volume spot.volume).Fetches root ∧ root.at? spot.segments = some node

/-- Everything is still there later, and paths run the same programs. -/
structure Kept (fs later : FileSystem) : Prop where
  nodes : ∀ path node, fs.found? path = some node →
    ∃ other, later.found? path = some other ∧ other.nature = node.nature
  programs : ∀ path, (later.program? path).1 = (fs.program? path).1

/-- A filesystem keeps what it has. -/
theorem Kept.refl (fs : FileSystem) : Kept fs fs :=
  ⟨fun _ node h => ⟨node, h, rfl⟩, fun _ => rfl⟩

/-- What is kept twice is kept. -/
theorem Kept.trans {last : FileSystem} (h : Kept fs later) (hlast : Kept later last) :
    Kept fs last := by
  refine ⟨fun path node hnode => ?_, fun path => (hlast.programs path).trans (h.programs path)⟩
  obtain ⟨other, hother, hnature⟩ := h.nodes path node hnode
  obtain ⟨final, hfinal, hsame⟩ := hlast.nodes path other hother
  exact ⟨final, hfinal, hsame.trans hnature⟩

/-- What a path runs is the program of the node there, unless its mount forbids that.  Fetching a
tree makes no difference. -/
theorem program?_fst (fs : FileSystem) (path : String) :
    (fs.program? path).1 =
      match fs.locate path with
      | .error _ => none
      | .ok place =>
        if place.mount.flags.noExec then none else (fs.found? path).bind Node.program? := by
  unfold program?
  cases hlocate : fs.locate path with
  | error e => rfl
  | ok place =>
    simp only
    by_cases hexec : place.mount.flags.noExec = true
    · rw [if_pos hexec, if_pos hexec]
    rw [if_neg hexec, if_neg hexec]
    have hnode : (fs.node path).1 =
        ((fs.volume place.mount.volume).get place.inner fs.outside).1 := by
      unfold node
      rw [hlocate]
    have hget : ((fs.volume place.mount.volume).get place.inner fs.outside).1.toOption.bind
        Node.program? = (fs.found? path).bind Node.program? := by
      rw [found?_of_locate hlocate, Volume.get_fst]
      cases hroot : (fs.volume place.mount.volume).root with
      | some root =>
        have hwalk := toOption_walk root place.inner
        rw [walkSteps_of_locate hlocate] at hwalk
        rw [Volume.tree_of_root hroot, Option.bind_some, ← hwalk]
        rfl
      | none =>
        rw [Option.bind_none, Option.bind_none]
        rcases htree : (fs.volume place.mount.volume).tree fs.outside with ⟨e | root, after, o⟩
        · rfl
        · -- a tree that has just been fetched holds remote files and directories, and none of them
          -- runs anything
          have hfetches := Volume.fetches_of_tree hroot htree
          show (Tree.walk root place.inner).toOption.bind Node.program? = none
          rw [toOption_walk]
          refine Option.bind_eq_none_iff.2 fun node hat => ?_
          exact hfetches.program?_eq_none hat
    rw [← hget, ← hnode]
    rcases fs.node path with ⟨e | node, after⟩ <;> rfl

/-! ### What looking a path up shows -/

/-- What is found is shown. -/
theorem exists_get_of_found? {node : Node} (h : fs.found? path = some node) :
    ∃ entry, (fs.get path).1 = .ok entry ∧ entry.writeable = node.writeable ∧
      entry.kind.nature = node.nature := by
  cases hlocate : fs.locate path with
  | error e => simp [found?, spot?, hlocate] at h
  | ok place =>
    rw [found?_of_locate hlocate] at h
    obtain ⟨root, hroot, hat⟩ := Option.bind_eq_some_iff.1 h
    have hwalk : Tree.walk root place.inner = .ok node := by
      rw [Tree.walk_eq_ok_iff, walkSteps_of_locate hlocate]
      exact hat
    refine ⟨(Entry.ofNode node (Path.resolve path)).addNames
      (fs.pointsBelow (Path.resolve path)), ?_, ?_, ?_⟩
    · rw [get_of_locate hlocate, Volume.get_fst, Volume.tree_of_root hroot]
      show (Tree.walk root place.inner).map _ = _
      rw [hwalk]
      rfl
    · cases node <;> rfl
    · cases node <;> rfl

/-- What has been shown is found from then on. -/
theorem exists_found?_of_get (hbelow : ∀ m ∈ fs.mounts, m.volume < fs.volumes.length)
    {entry : Entry} (h : (fs.get path).1 = .ok entry) :
    ∃ node, (fs.get path).2.found? path = some node ∧ node.nature = entry.kind.nature := by
  cases hlocate : fs.locate path with
  | error e =>
    have herror : (fs.get path).1 = .error e := by
      unfold get node
      rw [hlocate]
    exact absurd (herror.symm.trans h) (by simp)
  | ok place =>
    rw [get_of_locate hlocate] at h
    cases hget : ((fs.volume place.mount.volume).get place.inner fs.outside).1 with
    | error e => exact absurd h (by simp [hget, Except.map])
    | ok node =>
      rw [hget] at h
      obtain rfl := Except.ok.inj h
      obtain ⟨root, hroot, hwalk⟩ := Volume.root_of_get hget
      have hlater : (fs.get path).2.locate path = .ok place := by
        rw [get_snd, node_snd, hlocate]
        exact hlocate
      have hvolume : ((fs.get path).2.volume place.mount.volume).root = some root := by
        rw [get_snd, node_snd, hlocate]
        simp only
        rw [volume_put_self (hbelow _ (mem_of_locate hlocate))]
        exact hroot
      refine ⟨node, ?_, ?_⟩
      · rw [found?_of_locate hlater, hvolume, Option.bind_some, ← walkSteps_of_locate hlocate]
        exact (Tree.walk_eq_ok_iff _ _ _).1 hwalk
      · cases node <;> rfl

end FileSystem

/-- Does an event leave the mounts alone? -/
def FileSystemEvent.keepsMounts : FileSystemEvent → Bool
  | .op _ | .host _ => true
  | .mount _ _ | .remount _ _ => false

namespace FileSystemUse

variable {u : FileSystemUse} {op : FileSystemOp} {spot : Spot}

/-- What holds of every filesystem in use. -/
structure Orderly (u : FileSystemUse) : Prop where
  tabled : FileSystem.Tabled u.fs.mounts
  wellMounted : u.WellMounted
  bound : u.Bound

/-- The filesystem is orderly when it has been mounted. -/
theorem orderly_start (entries : List FstabEntry) (devices : Devices) (o : Outside) :
    (start entries devices o).Orderly :=
  ⟨tabled_start entries devices o, wellMounted_start entries devices o,
    bound_start entries devices o⟩

/-- Every event leaves it orderly. -/
theorem Orderly.after (h : u.Orderly) (event : FileSystemEvent) : (u.after event).Orderly :=
  ⟨tabled_after h.tabled event, h.wellMounted.after event, h.bound.after h.wellMounted event⟩

/-- So does every run. -/
theorem Orderly.run (h : u.Orderly) (events : List FileSystemEvent) : (u.run events).Orderly :=
  ⟨tabled_run h.tabled events, h.wellMounted.run events, h.bound.run h.wellMounted events⟩

/-- It is enough that some of the files are open. -/
theorem Orderly.of_subset (h : u.Orderly) {files : List OpenFile} (hsub : files ⊆ u.files) :
    Orderly { u with files } := by
  refine ⟨h.tabled, ⟨h.wellMounted.below, h.wellMounted.own, h.wellMounted.flags, ?_⟩, ?_⟩
  · exact fun file hfile => h.wellMounted.writers file (hsub hfile)
  · intro file hfile segments hbinding
    have hto := h.bound file (hsub hfile) segments hbinding
    exact ⟨hto.below, hto.rooted, hto.path⟩

/-! ### One step -/

/-- A write or a close through a file that is open for writing on the node at a spot. -/
def WritesTo (u : FileSystemUse) (event : FileSystemEvent) (spot : Spot) : Prop :=
  ∃ i file, u.files[i]? = some file ∧ file.handle.closed = false ∧ file.ends spot = true ∧
    ((∃ data, event = .op (.write i data)) ∨ event = .op (.close i))

/-- How a filesystem grows in one step. -/
structure Grows (u : FileSystemUse) (event : FileSystemEvent) : Prop where
  kept : u.fs.Kept (u.after event).fs
  appears : ∀ path node, u.fs.found? path = none → (u.after event).fs.found? path = some node →
    u.fs.IsNewFile path node ∨ u.fs.IsFetched path node
  texts : ∀ path w w' old new, u.fs.found? path = some (.file w (.text old)) →
    (u.after event).fs.found? path = some (.file w' (.text new)) → new ≠ old →
    w = true ∧ ∃ spot, u.fs.spot? path = some spot ∧ u.WritesTo event spot

/-- What an operation makes of what there is at a spot. -/
inductive Alters (u : FileSystemUse) (op : FileSystemOp) (spot : Spot) (later : Option Node) : Prop
  | keeps : later.map Node.face = (u.fs.nodeAt? spot).map Node.face → Alters u op spot later
  | fetches {root : Node} : (u.fs.volume spot.volume).root = none →
      (u.fs.volume spot.volume).Fetches root → later = root.at? spot.segments →
      Alters u op spot later
  | changes {root : Node} {c : TreeChange} : u.Changes op spot.volume c →
      (u.fs.volume spot.volume).root = some root → c.Allowed root →
      c.Seen spot.segments ((u.fs.nodeAt? spot).map Node.face) (later.map Node.face) →
      Alters u op spot later

/-- What an operation makes of the node at a spot. -/
theorem Performs.alters (h : u.Performs op) (spot : Spot) :
    u.Alters op spot ((u.perform op).fs.nodeAt? spot) := by
  rcases h with hloads | ⟨i, c, -, hchanges, hchanged, hothers⟩
  · rcases hloads spot.volume with hsame | ⟨hnone, root, hfetches, hafter⟩
    · refine .keeps ?_
      rw [FileSystem.nodeAt?, hsame, FileSystem.nodeAt?]
    · refine .fetches hnone hfetches ?_
      rw [FileSystem.nodeAt?, hafter]
      rfl
  · by_cases hi : spot.volume = i
    · subst hi
      obtain ⟨root, hroot, hallowed, hafter⟩ := hchanged
      refine .changes hchanges hroot hallowed ?_
      have hseen := TreeChange.seen_apply hallowed spot.segments
      rw [FileSystem.nodeAt?, FileSystem.nodeAt?, hroot, hafter]
      exact hseen
    · refine .keeps ?_
      rw [FileSystem.nodeAt?, hothers _ hi, FileSystem.nodeAt?]

/-- What there is stays, and is what it was. -/
theorem Alters.nature {later : Option Node} (h : u.Alters op spot later) {node : Node}
    (hnode : u.fs.nodeAt? spot = some node) :
    ∃ other, later = some other ∧ other.nature = node.nature := by
  -- It is enough to know that something is shown, of the same nature.
  have hface : ∀ {face : Face}, later.map Node.face = some face →
      face.kind.nature = node.nature → ∃ other, later = some other ∧
        other.nature = node.nature := by
    intro face hlater hnature
    obtain ⟨other, hother, rfl⟩ := Option.map_eq_some_iff.1 hlater
    exact ⟨other, hother, hnature⟩
  cases h with
  | keeps hkeeps =>
    rw [hnode] at hkeeps
    exact hface hkeeps rfl
  | fetches hnone =>
    rw [FileSystem.nodeAt?, hnone] at hnode
    exact absurd hnode (by simp)
  | changes _ _ _ hseen =>
    rw [hnode, Option.map_some] at hseen
    generalize spot.segments = segments at hseen
    generalize hold : some node.face = old at hseen
    generalize hnew : later.map Node.face = new at hseen
    cases hseen with
    | same => exact hface (hnew.trans hold.symm) rfl
    | added => exact absurd hold (by simp)
    | listed =>
      have hnature := Node.nature_of_face_directory (Option.some.inj hold)
      exact hface hnew hnature.symm
    | @flagged _ w face =>
      obtain rfl := Option.some.inj hold
      exact hface hnew rfl
    | written =>
      refine hface hnew ?_
      rw [Node.nature, Option.some.inj hold]
      rfl

/-- The node that a change adds is an empty file, and its parent is writeable. -/
theorem Alters.appears {later : Option Node} (h : u.Alters op spot later) {node : Node}
    (hnone : u.fs.nodeAt? spot = none) (hlater : later = some node) :
    (node = .emptyFile ∧ ∃ parent name children, spot.segments = parent ++ [name] ∧
        u.fs.nodeAt? ⟨spot.volume, parent⟩ = some (.directory true children)) ∨
      ∃ root, (u.fs.volume spot.volume).root = none ∧ (u.fs.volume spot.volume).Fetches root ∧
        root.at? spot.segments = some node := by
  subst hlater
  cases h with
  | keeps hkeeps => exact absurd hkeeps (by simp [hnone])
  | fetches hroot hfetches hat => exact Or.inr ⟨_, hroot, hfetches, hat.symm⟩
  | @changes root c _ hroot hallowed hseen =>
    refine Or.inl ?_
    rw [hnone, Option.map_none, Option.map_some] at hseen
    generalize hsegments : spot.segments = segments at hseen
    generalize hold : (none : Option Face) = old at hseen
    generalize hnew : some node.face = new at hseen
    cases hseen with
    | same => exact absurd (hold.trans hnew.symm) (by simp)
    | @added parent name =>
      obtain ⟨children, hparent, -⟩ := hallowed
      refine ⟨Node.eq_emptyFile (Option.some.inj hnew), parent, name, children, rfl, ?_⟩
      rw [FileSystem.nodeAt?, hroot]
      exact hparent
    | listed => exact absurd hold (by simp)
    | flagged => exact absurd hold (by simp)
    | written => exact absurd hold (by simp)

/-- A text is replaced through a file that is open for writing on it. -/
theorem Changes.writesTo {i : Nat} {names : List String} {text : String}
    (h : u.Changes op i (.setText names text)) : u.WritesTo (.op op) ⟨i, names⟩ := by
  cases h with
  | @write k data _ file _ hfile hbinding hclosed hmode _ =>
    have hends := (file.ends_iff ⟨file.volume, names⟩).2 ⟨hmode, rfl, hbinding⟩
    exact ⟨k, file, hfile, hclosed, hends, Or.inl ⟨data, rfl⟩⟩
  | @close k _ file _ hfile hbinding hclosed hmode _ =>
    have hends := (file.ends_iff ⟨file.volume, names⟩).2 ⟨hmode, rfl, hbinding⟩
    exact ⟨k, file, hfile, hclosed, hends, Or.inr rfl⟩

/-- Another text stands only where a writeable text has been written to. -/
theorem Alters.texts {w w' : Bool} {old new : String}
    (h : u.Alters op spot (some (.file w' (.text new))))
    (hnode : u.fs.nodeAt? spot = some (.file w (.text old))) (hne : new ≠ old) :
    w = true ∧ u.WritesTo (.op op) spot := by
  -- the two faces differ in their texts, whatever their flags
  have hdiffers : ∀ {flag flag' : Bool},
      (some ⟨flag, .file (.text new)⟩ : Option Face) ≠ some ⟨flag', .file (.text old)⟩ := by
    intro flag flag' heq
    exact hne (by simpa using congrArg (Option.map Face.kind) heq)
  cases h with
  | keeps hkeeps =>
    rw [hnode] at hkeeps
    exact absurd hkeeps hdiffers
  | fetches hroot =>
    rw [FileSystem.nodeAt?, hroot] at hnode
    exact absurd hnode (by simp)
  | @changes root c hchanges _ _ hseen =>
    rw [hnode, Option.map_some, Option.map_some, Node.face_file, Node.face_file] at hseen
    generalize hsegments : spot.segments = segments at hseen
    generalize hbefore : (some ⟨w, .file (.text old)⟩ : Option Face) = before at hseen
    generalize hafter : (some ⟨w', .file (.text new)⟩ : Option Face) = after at hseen
    cases hseen with
    | same => exact absurd (hafter.trans hbefore.symm) hdiffers
    | added => exact absurd hbefore (by simp)
    | listed => exact absurd hbefore (by simp)
    | @flagged _ flag face =>
      obtain rfl := Option.some.inj hbefore
      exact absurd hafter hdiffers
    | written =>
      have hflag : w = true := congrArg Face.writeable (Option.some.inj hbefore)
      have hwrites := hchanges.writesTo
      rw [← hsegments] at hwrites
      exact ⟨hflag, hwrites⟩

/-- An operation leaves the spots that paths lead to. -/
theorem spot?_perform (u : FileSystemUse) (op : FileSystemOp) (path : String) :
    (u.perform op).fs.spot? path = u.fs.spot? path := by
  rw [FileSystem.spot?, locate_perform, FileSystem.spot?]

/-- Operations do not change where a path leads, so that the node at its spot is what is found. -/
theorem found?_perform {path : String} (h : u.fs.spot? path = some spot) :
    (u.perform op).fs.found? path = (u.perform op).fs.nodeAt? spot := by
  rw [FileSystem.found?, spot?_perform, h, Option.bind_some]

/-- A node that is found is found after every operation, and it is of the same nature. -/
theorem nodes_perform (h : u.Performs op) {path : String} {node : Node}
    (hnode : u.fs.found? path = some node) :
    ∃ other, (u.perform op).fs.found? path = some other ∧ other.nature = node.nature := by
  obtain ⟨spot, hspot, hat⟩ := Option.bind_eq_some_iff.1 hnode
  rw [found?_perform hspot]
  exact (h.alters spot).nature hat

/-- What is found newly after an operation is an empty file, or it has been fetched. -/
theorem appears_perform (horderly : u.Orderly) {path : String} {node : Node}
    (hnone : u.fs.found? path = none) (hnode : (u.perform op).fs.found? path = some node) :
    u.fs.IsNewFile path node ∨ u.fs.IsFetched path node := by
  have hperforms := perform_cases horderly.wellMounted horderly.bound op
  obtain ⟨place, hlocate, -⟩ := horderly.tabled.routes path
  have hspot := FileSystem.spot?_of_locate hlocate
  rw [found?_perform hspot] at hnode
  rw [FileSystem.found?, hspot, Option.bind_some] at hnone
  rcases (hperforms.alters _).appears hnone hnode with
    ⟨rfl, parent, name, children, hsegments, hparent⟩ | ⟨root, hroot, hfetches, hat⟩
  · -- The path of the parent leads to the parent.
    have hpath := FileSystem.segmentsOf_of_locate hlocate
    rw [show place.remaining path = parent ++ [name] from hsegments, ← List.append_assoc] at hpath
    have hall : ∀ s ∈ place.mount.point ++ parent, Path.IsSegment s := fun s hs =>
      Path.isSegment_of_mem_segmentsOf (hpath ▸ List.mem_append_left [name] hs)
    have habove := Path.segmentsOf_ofSegments hall
    obtain ⟨own, hown, hmount, hremaining⟩ :=
      horderly.tabled.locate_above hlocate hsegments habove
    refine Or.inl ⟨rfl, Path.ofSegments (place.mount.point ++ parent), name, children, ?_, ?_⟩
    · rw [habove]
      exact hpath
    · rw [FileSystem.found?_of_locate hown, hmount, hremaining]
      exact hparent
  · exact Or.inr ⟨_, root, hspot, hroot, hfetches, hat⟩

/-- What paths run stays the same when what is found stays what it is and nothing that is new runs
programs. -/
theorem programs_perform (horderly : u.Orderly) (op : FileSystemOp) (path : String) :
    ((u.perform op).fs.program? path).1 = (u.fs.program? path).1 := by
  have hperforms := perform_cases horderly.wellMounted horderly.bound op
  have hprogram : ((u.perform op).fs.found? path).bind Node.program? =
      (u.fs.found? path).bind Node.program? := by
    cases hbefore : u.fs.found? path with
    | some node =>
      obtain ⟨other, hother, hnature⟩ := nodes_perform hperforms hbefore
      rw [hother, Option.bind_some, Option.bind_some, ← Node.program?_nature, hnature,
        Node.program?_nature]
    | none =>
      refine Option.bind_eq_none_iff.2 fun node hnode => ?_
      rcases appears_perform horderly hbefore hnode with ⟨rfl, -⟩ | ⟨_, _, -, -, hfetches, hat⟩
      · rfl
      · exact hfetches.program?_eq_none hat
  rw [FileSystem.program?_fst, FileSystem.program?_fst, locate_perform, hprogram]

/-- An operation lets a filesystem grow. -/
theorem grows_perform (h : u.Orderly) (op : FileSystemOp) : u.Grows (.op op) := by
  have hperforms := perform_cases h.wellMounted h.bound op
  refine ⟨⟨fun path node hnode => nodes_perform hperforms hnode, programs_perform h op⟩,
    fun path node hnone hnode => appears_perform h hnone hnode, ?_⟩
  intro path w w' old new hold hnew hne
  obtain ⟨spot, hspot, hat⟩ := Option.bind_eq_some_iff.1 hold
  have hlater : (u.perform op).fs.nodeAt? spot = some (.file w' (.text new)) := by
    rw [← found?_perform hspot]
    exact hnew
  have halters := hperforms.alters spot
  rw [hlater] at halters
  obtain ⟨hflag, hwrites⟩ := halters.texts hat hne
  exact ⟨hflag, spot, hspot, hwrites⟩

/-- What happens outside changes nothing that is there. -/
theorem grows_host (u : FileSystemUse) (o : Outside) : u.Grows (.host o) := by
  have hfound : ∀ path, (u.after (.host o)).fs.found? path = u.fs.found? path := fun _ => rfl
  refine ⟨⟨fun path node hnode => ⟨node, hnode, rfl⟩, fun path => ?_⟩, ?_, ?_⟩
  · rw [FileSystem.program?_fst, FileSystem.program?_fst, hfound]
    rfl
  · intro path node hnone hnode
    rw [hfound, hnone] at hnode
    exact absurd hnode (by simp)
  · intro path w w' old new hold hnew hne
    rw [hfound, hold] at hnew
    obtain ⟨-, rfl⟩ : w = w' ∧ old = new := by simpa using hnew
    exact absurd rfl hne

/-! ### Every run -/

/-- Every event that keeps the mounts lets the tree grow. -/
theorem grows_after (h : u.Orderly) {event : FileSystemEvent} (hevent : event.keepsMounts = true) :
    u.Grows event := by
  cases event with
  | op op => exact grows_perform h op
  | host o => exact grows_host u o
  | mount entry v => exact absurd hevent (by simp [FileSystemEvent.keepsMounts])
  | remount entries devices => exact absurd hevent (by simp [FileSystemEvent.keepsMounts])

/-- As long as the mounts stay nothing is taken away. -/
theorem kept_run (h : u.Orderly) {events : List FileSystemEvent}
    (hevents : ∀ event ∈ events, event.keepsMounts = true) : u.fs.Kept (u.run events).fs := by
  induction events generalizing u with
  | nil => exact .refl _
  | cons event rest ih =>
    obtain ⟨hevent, hrest⟩ := List.forall_mem_cons.1 hevents
    exact (grows_after h hevent).kept.trans (ih (h.after event) hrest)

end FileSystemUse

end MountShell
