import Mathlib.Data.List.Induction
import MountShell.Proofs.Json.Takes
import MountShell.Proofs.Tree.Search
import MountShell.Proofs.Volume.Index
import MountShell.Proofs.Volume.Use

/-!
# When a remote volume asks for something

A remote volume is used for as long as one likes, and the host may answer differently each time
(`RemoteUse`).  Its tree is the one of the first index that a lookup or an open has got and that
could be read (`firstIndex?`); until there is one, each of them asks for the index once and fails,
and from then on neither asks for anything.  Since no file of an index can be written to
(`Index.not_writeable`), the tree stays as it is.  The body of a remote file is asked for when the
file is read, and then once.

Main statements: `VolumeUse.Visited.use`, what every use keeps; and `VolumeUse.disciplined_uses`,
what a remote volume asks for after any history.
-/

namespace MountShell

/-- No file of an index can be written to. -/
theorem Index.not_writeable {location path : String} {value : Json} {names : List String} {w : Bool}
    {content : Content}
    (h : (Index.node location path value).at? names = some (.file w content)) : w = false := by
  obtain ⟨entry, -, hdenotes⟩ := Index.denotes_of_at? h
  cases hdenotes <;> rfl

/-! ### Asking for the index -/

/-- The tree of the index at a location, if that can be had and read. -/
def Outside.index? (o : Outside) (location : String) : Option Node :=
  match o.fetcher.answer o.disk (Volume.indexLocation location) with
  | .ok body => (Index.read location body).toOption
  | .error _ => none

namespace Volume

variable {v : Volume} {location : String}

/-- A remote volume without a tree asks for the index, and has its tree from then on if that can be
read. -/
theorem tree_of_unread (location : String) (o : Outside) :
    ((⟨.index location, none⟩ : Volume).tree o).2 =
        (⟨.index location, o.index? location⟩,
          { o with asked := o.asked ++ [indexLocation location] }) ∧
      (∀ root, o.index? location = some root →
        ((⟨.index location, none⟩ : Volume).tree o).1 = .ok root) ∧
      (o.index? location = none →
        ∃ e, ((⟨.index location, none⟩ : Volume).tree o).1 = .error (.fetch e)) := by
  unfold tree Outside.index?
  simp only [Outside.fetch]
  cases o.fetcher.answer o.disk (indexLocation location) with
  | error e => exact ⟨rfl, fun root h => absurd h (by simp), fun _ => ⟨_, rfl⟩⟩
  | ok body =>
    simp only
    cases Index.read location body with
    | error reason =>
      exact ⟨rfl, fun root h => absurd h (by simp [Except.toOption]), fun _ => ⟨_, rfl⟩⟩
    | ok root =>
      refine ⟨rfl, fun other h => ?_, fun h => absurd h (by simp [Except.toOption])⟩
      rw [Option.some.inj h]

/-- An open fails if the tree cannot be had. -/
theorem openFile_of_error {o : Outside} {e : FsError} (h : (v.tree o).1 = .error e) (path : String)
    (mode : OpenMode) : (v.openFile path mode o).1 = .failed path e := by
  unfold openFile
  rcases htree : v.tree o with ⟨other | root, after⟩
  · rw [htree] at h
    obtain rfl := Except.error.inj h
    rfl
  · rw [htree] at h
    exact absurd h (by simp)

/-- A handle that has not been closed is on a remote file, whose body lies at a place. -/
def Bound (v : Volume) (h : FileHandle) (place : String) : Prop :=
  h.closed = false ∧ ∃ names root w, h.binding = .ok names ∧ v.root = some root ∧
    root.at? names = some (.file w (.remote place))

/-- The file of a handle, if it has one, cannot be written to. -/
def Frozen (v : Volume) (h : FileHandle) : Prop :=
  ∀ names w content, h.binding = .ok names →
    (v.root.getD .emptyFile).at? names = some (.file w content) → w = false

/-- A frozen handle takes no data. -/
theorem Frozen.write {h : FileHandle} (hfrozen : v.Frozen h) (data : String) (o : Outside) :
    ∃ e, v.write h data o = (.error e, v, o) := by
  unfold Volume.write
  cases hwrite : h.write (v.root.getD .emptyFile) data with
  | error e => exact ⟨e, rfl⟩
  | ok after =>
    obtain ⟨names, body, hbinding, -, -, hat, -⟩ := (FileHandle.write_eq_ok_iff _ _ _ _).1 hwrite
    exact absurd (hfrozen names true _ hbinding hat) (by simp)

/-- Closing a frozen handle leaves the volume. -/
theorem Frozen.close {h : FileHandle} (hfrozen : v.Frozen h) (o : Outside) :
    (v.close h o).2 = (v, o) := by
  have hending : h.ending? (v.root.getD .emptyFile) = none := by
    cases hsome : h.ending? (v.root.getD .emptyFile) with
    | none => rfl
    | some after =>
      obtain ⟨names, body, hbinding, -, hat, -⟩ := (FileHandle.ending?_eq_some_iff _ _ _).1 hsome
      exact absurd (hfrozen names true _ hbinding hat) (by simp)
  unfold Volume.close
  rw [FileHandle.close_eq, hending]
  by_cases hclosed : h.closed = true
  · rw [if_pos hclosed]
  · rw [if_neg hclosed]

/-- Reading a remote file asks for its body once. -/
theorem Bound.read {h : FileHandle} {place : String} (hbound : v.Bound h place) (o : Outside) :
    (v.read h o).2 = { o with asked := o.asked ++ [place] } := by
  obtain ⟨hclosed, names, root, w, hbinding, hroot, hat⟩ := hbound
  have hcontent : h.content (v.root.getD .emptyFile) = .ok (.remote place) := by
    rw [hroot, Option.getD_some]
    unfold FileHandle.content
    simp only [hbinding, hclosed, Bool.false_eq_true, if_false, hat]
  unfold Volume.read
  rw [hcontent]
  simp only [Content.read, Outside.fetch]
  cases o.fetcher.answer o.disk place <;> rfl

/-- Nothing else that is read is asked for. -/
theorem read_of_not_bound {h : FileHandle} (hnot : ∀ place, ¬ v.Bound h place)
    (hroot : v.root = none → ∃ e, h.binding = .error e) (o : Outside) : (v.read h o).2 = o := by
  unfold Volume.read
  cases hcontent : h.content (v.root.getD .emptyFile) with
  | error e => rfl
  | ok content =>
    cases content with
    | text body => rfl
    | program name => rfl
    | remote place =>
      obtain ⟨names, w, hbinding, hat⟩ := FileHandle.at?_of_content hcontent
      refine absurd ?_ (hnot place)
      cases hown : v.root with
      | none =>
        obtain ⟨e, he⟩ := hroot hown
        exact absurd (hbinding.symm.trans he) (by simp)
      | some root =>
        rw [hown, Option.getD_some] at hat
        refine ⟨?_, names, root, w, hbinding, hown, hat⟩
        refine Bool.eq_false_iff.2 fun hclosed => ?_
        unfold FileHandle.content at hcontent
        simp [hbinding, hclosed] at hcontent

end Volume

/-! ### Uses -/

/-- A use of a remote volume: an operation, with the fetcher and the disk of the host as they are
then, or a look at the locations that the volume uses. -/
inductive RemoteUse where
  | op (fetcher : Fetcher) (disk : Disk) (op : VolumeOp)
  | list

/-- The tree of the index that a lookup or an open would get. -/
def RemoteUse.index? (location : String) : RemoteUse → Option Node
  | .op fetcher disk (.get _) | .op fetcher disk (.openFile _ _) =>
    Outside.index? { fetcher, disk } location
  | _ => none

/-- The tree of the first index that a lookup or an open has got. -/
def firstIndex? (location : String) (uses : List RemoteUse) : Option Node :=
  uses.findSome? (RemoteUse.index? location)

/-- One more use matters only if no index has been read before. -/
theorem firstIndex?_concat (location : String) (uses : List RemoteUse) (use : RemoteUse) :
    firstIndex? location (uses ++ [use]) =
      (firstIndex? location uses).or (use.index? location) := by
  unfold firstIndex?
  rw [List.findSome?_append]
  cases huse : use.index? location <;> simp [huse]

/-- The tree is that of an index. -/
theorem exists_of_firstIndex? {location : String} {uses : List RemoteUse} {root : Node}
    (h : firstIndex? location uses = some root) :
    ∃ value, root = Index.node location "" value := by
  have houtside : ∀ o : Outside, o.index? location = some root →
      ∃ value, root = Index.node location "" value := by
    intro o ho
    unfold Outside.index? at ho
    cases hanswer : o.fetcher.answer o.disk (Volume.indexLocation location) with
    | error e => exact absurd ho (by simp [hanswer])
    | ok body =>
      rw [hanswer] at ho
      exact Index.exists_of_read (VolumeOp.toOption_eq_some_iff.1 ho)
  obtain ⟨use, -, huse⟩ := List.exists_of_findSome?_eq_some h
  cases use with
  | list => exact absurd huse (by simp [RemoteUse.index?])
  | op fetcher disk op =>
    cases op with
    | get path => exact houtside _ huse
    | openFile path mode => exact houtside _ huse
    | _ => exact absurd huse (by simp [RemoteUse.index?])

namespace VolumeUse

/-- The volume after a use. -/
def use (u : VolumeUse) : RemoteUse → VolumeUse
  | .op fetcher disk op => perform { u with outside := { u.outside with fetcher, disk } } op
  | .list => u

/-- The volume after uses, one after the other. -/
def uses (u : VolumeUse) (uses : List RemoteUse) : VolumeUse :=
  uses.foldl use u

/-- One more use. -/
theorem uses_concat (u : VolumeUse) (before : List RemoteUse) (next : RemoteUse) :
    u.uses (before ++ [next]) = (u.uses before).use next := by
  unfold uses
  rw [List.foldl_append]
  rfl

/-- An open adds its handle to those before. -/
theorem handles_use_openFile (u : VolumeUse) (fetcher : Fetcher) (disk : Disk) (path : String)
    (mode : OpenMode) :
    (u.use (.op fetcher disk (.openFile path mode))).handles =
      u.handles ++ [(u.volume.openFile path mode { u.outside with fetcher, disk }).1] :=
  rfl

variable {u : VolumeUse} {location : String} {before : List RemoteUse}

/-- The volume has the tree of the first index, and until there is one no handle is on a node. -/
structure Visited (location : String) (before : List RemoteUse) (u : VolumeUse) : Prop where
  volume : u.volume = ⟨.index location, firstIndex? location before⟩
  failed : firstIndex? location before = none → ∀ h ∈ u.handles, ∃ e, h.binding = .error e

namespace Visited

/-- All handles on the volume are frozen. -/
theorem frozen (hu : Visited location before u) {h : FileHandle} (hmem : h ∈ u.handles) :
    u.volume.Frozen h := by
  intro names w content hbinding hat
  rw [hu.volume] at hat
  simp only at hat
  cases hroot : firstIndex? location before with
  | none =>
    obtain ⟨e, he⟩ := hu.failed hroot h hmem
    exact absurd (hbinding.symm.trans he) (by simp)
  | some root =>
    rw [hroot, Option.getD_some] at hat
    obtain ⟨value, rfl⟩ := exists_of_firstIndex? hroot
    exact Index.not_writeable hat

/-- The volume is a remote one, whatever has been done. -/
theorem isRemote (hu : Visited location before u) : u.volume.isRemote = true := by
  rw [hu.volume]
  rfl

/-- What becomes of the volume when it is asked for its tree. -/
theorem tree (hu : Visited location before u) (o : Outside) :
    (u.volume.tree o).2 =
      (⟨.index location, (firstIndex? location before).or (o.index? location)⟩,
        if (firstIndex? location before).isSome then o
        else { o with asked := o.asked ++ [Volume.indexLocation location] }) := by
  rw [hu.volume]
  cases hroot : firstIndex? location before with
  | none => exact (Volume.tree_of_unread location o).1
  | some root => rfl

/-- Until there is a tree, whether it can be had is told by the index. -/
theorem unread (hu : Visited location before u) (hnone : firstIndex? location before = none)
    (o : Outside) :
    (∀ root, o.index? location = some root → (u.volume.tree o).1 = .ok root) ∧
      (o.index? location = none → ∃ e, (u.volume.tree o).1 = .error (.fetch e)) := by
  rw [hu.volume, hnone]
  exact (Volume.tree_of_unread location o).2

/-- Nothing can be created there. -/
theorem create (hu : Visited location before u) (path : String) (o : Outside) :
    u.volume.create path o =
      (.error (.permissionDenied (Path.basename path)), u.volume, o) :=
  if_pos hu.isRemote

/-- No flag can be set there. -/
theorem chmod (hu : Visited location before u) (path mode : String) (o : Outside) :
    u.volume.chmod path mode o = (false, u.volume, o) :=
  if_pos hu.isRemote

/-- What every use keeps. -/
theorem use (hu : Visited location before u) (next : RemoteUse) :
    Visited location (before ++ [next]) (u.use next) := by
  -- Only a lookup and an open can bring the tree; every other use leaves the volume as it is, and
  -- what the handles are bound to.
  have hquiet : ∀ {after : VolumeUse}, next.index? location = none →
      after.volume = u.volume →
      (∀ h ∈ after.handles, ∃ old ∈ u.handles, h.binding = old.binding) →
      Visited location (before ++ [next]) after := by
    intro after hnone hvolume hhandles
    refine ⟨?_, fun hfirst h hmem => ?_⟩
    · rw [hvolume, hu.volume, firstIndex?_concat, hnone, Option.or_none]
    · rw [firstIndex?_concat, hnone, Option.or_none] at hfirst
      obtain ⟨old, hold, heq⟩ := hhandles h hmem
      rw [heq]
      exact hu.failed hfirst old hold
  have hsame : ∀ h ∈ u.handles, ∃ old ∈ u.handles, h.binding = old.binding :=
    fun h hmem => ⟨h, hmem, rfl⟩
  cases next with
  | list => exact hquiet rfl rfl hsame
  | op fetcher disk op =>
    let o : Outside := { u.outside with fetcher, disk }
    cases op with
    | get path =>
      refine ⟨?_, fun hfirst h hmem => ?_⟩
      · show (u.volume.get path o).2.1 = _
        rw [Volume.get_snd, hu.tree, firstIndex?_concat]
        rfl
      · rw [firstIndex?_concat, Option.or_eq_none_iff] at hfirst
        exact hu.failed hfirst.1 h hmem
    | openFile path mode =>
      obtain ⟨hsnd, -⟩ := Volume.openFile_of_isRemote hu.isRemote path mode o
      refine ⟨?_, fun hfirst h hmem => ?_⟩
      · show (u.volume.openFile path mode o).2.1 = _
        rw [hsnd, hu.tree, firstIndex?_concat]
        rfl
      · rw [firstIndex?_concat, Option.or_eq_none_iff] at hfirst
        rcases List.mem_append.1 hmem with hold | hnew
        · exact hu.failed hfirst.1 h hold
        · -- there was no tree to open the path in, so the new handle is one that failed
          obtain ⟨e, he⟩ := (hu.unread hfirst.1 o).2 hfirst.2
          rw [List.mem_singleton.1 hnew]
          exact ⟨_, congrArg FileHandle.binding (Volume.openFile_of_error he path mode)⟩
    | create path =>
      refine hquiet rfl ?_ hsame
      show (u.volume.create path o).2.1 = u.volume
      rw [hu.create]
    | chmod path mode =>
      refine hquiet rfl ?_ hsame
      show (u.volume.chmod path mode o).2.1 = u.volume
      rw [hu.chmod]
    | read i =>
      simp only [VolumeUse.use, perform]
      cases u.handles[i]? <;> exact hquiet rfl rfl hsame
    | write i data =>
      simp only [VolumeUse.use, perform]
      cases hi : u.handles[i]? with
      | none => exact hquiet rfl rfl hsame
      | some h =>
        obtain ⟨e, hwrite⟩ := (hu.frozen (List.mem_of_getElem? hi)).write data o
        refine hquiet rfl ?_ hsame
        show (u.volume.write h data o).2.1 = u.volume
        rw [hwrite]
    | close i =>
      simp only [VolumeUse.use, perform]
      cases hi : u.handles[i]? with
      | none => exact hquiet rfl rfl hsame
      | some h =>
        have hmem := List.mem_of_getElem? hi
        have hclose := (hu.frozen hmem).close o
        have hresult := u.volume.close_fst h o
        rcases hafter : u.volume.close h o with ⟨e | closed, volume, outside⟩
        · rw [hafter] at hclose
          obtain ⟨rfl, -⟩ := Prod.mk.inj hclose
          simp only [o] at hafter
          simp only [hafter]
          exact hquiet rfl rfl hsame
        · rw [hafter] at hclose hresult
          obtain ⟨rfl, -⟩ := Prod.mk.inj hclose
          -- closing a handle leaves what it is bound to
          have hbinding : closed.binding = h.binding := by
            by_cases hclosed : h.closed = true
            · simp [hclosed] at hresult
            · rw [if_neg hclosed] at hresult
              rw [Except.ok.inj hresult]
          simp only [o] at hafter
          simp only [hafter]
          refine hquiet rfl rfl fun other hother => ?_
          rcases List.mem_or_eq_of_mem_set hother with hold | rfl
          · exact hsame other hold
          · exact ⟨h, hmem, hbinding⟩

end Visited

/-- A remote volume has been visited by its uses, by induction on them. -/
theorem visited_uses (location : String) (o : Outside) (before : List RemoteUse) :
    Visited (Path.trimSlashes location) before
      (uses { volume := .remote location, outside := o } before) := by
  induction before using List.reverseRecOn with
  | nil => exact ⟨rfl, fun _ h hmem => absurd hmem List.not_mem_nil⟩
  | append_singleton before next ih =>
    rw [uses_concat]
    exact ih.use next

/-- What is asked for by the operations of a remote volume with some history, whatever lies outside
when they are made. -/
structure Disciplined (location : String) (before : List RemoteUse) (u : VolumeUse) : Prop where
  /-- The tree is that of the first index that was got, whatever has been done since. -/
  volume : u.volume = ⟨.index location, firstIndex? location before⟩
  /-- Until there is one, a lookup and an open ask for the index once, and fail unless they get
  it. -/
  unread : firstIndex? location before = none → ∀ (o : Outside) (path : String) (mode : OpenMode),
    (u.volume.get path o).2.2 = { o with asked := o.asked ++ [Volume.indexLocation location] } ∧
      (u.volume.openFile path mode o).2.2 =
        { o with asked := o.asked ++ [Volume.indexLocation location] } ∧
      (∀ root, o.index? location = some root → (u.volume.get path o).1 = Tree.walk root path) ∧
      (o.index? location = none → ∃ e, (u.volume.get path o).1 = .error (.fetch e)) ∧
      (o.index? location = none →
        ∃ e, (u.volume.openFile path mode o).1 = .failed path (.fetch e))
  /-- From then on neither asks for anything. -/
  read : ∀ root, firstIndex? location before = some root →
    ∀ (o : Outside) (path : String) (mode : OpenMode),
      u.volume.get path o = (Tree.walk root path, u.volume, o) ∧
        (u.volume.openFile path mode o).2 = (u.volume, o)
  create : ∀ path o, u.volume.create path o =
    (.error (.permissionDenied (Path.basename path)), u.volume, o)
  chmod : ∀ path mode o, u.volume.chmod path mode o = (false, u.volume, o)
  write : ∀ h ∈ u.handles, ∀ data o, ∃ e, u.volume.write h data o = (.error e, u.volume, o)
  close : ∀ h ∈ u.handles, ∀ o, (u.volume.close h o).2 = (u.volume, o)
  /-- Reading a remote file through a handle that is not closed asks for its body once, which is at
  one of the locations that the volume says it uses. -/
  body : ∀ h ∈ u.handles, ∀ place, u.volume.Bound h place →
    place ∈ u.volume.backingStore ∧
      ∀ o, (u.volume.read h o).2 = { o with asked := o.asked ++ [place] }
  /-- Any other reading asks for nothing. -/
  other : ∀ h ∈ u.handles, (∀ place, ¬ u.volume.Bound h place) → ∀ o, (u.volume.read h o).2 = o

/-- What is asked for by the next use. -/
theorem Visited.disciplined (hu : Visited location before u) :
    Disciplined location before u where
  volume := hu.volume
  unread hnone o path mode := by
    have htree := hu.tree o
    obtain ⟨hok, herror⟩ := hu.unread hnone o
    rw [hnone, Option.isSome_none, if_neg Bool.false_ne_true] at htree
    refine ⟨?_, ?_, fun root hroot => ?_, fun hindex => ?_, fun hindex => ?_⟩
    · rw [Volume.get_snd, htree]
    · rw [(Volume.openFile_of_isRemote hu.isRemote path mode o).1, htree]
    · rw [Volume.get_fst, hok root hroot]
      rfl
    · obtain ⟨e, he⟩ := herror hindex
      exact ⟨e, by rw [Volume.get_fst, he]; rfl⟩
    · obtain ⟨e, he⟩ := herror hindex
      exact ⟨e, Volume.openFile_of_error he path mode⟩
  read root hroot o path mode := by
    have htree : u.volume.tree o = (.ok root, u.volume, o) :=
      Volume.tree_of_root (by rw [hu.volume, hroot]) o
    refine ⟨?_, ?_⟩
    · unfold Volume.get
      rw [htree]
    · rw [(Volume.openFile_of_isRemote hu.isRemote path mode o).1, htree]
  create := hu.create
  chmod := hu.chmod
  write h hmem := (hu.frozen hmem).write
  close h hmem := (hu.frozen hmem).close
  body h hmem place hbound := by
    refine ⟨?_, hbound.read⟩
    obtain ⟨-, names, root, w, -, hroot, hat⟩ := hbound
    have hfirst : firstIndex? location before = some root := by rw [← hroot, hu.volume]
    rw [hu.volume, hfirst]
    exact List.mem_cons_of_mem _ (Node.mem_remoteLocations.2 (Node.mem_remotes_of_at? hat))
  other h hmem hnot o := by
    refine Volume.read_of_not_bound hnot (fun hroot => ?_) o
    rw [hu.volume] at hroot
    exact hu.failed hroot h hmem

/-- A remote volume asks for its index at each lookup and each open until one of them has got one
that can be read; from then on its tree stays as it is, and nothing is asked for but the body of a
remote file each time that it is read.  A body may lie where the index does, if the index says
so. -/
theorem disciplined_uses (location : String) (o : Outside) (before : List RemoteUse) :
    Disciplined (Path.trimSlashes location) before
        (uses { volume := .remote location, outside := o } before) ∧
      ∀ root, firstIndex? (Path.trimSlashes location) before = some root → ∀ later,
        (uses { volume := .remote location, outside := o } (before ++ later)).volume =
          ⟨.index (Path.trimSlashes location), some root⟩ := by
  refine ⟨(visited_uses location o before).disciplined, fun root hroot later => ?_⟩
  rw [(visited_uses location o (before ++ later)).volume]
  unfold firstIndex? at hroot ⊢
  rw [List.findSome?_append, hroot, Option.some_or]

/-- An index with one file, whose body lies elsewhere. -/
def guideIndex : Json :=
  .object [("/", .object [("children", .object [("guide", .object [])])])]

/-- The tree of this index. -/
def guideTree : Node := .dir [("guide", .remote "far/guide")]

/-- The index is looked for in vain, then it is there, and then the file is opened. -/
def guideUses : List RemoteUse :=
  [.op (.bodies []) {} (.get "/guide"),
    .op (.bodies [("far/_index.json", guideIndex.compact)]) {} (.get "/guide"),
    .op (.bodies []) {} (.openFile "/guide" .overwrite)]

/-- After the first lookup the next one asks for the index again, and after all three uses a lookup
asks for nothing, a write changes nothing, and reading the file asks for its body. -/
theorem disciplined_uses_guide :
    (∀ o path, ((uses ⟨.remote "far/", [], {}⟩ (guideUses.take 1)).volume.get path o).2.2 =
      { o with asked := o.asked ++ ["far/_index.json"] }) ∧
    (∀ o path, ((uses ⟨.remote "far/", [], {}⟩ guideUses).volume.get path o).2.2 = o) ∧
    ∃ h ∈ (uses ⟨.remote "far/", [], {}⟩ guideUses).handles,
      (∀ data o, ∃ e, (uses ⟨.remote "far/", [], {}⟩ guideUses).volume.write h data o =
        (.error e, ⟨.index "far", some guideTree⟩, o)) ∧
      ∀ o, ((uses ⟨.remote "far/", [], {}⟩ guideUses).volume.read h o).2 =
        { o with asked := o.asked ++ ["far/guide"] } := by
  have htrim : Path.trimSlashes "far/" = "far" := by decide +kernel
  have hindex : Volume.indexLocation "far" = "far/_index.json" := by decide +kernel
  have hplain : guideIndex.PlainWithin Json.maxDepth := by
    refine .object fun field hfield => ?_
    obtain rfl := List.mem_singleton.1 hfield
    refine .object fun field hfield => ?_
    obtain rfl := List.mem_singleton.1 hfield
    refine .object fun field hfield => ?_
    obtain rfl := List.mem_singleton.1 hfield
    exact .object fun field hfield => absurd hfield List.not_mem_nil
  have hread : Index.read "far" guideIndex.compact = .ok guideTree :=
    Index.read_of_field (Json.read_compact hplain) rfl
  have hserved : Outside.index? { fetcher := .bodies [("far/_index.json", guideIndex.compact)] }
      "far" = some guideTree := by
    have hanswer : Fetcher.answer (.bodies [("far/_index.json", guideIndex.compact)]) {}
        (Volume.indexLocation "far") = .ok guideIndex.compact := rfl
    unfold Outside.index?
    simp only [hanswer, hread]
    rfl
  -- the first use finds no index, the second reads it, and the third has the tree already
  have hnone : firstIndex? "far" (guideUses.take 1) = none := rfl
  have hsecond : firstIndex? "far" (guideUses.take 2) = some guideTree := by
    have hsplit : guideUses.take 2 = guideUses.take 1 ++ [guideUses[1]] := rfl
    rw [hsplit, firstIndex?_concat, hnone, Option.none_or]
    exact hserved
  have hthird : firstIndex? "far" guideUses = some guideTree := by
    have hsplit : guideUses = guideUses.take 2 ++ [guideUses[2]] := rfl
    rw [hsplit, firstIndex?_concat, hsecond, Option.some_or]
  obtain ⟨hone, -⟩ := disciplined_uses "far/" {} (guideUses.take 1)
  obtain ⟨htwo, -⟩ := disciplined_uses "far/" {} (guideUses.take 2)
  obtain ⟨hthree, -⟩ := disciplined_uses "far/" {} guideUses
  rw [htrim] at hone htwo hthree
  have hvolume := hthree.volume
  rw [hthird] at hvolume
  let h : FileHandle := .ofNode ["guide"] "/guide" .overwrite
  have hmem : h ∈ (uses ⟨.remote "far/", [], {}⟩ guideUses).handles := by
    have hsplit : guideUses =
        guideUses.take 2 ++ [.op (.bodies []) {} (.openFile "/guide" .overwrite)] := rfl
    rw [hsplit, uses_concat, handles_use_openFile, htwo.volume, hsecond]
    refine List.mem_append_right _ (List.mem_singleton.2 ?_)
    rfl
  refine ⟨fun o path => ?_, fun o path => ?_, h, hmem, fun data o => ?_, ?_⟩
  · rw [(hone.unread hnone o path .read).1, hindex]
  · rw [(hthree.read guideTree hthird o path .read).1]
  · rw [← hvolume]
    exact hthree.write h hmem data o
  · refine (hthree.body h hmem "far/guide" ⟨rfl, ["guide"], guideTree, false, rfl, ?_, rfl⟩).2
    rw [hvolume]

end VolumeUse

end MountShell
