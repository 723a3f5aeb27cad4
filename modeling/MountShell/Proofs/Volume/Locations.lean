import MountShell.Proofs.Volume.Change
import MountShell.Proofs.Volume.Fetching

/-!
# The locations that a volume uses

A volume with a supplied or a remote tree says which locations it reads by a search of the tree.
Whatever is done to a volume that has its tree, the tree goes on to have the same remote files
(`VolumeUse.exists_run`), so that the locations stay the same.

Main statement: `VolumeUse.backingStore_exact`.
-/

namespace MountShell

/-! ### The trees of indexes -/

namespace Index

theorem sorted_of_none (location path : String) {value : Json} (h : value.children? = none) :
    (node location path value).Sorted := by
  rcases node_of_none location path h with ⟨body, -, hnode⟩ | ⟨-, hnode⟩ <;>
  · rw [hnode]
    exact .file _ _

mutual

/-- The tree of an index has its names in order. -/
theorem sorted_node (location path : String) (value : Json) :
    (node location path value).Sorted := by
  cases value with
  | object fields =>
    rw [node]
    cases hchildren : children? location path fields with
    | none => exact .file _ _
    | some found =>
      cases found with
      | none => exact .file _ _
      | some children => exact .dir (sorted_children? location path fields hchildren) false
  | _ => exact sorted_of_none location path rfl

theorem sorted_children? (location path : String) (fields : List (String × Json))
    {children : List (String × Node)} (h : children? location path fields = some (some children)) :
    ∀ pair ∈ children, pair.2.Sorted := by
  cases fields with
  | nil => exact absurd h (by simp [children?])
  | cons field rest =>
    obtain ⟨name, value⟩ := field
    -- the last of the fields named `children` counts
    cases hlater : children? location path rest with
    | some later =>
      have hlast : later = some children := by cases value <;> simpa [children?, hlater] using h
      exact sorted_children? location path rest (hlast ▸ hlater)
    | none =>
      cases value with
      | object kids =>
        obtain ⟨-, rfl⟩ : name = "children" ∧ nodes location path kids = children := by
          simpa [children?, hlater] using h
        exact sorted_nodes location path kids
      | _ => exact absurd h (by simp [children?, hlater])

theorem sorted_nodes (location path : String) (fields : List (String × Json)) :
    ∀ pair ∈ nodes location path fields, pair.2.Sorted := by
  cases fields with
  | nil => exact fun _ hmem => absurd hmem (by simp [nodes])
  | cons field rest =>
    obtain ⟨name, value⟩ := field
    rw [nodes]
    exact List.forall_mem_cons.2 ⟨sorted_node location _ value, sorted_nodes location path rest⟩

end

end Index

/-! ### Volumes that have their trees -/

namespace VolumeUse

variable {u : VolumeUse} {root : Node}

/-- An operation on a volume that has its tree leaves the volume as it is or changes the tree. -/
theorem perform_change (hroot : u.volume.root = some root) (op : VolumeOp) :
    (u.perform op).volume = u.volume ∨ ∃ c, u.volume.Changed c (u.perform op).volume := by
  -- the tree is there already, so that loading it changes nothing
  have hloaded : ∀ {after : Volume} {path : String},
      u.volume.Loads after ∨ u.volume.Creates path after →
      after = u.volume ∨ ∃ c, u.volume.Changed c after := by
    rintro after path (hloads | ⟨parent, name, -, -, hchanged⟩)
    · exact .inl (Volume.root_of_loads hloads hroot)
    · exact .inr ⟨_, hchanged⟩
  cases op with
  | get path => exact .inl (Volume.root_of_loads (u.volume.get_loads path u.outside).1 hroot)
  | create path => exact hloaded (u.volume.create_change path u.outside)
  | openFile path mode => exact hloaded (u.volume.openFile_change path mode u.outside)
  | chmod path mode =>
    rcases u.volume.chmod_change path mode u.outside with hsame | ⟨w, -, hchanged⟩
    · exact .inl hsame
    · exact .inr ⟨_, hchanged⟩
  | read i =>
    simp only [perform]
    cases u.handles[i]? <;> exact .inl rfl
  | write i data =>
    simp only [perform]
    cases u.handles[i]? with
    | none => exact .inl rfl
    | some h =>
      rcases Volume.write_change hroot h data u.outside with
        hsame | ⟨segments, body, -, -, -, -, hchanged⟩
      · exact .inl hsame
      · exact .inr ⟨_, hchanged⟩
  | close i =>
    simp only [perform]
    cases u.handles[i]? with
    | none => exact .inl rfl
    | some h =>
      have hclose := Volume.close_change hroot h u.outside
      simp only []
      rcases hresult : u.volume.close h u.outside with ⟨e | closed, volume, outside⟩ <;>
      · rw [hresult] at hclose
        rcases hclose with hsame | ⟨segments, body, -, -, -, -, hchanged⟩
        · exact .inl hsame
        · exact .inr ⟨_, hchanged⟩

/-- The volume after operations, one after the other. -/
def run (u : VolumeUse) (ops : List VolumeOp) : VolumeUse :=
  ops.foldl perform u

/-- A volume that has its tree goes on to have one, with the same remote files. -/
theorem exists_run (hroot : u.volume.root = some root) (ops : List VolumeOp) :
    ∃ after, (u.run ops).volume = { u.volume with root := some after } ∧
      after.remotes = root.remotes ∧ (root.Sorted → after.Sorted) := by
  induction ops generalizing u root with
  | nil => exact ⟨root, by rw [← hroot]; rfl, rfl, id⟩
  | cons op ops ih =>
    have hrun : u.run (op :: ops) = (u.perform op).run ops := rfl
    rw [hrun]
    rcases perform_change hroot op with hsame | ⟨c, own, hown, hallowed, hchanged⟩
    · obtain ⟨after, hafter, hrest⟩ := ih (hsame ▸ hroot)
      exact ⟨after, hsame ▸ hafter, hrest⟩
    · obtain rfl : root = own := Option.some.inj (hroot.symm.trans hown)
      have hnew : (u.perform op).volume.root = some (c.apply root) := by rw [hchanged]
      obtain ⟨after, hafter, hremotes, hsorted⟩ := ih hnew
      refine ⟨after, ?_, ?_, fun h => hsorted (TreeChange.sorted_apply h)⟩
      · rw [hafter, hchanged]
      · rw [hremotes, TreeChange.remotes_apply hallowed]

/-- Every tree is searched to its end, and the search lists its remote files (`Node.Surveyed`).  A
volume with a supplied tree uses the locations on this list, which is the same before and after any
operations; and a remote volume that has got its tree uses the index and the locations on the list,
whatever is done to it from then on. -/
theorem backingStore_exact :
    (∀ root : Node, root.Surveyed) ∧
    (∀ (u : VolumeUse) (root : Node), u.volume = .supplied root → ∀ ops,
      ∃ after, (u.run ops).volume = .supplied after ∧ (root.Sorted → after.Sorted) ∧
        (u.run ops).volume.backingStore = after.remoteLocations ∧
        after.remoteLocations = root.remoteLocations) ∧
    ∀ (location : String) (o : Outside) (before : List RemoteUse) (root : Node),
      firstIndex? (Path.trimSlashes location) before = some root →
      root.Sorted ∧ ∀ later,
        let v := (uses { volume := .remote location, outside := o } (before ++ later)).volume
        v = ⟨.index (Path.trimSlashes location), some root⟩ ∧
        v.backingStore =
          Volume.indexLocation (Path.trimSlashes location) :: root.remoteLocations := by
  refine ⟨Node.surveyed, fun u root hvolume ops => ?_, fun location o before root hroot => ?_⟩
  · have hroot : u.volume.root = some root := by rw [hvolume]; rfl
    obtain ⟨after, hafter, hremotes, hsorted⟩ := exists_run hroot ops
    rw [hvolume] at hafter
    refine ⟨after, hafter, hsorted, by rw [hafter]; rfl, ?_⟩
    exact Node.remoteLocations_congr (hremotes ▸ List.Perm.refl _)
  · obtain ⟨value, hvalue⟩ := exists_of_firstIndex? hroot
    refine ⟨hvalue ▸ Index.sorted_node _ _ value, fun later => ?_⟩
    have hvolume := (visited_uses location o (before ++ later)).volume
    unfold firstIndex? at hroot hvolume
    rw [List.findSome?_append, hroot, Option.some_or] at hvolume
    exact ⟨hvolume, by rw [hvolume]; rfl⟩

/-- A tree with two remote files at one location, and a third one beside one of them. -/
def sharedTree : Node :=
  .dir [("a", .remote "x"), ("d", .dir [("b", .remote "x"), ("c", .remote "m")] true)]

/-- A file is created in it, written and closed, and then no more can be created there. -/
def sharedOps : List VolumeOp :=
  [.openFile "/d/e" .append, .write 0 "text", .close 0, .chmod "/d" "-w", .create "/d/f"]

/-- The volume with this tree after these operations. -/
def sharedUse : VolumeUse :=
  run { volume := .supplied sharedTree, outside := {} } sharedOps

/-- An index with two files whose bodies lie at one place: one in a directory, and one that has a
slash in its name. -/
def twinIndex : Json :=
  .object [("/", .object [("children", .object [
    ("a", .object [("children", .object [("b", .object [])])]), ("a/b", .object [])])])]

/-- The tree of this index. -/
def twinTree : Node :=
  .dir [("a", .dir [("b", .remote "far/a/b")]), ("a/b", .remote "far/a/b")]

/-- The index is got by a lookup, and then one of the files is opened and written to in vain. -/
def twinUses : List RemoteUse :=
  [.op (.bodies [("far/_index.json", twinIndex.compact)]) {} (.get "/"),
    .op (.bodies []) {} (.openFile "/a/b" .overwrite), .op (.bodies []) {} (.write 0 "text")]

theorem plainWithin_twinIndex : twinIndex.PlainWithin Json.maxDepth := by
  have hfile : ∀ depth, (Json.object []).PlainWithin (depth + 1) := fun _ =>
    .object fun _ hfield => absurd hfield List.not_mem_nil
  refine .object (List.forall_mem_singleton.2 (.object (List.forall_mem_singleton.2 ?_)))
  refine .object (List.forall_mem_cons.2 ⟨?_, List.forall_mem_singleton.2 (hfile _)⟩)
  exact .object (List.forall_mem_singleton.2 (.object (List.forall_mem_singleton.2 (hfile _))))

theorem firstIndex?_twin : firstIndex? "far" (twinUses.take 1) = some twinTree := by
  have hanswer : Fetcher.answer (.bodies [("far/_index.json", twinIndex.compact)]) {}
      (Volume.indexLocation "far") = .ok twinIndex.compact := rfl
  have hread : Index.read "far" twinIndex.compact = .ok twinTree :=
    Index.read_of_field (Json.read_compact plainWithin_twinIndex) rfl
  have hindex : twinUses[0].index? "far" = some twinTree := by
    show Outside.index? { fetcher := .bodies [("far/_index.json", twinIndex.compact)] } "far" = _
    unfold Outside.index?
    simp only [hanswer, hread]
    rfl
  have hsplit : twinUses.take 1 = [] ++ [twinUses[0]] := rfl
  rw [hsplit, firstIndex?_concat, hindex]
  rfl

/-- A location that two files share is listed twice, for a supplied tree also after another file has
been added, and for a remote one behind the index. -/
theorem backingStore_exact_shared :
    (sharedTree.Sorted ∧ (sharedTree.places.map Prod.fst).Nodup ∧
      sharedTree.remoteLocations = ["m", "x", "x"]) ∧
    (sharedUse.volume.root.bind (Node.at? · ["d", "e"]) = some (.file true (.text "text\n")) ∧
      sharedUse.volume.backingStore = ["m", "x", "x"]) ∧
    firstIndex? "far" (twinUses.take 1) = some twinTree ∧
    (uses ⟨.remote "far/", [], {}⟩ twinUses).volume.backingStore =
      ["far/_index.json", "far/a/b", "far/a/b"] := by
  obtain ⟨hsearch, hsupplied, hremote⟩ := backingStore_exact
  have hsorted : sharedTree.Sorted := by
    refine .dir (List.forall_mem_cons.2 ⟨.file _ _, List.forall_mem_singleton.2 ?_⟩) false
    exact .dir (List.forall_mem_cons.2 ⟨.file _ _, List.forall_mem_singleton.2 (.file _ _)⟩) true
  have hshared : sharedTree.remoteLocations = ["m", "x", "x"] :=
    Node.remoteLocations_eq (by decide) (by decide)
  have htwin : twinTree.remoteLocations = ["far/a/b", "far/a/b"] :=
    Node.remoteLocations_eq (by decide) (by decide)
  have htrim : Path.trimSlashes "far/" = "far" := by decide +kernel
  have hplace : Volume.indexLocation "far" = "far/_index.json" := by decide +kernel
  obtain ⟨after, -, -, hlist, hsame⟩ := hsupplied
    { volume := .supplied sharedTree, outside := {} } sharedTree rfl sharedOps
  obtain ⟨-, hloaded⟩ := hremote "far/" {} (twinUses.take 1) twinTree
    (by rw [htrim, firstIndex?_twin])
  obtain ⟨-, hused⟩ := hloaded (twinUses.drop 1)
  refine ⟨⟨hsorted, ((hsearch sharedTree).places hsorted).1, hshared⟩, ⟨rfl, ?_⟩,
    firstIndex?_twin, ?_⟩
  · rw [sharedUse, hlist, hsame, hshared]
  · rw [htrim, hplace, htwin, List.take_append_drop] at hused
    exact hused

end VolumeUse

end MountShell
