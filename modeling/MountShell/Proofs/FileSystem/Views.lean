import MountShell.Proofs.FileSystem.Growth

/-!
# Looking changes nothing that is seen

A lookup may fetch the tree of a remote volume, which is there from then on, and asks outside for
it.  Nothing else becomes of a filesystem that is looked at (`FileSystem.Viewed`), and whoever looks
again sees the same, since an index that is asked for again answers the same.

Main statements: `viewed_get` and `viewed_program?`, what a lookup leaves; `Viewed.get_fst` and
`Viewed.program?_fst`, what later lookups find; and `mem_children_of_program?`, a program below a
directory is listed there.
-/

namespace MountShell

/-- Outside nothing is different but what has been asked for. -/
def Outside.Like (o later : Outside) : Prop :=
  ∃ asked, later = { o with asked }

/-- Nothing outside differs from itself. -/
theorem Outside.Like.refl (o : Outside) : o.Like o :=
  ⟨o.asked, rfl⟩

/-- More may be asked for. -/
theorem Outside.Like.trans {o later last : Outside} (h : o.Like later) (hlast : later.Like last) :
    o.Like last := by
  obtain ⟨asked, rfl⟩ := h
  obtain ⟨more, rfl⟩ := hlast
  exact ⟨more, rfl⟩

namespace Volume

/-- The volume with its tree, if that can be had. -/
def fetched (v : Volume) (o : Outside) : Volume :=
  (v.tree o).2.1

/-- Giving its tree, a volume changes nothing outside but what has been asked for. -/
theorem like_tree (v : Volume) (o : Outside) : o.Like (v.tree o).2.2 := by
  unfold tree
  cases v.root with
  | some root => exact .refl o
  | none =>
    cases v.backing with
    | index location =>
      simp only [Outside.fetch]
      cases o.fetcher.answer o.disk (indexLocation location) with
      | error e => exact ⟨_, rfl⟩
      | ok body =>
        simp only
        cases Index.read location body <;> exact ⟨_, rfl⟩
    | _ => exact .refl o

/-- What has been asked for before makes no difference to the tree of a volume. -/
theorem tree_like {o later : Outside} (h : o.Like later) (v : Volume) :
    (v.tree later).1 = (v.tree o).1 ∧ v.fetched later = v.fetched o := by
  obtain ⟨asked, rfl⟩ := h
  unfold fetched tree
  cases v.root with
  | some root => exact ⟨rfl, rfl⟩
  | none =>
    cases v.backing with
    | index location =>
      simp only [Outside.fetch]
      cases o.fetcher.answer o.disk (indexLocation location) with
      | error e => exact ⟨rfl, rfl⟩
      | ok body =>
        simp only
        cases Index.read location body <;> exact ⟨rfl, rfl⟩
    | _ => exact ⟨rfl, rfl⟩

/-- A volume gives its tree, which is there from then on, or is left alone. -/
theorem tree_cases (v : Volume) (o : Outside) :
    (∃ root, (v.tree o).1 = .ok root ∧ v.fetched o = { v with root := some root }) ∨
      ∃ e, (v.tree o).1 = .error e ∧ v.fetched o = v := by
  obtain ⟨backing, root⟩ := v
  cases root with
  | some root => exact .inl ⟨root, rfl, rfl⟩
  | none =>
    cases backing with
    | index location =>
      simp only [fetched, tree]
      rcases o.fetch (indexLocation location) with ⟨e | body, later⟩
      · exact .inr ⟨_, rfl, rfl⟩
      · simp only
        cases Index.read location body with
        | error reason => exact .inr ⟨_, rfl, rfl⟩
        | ok root => exact .inl ⟨root, rfl, rfl⟩
    | _ => exact .inr ⟨_, rfl, rfl⟩

/-- A volume that is asked for its tree again gives the same answer. -/
theorem tree_fetched (v : Volume) (o : Outside) :
    ((v.fetched o).tree o).1 = (v.tree o).1 ∧ (v.fetched o).fetched o = v.fetched o := by
  rcases v.tree_cases o with ⟨root, hok, hfetched⟩ | ⟨e, -, hsame⟩
  · have hroot : (v.fetched o).root = some root := by rw [hfetched]
    have hagain := tree_of_root hroot o
    exact ⟨by rw [hagain, hok], congrArg (·.2.1) hagain⟩
  · rw [hsame]
    exact ⟨rfl, hsame⟩

end Volume

namespace FileSystem

/-- The filesystem after it has been looked at. -/
structure Viewed (fs after : FileSystem) : Prop where
  /-- The mounts and the number of volumes are the same. -/
  shape : after.shape = fs.shape
  /-- A volume is the same, or has its tree now. -/
  volume : ∀ i, after.volume i = fs.volume i ∨ after.volume i = (fs.volume i).fetched fs.outside
  outside : fs.outside.Like after.outside

variable {fs after : FileSystem} {path name : String}

/-- A filesystem may be looked at no time at all. -/
theorem Viewed.refl (fs : FileSystem) : fs.Viewed fs :=
  ⟨rfl, fun _ => .inl rfl, .refl fs.outside⟩

/-- The volumes give the same trees as before. -/
theorem Viewed.tree (h : fs.Viewed after) (i : Nat) :
    ((after.volume i).tree after.outside).1 = ((fs.volume i).tree fs.outside).1 ∧
      (after.volume i).fetched after.outside = (fs.volume i).fetched fs.outside := by
  obtain ⟨htree, hfetched⟩ := Volume.tree_like h.outside (after.volume i)
  rw [htree, hfetched]
  rcases h.volume i with hsame | hloaded
  · rw [hsame]
    exact ⟨rfl, rfl⟩
  · rw [hloaded]
    exact (fs.volume i).tree_fetched fs.outside

/-- It may be looked at again. -/
theorem Viewed.trans {last : FileSystem} (h : fs.Viewed after) (hlast : after.Viewed last) :
    fs.Viewed last := by
  refine ⟨hlast.shape.trans h.shape, fun i => ?_, h.outside.trans hlast.outside⟩
  rcases hlast.volume i with hsame | hloaded
  · rw [hsame]
    exact h.volume i
  · rw [hloaded, (h.tree i).2]
    exact .inr rfl

/-- Trees that are there stay as they are. -/
theorem Viewed.root (h : fs.Viewed after) {i : Nat} {root : Node}
    (hroot : (fs.volume i).root = some root) : (after.volume i).root = some root := by
  rcases h.volume i with hsame | hloaded
  · rw [hsame, hroot]
  · rw [hloaded, Volume.fetched, Volume.tree_of_root hroot, hroot]

/-- Nodes that are there stay as they are. -/
theorem Viewed.nodeAt? (h : fs.Viewed after) {spot : Spot} {node : Node}
    (hnode : fs.nodeAt? spot = some node) : after.nodeAt? spot = some node := by
  obtain ⟨root, hroot, hat⟩ := Option.bind_eq_some_iff.1 hnode
  exact Option.bind_eq_some_iff.2 ⟨root, h.root hroot, hat⟩

/-! ### What a lookup leaves -/

/-- Looking for a node leaves a filesystem that has been looked at. -/
theorem viewed_node (fs : FileSystem) (path : String) : fs.Viewed (fs.node path).2 := by
  refine ⟨shape_node fs path, fun i => ?_, ?_⟩
  · rw [node_snd]
    cases fs.locate path with
    | error e => exact .inl rfl
    | ok place =>
      simp only [Volume.get_snd]
      rcases fs.volume_put_cases place.mount.volume _ _ i with hsame | ⟨rfl, hnew⟩
      · exact .inl hsame
      · exact .inr hnew
  · rw [node_snd]
    cases fs.locate path with
    | error e => exact .refl fs.outside
    | ok place =>
      simp only [Volume.get_snd]
      exact Volume.like_tree _ fs.outside

/-- So does looking for an entry. -/
theorem viewed_get (fs : FileSystem) (path : String) : fs.Viewed (fs.get path).2 := by
  rw [get_snd]
  exact viewed_node fs path

/-- So does looking for a program. -/
theorem viewed_program? (fs : FileSystem) (path : String) : fs.Viewed (fs.program? path).2 := by
  rcases fs.program?_snd path with hsame | hnode
  · rw [hsame]
    exact .refl fs
  · rw [hnode]
    exact viewed_node fs path

/-! ### What later lookups find -/

/-- Where a path leads is told by its segments and by the mounts. -/
theorem locate_congr {other : String} (hmounts : after.mounts = fs.mounts)
    (hpath : Path.segmentsOf other = Path.segmentsOf path) :
    after.locate other = fs.locate path := by
  unfold locate Path.resolve
  rw [hmounts, hpath]

/-- A node is what the tree of the volume has at the path inside. -/
theorem node_fst (fs : FileSystem) (path : String) :
    (fs.node path).1 = (fs.locate path).bind fun place =>
      ((fs.volume place.mount.volume).tree fs.outside).1.bind (Tree.walk · place.inner) := by
  unfold node
  cases fs.locate path with
  | error e => rfl
  | ok place => exact Volume.get_fst _ _ _

/-- Whoever looks again finds the same node. -/
theorem Viewed.node_fst (h : fs.Viewed after) (path : String) :
    (after.node path).1 = (fs.node path).1 := by
  rw [FileSystem.node_fst, FileSystem.node_fst,
    locate_congr (congrArg Prod.fst h.shape) (rfl : Path.segmentsOf path = _)]
  simp only [(h.tree _).1]

/-- What a path shows is its node, with the mount points right below it. -/
theorem get_fst (fs : FileSystem) (path : String) :
    (fs.get path).1 = (fs.node path).1.map fun node =>
      (Entry.ofNode node (Path.resolve path)).addNames
        (fs.pointsBelow (Path.resolve path)) := by
  have hmounts : (fs.node path).2.mounts = fs.mounts := congrArg Prod.fst (shape_node fs path)
  unfold get
  rcases hnode : fs.node path with ⟨e | node, after⟩
  · rfl
  · have hmounts : after.mounts = fs.mounts := by rw [← hmounts, hnode]
    simp only [pointsBelow, hmounts]
    rfl

/-- Whoever looks again is shown the same entry. -/
theorem Viewed.get_fst (h : fs.Viewed after) (path : String) :
    (after.get path).1 = (fs.get path).1 := by
  have hmounts : after.mounts = fs.mounts := congrArg Prod.fst h.shape
  rw [FileSystem.get_fst, FileSystem.get_fst, h.node_fst]
  simp only [pointsBelow, hmounts]

/-- A path runs a program just when its mount allows that and the node there is that program. -/
theorem program?_eq_some_iff {program : String} :
    (fs.program? path).1 = some program ↔
      ∃ place node, fs.locate path = .ok place ∧ place.mount.flags.noExec = false ∧
        (fs.node path).1 = .ok node ∧ node.program? = some program := by
  unfold program?
  cases fs.locate path with
  | error e => simp
  | ok place =>
    by_cases hexec : place.mount.flags.noExec = true
    · simp [hexec]
    · rcases fs.node path with ⟨e | node, after⟩ <;> simp [hexec]

/-- What a path runs is told by its segments. -/
theorem program?_congr {other : String} (h : Path.segmentsOf other = Path.segmentsOf path) :
    (fs.program? other).1 = (fs.program? path).1 := by
  refine Option.ext fun program => ?_
  rw [program?_eq_some_iff, program?_eq_some_iff, node_fst, node_fst, locate_congr rfl h]

/-- Whoever looks again finds the same program. -/
theorem Viewed.program?_fst (h : fs.Viewed after) (path : String) :
    (after.program? path).1 = (fs.program? path).1 := by
  refine Option.ext fun program => ?_
  rw [program?_eq_some_iff, program?_eq_some_iff, h.node_fst,
    locate_congr (congrArg Prod.fst h.shape) (rfl : Path.segmentsOf path = _)]

/-! ### Programs below a directory -/

/-- Where nothing is mounted at a child, its path leads to the mount of the parent. -/
theorem longest_concat {segments : List String} {mounts : List Mount}
    (hnone : ∀ m ∈ mounts, m.point ≠ segments ++ [name]) :
    Mount.longest (segments ++ [name]) mounts = Mount.longest segments mounts := by
  induction mounts with
  | nil => rfl
  | cons first rest ih =>
    obtain ⟨hfirst, hrest⟩ := List.forall_mem_cons.1 hnone
    have hbegins : first.point.isPrefixOf (segments ++ [name]) =
        first.point.isPrefixOf segments := by
      rw [Bool.eq_iff_iff, List.isPrefixOf_iff_prefix, List.isPrefixOf_iff_prefix,
        List.prefix_concat_iff, or_iff_right hfirst]
    rw [Mount.longest, Mount.longest, ih hrest, hbegins]

/-- A program below a directory is listed there. -/
theorem mem_children_of_program? {entry : Entry} {program : String}
    (hget : (fs.get path).1 = .ok entry) (hdirectory : entry.isDirectory = true)
    (hname : Path.IsSegment name)
    (hprogram : (fs.program? (path ++ "/" ++ name)).1 = some program) :
    name ∈ entry.children := by
  obtain ⟨below, found, hbelow, -, hfound, -⟩ := program?_eq_some_iff.1 hprogram
  rw [get_fst] at hget
  cases hnode : (fs.node path).1 with
  | error e =>
    rw [hnode] at hget
    exact absurd hget (by simp [Except.map])
  | ok node =>
    rw [hnode] at hget
    obtain rfl := Except.ok.inj hget
    cases node with
    | file w content => exact absurd hdirectory Bool.false_ne_true
    | directory w children =>
      rw [mem_children_addNames, mem_pointsBelow]
      by_cases hpoint : ∃ m ∈ fs.mounts, m.point = Path.segmentsOf path ++ [name]
      · exact .inr hpoint
      -- nothing is mounted at the child, so that both paths lead into one tree
      have hjoin := Path.segmentsOf_join path hname
      rw [node_fst] at hnode hfound
      cases hlocate : fs.locate path with
      | error e =>
        rw [hlocate] at hnode
        exact absurd hnode (by simp [Except.bind])
      | ok place =>
        obtain ⟨m, hlongest, rfl⟩ := locate_eq_ok_iff.1 hlocate
        obtain ⟨other, hother, rfl⟩ := locate_eq_ok_iff.1 hbelow
        rw [hjoin, longest_concat fun m hm heq => hpoint ⟨m, hm, heq⟩] at hother
        obtain rfl : m = other := Option.some.inj (hlongest.symm.trans hother)
        have hlength := (isLongest_of_locate hlocate).2.1.length_le
        rw [hlocate] at hnode
        rw [hbelow] at hfound
        simp only [Except.bind] at hnode hfound
        cases htree : ((fs.volume m.volume).tree fs.outside).1 with
        | error e =>
          rw [htree] at hnode
          exact absurd hnode (by simp)
        | ok root =>
          rw [htree] at hnode hfound
          simp only at hnode hfound
          rw [Tree.walk_eq_ok_iff, walkSteps_inner] at hnode
          refine .inl ((Tree.isOk_walk_child_iff hnode ?_).1 ⟨found, hfound⟩)
          rw [walkSteps_inner, hjoin, List.drop_append_of_le_length hlength]

end FileSystem

end MountShell
