import MountShell.Proofs.FileSystem.Use

/-!
# What becomes of volumes

An operation of a filesystem acts on at most one volume, by one of the operations of that volume
(`Volume.Acts`), and leaves the others alone (`FileSystemUse.acts_perform`).  So what is true of
every volume that can be made, and stays true whatever is done to a volume, is true of all volumes
of a filesystem in use (`Volume.Lasting`).  What backs a volume never changes, nor does the node
that an open file is bound to.

Main statements: `FileSystemUse.forall_run`; `FileSystemUse.backing_run`, the volumes keep what
backs them; and `FileSystemUse.files_run`, the files keep their volumes and what they are bound to.
-/

namespace MountShell

namespace Volume

/-- The second volume is what an operation makes of the first. -/
inductive Acts (v : Volume) : Volume → Prop
  | get (path : String) (o : Outside) : Acts v (v.get path o).2.1
  | create (path : String) (o : Outside) : Acts v (v.create path o).2.1
  | openFile (path : String) (mode : OpenMode) (o : Outside) : Acts v (v.openFile path mode o).2.1
  | chmod (path mode : String) (o : Outside) : Acts v (v.chmod path mode o).2.1
  | write (h : FileHandle) (data : String) (o : Outside) : Acts v (v.write h data o).2.1
  | close (h : FileHandle) (o : Outside) : Acts v (v.close h o).2.1

/-- A property of every volume as it is made, which no operation on a volume takes away. -/
structure Lasting (P : Volume → Prop) : Prop where
  made : ∀ {v : Volume}, v.Made → P v
  acts : ∀ {v after : Volume}, P v → v.Acts after → P after

/-- No operation changes what backs a volume. -/
theorem Acts.backing {v after : Volume} (h : v.Acts after) : after.backing = v.backing := by
  cases h with
  | get path o => exact backing_of_loads (v.get_loads path o).1
  | create path o =>
    have htree := backing_of_loads (v.tree_loads o).1
    unfold Volume.create
    by_cases hremote : v.isRemote = true
    · rw [if_pos hremote]
    · rw [if_neg hremote]
      rcases hresult : v.tree o with ⟨e | root, loaded, later⟩
      · rw [hresult] at htree
        exact htree
      · rw [hresult] at htree
        simp only []
        cases Tree.create root path .emptyFile <;> exact htree
  | openFile path mode o =>
    rcases v.openFile_cases path mode o with ⟨-, hloads, -⟩ | ⟨-, _, made, -, -, hmade, -⟩
    · exact backing_of_loads hloads
    · rw [hmade]
  | chmod path mode o =>
    unfold Volume.chmod
    by_cases hremote : v.isRemote = true
    · rw [if_pos hremote]
    · rw [if_neg hremote]
      cases v.root.bind fun root => Tree.chmod root path mode <;> rfl
  | write handle data o =>
    unfold Volume.write
    cases handle.write (v.root.getD .emptyFile) data <;> rfl
  | close handle o =>
    unfold Volume.close
    rcases handle.close (v.root.getD .emptyFile) with e | ⟨closed, _ | changed⟩ <;> rfl

end Volume

namespace FileSystem

variable {fs : FileSystem}

/-- A volume that is put into the list takes the place of one of them. -/
theorem acts_put {i : Nat} {v : Volume} (h : (fs.volume i).Acts v) (o : Outside) (j : Nat) :
    (fs.put i v o).volume j = fs.volume j ∨ (fs.volume j).Acts ((fs.put i v o).volume j) := by
  rcases fs.volume_put_cases i v o j with hsame | ⟨rfl, hnew⟩
  · exact .inl hsame
  · rw [hnew]
    exact .inr h

/-- What one volume does, or is refused, acts on no other. -/
theorem acts_of_locate {after : FileSystem} {path : String} {refused : Place → Bool}
    {act : Place → Volume × Outside}
    (h : after =
      match fs.locate path with
      | .error _ => fs
      | .ok place =>
        if refused place then fs else fs.put place.mount.volume (act place).1 (act place).2)
    (hact : ∀ place, (fs.volume place.mount.volume).Acts (act place).1) (j : Nat) :
    after.volume j = fs.volume j ∨ (fs.volume j).Acts (after.volume j) := by
  rw [h]
  cases fs.locate path with
  | error e => exact .inl rfl
  | ok place =>
    simp only
    by_cases hrefused : refused place = true
    · rw [if_pos hrefused]
      exact .inl rfl
    · rw [if_neg hrefused]
      exact acts_put (hact place) _ j

theorem acts_node (fs : FileSystem) (path : String) (j : Nat) :
    (fs.node path).2.volume j = fs.volume j ∨
      (fs.volume j).Acts ((fs.node path).2.volume j) := by
  rw [node_snd]
  cases fs.locate path with
  | error e => exact .inl rfl
  | ok place => exact acts_put (.get place.inner fs.outside) _ j

theorem acts_openFile (fs : FileSystem) (path : String) (mode : OpenMode) (j : Nat) :
    (fs.openFile path mode).2.volume j = fs.volume j ∨
      (fs.volume j).Acts ((fs.openFile path mode).2.volume j) := by
  rcases fs.volume_openFile_cases path mode j with hsame | ⟨inner, hopened⟩
  · exact .inl hsame
  · rw [hopened]
    exact .inr (.openFile inner mode fs.outside)

/-- What is true of all volumes, and of every one as it is made, is true of the volume with any
number. -/
theorem forall_volume {P : Volume → Prop} (hP : Volume.Lasting P) {fs : FileSystem}
    (h : ∀ v ∈ fs.volumes, P v) (i : Nat) : P (fs.volume i) := by
  unfold volume
  rw [List.getD_eq_getElem?_getD]
  cases hi : fs.volumes[i]? with
  | none => exact hP.made (.supplied _)
  | some v => exact h v (List.mem_of_getElem? hi)

end FileSystem

namespace FileSystemUse

/-- An operation of a filesystem leaves a volume alone, or does one operation on it. -/
theorem acts_perform (u : FileSystemUse) (op : FileSystemOp) (j : Nat) :
    (u.perform op).fs.volume j = u.fs.volume j ∨
      (u.fs.volume j).Acts ((u.perform op).fs.volume j) := by
  cases op with
  | get path =>
    rw [perform, FileSystem.get_snd]
    exact u.fs.acts_node path j
  | create path =>
    exact FileSystem.acts_of_locate (u.fs.create_snd path) (fun _ => .create _ _) j
  | openFile path mode => exact u.fs.acts_openFile path mode j
  | chmod path mode =>
    exact FileSystem.acts_of_locate (u.fs.chmod_snd path mode) (fun _ => .chmod _ _ _) j
  | program path =>
    rw [perform]
    rcases u.fs.program?_snd path with hsame | hnode
    · exact .inl (by rw [hsame])
    · rw [hnode]
      exact u.fs.acts_node path j
  | read i =>
    rw [perform]
    cases u.files[i]? <;> exact .inl rfl
  | write i data =>
    rw [perform]
    cases u.files[i]? with
    | none => exact .inl rfl
    | some file => exact FileSystem.acts_put (.write file.handle data u.fs.outside) _ j
  | close i =>
    rw [perform_close_fs]
    cases u.files[i]? with
    | none => exact .inl rfl
    | some file => exact FileSystem.acts_put (.close file.handle u.fs.outside) _ j

/-! ### Lasting properties -/

variable {P : Volume → Prop} {u : FileSystemUse}

theorem forall_mount {fs : FileSystem} (h : ∀ v ∈ fs.volumes, P v) (entry : FstabEntry)
    {new : Volume} (hnew : P new) : ∀ v ∈ (fs.mount entry new).volumes, P v :=
  List.forall_mem_append.2 ⟨h, List.forall_mem_singleton.2 hnew⟩

theorem forall_remount (hP : Volume.Lasting P) {fs : FileSystem} (h : ∀ v ∈ fs.volumes, P v)
    (entries : List FstabEntry) (devices : Devices) :
    ∀ v ∈ (fs.remount entries devices).volumes, P v :=
  FileSystem.remount_induction (Q := fun fs => ∀ v ∈ fs.volumes, P v)
    (fun _ entry _ hfs hmade => forall_mount hfs entry (hP.made hmade)) entries devices h

theorem forall_perform (hP : Volume.Lasting P) (h : ∀ v ∈ u.fs.volumes, P v)
    (op : FileSystemOp) : ∀ v ∈ (u.perform op).fs.volumes, P v := by
  intro v hv
  obtain ⟨j, hj⟩ := List.mem_iff_getElem?.1 hv
  have hafter : (u.perform op).fs.volume j = v := by
    rw [FileSystem.volume, List.getD_eq_getElem?_getD, hj, Option.getD_some]
  have hbefore := FileSystem.forall_volume hP h j
  rw [← hafter]
  rcases acts_perform u op j with hsame | hacts
  · rw [hsame]
    exact hbefore
  · exact hP.acts hbefore hacts

/-- What is true of every volume as it is made, and is taken away by nothing, stays true of all
volumes of a filesystem. -/
theorem forall_run (hP : Volume.Lasting P) (h : ∀ v ∈ u.fs.volumes, P v)
    {events : List FileSystemEvent} (hmounts : ∀ entry v, .mount entry v ∈ events → P v) :
    ∀ v ∈ (u.run events).fs.volumes, P v := by
  induction events generalizing u with
  | nil => exact h
  | cons event rest ih =>
    refine ih ?_ fun entry v hv => hmounts entry v (List.mem_cons_of_mem _ hv)
    cases event with
    | op op => exact forall_perform hP h op
    | mount entry v => exact forall_mount h entry (hmounts entry v List.mem_cons_self)
    | remount entries devices => exact forall_remount hP h entries devices
    | host o => exact h

theorem forall_start (hP : Volume.Lasting P) (entries : List FstabEntry) (devices : Devices)
    (o : Outside) : ∀ v ∈ (start entries devices o).fs.volumes, P v :=
  forall_remount hP (fun _ hv => absurd hv List.not_mem_nil) entries devices

/-! ### What stays for good -/

/-- Volumes are not taken away, and nothing changes what backs them. -/
theorem backing_after {j : Nat} (h : j < u.fs.volumes.length) (event : FileSystemEvent) :
    j < (u.after event).fs.volumes.length ∧
      ((u.after event).fs.volume j).backing = (u.fs.volume j).backing := by
  have hmount : ∀ (fs : FileSystem) (entry : FstabEntry) (v : Volume),
      (j < fs.volumes.length ∧ (fs.volume j).backing = (u.fs.volume j).backing) →
        j < (fs.mount entry v).volumes.length ∧
          ((fs.mount entry v).volume j).backing = (u.fs.volume j).backing := by
    rintro fs entry v ⟨hlt, hsame⟩
    have hlength : (fs.mount entry v).volumes.length = fs.volumes.length + 1 := List.length_append
    rw [hlength, FileSystem.volume_mount hlt]
    exact ⟨Nat.lt_succ_of_lt hlt, hsame⟩
  cases event with
  | op op =>
    have hlength : (u.perform op).fs.volumes.length = u.fs.volumes.length :=
      congrArg Prod.snd (shape_perform u op)
    refine ⟨hlength ▸ h, ?_⟩
    rcases acts_perform u op j with hsame | hacts
    · exact congrArg Volume.backing hsame
    · exact hacts.backing
  | mount entry v => exact hmount u.fs entry v ⟨h, rfl⟩
  | remount entries devices =>
    exact FileSystem.remount_induction
      (Q := fun fs => j < fs.volumes.length ∧ (fs.volume j).backing = (u.fs.volume j).backing)
      (fun fs entry v hfs _ => hmount fs entry v hfs) entries devices ⟨h, rfl⟩
  | host o => exact ⟨h, rfl⟩

theorem backing_run {j : Nat} (h : j < u.fs.volumes.length) (events : List FileSystemEvent) :
    ((u.run events).fs.volume j).backing = (u.fs.volume j).backing := by
  induction events generalizing u with
  | nil => rfl
  | cons event rest ih =>
    obtain ⟨hlt, hsame⟩ := backing_after h event
    exact (ih hlt).trans hsame

/-- A file that is opened comes after those that are open already. -/
theorem files_openFile (u : FileSystemUse) (path : String) (mode : OpenMode) :
    (u.perform (.openFile path mode)).files[u.files.length]? = some (u.fs.openFile path mode).1 :=
  List.getElem?_concat_length

/-- An open file stays in its place, on its volume and bound to its node. -/
theorem files_after {i : Nat} {file : OpenFile} (h : u.files[i]? = some file)
    (event : FileSystemEvent) :
    ∃ later, (u.after event).files[i]? = some later ∧ later.volume = file.volume ∧
      later.handle.binding = file.handle.binding := by
  have hsame : ∃ later, u.files[i]? = some later ∧ later.volume = file.volume ∧
      later.handle.binding = file.handle.binding := ⟨file, h, rfl, rfl⟩
  cases event with
  | op op =>
    cases op with
    | openFile path mode =>
      have hlt := (List.getElem?_eq_some_iff.1 h).1
      exact ⟨file, (List.getElem?_append_left hlt).trans h, rfl, rfl⟩
    | read k =>
      rw [after, perform]
      cases u.files[k]? <;> exact hsame
    | write k data =>
      rw [after, perform]
      cases u.files[k]? <;> exact hsame
    | close k =>
      rw [after, perform]
      cases hfile : u.files[k]? with
      | none => exact hsame
      | some other =>
        have hresult := FileSystem.close_fst u.fs other
        simp only
        rcases hclose : u.fs.close other with ⟨e | closed, fs⟩
        · exact hsame
        · rw [hclose] at hresult
          by_cases hclosed : other.handle.closed = true
          · exact absurd hresult (by simp [hclosed])
          · rw [if_neg hclosed] at hresult
            obtain rfl := Except.ok.inj hresult
            -- closing puts the closed handle back in the place where it was
            by_cases hki : k = i
            · subst hki
              obtain rfl : other = file := Option.some.inj (hfile.symm.trans h)
              exact ⟨_, List.getElem?_set_self (List.getElem?_eq_some_iff.1 h).1, rfl, rfl⟩
            · exact ⟨file, (List.getElem?_set_ne hki).trans h, rfl, rfl⟩
    | _ => exact hsame
  | _ => exact hsame

theorem files_run {i : Nat} {file : OpenFile} (h : u.files[i]? = some file)
    (events : List FileSystemEvent) :
    ∃ later, (u.run events).files[i]? = some later ∧ later.volume = file.volume ∧
      later.handle.binding = file.handle.binding := by
  induction events generalizing u file with
  | nil => exact ⟨file, h, rfl, rfl⟩
  | cons event rest ih =>
    obtain ⟨next, hnext, hvolume, hbinding⟩ := files_after h event
    obtain ⟨later, hlater, hvolume', hbinding'⟩ := ih hnext
    exact ⟨later, hlater, hvolume'.trans hvolume, hbinding'.trans hbinding⟩

end FileSystemUse

end MountShell
