import MountShell.Proofs.Disk.Files
import MountShell.Volume.Basic

/-!
# Laws of the store

What a write to the store does to the text under its key, whether the store is in memory or a
directory of the host.  `Outside.held` is the text that is there, even while reading is refused.

Main statements: `held_keep_of_ok`, a write that succeeds is there; `held_keep_of_error`, one that
fails changes nothing; and `Volume.root_kept`, the tree of a key depends on the text there alone.
-/

namespace MountShell

/-! ### Names of files for keys -/

theorem toList_fileName (key : String) :
    ∃ front : List Char, '/' ∉ front ∧ (Store.fileName key).toList = front ++ ".json".toList := by
  unfold Store.fileName
  refine ⟨key.toList.map fun c => if c.isAlphanum || c = '-' || c = '_' then c else '_', ?_, ?_⟩
  · intro h
    obtain ⟨c, -, hc⟩ := List.mem_map.1 h
    by_cases hkeep : (c.isAlphanum || c = '-' || c = '_') = true
    · rw [if_pos hkeep] at hc
      rw [hc] at hkeep
      exact absurd hkeep (by decide)
    · rw [if_neg hkeep] at hc
      exact absurd hc (by decide)
  · rw [String.toList_append, String.toList_ofList]

theorem isName_fileName (key : String) : Disk.IsName (Store.fileName key) := by
  obtain ⟨front, -, htext⟩ := toList_fileName key
  have hlong : 5 ≤ (Store.fileName key).toList.length := by
    rw [htext, List.length_append]
    exact Nat.le_add_left 5 _
  have hshort : ∀ s : String, s.toList.length < 5 → Store.fileName key ≠ s := by
    intro s hs heq
    rw [heq] at hlong
    omega
  refine ⟨?_, hshort ".." (by decide)⟩
  rintro (h | h)
  · exact hshort "" (by decide) h
  · exact hshort "." (by decide) h

theorem slash_not_mem_fileName (key : String) : '/' ∉ (Store.fileName key).toList := by
  obtain ⟨front, hfront, htext⟩ := toList_fileName key
  rw [htext]
  intro h
  rcases List.mem_append.1 h with h | h
  · exact hfront h
  · exact absurd h (by decide)

namespace Outside

/-- The text that is in the store under a key, even while reading is refused. -/
def held (o : Outside) (key : String) : Option String :=
  match o.store with
  | .memory entries _ _ => NameMap.find? key entries
  | .directory dir => (o.disk.read (Disk.inside dir (Store.fileName key))).toOption

/-- Reading the store is not refused. -/
def Answers (o : Outside) : Prop :=
  match o.store with
  | .memory _ refuseGet _ => refuseGet = false
  | .directory _ => True

instance (o : Outside) : Decidable o.Answers :=
  match h : o.store with
  | .memory _ refuseGet _ => decidable_of_iff (refuseGet = false) (by rw [Answers, h])
  | .directory _ => decidable_of_iff True (by rw [Answers, h])

/-- A store that gives an answer does not refuse reading. -/
theorem answers_of_stored {o : Outside} {key : String} {content : Option String}
    (h : o.stored key = .ok content) : o.Answers := by
  unfold stored at h
  unfold Answers
  cases hstore : o.store with
  | directory dir => trivial
  | memory entries refuseGet refuseSet =>
    rw [hstore] at h
    cases refuseGet with
    | false => rfl
    | true => exact absurd h (by simp)

/-- A directory store puts each text into a file. -/
theorem keep_directory {o : Outside} {dir : String} (h : o.store = .directory dir)
    (key body : String) :
    o.keep key body =
      ((o.disk.putFile dir (Store.fileName key) body).1.mapError fun e => .io key e.message,
        { o with
          sets := o.sets + 1
          disk := (o.disk.putFile dir (Store.fileName key) body).2 }) := by
  unfold keep Disk.putFile
  simp only [h]
  cases hmake : o.disk.makeDirectories dir with
  | mk result made =>
    cases result with
    | error e => rfl
    | ok =>
      simp only
      cases made.write dir (Store.fileName key) body <;> rfl

theorem sets_keep (o : Outside) (key body : String) : (o.keep key body).2.sets = o.sets + 1 := by
  cases hstore : o.store with
  | memory entries refuseGet refuseSet =>
    unfold keep
    cases refuseSet <;> simp [hstore]
  | directory dir => rw [keep_directory hstore]

/-- A text that has been put into the store is there. -/
theorem held_keep_of_ok {o : Outside} {key body : String} (h : (o.keep key body).1 = .ok ()) :
    (o.keep key body).2.held key = some body := by
  cases hstore : o.store with
  | memory entries refuseGet refuseSet =>
    unfold keep at h ⊢
    simp only [hstore] at h ⊢
    cases refuseSet with
    | true => exact absurd h (by simp)
    | false =>
      have hfind : NameMap.find? key (NameMap.insert key body entries) = some body := by
        rw [NameMap.find?_insert, if_pos rfl]
      exact hfind
  | directory dir =>
    rw [keep_directory hstore] at h ⊢
    cases hput : o.disk.putFile dir (Store.fileName key) body with
    | mk result after =>
      rw [hput] at h
      cases result with
      | error e => nomatch h
      | ok =>
        have hread := Disk.read_inside_of_putFile (isName_fileName key)
          (slash_not_mem_fileName key) hput
        simp [held, hstore, hread, Except.toOption]

/-- A write that fails leaves the text that was there. -/
theorem held_keep_of_error {o : Outside} {key body : String} {e : StoreError}
    (h : (o.keep key body).1 = .error e) : (o.keep key body).2.held key = o.held key := by
  cases hstore : o.store with
  | memory entries refuseGet refuseSet =>
    unfold keep at h ⊢
    simp only [hstore] at h ⊢
    cases refuseSet with
    | true => simp [held, hstore]
    | false => exact absurd h (by simp)
  | directory dir =>
    rw [keep_directory hstore] at h ⊢
    cases hput : o.disk.putFile dir (Store.fileName key) body with
    | mk result after =>
      rw [hput] at h
      cases result with
      | ok => nomatch h
      | error reason =>
        have hsame := Disk.toOption_read_inside_of_putFile (isName_fileName key)
          (slash_not_mem_fileName key) hput
        simp only [held, hstore]
        exact hsame

end Outside

namespace Volume

/-- The tree that a text in the store stands for: an empty writeable one if there is no text or it
cannot be read. -/
def treeOf (held : Option String) : Node :=
  ((held.bind Snapshot.read).map Snapshot.restore).getD (.directory true [])

/-- The tree of a key is that of the text in the store. -/
theorem root_kept {o : Outside} (h : o.Answers) (key : String) :
    (kept key o).root = some (treeOf (o.held key)) := by
  unfold kept Outside.stored treeOf Outside.held
  unfold Outside.Answers at h
  cases hstore : o.store with
  | memory entries refuseGet refuseSet =>
    simp only [hstore] at h ⊢
    subst h
    cases hfind : NameMap.find? key entries <;> simp
  | directory dir =>
    simp only
    cases hread : o.disk.read (Disk.inside dir (Store.fileName key)) with
    | ok body => simp [Except.toOption]
    | error e => cases e <;> simp [Except.toOption]

end Volume

end MountShell
