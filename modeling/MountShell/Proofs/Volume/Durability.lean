import MountShell.Proofs.Volume.Use

/-!
# Durability of a tree in a store

A volume is loaded from a store and used from then on, while the store may refuse some writes and
what lies outside may change in any way that leaves the text under the key alone.  Beside the volume
an account is kept of the tree as of the last write that succeeded, and of what has not reached the
store since (`Tended.note`).

Main statements: `Tended.Sound.perform` and `Tended.Sound.run`, the account is true after every
operation; and `load_after_run`, loading again gives the tree of the account.  It is the tree in
memory unless a write has been refused since, or a file has been created by an open that asks for a
handle on a failure.
-/

namespace MountShell

/-- Something that has not reached the store. -/
inductive Missed where
  /-- The store refused a write. -/
  | refused (e : StoreError)
  /-- The tree has grown, and nothing was written. -/
  | unwritten
  deriving DecidableEq, Repr

/-- A volume in use, with an account of its store. -/
structure Tended extends VolumeUse where
  /-- The tree as of the last write that succeeded, or as it was loaded. -/
  saved : Option Node
  /-- What has not reached the store since. -/
  missed : List Missed := []

/-- Something that happens while a volume is in use. -/
inductive VolumeEvent where
  | op (op : VolumeOp)
  /-- Something happens outside. -/
  | host (outside : Outside)

/-- The answer of the store when the tree is kept. -/
def Volume.syncAnswer (v : Volume) (o : Outside) : Except StoreError Unit :=
  match v.backing, v.root with
  | .store key, some root =>
    match Snapshot.capture root with
    | some snapshot => (o.keep key snapshot.write).1
    | none => .ok ()
  | _, _ => .ok ()

namespace Tended

/-- A volume that has just been loaded. -/
def load (key : String) (o : Outside) : Tended where
  volume := .kept key o
  outside := o
  saved := (Volume.kept key o).root

/-- The account after an operation that leads to `after`. A write shows in the number of writes; the
tree it is about is the one that the operation leaves. -/
def note (t : Tended) (after : VolumeUse) : Tended :=
  if after.outside.sets = t.outside.sets then
    if after.volume.root.map Node.size = t.volume.root.map Node.size then
      { toVolumeUse := after, saved := t.saved, missed := t.missed }
    else { toVolumeUse := after, saved := t.saved, missed := t.missed ++ [.unwritten] }
  else
    match after.volume.syncAnswer t.outside with
    | .ok () => { toVolumeUse := after, saved := after.volume.root, missed := [] }
    | .error e => { toVolumeUse := after, saved := t.saved, missed := t.missed ++ [.refused e] }

/-- What comes after an event. -/
def after (t : Tended) : VolumeEvent → Tended
  | .op op => t.note (t.toVolumeUse.perform op)
  | .host outside => { t with outside }

/-- What comes after a list of events. -/
def run (t : Tended) (events : List VolumeEvent) : Tended :=
  events.foldl after t

/-- Nothing that happens outside touches the text under the key. -/
def Alone (key : String) (t : Tended) : List VolumeEvent → Prop
  | [] => True
  | .op op :: rest => Alone key (t.after (.op op)) rest
  | .host o :: rest => o.held key = t.outside.held key ∧ Alone key (t.after (.host o)) rest

/-- The account is true: the store holds the tree `last`, which is the tree `live` in memory unless
something has not reached the store, and smaller if that is only files that were not written. -/
structure Sound (key : String) (live last : Node) (t : Tended) : Prop where
  volume : t.volume = ⟨.store key, some live⟩
  fits : live.Fits Snapshot.maxLevels
  saved : t.saved = some last
  held : Volume.treeOf (t.outside.held key) = last
  current : t.missed = [] → last = live
  grown : (∀ m ∈ t.missed, m = .unwritten) → live.size = last.size + t.missed.length

/-- The tree of any text fits. -/
theorem fits_treeOf (held : Option String) : (Volume.treeOf held).Fits Snapshot.maxLevels := by
  unfold Volume.treeOf
  cases hread : held.bind Snapshot.read with
  | none =>
    have hempty : (Node.directory true []).Fits (62 + 1) :=
      .directory true List.Pairwise.nil fun _ hmem => absurd hmem List.not_mem_nil
    exact hempty
  | some snapshot =>
    obtain ⟨body, -, hsnapshot⟩ := Option.bind_eq_some_iff.1 hread
    exact (Snapshot.fits_of_read hsnapshot).restore

/-- The account of a volume that has just been loaded is true. -/
theorem sound_load {o : Outside} (h : o.Answers) (key : String) :
    Sound key (Volume.treeOf (o.held key)) (Volume.treeOf (o.held key)) (load key o) := by
  have hroot := Volume.root_kept h key
  refine ⟨?_, fits_treeOf _, hroot, rfl, fun _ => rfl, fun _ => rfl⟩
  show Volume.kept key o = _
  rw [← hroot]
  rfl

/-- Something outside that leaves the text under the key alone leaves the account true. -/
theorem Sound.host {key : String} {live last : Node} {t : Tended} (h : Sound key live last t)
    {o : Outside} (ho : o.held key = t.outside.held key) :
    Sound key live last (t.after (.host o)) := by
  refine ⟨h.volume, h.fits, h.saved, ?_, h.current, h.grown⟩
  show Volume.treeOf (o.held key) = last
  rw [ho, h.held]

theorem toVolumeUse_note (t : Tended) (after : VolumeUse) : (t.note after).toVolumeUse = after := by
  unfold note
  split
  · split <;> rfl
  · split <;> rfl

/-- Nothing is noted of an operation that leaves the tree and the store alone. -/
theorem note_same {t : Tended} {after : VolumeUse} (hsets : after.outside.sets = t.outside.sets)
    (hroot : after.volume.root = t.volume.root) :
    t.note after = { toVolumeUse := after, saved := t.saved, missed := t.missed } := by
  rw [note, if_pos hsets, if_pos (congrArg (Option.map Node.size) hroot)]

/-- A tree that grows without a write is noted. -/
theorem note_unwritten {t : Tended} {after : VolumeUse}
    (hsets : after.outside.sets = t.outside.sets)
    (hroot : after.volume.root.map Node.size ≠ t.volume.root.map Node.size) :
    t.note after =
      { toVolumeUse := after, saved := t.saved, missed := t.missed ++ [.unwritten] } := by
  rw [note, if_pos hsets, if_neg hroot]

/-- A write that succeeds is noted with its tree. -/
theorem note_written {t : Tended} {after : VolumeUse} (hsets : after.outside.sets ≠ t.outside.sets)
    (hanswer : after.volume.syncAnswer t.outside = .ok ()) :
    t.note after = { toVolumeUse := after, saved := after.volume.root, missed := [] } := by
  rw [note, if_neg hsets, hanswer]

/-- A write that is refused is noted. -/
theorem note_refused {t : Tended} {after : VolumeUse} {e : StoreError}
    (hsets : after.outside.sets ≠ t.outside.sets)
    (hanswer : after.volume.syncAnswer t.outside = .error e) :
    t.note after =
      { toVolumeUse := after, saved := t.saved, missed := t.missed ++ [.refused e] } := by
  rw [note, if_neg hsets, hanswer]

/-- The account stays true if the tree stays as it is. -/
theorem Sound.same {key : String} {live last : Node} {t : Tended} (h : Sound key live last t)
    (handles : List FileHandle) :
    Sound key live last (t.note ⟨⟨.store key, some live⟩, handles, t.outside⟩) ∧
      (t.note ⟨⟨.store key, some live⟩, handles, t.outside⟩).missed = t.missed := by
  have hroot : some live = t.volume.root := by rw [h.volume]
  rw [@note_same t ⟨⟨.store key, some live⟩, handles, t.outside⟩ rfl hroot]
  exact ⟨⟨rfl, h.fits, h.saved, h.held, h.current, h.grown⟩, rfl⟩

/-- The account stays true if the tree becomes another one that goes to the store. -/
theorem Sound.kept {key : String} {live last new : Node} {t : Tended} (h : Sound key live last t)
    (hnew : new.Fits Snapshot.maxLevels) (handles : List FileHandle) {after : VolumeUse}
    (hafter : after =
      ⟨⟨.store key, some new⟩, handles, Volume.sync ⟨.store key, some new⟩ t.outside⟩) :
    (∃ last', Sound key new last' (t.note after)) ∧
      ∀ m ∈ (t.note after).missed, m ∈ t.missed ∨ ∃ e, m = .refused e := by
  subst hafter
  obtain ⟨snapshot, hcapture, hsnapshot, hrestore⟩ := hnew.exists_capture
  have hsync : Volume.sync ⟨.store key, some new⟩ t.outside =
      (t.outside.keep key snapshot.write).2 := by
    simp only [Volume.sync, hcapture]
  have hanswer : Volume.syncAnswer ⟨.store key, some new⟩ t.outside =
      (t.outside.keep key snapshot.write).1 := by
    simp only [Volume.syncAnswer, hcapture]
  have hsets : (Volume.sync ⟨.store key, some new⟩ t.outside).sets ≠ t.outside.sets := by
    rw [hsync, Outside.sets_keep]
    exact Nat.succ_ne_self _
  -- If the store takes the write, what it holds reads back as the new tree; if not, it holds what
  -- it held, and the refusal is noted.
  cases hkeep : (t.outside.keep key snapshot.write).1 with
  | ok =>
    rw [note_written hsets (hanswer.trans hkeep)]
    refine ⟨⟨new, ⟨rfl, hnew, rfl, ?_, fun _ => rfl, fun _ => rfl⟩⟩, ?_⟩
    · show Volume.treeOf ((Volume.sync _ t.outside).held key) = new
      rw [hsync, Outside.held_keep_of_ok hkeep, Volume.treeOf, Option.bind_some,
        Snapshot.read_write hsnapshot, Option.map_some, hrestore]
      rfl
    · exact fun m hm => absurd hm List.not_mem_nil
  | error e =>
    rw [note_refused hsets (hanswer.trans hkeep)]
    refine ⟨⟨last, ⟨rfl, hnew, h.saved, ?_, ?_, ?_⟩⟩, ?_⟩
    · show Volume.treeOf ((Volume.sync _ t.outside).held key) = last
      rw [hsync, Outside.held_keep_of_error hkeep, h.held]
    · exact fun hnil => absurd hnil (by simp)
    · intro hall
      have hlast := hall (.refused e) (by simp)
      exact absurd hlast (by simp)
    · intro m hm
      rcases List.mem_append.1 hm with hm | hm
      · exact Or.inl hm
      · exact Or.inr ⟨e, List.mem_singleton.1 hm⟩

/-- The account stays true if the tree gets one more node and the store is not told. -/
theorem Sound.unkept {key : String} {live last new : Node} {t : Tended} (h : Sound key live last t)
    (hnew : new.Fits Snapshot.maxLevels) (hsize : new.size = live.size + 1)
    (handles : List FileHandle) :
    Sound key new last (t.note ⟨⟨.store key, some new⟩, handles, t.outside⟩) := by
  have hroot : (some new).map Node.size ≠ t.volume.root.map Node.size := by
    rw [h.volume]
    simp [hsize]
  rw [@note_unwritten t ⟨⟨.store key, some new⟩, handles, t.outside⟩ rfl hroot]
  refine ⟨rfl, hnew, h.saved, h.held, fun hnil => absurd hnil (by simp), fun hall => ?_⟩
  have hgrown := h.grown fun m hm => hall m (List.mem_append_left _ hm)
  show new.size = last.size + (t.missed ++ [Missed.unwritten]).length
  rw [List.length_append, hsize, hgrown]
  rfl

/-- An operation leaves the account true. If it is no open that asks for a handle on a failure, it
misses nothing but refused writes. -/
theorem Sound.perform {key : String} {live last : Node} {t : Tended} (h : Sound key live last t)
    (op : VolumeOp) :
    (∃ last', Sound key ((op.effect live t.handles).2.tree live) last' (t.after (.op op))) ∧
      ((∀ path, op ≠ .openFile path .failed) →
        ∀ m ∈ (t.after (.op op)).missed, m ∈ t.missed ∨ ∃ e, m = .refused e) := by
  have hperform := VolumeUse.perform_eq h.volume h.fits op
  have hfits := VolumeOp.fits_effect h.fits t.handles op
  rw [after, hperform]
  cases heffect : (op.effect live t.handles).2 with
  | same =>
    obtain ⟨hsound, hmissed⟩ := h.same (op.effect live t.handles).1
    exact ⟨⟨last, hsound⟩, fun _ m hm => Or.inl (hmissed ▸ hm)⟩
  | kept new =>
    rw [heffect] at hfits
    obtain ⟨hsound, hmissed⟩ := h.kept hfits (op.effect live t.handles).1 rfl
    exact ⟨hsound, fun _ => hmissed⟩
  | unkept new =>
    rw [heffect] at hfits
    obtain ⟨path, hop, -, hcreate⟩ := (VolumeOp.effect_eq_unkept_iff _ _ _ _).1 heffect
    have hsize : new.size = live.size + 1 := Tree.size_create hcreate
    refine ⟨⟨last, h.unkept hfits hsize (op.effect live t.handles).1⟩, fun hnot => ?_⟩
    exact absurd hop (hnot path)

/-- Every run leaves the account true. Without opens that ask for a handle on a failure it misses
nothing but refused writes. -/
theorem Sound.run {key : String} {live last : Node} {t : Tended} (h : Sound key live last t)
    {events : List VolumeEvent} (halone : Alone key t events) :
    (∃ live' last', Sound key live' last' (t.run events)) ∧
      ((∀ path, .op (.openFile path .failed) ∉ events) →
        ∀ m ∈ (t.run events).missed, m ∈ t.missed ∨ ∃ e, m = .refused e) := by
  induction events generalizing t live last with
  | nil => exact ⟨⟨live, last, h⟩, fun _ m hm => Or.inl hm⟩
  | cons event rest ih =>
    cases event with
    | host o =>
      obtain ⟨ho, hrest⟩ := halone
      obtain ⟨hsound, hmissed⟩ := ih (h.host ho) hrest
      exact ⟨hsound, fun hno => hmissed fun path hmem => hno path (List.mem_cons_of_mem _ hmem)⟩
    | op op =>
      obtain ⟨⟨last', hstep⟩, hone⟩ := h.perform op
      obtain ⟨hsound, hmissed⟩ := ih hstep halone
      refine ⟨hsound, fun hno m hm => ?_⟩
      have hop : ∀ path, op ≠ .openFile path .failed := by
        rintro path rfl
        exact hno path List.mem_cons_self
      rcases hmissed (fun path hmem => hno path (List.mem_cons_of_mem _ hmem)) m hm with hm | hm
      · exact hone hop m hm
      · exact Or.inr hm

/-! ### The tree in memory does not depend on the store -/

/-- The operations among some events. -/
def opsOf (events : List VolumeEvent) : List VolumeOp :=
  events.filterMap fun event =>
    match event with
    | .op op => some op
    | .host _ => none

/-- What comes of a tree and handles on it when operations have their effects on them. -/
def effects (start : Node × List FileHandle) (ops : List VolumeOp) : Node × List FileHandle :=
  ops.foldl (fun s op => ((op.effect s.1 s.2).2.tree s.1, (op.effect s.1 s.2).1)) start

/-- The tree and the handles after a run come from the operations alone. -/
theorem run_eq_effects {key : String} {live : Node} {levels : Nat} {t : Tended}
    (hvolume : t.volume = ⟨.store key, some live⟩) (hfits : live.Fits levels)
    (events : List VolumeEvent) :
    (t.run events).volume = ⟨.store key, some (effects (live, t.handles) (opsOf events)).1⟩ ∧
      (t.run events).handles = (effects (live, t.handles) (opsOf events)).2 := by
  induction events generalizing t live with
  | nil => exact ⟨hvolume, rfl⟩
  | cons event rest ih =>
    cases event with
    | host o => exact ih (t := t.after (.host o)) hvolume hfits
    | op op =>
      have hafter : (t.after (.op op)).toVolumeUse = t.toVolumeUse.perform op :=
        toVolumeUse_note t _
      rw [VolumeUse.perform_eq hvolume hfits op] at hafter
      have hvolume' := congrArg VolumeUse.volume hafter
      have hhandles' := congrArg VolumeUse.handles hafter
      have hrest := ih hvolume' (VolumeOp.fits_effect hfits t.handles op)
      rw [hhandles'] at hrest
      exact hrest

/-! ### Loading again -/

/-- The tree in memory and the handles come from the operations alone, whatever the stores answer
once the first tree is read. -/
theorem run_eq_of_opsOf_eq {key key' : String} {o o' : Outside} {content : Option String}
    (h : o.stored key = .ok content)
    (hsame : (Volume.kept key' o').root = (Volume.kept key o).root)
    {events events' : List VolumeEvent} (hops : opsOf events' = opsOf events) :
    ((load key' o').run events').volume.root = ((load key o).run events).volume.root ∧
      ((load key' o').run events').handles = ((load key o).run events).handles := by
  obtain ⟨start, hroot⟩ : ∃ start, (Volume.kept key' o').root = some start := ⟨_, rfl⟩
  have hfits : start.Fits Snapshot.maxLevels := by
    have hload := Volume.root_kept (Outside.answers_of_stored h) key
    rw [← hsame, hroot] at hload
    rw [Option.some.inj hload]
    exact fits_treeOf _
  have hfirst : (load key o).volume = ⟨.store key, some start⟩ := by
    show Volume.kept key o = _
    rw [← hroot, hsame]
    rfl
  have hsecond : (load key' o').volume = ⟨.store key', some start⟩ := by
    show Volume.kept key' o' = _
    rw [← hroot]
    rfl
  have hrun := run_eq_effects hfirst hfits events
  have hrun' := run_eq_effects hsecond hfits events'
  rw [hrun.1, hrun.2, hrun'.1, hrun'.2, hops]
  exact ⟨rfl, rfl⟩

/-- A volume is loaded from a store that answers, and events follow that leave the text under its
key to it.  Then, at any point:

* loading again gives the tree as of the last write that succeeded;
* if no write has been refused since, this is the tree in memory just when no file has been created
  since without a write;
* this has happened only if a file was opened with a handle on a failure asked for;
* a write that succeeds makes loading again give the tree in memory;
* the tree in memory and the handles are those of any other run with these operations on the same
  tree, whatever its store answers. -/
theorem load_after_run {key : String} {o : Outside} {content : Option String}
    (h : o.stored key = .ok content) {events : List VolumeEvent}
    (halone : Alone key (load key o) events) :
    let t := (load key o).run events
    ∃ live last, t.volume.root = some live ∧ t.saved = some last ∧
      (t.outside.Answers → (Volume.kept key t.outside).root = some last) ∧
      ((∀ m ∈ t.missed, m = .unwritten) → (last = live ↔ t.missed = [])) ∧
      ((∀ path, .op (.openFile path .failed) ∉ events) → ∀ m ∈ t.missed, ∃ e, m = .refused e) ∧
      (∀ op, (t.perform op).outside.sets ≠ t.outside.sets →
        (t.perform op).volume.syncAnswer t.outside = .ok () → (t.perform op).outside.Answers →
        (Volume.kept key (t.perform op).outside).root = (t.perform op).volume.root) ∧
      ∀ key' o' events', (Volume.kept key' o').root = (Volume.kept key o).root →
        opsOf events' = opsOf events →
        ((load key' o').run events').volume.root = some live ∧
          ((load key' o').run events').handles = t.handles := by
  intro t
  have hstart := sound_load (Outside.answers_of_stored h) key
  obtain ⟨⟨live, last, hsound⟩, hmissed⟩ := hstart.run halone
  refine ⟨live, last, by rw [hsound.volume], hsound.saved, ?_, ?_, ?_, ?_, ?_⟩
  · intro hanswers
    rw [Volume.root_kept hanswers, hsound.held]
  · intro hall
    refine ⟨fun heq => ?_, hsound.current⟩
    -- each file that the store was not told of is one node more in memory
    have hgrown : live.size = last.size + t.missed.length := hsound.grown hall
    rw [heq] at hgrown
    exact List.length_eq_zero_iff.1 (by omega)
  · intro hno m hm
    rcases hmissed hno m hm with hm | hm
    · exact absurd hm List.not_mem_nil
    · exact hm
  · intro op hsets hanswer hanswers
    obtain ⟨⟨last', hnext⟩, -⟩ := hsound.perform op
    have hnote : t.after (.op op) = _ := note_written hsets hanswer
    have hsaved := hnext.saved
    have hheld := hnext.held
    rw [hnote] at hsaved hheld
    rw [Volume.root_kept hanswers, hheld, ← hsaved]
  · intro key' o' events' hsame hops
    obtain ⟨hlive, hhandles⟩ := run_eq_of_opsOf_eq h hsame hops
    exact ⟨by rw [hlive, hsound.volume], hhandles⟩

/-- A store that refuses writes keeps the empty tree, while a file is made and written in memory. -/
theorem load_after_refused_writes :
    let o : Outside := { store := .memory [] false true }
    let events : List VolumeEvent :=
      [.host o, .op (.openFile "/f" .append), .op (.write 0 "x"), .op (.close 0)]
    o.stored "k" = .ok none ∧ Alone "k" (load "k" o) events ∧
      ∃ live last, ((load "k" o).run events).volume.root = some live ∧
        ((load "k" o).run events).saved = some last ∧
        (Volume.kept "k" ((load "k" o).run events).outside).root = some last := by
  intro o events
  have hstored : o.stored "k" = .ok none := by rfl
  have halone : Alone "k" (load "k" o) events := ⟨by rfl, trivial⟩
  obtain ⟨live, last, hlive, hsaved, hload, -⟩ := load_after_run hstored halone
  exact ⟨hstored, halone, live, last, hlive, hsaved, hload (by decide +kernel)⟩

/-- A file that is created by an open for a handle on a failure is in memory, and no write is made
that could be refused: loading again does not give it. -/
theorem load_after_failed_open :
    let t := (load "k" {}).run [.op (.openFile "/f" .failed)]
    t.volume.root = some (.directory true [("f", .emptyFile)]) ∧ t.outside.sets = 0 ∧
      (Volume.kept "k" t.outside).root = some (.directory true []) := by
  intro t
  refine ⟨?_, ?_, ?_⟩ <;> rfl

end Tended

end MountShell
