import MountShell.Proofs.Shell.Operations
import MountShell.Proofs.Shell.Redirection

/-!
# A filesystem that commands and others use

The filesystem of a shell is used by its command lines and directly, through files that are opened
besides (`Workplace`).  However the two are mixed, everything that becomes of the filesystem is the
work of its own operations: an event unfolds into steps (`Workplace.Unfolds`), which go through
files that are at hand and let the filesystem grow in the few ways that each operation has.

Main statement: `Workplace.growth_run`.
-/

namespace MountShell

/-- A shell with its command lines, and the files that have been opened in its filesystem
besides. -/
structure Workplace (κ τ : Type) where
  engine : Engine κ τ
  files : List OpenFile := []

/-- Something that happens at a workplace. -/
inductive WorkplaceEvent (τ : Type) where
  /-- The filesystem is used directly, through the files that have been opened in this way. -/
  | op (op : FileSystemOp)
  /-- Something happens outside the filesystem. -/
  | outside (o : Outside)
  /-- Something happens to the shell.  Of what the host does the filesystem is left out. -/
  | shell (event : EngineEvent τ)

/-- The event, with the given filesystem in place of what the host makes of it. -/
def EngineEvent.keeping {τ : Type} (fs : FileSystem) : EngineEvent τ → EngineEvent τ
  | host _ host' timers draws today => host fs host' timers draws today
  | event => event

section Engine

variable {κ τ : Type} {u : FileSystemUse} {others : List OpenFile}

/-- The files that the futures of an engine hold. -/
def Engine.files (e : Engine κ τ) : List OpenFile :=
  e.futures.flatMap Future.files

/-- The files of one future among those of the others. -/
theorem Engine.exists_perm_files {e : Engine κ τ} {i : Nat} {f : Future κ τ}
    (hi : e.futures[i]? = some f) :
    ∃ rest, e.files.Perm (f.files ++ rest) ∧
      ∀ g : Future κ τ, ((e.futures.set i g).flatMap Future.files).Perm (g.files ++ rest) := by
  obtain ⟨hlt, hat⟩ := List.getElem?_eq_some_iff.1 hi
  have hfirst := List.getElem_cons_eraseIdx_perm hlt
  rw [hat] at hfirst
  refine ⟨(e.futures.eraseIdx i).flatMap Future.files, ?_, fun g => ?_⟩
  · exact (hfirst.flatMap_right Future.files).symm
  · exact (List.set_perm_cons_eraseIdx hlt g).flatMap_right Future.files

/-- A job that has just been given holds no files. -/
theorem Shell.files_accept (sh : Shell) (line : String) :
    (sh.accept line : Job κ τ × Shell).1.files = [] := by
  unfold accept
  by_cases hidle : sh.phase = .idle
  · rw [if_pos hidle]
    rfl
  · rw [if_neg hidle]
    rfl

theorem Shell.files_start (sh : Shell) : (sh.start : Job κ τ × Shell).1.files = [] := by
  unfold start
  cases sh.motd with
  | some line => exact sh.files_accept line
  | none => rfl

theorem Engine.reaches_add {e : Engine κ τ} (h : u.Reaches e.shell.fs (e.files ++ others) [])
    {given : Job κ τ × Shell} (hfiles : given.1.files = []) (hfs : given.2.fs = e.shell.fs) :
    u.Reaches (e.add given).shell.fs ((e.add given).files ++ others) [] := by
  have hsame : (e.add given).files = e.files := by
    have hflat : (e.futures ++ [Future.live given.1]).flatMap Future.files =
        e.files ++ given.1.files := by
      rw [List.flatMap_append, List.flatMap_singleton, files]
      rfl
    rw [hfiles, List.append_nil] at hflat
    exact hflat
  rw [hsame]
  show u.Reaches given.2.fs _ _
  rw [hfs]
  exact h

variable [Zero τ] [Add τ] [LT τ] [DecidableLT τ] {e : Engine κ τ}

/-- The files that an event opens for redirections. -/
def Engine.opens (programs : Programs κ τ) (e : Engine κ τ) (event : EngineEvent τ) :
    List (String × OpenMode) :=
  match event.future? with
  | some i => FileCall.openingsOf (e.callsOn programs i event)
  | none => []

theorem Engine.reaches_poll (h : u.Reaches e.shell.fs (e.files ++ others) [])
    (programs : Programs κ τ) (i id : Nat) :
    u.Reaches (e.after programs (.poll i id)).shell.fs
      ((e.after programs (.poll i id)).files ++ others) (e.opens programs (.poll i id)) := by
  have hopens : e.opens programs (.poll i id) =
      FileCall.openingsOf (e.callsOn programs i (.poll i id)) := rfl
  rw [hopens]
  cases hi : e.futures[i]? with
  | none =>
    have hcalls : e.callsOn programs i (.poll i id) = [] := by simp [callsOn, hi]
    have hafter : e.after programs (.poll i id) = e := by rw [after, hi]
    rw [hcalls, hafter]
    exact h
  | some f =>
    cases f with
    | live job =>
      obtain ⟨rest, hperm, hset⟩ := exists_perm_files hi
      have hjob : u.Reaches e.shell.fs (job.files ++ (rest ++ others)) [] := by
        rw [← List.append_assoc]
        exact h.perm (hperm.append_right others)
      have hpolled := Job.reaches_poll hjob programs id e.timers
      rw [callsOn_poll hi, after_poll hi]
      refine hpolled.perm ?_
      rw [← List.append_assoc]
      exact ((hset _).append_right others).symm
    | _ =>
      have hcalls := callsOn_of_not_live hi (by simp) programs (.poll i id)
      have hafter : e.after programs (.poll i id) = e := after_eq_self hi (by simp) programs rfl
      rw [hcalls, hafter]
      exact h

theorem Engine.reaches_drop (h : u.Reaches e.shell.fs (e.files ++ others) [])
    (programs : Programs κ τ) (i : Nat) :
    u.Reaches (e.after programs (.drop i)).shell.fs
      ((e.after programs (.drop i)).files ++ others) (e.opens programs (.drop i)) := by
  have hopens : e.opens programs (.drop i) =
      FileCall.openingsOf (e.callsOn programs i (.drop i)) := rfl
  rw [hopens]
  cases hi : e.futures[i]? with
  | none =>
    have hcalls : e.callsOn programs i (.drop i) = [] := by simp [callsOn, hi]
    have hafter : e.after programs (.drop i) = e := by rw [after, hi]
    rw [hcalls, hafter]
    exact h
  | some f =>
    cases f with
    | live job =>
      obtain ⟨rest, hperm, hset⟩ := exists_perm_files hi
      have hjob : u.Reaches e.shell.fs (job.files ++ (rest ++ others)) [] := by
        rw [← List.append_assoc]
        exact h.perm (hperm.append_right others)
      have hdropped := Job.reaches_drop hjob e.timers
      have hcalls : FileCall.openingsOf (job.dropCalls e.shell) = [] := by
        cases job with
        | suspended io wait => exact e.shell.openingsOf_closings io
        | _ => rfl
      rw [callsOn_drop hi, hcalls, after_drop hi]
      refine hdropped.perm ?_
      exact ((hset .dropped).append_right others).symm
    | _ =>
      have hcalls := callsOn_of_not_live hi (by simp) programs (.drop i)
      have hafter : e.after programs (.drop i) = e := after_eq_self hi (by simp) programs rfl
      rw [hcalls, hafter]
      exact h

/-- What becomes of the filesystem when something happens to an engine, if the host leaves it
alone. -/
theorem Engine.reaches_after (h : u.Reaches e.shell.fs (e.files ++ others) [])
    (programs : Programs κ τ) (event : EngineEvent τ) :
    u.Reaches (e.after programs (event.keeping e.shell.fs)).shell.fs
      ((e.after programs (event.keeping e.shell.fs)).files ++ others)
      (e.opens programs event) := by
  cases event with
  | execute line =>
    obtain ⟨draws, phase, hshell⟩ := e.shell.accept_snd (κ := κ) (τ := τ) line
    exact reaches_add h (e.shell.files_accept line) (by rw [hshell])
  | start =>
    obtain ⟨draws, phase, hshell⟩ := e.shell.start_snd (κ := κ) (τ := τ)
    exact reaches_add h e.shell.files_start (by rw [hshell])
  | poll i id => exact reaches_poll h programs i id
  | drop i => exact reaches_drop h programs i
  | trap signal =>
    have hfs : (e.shell.trap signal).1.fs = e.shell.fs := by
      unfold Shell.trap
      split <;> rfl
    show u.Reaches (e.shell.trap signal).1.fs _ _
    rw [hfs]
    exact h
  | raise => exact h
  | setenv name value => exact h
  | host fs host timers draws today => exact h

end Engine

namespace Workplace

variable {κ τ : Type}

/-- The filesystem. -/
def fs (w : Workplace κ τ) : FileSystem :=
  w.engine.shell.fs

/-- The files at hand: those that have been opened directly, and those of the redirections of
command lines that have not ended. -/
def handles (w : Workplace κ τ) : List OpenFile :=
  w.engine.files ++ w.files

/-- The filesystem with all files at hand. -/
def inUse (w : Workplace κ τ) : FileSystemUse where
  fs := w.fs
  files := w.handles

/-- The filesystem as it is used directly. -/
def direct (w : Workplace κ τ) : FileSystemUse where
  fs := w.fs
  files := w.files

/-- The workplace after the filesystem has been used directly. -/
def withDirect (w : Workplace κ τ) (u : FileSystemUse) : Workplace κ τ where
  engine := w.engine.withShell { w.engine.shell with fs := u.fs }
  files := u.files

/-- Closing a file that has been opened directly is closing one of the files at hand. -/
theorem reaches_close (w : Workplace κ τ) {i : Nat} {file : OpenFile}
    (h : w.files[i]? = some file) :
    w.inUse.Reaches (w.direct.perform (.close i)).fs
      (w.engine.files ++ (w.direct.perform (.close i)).files) [] := by
  have hstart : w.inUse.Reaches w.fs (w.engine.files ++ w.files) [] := .refl w.inUse
  have hi : w.direct.files[i]? = some file := h
  obtain ⟨hlt, hat⟩ := List.getElem?_eq_some_iff.1 h
  -- The file comes first while it is closed, and goes back to its index.
  have hfirst : (w.engine.files ++ w.files).Perm
      (file :: (w.engine.files ++ w.files.eraseIdx i)) := by
    have hown := (List.getElem_cons_eraseIdx_perm hlt).symm
    rw [hat] at hown
    exact (hown.append_left w.engine.files).trans List.perm_middle
  have hback : ∀ closed, (w.engine.files ++ w.files.set i closed).Perm
      (closed :: (w.engine.files ++ w.files.eraseIdx i)) := fun closed =>
    ((List.set_perm_cons_eraseIdx hlt closed).append_left _).trans List.perm_middle
  have hclosed := (hstart.perm hfirst).close
  rcases hresult : w.fs.close file with ⟨e | closed, fs⟩
  · rw [hresult] at hclosed
    rw [FileSystemUse.perform_close_of_error hi hresult]
    exact hclosed.perm hfirst.symm
  · rw [hresult] at hclosed
    rw [FileSystemUse.perform_close_of_ok hi hresult]
    exact hclosed.perm (hback closed).symm

/-- An operation through the files that have been opened directly is one through the files at
hand. -/
theorem reaches_op (w : Workplace κ τ) (op : FileSystemOp) :
    w.inUse.Reaches (w.direct.perform op).fs (w.engine.files ++ (w.direct.perform op).files)
      (FileSystemEvent.op op).opening?.toList := by
  have hstart : w.inUse.Reaches w.fs (w.engine.files ++ w.files) [] := .refl w.inUse
  cases op with
  | get path => exact hstart.get path
  | create path => exact hstart.create path
  | chmod path mode => exact hstart.chmod path mode
  | program path => exact hstart.program? path
  | openFile path mode =>
    refine (hstart.openFile path mode).perm ?_
    have hfiles : (w.direct.perform (.openFile path mode)).files =
        w.files ++ [(w.fs.openFile path mode).1] := rfl
    rw [hfiles, ← List.append_assoc]
    exact (List.perm_append_singleton _ _).symm
  | read i =>
    rw [FileSystemUse.perform]
    cases hi : w.direct.files[i]? with
    | none => exact hstart
    | some file => exact hstart.outside _
  | write i data =>
    rw [FileSystemUse.perform]
    cases hi : w.direct.files[i]? with
    | none => exact hstart
    | some file =>
      have hmem : file ∈ w.files := List.mem_of_getElem? hi
      exact hstart.write (List.mem_append_right _ hmem) data
  | close i =>
    cases hi : w.direct.files[i]? with
    | none =>
      rw [FileSystemUse.perform, hi]
      exact hstart
    | some file => exact w.reaches_close hi

variable [Zero τ] [Add τ] [LT τ] [DecidableLT τ]

/-- The workplace after an event. -/
def after (programs : Programs κ τ) (w : Workplace κ τ) : WorkplaceEvent τ → Workplace κ τ
  | .op op => w.withDirect (w.direct.perform op)
  | .outside o => w.withDirect (w.direct.after (.host o))
  | .shell event => { w with engine := w.engine.after programs (event.keeping w.fs) }

/-- The workplace after a list of events. -/
def run (programs : Programs κ τ) (w : Workplace κ τ) (events : List (WorkplaceEvent τ)) :
    Workplace κ τ :=
  events.foldl (after programs) w

/-- The files that an event opens: one that is opened directly, or those of the redirections of a
command line. -/
def opens (programs : Programs κ τ) (w : Workplace κ τ) :
    WorkplaceEvent τ → List (String × OpenMode)
  | .op op => (FileSystemEvent.op op).opening?.toList
  | .outside _ => []
  | .shell event => w.engine.opens programs event

/-- For the filesystem an event comes to some steps.  They go through the files at hand and those
that the event opens, they lead to the filesystem and the files after the event, and each of them
lets the filesystem grow. -/
structure Unfolds (programs : Programs κ τ) (w : Workplace κ τ) (event : WorkplaceEvent τ)
    (steps : List FileSystemEvent) : Prop where
  trace : w.inUse.Trace steps (w.after programs event).fs (w.after programs event).handles
    (w.opens programs event)
  grows : ∀ before step rest, steps = before ++ step :: rest → (w.inUse.run before).Grows step

variable {programs : Programs κ τ} {w : Workplace κ τ}

/-- Every event is the work of steps of the filesystem. -/
theorem reaches_after (programs : Programs κ τ) (w : Workplace κ τ) (event : WorkplaceEvent τ) :
    w.inUse.Reaches (w.after programs event).fs (w.after programs event).handles
      (w.opens programs event) := by
  have hstart : w.inUse.Reaches w.fs (w.engine.files ++ w.files) [] := .refl w.inUse
  cases event with
  | op op => exact reaches_op w op
  | outside o => exact hstart.outside o
  | shell event => exact Engine.reaches_after hstart programs event

/-- Whatever steps lead to grows from step to step. -/
theorem exists_unfolds (h : w.inUse.Orderly) (programs : Programs κ τ) (event : WorkplaceEvent τ) :
    ∃ steps, w.Unfolds programs event steps := by
  obtain ⟨steps, htrace⟩ := reaches_after programs w event
  refine ⟨steps, htrace, fun before step rest hsteps => ?_⟩
  have hmem : step ∈ steps := hsteps ▸ List.mem_append_right before List.mem_cons_self
  exact FileSystemUse.grows_after (h.run before) (htrace.keepsMounts step hmem)

theorem orderly_after (h : w.inUse.Orderly) (programs : Programs κ τ) (event : WorkplaceEvent τ) :
    (w.after programs event).inUse.Orderly := by
  obtain ⟨steps, -, -, hfs, rest, hfiles⟩ := reaches_after programs w event
  have hlater := h.run steps
  have hsub : (w.after programs event).handles ⊆ (w.inUse.run steps).files := fun file hmem =>
    hfiles.mem_iff.2 (List.mem_append_left rest hmem)
  have horderly := hlater.of_subset hsub
  rw [hfs] at horderly
  exact horderly

theorem kept_after (h : w.inUse.Orderly) (programs : Programs κ τ) (event : WorkplaceEvent τ) :
    w.fs.Kept (w.after programs event).fs := by
  obtain ⟨steps, hkeeps, -, hfs, -⟩ := reaches_after programs w event
  have hkept := FileSystemUse.kept_run h hkeeps
  rw [hfs] at hkept
  exact hkept

theorem orderly_run (h : w.inUse.Orderly) (programs : Programs κ τ)
    (events : List (WorkplaceEvent τ)) : (w.run programs events).inUse.Orderly := by
  induction events generalizing w with
  | nil => exact h
  | cons event rest ih => exact ih (orderly_after h programs event)

theorem kept_run (h : w.inUse.Orderly) (programs : Programs κ τ)
    (events : List (WorkplaceEvent τ)) : w.fs.Kept (w.run programs events).fs := by
  induction events generalizing w with
  | nil => exact .refl _
  | cons event rest ih =>
    exact (kept_after h programs event).trans (ih (orderly_after h programs event))

/-- What has been shown at a path once is shown there for good, as something of the same nature. -/
theorem get_run (h : w.inUse.Orderly) (programs : Programs κ τ) {path : String} {entry : Entry}
    (hentry : (w.fs.get path).1 = .ok entry) (events : List (WorkplaceEvent τ)) :
    ∃ later,
      (((w.after programs (.op (.get path))).run programs events).fs.get path).1 = .ok later ∧
      later.kind.nature = entry.kind.nature := by
  obtain ⟨node, hnode, hnature⟩ :=
    FileSystem.exists_found?_of_get h.wellMounted.below hentry
  have hkept := kept_run (orderly_after h programs (.op (.get path))) programs events
  obtain ⟨other, hother, hsame⟩ := hkept.nodes path node hnode
  obtain ⟨later, hlater, -, hshown⟩ := FileSystem.exists_get_of_found? hother
  exact ⟨later, hlater, hshown.trans (hsame.trans hnature)⟩

/-- A workplace with a filesystem in use, and nothing executed in its shell so far. -/
def begin (u : FileSystemUse) (sh : Shell) (timers : TimerQueue τ Waker) : Workplace κ τ where
  engine := { shell := { sh with fs := u.fs }, timers }
  files := u.files

/-- However a filesystem has come about, and however it is used from then on by command lines and
directly: every event unfolds into steps each of which lets the filesystem grow, in the ways of
`FileSystemUse.Grows`.  What is found at a path stays there and keeps its nature, paths run the same
programs for good, and what has been shown at a path is shown there ever after. -/
theorem growth_run (programs : Programs κ τ) (entries : List FstabEntry) (devices : Devices)
    (o : Outside) (before : List FileSystemEvent) (sh : Shell) (timers : TimerQueue τ Waker)
    (events : List (WorkplaceEvent τ)) :
    let u := (FileSystemUse.start entries devices o).run before
    let w := (begin u sh timers : Workplace κ τ).run programs events
    (∀ event, ∃ steps, w.Unfolds programs event steps) ∧
      (∀ more, w.fs.Kept (w.run programs more).fs) ∧
      ∀ path entry, (w.fs.get path).1 = .ok entry → ∀ more,
        let later := (w.after programs (.op (.get path))).run programs more
        ∃ other, (later.fs.get path).1 = .ok other ∧ other.kind.nature = entry.kind.nature := by
  intro u w
  have hstart : (begin u sh timers : Workplace κ τ).inUse.Orderly :=
    (FileSystemUse.orderly_start entries devices o).run before
  have horderly : w.inUse.Orderly := orderly_run hstart programs events
  refine ⟨exists_unfolds horderly programs, kept_run horderly programs, ?_⟩
  intro path entry hentry more
  exact get_run horderly programs hentry more

/-- A remote tree whose index can be had from now on, but could not when it was first asked for. -/
def lateIndex : FileSystemUse × FileSystemUse :=
  let index := "\x7b\"/\":\x7b\"children\":\x7b\"a\":\x7b\x7d\x7d\x7d\x7d"
  let u := FileSystemUse.start [{ device := "d", mountPoint := "/r", typeName := "httpfs" }]
    { fetcher := true } {}
  (u, u.run [.op (.get "/r/a"), .host { fetcher := .bodies [("d/_index.json", index)] }])

/-- Not all that appears is a new file: a path that nothing was found at leads to a remote file when
it is looked up once more. -/
theorem growth_late_index :
    (lateIndex.1.fs.get "/r/a").1.toOption = none ∧ lateIndex.2.fs.found? "/r/a" = none ∧
      ∃ node, (lateIndex.2.after (.op (.get "/r/a"))).fs.found? "/r/a" = some node ∧
        node.writeable = false ∧ node.nature = .remote "d/a" ∧
        ¬ lateIndex.2.fs.IsNewFile "/r/a" node := by
  have hshown : ((lateIndex.2.after (.op (.get "/r/a"))).fs.found? "/r/a").map Node.face =
      some ⟨false, .file (.remote "d/a")⟩ := by decide +kernel
  obtain ⟨node, hnode, hface⟩ := Option.map_eq_some_iff.1 hshown
  have hflag : node.writeable = false := by
    cases node <;> exact congrArg Face.writeable hface
  refine ⟨by decide +kernel, by decide +kernel, node, hnode, hflag, ?_, ?_⟩
  · rw [Node.nature, hface]
    rfl
  · rintro ⟨rfl, -⟩
    exact absurd hflag (by decide)

end Workplace

end MountShell
