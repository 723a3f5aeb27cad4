import MountShell.Proofs.Shell.Release

/-!
# Passages of a filesystem

Whenever the future of a line is polled or dropped, the filesystem of the shell passes from one
state to another through calls (`Passage`).  Over several passages the files of the redirections are
opened, and in one of them they are all released (`ReleasedIn`).

Main statements: `callsFor_of_opens` and `callsFor_of_released`, what is said of the calls at any
moment (`CallsFor`); and `ReleasedIn.allClosed`, what has become of the files and of the texts when
all have been released (`AllClosed`).
-/

namespace MountShell

open FileCall

/-! ### Passages -/

/-- The shell before and after a future is polled or dropped, and the calls that are made. -/
structure Passage where
  before : Shell
  calls : List FileCall
  after : Shell

namespace Passage

/-- All calls of some passages, in order. -/
def allCalls (through : List Passage) : List FileCall :=
  through.flatMap calls

theorem allCalls_append (first rest : List Passage) :
    allCalls (first ++ rest) = allCalls first ++ allCalls rest :=
  List.flatMap_append

theorem allCalls_singleton (p : Passage) : allCalls [p] = p.calls :=
  List.flatMap_singleton ..

/-- In the passage the files are closed, one right after the other, which leads from the filesystem
`mid` to `shut`.  What the calls before do leads to `mid`, and after `shut` there are acts that need
no open file. -/
def Releases (p : Passage) (files : List OpenFile) (mid shut : FileSystem) : Prop :=
  ∃ early closes late, p.calls = early ++ closes ++ late ∧
    closes.map closedFile? = files.map some ∧ (∀ call ∈ late, call.isAct = true) ∧
    Leads p.before.fs early mid ∧ Leads mid closes shut ∧ Leads shut late p.after.fs

end Passage

open Passage

/-- In one of the passages all files that have been opened are released; before it and in it the
calls that open them are made, and after it there are only acts. -/
def ReleasedIn (opens : List FileCall) (through : List Passage) : Prop :=
  ∃ earlier p later early sh io late,
    through = earlier ++ p :: later ∧ p.calls = early ++ Shell.closings sh io ++ late ∧
      io.files = openedFiles opens ∧ handlings (allCalls earlier ++ early) = opens ∧
      ∀ call ∈ late ++ allCalls later, call.isAct = true

variable {opens calls : List FileCall} {through : List Passage}

/-- A release in a passage that comes next is one in all of them. -/
theorem Released.releasedIn {own : List FileCall} {p : Passage}
    (h : Released (openedFiles opens) own p.calls)
    (hopens : handlings (allCalls through) ++ own = opens) :
    ReleasedIn opens (through ++ [p]) := by
  obtain ⟨early, sh, io, late, hfiles, hearly, hcalls, hlate⟩ := h
  refine ⟨through, p, [], early, sh, io, late, rfl, hcalls, hfiles, ?_, ?_⟩
  · rw [handlings_append, hearly]
    exact hopens
  · rw [show allCalls [] = [] from rfl, List.append_nil]
    exact hlate

/-- After the release a passage that comes next has only acts. -/
theorem ReleasedIn.concat (h : ReleasedIn opens through) {p : Passage}
    (hacts : ∀ call ∈ p.calls, call.isAct = true) : ReleasedIn opens (through ++ [p]) := by
  obtain ⟨earlier, q, later, early, sh, io, late, rfl, hcalls, hfiles, hopens, hlate⟩ := h
  refine ⟨earlier, q, later ++ [p], early, sh, io, late, by simp, hcalls, hfiles, hopens, ?_⟩
  rw [allCalls_append, allCalls_singleton, ← List.append_assoc]
  exact fun call hcall => (List.mem_append.1 hcall).elim (hlate call) (hacts call)

/-- All in all files are handled to open redirections, and then to close them. -/
theorem ReleasedIn.handlings_eq (h : ReleasedIn opens through) :
    ∃ (sh : Shell) (io : Io), io.files = openedFiles opens ∧
      handlings (allCalls through) = opens ++ sh.closings io := by
  obtain ⟨earlier, p, later, early, sh, io, late, rfl, hcalls, hfiles, hopens, hlate⟩ := h
  have hcloses : handlings (sh.closings io) = sh.closings io :=
    handlings_eq_self fun call => Shell.handles_closings
  have hacts : handlings (late ++ allCalls later) = [] :=
    handlings_eq_nil fun call hcall => handles_of_isAct (hlate call hcall)
  refine ⟨sh, io, hfiles, ?_⟩
  have hall : allCalls (earlier ++ p :: later) =
      (allCalls earlier ++ early) ++ sh.closings io ++ (late ++ allCalls later) := by
    have hcons : allCalls (p :: later) = p.calls ++ allCalls later := List.flatMap_cons
    rw [allCalls_append, hcons, hcalls]
    simp only [List.append_assoc]
  rw [hall, handlings_append, handlings_append, hopens, hcloses, hacts, List.append_nil]

/-! ### What the calls of a line are -/

/-- What is said of the calls for a line at any moment, if `build` is the shell that opens its
redirections. -/
structure CallsFor (redirections : List Redirection) (build : Option Shell)
    (calls : List FileCall) : Prop where
  /-- Each redirection is opened once, outputs first, and none if there is no shell that opens
  them. -/
  opened : calls.filterMap redirection? = if build.isSome then outputsFirst redirections else []
  /-- Without such a shell, because the future has not been polled or the command has not been
  found, no file is opened or closed at all. -/
  none : build = none → handlings calls = []
  /-- Only a file that could be opened is closed, and closing it succeeds. -/
  closes : ∀ file sh, .closed file sh ∈ calls → file.handle.isError = false ∧
    (sh.fs.close file).1 = .ok { file with handle := { file.handle with closed := true } }
  /-- All files that could be opened are closed, or none yet. -/
  once : closedFiles calls = [] ∨
    closedFiles calls = (openedFiles calls).filter fun file => !file.handle.isError

/-- What is said of the passages for a line when the command has ended or has been dropped. -/
structure AllClosed (redirections : List Redirection) (build : Option Shell)
    (through : List Passage) : Prop where
  /-- Each file that could be opened has been closed as often as it was opened, and no other file
  has. -/
  closed : closedFiles (allCalls through) =
    (openedFiles (allCalls through)).filter fun file => !file.handle.isError
  /-- That is done in one of the passages.  A text that is there then is ended with one newline for
  each file that was opened to write to it, and that is the body it has when the passage is over. -/
  ended : ∃ p ∈ through, ∃ mid shut,
    p.Releases ((openedFiles (allCalls through)).filter fun file => !file.handle.isError) mid shut ∧
    ∀ spot body, mid.textAt? spot = some body →
      let ending := FileSystem.endings ((openedFiles (allCalls through)).countP (·.ends spot))
      shut.textAt? spot = some (body ++ ending) ∧ p.after.fs.bodyAt? spot = some (body ++ ending)
  /-- Where there was a node before the redirections were opened, or a text right after that, these
  files are as many as the redirections for writing that lead there. -/
  targets : ∀ sh, build = some sh → ∀ spot, (sh.fs.nodeAt? spot).isSome = true ∨
      ((sh.openAll (outputsFirst redirections)).2.fs.textAt? spot).isSome = true →
    (openedFiles (allCalls through)).countP (·.ends spot) =
      redirections.countP (sh.writesTo · spot)

theorem countP_outputsFirst (p : Redirection → Bool) (redirections : List Redirection) :
    (outputsFirst redirections).countP p = redirections.countP p := by
  rw [outputsFirst, List.countP_append]
  induction redirections with
  | nil => rfl
  | cons r rest ih =>
    rw [List.countP_cons, ← ih]
    cases hmode : r.mode.isWrite <;> simp [List.countP_cons, hmode] <;> omega

section Line

variable {line : CommandLine} {build : Option Shell}

/-- Opening redirections closes nothing. -/
theorem closedFiles_openings : closedFiles (line.openings build) = [] := by
  cases build with
  | none => rfl
  | some sh => exact sh.closedFiles_openings _

theorem closed_of_mem_openings {file : OpenFile} (h : file ∈ openedFiles (line.openings build))
    (herror : file.handle.isError = false) : file.handle.closed = false := by
  cases build with
  | none => exact absurd h List.not_mem_nil
  | some sh => exact Shell.closed_of_mem_openedFiles h herror

theorem redirections_openings :
    (line.openings build).filterMap redirection? =
      if build.isSome then outputsFirst line.redirections else [] := by
  cases build with
  | none => rfl
  | some sh => exact sh.redirections_openings _

/-- A call that closes a file is none of those that open redirections. -/
theorem closed_notMem_openings (file : OpenFile) (sh : Shell) :
    .closed file sh ∉ line.openings build := by
  intro h
  have hmem : file ∈ closedFiles (line.openings build) :=
    List.mem_filterMap.2 ⟨_, h, rfl⟩
  rw [closedFiles_openings] at hmem
  exact absurd hmem List.not_mem_nil

/-- The calls are as they should be as long as nothing has been closed. -/
theorem callsFor_of_opens (h : handlings calls = line.openings build) :
    CallsFor line.redirections build calls where
  opened := by
    rw [← redirections_handlings, h]
    exact redirections_openings
  none hnone := by
    rw [h, hnone]
    rfl
  closes file sh hcall := by
    have hmem : .closed file sh ∈ handlings calls := List.mem_filter.2 ⟨hcall, rfl⟩
    rw [h] at hmem
    exact absurd hmem (closed_notMem_openings file sh)
  once := by
    rw [← closedFiles_handlings, h]
    exact Or.inl closedFiles_openings

/-- The files that were opened and those that were closed, when all have been released. -/
theorem files_of_released {sh : Shell} {io : Io}
    (hfiles : io.files = openedFiles (line.openings build))
    (h : handlings calls = line.openings build ++ sh.closings io) :
    openedFiles calls = io.files ∧
      closedFiles calls = io.files.filter fun file => !file.handle.isError := by
  rw [← openedFiles_handlings, ← closedFiles_handlings, h, openedFiles, closedFiles,
    List.filterMap_append, List.filterMap_append]
  constructor
  · exact (congrArg _ (sh.openedFiles_closingsOf io.files)).trans
      ((List.append_nil _).trans hfiles.symm)
  · exact (congrArg (· ++ _) closedFiles_openings).trans (sh.closedFiles_closingsOf io.files)

/-- The calls are as they should be when everything has been closed. -/
theorem callsFor_of_released {sh : Shell} {io : Io}
    (hfiles : io.files = openedFiles (line.openings build))
    (h : handlings calls = line.openings build ++ sh.closings io) :
    CallsFor line.redirections build calls where
  opened := by
    rw [← redirections_handlings, h, List.filterMap_append, Shell.closings,
      sh.redirections_closingsOf, List.append_nil]
    exact redirections_openings
  none hnone := by
    subst hnone
    rw [h, sh.closings_eq_nil hfiles]
    rfl
  closes file sh' hcall := by
    have hmem : .closed file sh' ∈ handlings calls := List.mem_filter.2 ⟨hcall, rfl⟩
    rw [h] at hmem
    have hclosing := (List.mem_append.1 hmem).resolve_left (closed_notMem_openings file sh')
    obtain ⟨other, hother, herror, fs, heq⟩ := Shell.eq_closed_of_mem_closingsOf hclosing
    obtain ⟨rfl, rfl⟩ := FileCall.closed.inj heq
    rw [hfiles] at hother
    refine ⟨herror, ?_⟩
    rw [FileSystem.close_fst, closed_of_mem_openings hother herror]
    rfl
  once := by
    obtain ⟨hopened, hclosed⟩ := files_of_released hfiles h
    rw [hopened]
    exact Or.inr hclosed

/-- Where all files are released in one of the passages, and the calls lead through all of them,
that is what has become of the files and of the texts. -/
theorem ReleasedIn.allClosed (h : ReleasedIn (line.openings build) through)
    (hleads : ∀ p ∈ through, Leads p.before.fs p.calls p.after.fs) :
    AllClosed line.redirections build through := by
  obtain ⟨_, _, hfiles', hhandlings⟩ := h.handlings_eq
  obtain ⟨hopened, hclosed⟩ := files_of_released hfiles' hhandlings
  rw [hfiles'] at hopened hclosed
  refine ⟨by rw [hopened]; exact hclosed, ?_, ?_⟩
  · obtain ⟨earlier, p, later, early, sh, io, late, rfl, hcalls, hfiles, -, hlate⟩ := h
    have hp : p ∈ earlier ++ p :: later := List.mem_append_right _ List.mem_cons_self
    have hpassage := hleads p hp
    rw [hcalls] at hpassage
    obtain ⟨shut, hpassage, hlast⟩ := leads_append_iff.1 hpassage
    obtain ⟨mid, hearly, hcloses⟩ := leads_append_iff.1 hpassage
    have hacts : ∀ call ∈ late, call.isAct = true :=
      fun call hcall => hlate call (List.mem_append_left _ hcall)
    rw [hopened, ← hfiles]
    refine ⟨p, hp, mid, shut, ⟨early, sh.closings io, late, hcalls,
      sh.map_closedFile?_closingsOf io.files, hacts, hearly, hcloses, hlast⟩, ?_⟩
    intro spot body htext
    have hopen : ∀ file ∈ io.files, file.handle.isError = false → file.handle.closed = false := by
      rw [hfiles]
      exact fun file => closed_of_mem_openings
    have hover := Shell.textAt?_closeFiles hopen htext
    rw [← Shell.eq_closeFiles_of_leads hcloses] at hover
    exact ⟨hover, hlast.bodyAt? hacts (FileSystem.bodyAt?_of_textAt? hover)⟩
  · rintro first rfl spot hspot
    rw [hopened, ← countP_outputsFirst]
    exact Shell.countP_openings hspot

end Line

end MountShell
