import Mathlib.Data.List.Perm.Basic
import MountShell.Proofs.FileSystem.Growth
import MountShell.Proofs.Shell.Engine

/-!
# Commands as users of the filesystem

Whatever a command does to the filesystem of its shell, it does by the operations that are there for
everybody: it looks paths up, opens its redirections, writes and closes through the files that it
has opened, and asks for files to be created and for flags to be set.  So there is always a list of
steps of a filesystem in use that leads from the state before a poll to the one after it
(`FileSystemUse.Reaches`).  The files that the steps open are those of the redirections, in the
order of the calls for them, and what is written or closed is one of these or was at hand before.

Main statements: `undisturbed_reaches`, for the requests of a command, and `Job.reaches_poll` and
`Job.reaches_drop`, for a job.
-/

namespace MountShell

/-- The path and the mode of an open. -/
def FileSystemEvent.opening? : FileSystemEvent → Option (String × OpenMode)
  | .op (.openFile path mode) => some (path, mode)
  | _ => none

/-- The path and the mode of a call that opens a redirection. -/
def FileCall.opening? : FileCall → Option (String × OpenMode)
  | .opened r sh => some (sh.resolvePath r.target, r.mode.openMode)
  | _ => none

/-- The paths and modes of the calls that open redirections. -/
def FileCall.openingsOf (calls : List FileCall) : List (String × OpenMode) :=
  calls.filterMap opening?

namespace FileSystemUse

/-- Events one after the other, cut in two. -/
theorem run_append (u : FileSystemUse) (first rest : List FileSystemEvent) :
    u.run (first ++ rest) = (u.run first).run rest :=
  List.foldl_append

/-- One more event at the end. -/
theorem run_concat (u : FileSystemUse) (steps : List FileSystemEvent) (step : FileSystemEvent) :
    u.run (steps ++ [step]) = (u.run steps).after step :=
  u.run_append steps [step]

/-- A close that is refused. -/
theorem perform_close_of_error {u : FileSystemUse} {i : Nat} {file : OpenFile} {e : FsError}
    {later : FileSystem} (hi : u.files[i]? = some file)
    (hclose : u.fs.close file = (.error e, later)) :
    u.perform (.close i) = { u with fs := later } := by
  simp only [perform, hi, hclose]

/-- A close puts the closed file in the place of the open one. -/
theorem perform_close_of_ok {u : FileSystemUse} {i : Nat} {file closed : OpenFile}
    {later : FileSystem} (hi : u.files[i]? = some file)
    (hclose : u.fs.close file = (.ok closed, later)) :
    u.perform (.close i) = { fs := later, files := u.files.set i closed } := by
  simp only [perform, hi, hclose]

/-- The steps leave the mounts alone, open the given files and lead to the filesystem `fs`.  Among
the files that are open then are those in `files`. -/
structure Trace (u : FileSystemUse) (steps : List FileSystemEvent) (fs : FileSystem)
    (files : List OpenFile) (opens : List (String × OpenMode)) : Prop where
  keepsMounts : ∀ step ∈ steps, step.keepsMounts = true
  opens : steps.filterMap FileSystemEvent.opening? = opens
  fs : (u.run steps).fs = fs
  files : ∃ rest, (u.run steps).files.Perm (files ++ rest)

/-- Some steps lead there. -/
def Reaches (u : FileSystemUse) (fs : FileSystem) (files : List OpenFile)
    (opens : List (String × OpenMode)) : Prop :=
  ∃ steps, u.Trace steps fs files opens

namespace Reaches

variable {u : FileSystemUse} {fs : FileSystem} {files : List OpenFile}
  {opens : List (String × OpenMode)}

/-- A filesystem is reached from itself without an event. -/
theorem refl (u : FileSystemUse) : u.Reaches u.fs u.files [] :=
  ⟨[], fun _ hstep => absurd hstep List.not_mem_nil, rfl, rfl, [],
    by rw [List.append_nil]; exact .refl _⟩

/-- The order of the files does not matter. -/
theorem perm (h : u.Reaches fs files opens) {other : List OpenFile} (hperm : files.Perm other) :
    u.Reaches fs other opens := by
  obtain ⟨steps, hkeeps, hopens, hfs, rest, hfiles⟩ := h
  exact ⟨steps, hkeeps, hopens, hfs, rest, hfiles.trans (hperm.append_right rest)⟩

/-- A file that is put away may stay open. -/
theorem drop (gone : List OpenFile) (h : u.Reaches fs (gone ++ files) opens) :
    u.Reaches fs files opens := by
  obtain ⟨steps, hkeeps, hopens, hfs, rest, hfiles⟩ := h
  refine ⟨steps, hkeeps, hopens, hfs, gone ++ rest, hfiles.trans ?_⟩
  have hswap : (gone ++ files).Perm (files ++ gone) := List.perm_append_comm
  rw [← List.append_assoc]
  exact hswap.append_right rest

/-- One more step, which may depend on where the files are to be found. -/
theorem step (h : u.Reaches fs files opens) {later : FileSystem} {kept : List OpenFile}
    {more : List (String × OpenMode)}
    (hstep : ∀ v : FileSystemUse, v.fs = fs → files ⊆ v.files →
      ∃ step : FileSystemEvent, step.keepsMounts = true ∧ step.opening?.toList = more ∧
        (v.after step).fs = later ∧ ∀ rest, v.files.Perm (files ++ rest) →
          ∃ rest, (v.after step).files.Perm (kept ++ rest)) :
    u.Reaches later kept (opens ++ more) := by
  obtain ⟨steps, hkeeps, hopens, hfs, rest, hfiles⟩ := h
  have hsub : files ⊆ (u.run steps).files := fun file hmem =>
    hfiles.mem_iff.2 (List.mem_append_left rest hmem)
  obtain ⟨step, hkept, hmore, hlater, hperm⟩ := hstep _ hfs hsub
  refine ⟨steps ++ [step], ?_, ?_, ?_, ?_⟩
  · exact List.forall_mem_append.2 ⟨hkeeps, List.forall_mem_singleton.2 hkept⟩
  · rw [List.filterMap_append, hopens, ← hmore]
    cases hopening : step.opening? <;> simp [hopening]
  · rw [run_concat]
    exact hlater
  · rw [run_concat]
    exact hperm rest hfiles

/-- A step that opens nothing and leaves the files as they are. -/
theorem quiet (h : u.Reaches fs files opens) {later : FileSystem}
    (hstep : ∀ v : FileSystemUse, v.fs = fs → files ⊆ v.files →
      ∃ step : FileSystemEvent, step.keepsMounts = true ∧ step.opening? = none ∧
        (v.after step).fs = later ∧ (v.after step).files = v.files) :
    u.Reaches later files opens := by
  have hquiet : u.Reaches later files (opens ++ []) := h.step fun v hfs hsub => by
    obtain ⟨step, hkept, hnone, hlater, hfiles⟩ := hstep v hfs hsub
    refine ⟨step, hkept, by rw [hnone]; rfl, hlater, fun rest hperm => ⟨rest, ?_⟩⟩
    rw [hfiles]
    exact hperm
  rwa [List.append_nil] at hquiet

/-- What lies outside may change at any time. -/
theorem outside (h : u.Reaches fs files opens) (o : Outside) :
    u.Reaches { fs with outside := o } files opens :=
  h.quiet fun v hfs _ => ⟨.host o, rfl, rfl, by rw [after, hfs], rfl⟩

/-- A lookup is an operation. -/
theorem get (h : u.Reaches fs files opens) (path : String) :
    u.Reaches (fs.get path).2 files opens :=
  h.quiet fun v hfs _ => ⟨.op (.get path), rfl, rfl, by rw [after, perform, hfs], rfl⟩

/-- Creating a file is one. -/
theorem create (h : u.Reaches fs files opens) (path : String) :
    u.Reaches (fs.create path).2 files opens :=
  h.quiet fun v hfs _ => ⟨.op (.create path), rfl, rfl, by rw [after, perform, hfs], rfl⟩

/-- Setting a flag is one. -/
theorem chmod (h : u.Reaches fs files opens) (path mode : String) :
    u.Reaches (fs.chmod path mode).2 files opens :=
  h.quiet fun v hfs _ => ⟨.op (.chmod path mode), rfl, rfl, by rw [after, perform, hfs], rfl⟩

/-- Looking for a program is one. -/
theorem program? (h : u.Reaches fs files opens) (path : String) :
    u.Reaches (fs.program? path).2 files opens :=
  h.quiet fun v hfs _ => ⟨.op (.program path), rfl, rfl, by rw [after, perform, hfs], rfl⟩

/-- A file that is opened is at hand from then on. -/
theorem openFile (h : u.Reaches fs files opens) (path : String) (mode : OpenMode) :
    u.Reaches (fs.openFile path mode).2 ((fs.openFile path mode).1 :: files)
      (opens ++ [(path, mode)]) := by
  refine h.step fun v hfs _ =>
    ⟨.op (.openFile path mode), rfl, rfl, ?_, fun rest hperm => ⟨rest, ?_⟩⟩
  · rw [after, perform, hfs]
  · have hfiles : (v.after (.op (.openFile path mode))).files =
        v.files ++ [(v.fs.openFile path mode).1] := rfl
    rw [hfiles, hfs]
    exact List.perm_append_comm.trans (hperm.cons _)

/-- What is written goes through a file at hand. -/
theorem write (h : u.Reaches fs files opens) {file : OpenFile} (hmem : file ∈ files)
    (data : String) : u.Reaches (fs.write file data).2 files opens := by
  refine h.quiet fun v hfs hsub => ?_
  obtain ⟨i, hi⟩ := List.mem_iff_getElem?.1 (hsub hmem)
  refine ⟨.op (.write i data), rfl, rfl, ?_, ?_⟩
  · rw [after, perform, hi, hfs]
  · rw [after, perform, hi]

/-- A file at hand is closed, and stays at hand as a closed one. -/
theorem close {file : OpenFile} (h : u.Reaches fs (file :: files) opens) :
    u.Reaches (fs.close file).2 ((fs.close file).1.toOption.getD file :: files) opens := by
  have hclosed : u.Reaches (fs.close file).2 ((fs.close file).1.toOption.getD file :: files)
      (opens ++ []) := h.step fun v hfs hsub => by
    obtain ⟨i, hi⟩ := List.mem_iff_getElem?.1 (hsub List.mem_cons_self)
    obtain ⟨hlt, hat⟩ := List.getElem?_eq_some_iff.1 hi
    rcases hresult : fs.close file with ⟨e | closed, later⟩
    · have hafter : v.after (.op (.close i)) = { v with fs := later } :=
        perform_close_of_error hi (hfs ▸ hresult)
      refine ⟨.op (.close i), rfl, rfl, congrArg FileSystemUse.fs hafter, fun rest hperm => ?_⟩
      rw [hafter]
      exact ⟨rest, hperm⟩
    · have hafter : v.after (.op (.close i)) = { fs := later, files := v.files.set i closed } :=
        perform_close_of_ok hi (hfs ▸ hresult)
      refine ⟨.op (.close i), rfl, rfl, congrArg FileSystemUse.fs hafter, fun rest hperm => ?_⟩
      have hothers : (v.files.eraseIdx i).Perm (files ++ rest) := by
        have hfirst := List.getElem_cons_eraseIdx_perm hlt
        rw [hat] at hfirst
        exact (hfirst.trans hperm).cons_inv
      rw [hafter]
      exact ⟨rest, (List.set_perm_cons_eraseIdx hlt closed).trans (hothers.cons closed)⟩
  rwa [List.append_nil] at hclosed

/-! ### Finding commands -/

/-- Adding the programs of a directory takes operations only, by induction on the names. -/
theorem addPrograms (h : u.Reaches fs files opens) (dir : String) (names : List String)
    (found : List (String × Command)) :
    u.Reaches (Shell.addPrograms dir names found fs).2 files opens := by
  induction names generalizing found fs with
  | nil => exact h
  | cons name names ih =>
    rw [Shell.addPrograms]
    by_cases hfound : NameMap.contains name found = true
    · rw [if_pos hfound]
      exact ih h found
    · rw [if_neg hfound]
      have hlooked := h.program? (Path.resolveFrom dir name)
      rcases hresult : fs.program? (Path.resolveFrom dir name) with ⟨_ | program, later⟩
      · rw [hresult] at hlooked
        exact ih hlooked found
      · rw [hresult] at hlooked
        exact ih hlooked _

/-- So does adding those of all directories. -/
theorem addDirectories (h : u.Reaches fs files opens) (cwd : String) (dirs : List String)
    (found : List (String × Command)) :
    u.Reaches (Shell.addDirectories cwd dirs found fs).2 files opens := by
  induction dirs generalizing found fs with
  | nil => exact h
  | cons dir dirs ih =>
    rw [Shell.addDirectories]
    have hlooked := h.get (Path.resolveFrom cwd dir)
    rcases hresult : fs.get (Path.resolveFrom cwd dir) with ⟨e | entry, later⟩
    · rw [hresult] at hlooked
      exact ih hlooked found
    · rw [hresult] at hlooked
      exact ih (hlooked.addPrograms _ entry.children found) _

variable {sh : Shell}

/-- Finding a command looks paths up. -/
theorem resolveCommand (h : u.Reaches sh.fs files opens) (name : String) :
    u.Reaches (sh.resolveCommand name).2.fs files opens := by
  unfold Shell.resolveCommand
  cases NameMap.find? name Builtin.table with
  | some command => exact h
  | none =>
    have hcommands : u.Reaches sh.commands.2.fs files opens := h.addDirectories _ _ _
    simp only
    cases NameMap.find? name sh.commands.1 with
    | some command => exact hcommands
    | none => exact hcommands.program? _

/-! ### Redirections -/

/-- The files of redirections are opened one after the other. -/
theorem openAll (h : u.Reaches sh.fs files opens) (redirections : List Redirection) :
    u.Reaches (sh.openAll redirections).2.fs ((sh.openAll redirections).1 ++ files)
      (opens ++ FileCall.openingsOf (sh.openings redirections)) := by
  induction redirections generalizing sh files opens with
  | nil =>
    rw [Shell.openings, FileCall.openingsOf, List.filterMap_nil, List.append_nil]
    exact h
  | cons r rest ih =>
    have hfirst : u.Reaches (sh.openFile r.target r.mode.openMode).2.fs
        ((sh.openFile r.target r.mode.openMode).1 :: files)
        (opens ++ [(sh.resolvePath r.target, r.mode.openMode)]) :=
      h.openFile (sh.resolvePath r.target) r.mode.openMode
    have hrest := ih hfirst
    rw [List.append_assoc] at hrest
    exact hrest.perm List.perm_middle

/-- Opening redirections adds their files to those that are open. -/
theorem buildIo (h : u.Reaches sh.fs files opens) (command : String)
    (redirections : List Redirection) :
    u.Reaches (sh.buildIo command redirections).2.fs
      ((sh.buildIo command redirections).1.files ++ files)
      (opens ++ FileCall.openingsOf (sh.openings (outputsFirst redirections))) := by
  obtain ⟨hfiles, hshell⟩ := sh.buildIo_eq command redirections
  rw [hfiles, hshell]
  exact h.openAll _

/-- A line goes through the files of the outputs. -/
theorem writeOutputs {outputs : List Output} (h : u.Reaches fs files opens)
    (hmem : ∀ out ∈ outputs, out.file ∈ files) (command line : String) (host : Host) :
    u.Reaches (Io.writeOutputs command line outputs fs host).2.1 files opens := by
  induction outputs generalizing fs host with
  | nil => exact h
  | cons out rest ih =>
    obtain ⟨hout, hrest⟩ := List.forall_mem_cons.1 hmem
    have hwritten : u.Reaches (out.write line fs).2.2 files opens := by
      unfold Output.write
      cases out.file.handle.errorMessage with
      | some reason => exact h
      | none =>
        have hfile := out.file_addLine line
        rw [← hfile] at hout
        have hwrite := h.write hout (out.addLine line).1
        simp only
        rcases hresult : fs.write (out.addLine line).2.file (out.addLine line).1 with
          ⟨e | taken, later⟩ <;>
          rwa [hresult] at hwrite
    rw [Io.writeOutputs]
    exact ih hwritten hrest _

/-- Closing files puts them away. -/
theorem closeFiles {closing : List OpenFile} (h : u.Reaches fs (closing ++ files) opens) :
    u.Reaches (Io.closeFiles closing fs).2 files opens := by
  induction closing generalizing fs with
  | nil => exact h
  | cons file rest ih =>
    rw [Shell.closeFiles_cons_snd]
    by_cases herror : file.handle.isError = true
    · rw [if_pos herror]
      exact ih (drop [file] h)
    · rw [if_neg herror]
      exact ih (drop [_] (close h))

/-- Releasing redirections closes theirs and leaves the others open. -/
theorem release {io : Io} (h : u.Reaches sh.fs (io.files ++ files) opens) :
    u.Reaches (sh.release io).fs files opens :=
  h.closeFiles

end Reaches

/-- Reading files asks for what lies outside. -/
theorem readFiles_snd (files : List OpenFile) (fs : FileSystem) :
    ∃ o, (Io.readFiles files fs).2 = { fs with outside := o } := by
  induction files generalizing fs with
  | nil => exact ⟨fs.outside, rfl⟩
  | cons file rest ih =>
    have hread : (fs.read file).2 = { fs with outside := (fs.read file).2.outside } := rfl
    rw [Io.readFiles]
    rcases hresult : fs.read file with ⟨e | body, later⟩
    · rw [hresult] at hread
      exact ⟨_, hread⟩
    · rw [hresult] at hread
      obtain ⟨o, ho⟩ := ih later
      refine ⟨o, ?_⟩
      have hlater : { later with outside := o } = { fs with outside := o } := by
        rw [show later = { fs with outside := later.outside } from hread]
      simp only
      rw [← hlater, ← ho]
      rcases Io.readFiles rest later with ⟨e | bodies, last⟩ <;> rfl

end FileSystemUse

/-! ### Requests -/

/-- The openings of calls, cut in two. -/
theorem FileCall.openingsOf_append (first rest : List FileCall) :
    openingsOf (first ++ rest) = openingsOf first ++ openingsOf rest :=
  List.filterMap_append

/-- What calls open is told by those that open or close files. -/
theorem FileCall.openingsOf_handlings (calls : List FileCall) :
    openingsOf (handlings calls) = openingsOf calls := by
  refine filterMap_handlings (fun call h => ?_) calls
  cases call with
  | opened r sh => exact absurd h.symm Bool.false_ne_true
  | _ => rfl

/-- Releasing redirections opens nothing. -/
theorem Shell.openingsOf_closings (sh : Shell) (io : Io) :
    FileCall.openingsOf (sh.closings io) = [] := by
  refine List.filterMap_eq_nil_iff.2 fun call hcall => ?_
  obtain ⟨file, -, -, fs, rfl⟩ := eq_closed_of_mem_closingsOf hcall
  rfl

/-- Requests open nothing. -/
theorem Context.openingsOf_calls (c : Context) (r : Request) :
    FileCall.openingsOf (c.calls r) = [] := by
  by_cases hrelease : r = .release
  · subst hrelease
    exact c.shell.openingsOf_closings c.io
  · rw [← FileCall.openingsOf_handlings, c.handlings_calls hrelease]
    rfl

/-- What the preparations of a line open are its redirections. -/
theorem CommandLine.openingsOf_preparations (line : CommandLine) (sh : Shell) :
    FileCall.openingsOf (line.preparations sh) =
      FileCall.openingsOf (line.openings (line.building? sh)) := by
  rw [← FileCall.openingsOf_handlings, line.handlings_preparations]

open FileSystemUse in
/-- A request is answered by operations of the filesystem. -/
theorem Context.reaches_answer {u : FileSystemUse} {c : Context} {files : List OpenFile}
    {opens : List (String × OpenMode)} (h : u.Reaches c.shell.fs (c.io.files ++ files) opens)
    (r : Request) :
    u.Reaches (c.answer r).2.shell.fs ((c.answer r).2.io.files ++ files) opens := by
  -- only a release takes files away
  by_cases hrelease : r = .release
  · subst hrelease
    exact Reaches.closeFiles h
  rw [c.files_answer hrelease]
  cases r with
  | release => exact absurd rfl hrelease
  | writeLine line =>
    show u.Reaches (c.io.writeLine line c.shell.fs c.shell.host).2.1 _ opens
    unfold Io.writeLine
    by_cases hempty : c.io.outputs.isEmpty = true
    · rw [if_pos hempty]
      exact h
    · rw [if_neg hempty]
      refine h.writeOutputs (fun out hout => ?_) _ _ _
      have hfile : out.file ∈ c.io.outputs.map Output.file := List.mem_map_of_mem hout
      exact List.mem_append_left _ (List.mem_append_left _ hfile)
  | readAll =>
    show u.Reaches (c.io.readAll c.shell.fs c.shell.host).2.1 _ opens
    unfold Io.readAll
    by_cases hempty : c.io.inputs.isEmpty = true
    · rw [if_pos hempty]
      exact h
    · rw [if_neg hempty]
      obtain ⟨o, ho⟩ := readFiles_snd c.io.inputs c.shell.fs
      simp only [ho]
      exact h.outside o
  | getPath path =>
    have hlooked := h.get (c.shell.resolvePath path)
    simp only [answer, Shell.getPath]
    rcases hresult : c.shell.fs.get (c.shell.resolvePath path) with ⟨e | entry, later⟩ <;>
      rwa [hresult] at hlooked
  | readEntry entry => exact h.outside _
  | createFile path =>
    have hcreated := h.create (c.shell.resolvePath path)
    simp only [answer, Shell.createFile]
    rcases hresult : c.shell.fs.create (c.shell.resolvePath path) with ⟨e | node, later⟩ <;>
      rwa [hresult] at hcreated
  | chmod path mode => exact h.chmod _ mode
  | _ => exact h

/-- Whatever a command asks for, steps of the filesystem lead there.  The files in `others` are not
its own. -/
theorem undisturbed_reaches (u : FileSystemUse) (others : List OpenFile) :
    Undisturbed fun sh io calls =>
      u.Reaches sh.fs (io.files ++ others) (FileCall.openingsOf calls) where
  answer c r calls h := by
    rw [FileCall.openingsOf_append, c.openingsOf_calls, List.append_nil]
    exact Context.reaches_answer h r
  flag sh io calls flag h := h
  host sh io calls host h := h

/-! ### Jobs -/

section Job

variable {κ τ : Type}

/-- The files that a job holds. -/
def Job.files : Job κ τ → List OpenFile
  | suspended io _ => io.files
  | settled _ | accepted _ => []

/-- The files that a future holds. -/
def Future.files : Future κ τ → List OpenFile
  | live job => job.files
  | finished _ | dropped => []

/-- A poll leads to a filesystem that operations reach, with the files of the command open as long
as it waits. -/
theorem Job.Comes.reaches {u : FileSystemUse} {others : List OpenFile} {p : JobPoll κ τ}
    {calls : List FileCall}
    (h : Job.Comes (fun sh io calls =>
      u.Reaches sh.fs (io.files ++ others) (FileCall.openingsOf calls)) p calls) :
    u.Reaches p.shell.fs ((Future.ofProgress p.progress).files ++ others)
      (FileCall.openingsOf calls) := by
  cases h with
  | finish code c timers calls hc =>
    rw [FileCall.openingsOf_append, c.shell.openingsOf_closings, List.append_nil]
    exact FileSystemUse.Reaches.release hc
  | suspend wait c timers calls hc => exact hc

/-- Dropping a job puts its files away. -/
theorem Job.reaches_drop {u : FileSystemUse} {others : List OpenFile} {job : Job κ τ} {sh : Shell}
    (h : u.Reaches sh.fs (job.files ++ others) []) [Zero τ] [Add τ] [LT τ] [DecidableLT τ]
    (timers : TimerQueue τ Waker) : u.Reaches (job.drop sh timers).1.fs others [] := by
  cases job with
  | settled result => exact h
  | accepted line => exact h
  | suspended io wait => exact FileSystemUse.Reaches.release h

variable [Zero τ] [Add τ] [LT τ] [DecidableLT τ]

/-- A poll opens the redirections of its line if it is the first one, and goes through the files
that the job holds. -/
theorem Job.reaches_poll {u : FileSystemUse} {others : List OpenFile} {job : Job κ τ} {sh : Shell}
    (h : u.Reaches sh.fs (job.files ++ others) []) (programs : Programs κ τ) (id : Nat)
    (timers : TimerQueue τ Waker) :
    u.Reaches (job.poll programs id sh timers).shell.fs
      ((Future.ofProgress (job.poll programs id sh timers).progress).files ++ others)
      (FileCall.openingsOf (job.pollCalls programs id sh timers)) := by
  have hundisturbed := undisturbed_reaches u others
  cases job with
  | settled result => exact h
  | suspended io wait =>
    have hstart : u.Reaches sh.fs (io.files ++ others) (FileCall.openingsOf []) := h
    have hcomes := hundisturbed.poll_suspended programs id wait timers hstart
    exact hcomes.reaches
  | accepted line =>
    cases hargs : line.args with
    | nil =>
      have hcalls := Job.pollCalls_of_args_eq_nil programs id hargs sh timers
      have hfs := sh.fs_assignAll line.assignments
      rw [hcalls, Job.poll, Job.commence, hargs]
      show u.Reaches (sh.assignAll line.assignments).fs others []
      rw [hfs]
      exact h
    | cons name args =>
      have hbegin : u.Reaches { sh with env := sh.env.pushScope line.exports }.fs others [] := h
      have hfound := hbegin.resolveCommand name
      -- before the command is found nothing is opened; then its redirections are
      refine (hundisturbed.commence programs id hargs timers ?_ ?_).reaches
      · intro begun host hbegun
        have hbuilding := CommandLine.building?_cons hargs sh
        rw [hbegun] at hfound hbuilding
        rw [line.openingsOf_preparations, hbuilding]
        exact hfound
      · intro command begun hbegun
        have hbuilding := CommandLine.building?_cons hargs sh
        rw [hbegun] at hfound hbuilding
        have hbuild : u.Reaches ({ begun with phase := .buildingIo } : Shell).fs others [] := hfound
        have hbuilt := hbuild.buildIo name line.redirections
        rw [line.openingsOf_preparations, hbuilding]
        exact hbuilt

end Job

end MountShell
