import MountShell.Shell.Job

/-!
# Calls of the filesystem

Everything that a command line does to the filesystem of its shell, call by call (`FileCall`), each
with the shell that makes it: the files of redirections are opened and closed, lines are written to
them and they are read, and what else is asked for are the acts of a filesystem (`FileAct`).  Where
such calls are made the filesystem goes from one to the next (`FileCall.Leads`), so that they
account for all that becomes of it.

Main statements: `leads_openings` and `leads_closings`, for redirections; `leads_lookups`, for
finding a command; and `leads_writings` and `leads_readings`, for what goes through redirections.
-/

namespace MountShell

/-- Something that is asked of a filesystem other than through an open file. -/
inductive FileAct where
  | get (path : String)
  | program (path : String)
  | create (path : String)
  | chmod (path mode : String)
  /-- The text of an entry is asked for. -/
  | fetch (entry : Entry)

/-- The filesystem after an act. -/
def FileAct.after : FileAct → FileSystem → FileSystem
  | get path, fs => (fs.get path).2
  | program path, fs => (fs.program? path).2
  | create path, fs => (fs.create path).2
  | chmod path mode, fs => (fs.chmod path mode).2
  | fetch entry, fs => { fs with outside := (entry.read fs.outside).2 }

/-- Does an act only look a path up? -/
def FileAct.looks : FileAct → Bool
  | get _ | program _ => true
  | create _ | chmod _ _ | fetch _ => false

/-- A call of the filesystem, and the shell that makes it. -/
inductive FileCall where
  /-- A redirection is opened. -/
  | opened (r : Redirection) (sh : Shell)
  | closed (file : OpenFile) (sh : Shell)
  | wrote (file : OpenFile) (data : String) (sh : Shell)
  | read (file : OpenFile) (sh : Shell)
  | did (act : FileAct) (sh : Shell)

namespace FileCall

/-- The shell that makes the call. -/
def shell : FileCall → Shell
  | opened _ sh | closed _ sh | wrote _ _ sh | read _ sh | did _ sh => sh

/-- The filesystem after the call. -/
def after : FileCall → FileSystem
  | opened r sh => (sh.openFile r.target r.mode.openMode).2.fs
  | closed file sh => (sh.fs.close file).2
  | wrote file data sh => (sh.fs.write file data).2
  | read file sh => (sh.fs.read file).2
  | did act sh => act.after sh.fs

/-- The redirection that is opened. -/
def redirection? : FileCall → Option Redirection
  | opened r _ => some r
  | _ => none

/-- The file that an opening call gives. -/
def openedFile? : FileCall → Option OpenFile
  | opened r sh => some (sh.openFile r.target r.mode.openMode).1
  | _ => none

/-- The file that a closing call is about. -/
def closedFile? : FileCall → Option OpenFile
  | closed file _ => some file
  | _ => none

/-- Is the call one that opens or closes a file? -/
def handles : FileCall → Bool
  | opened _ _ | closed _ _ => true
  | _ => false

/-- Is the call one that no open file is needed for? -/
def isAct : FileCall → Bool
  | did _ _ => true
  | _ => false

/-- Does the call only look a path up? -/
def looks : FileCall → Bool
  | did act _ => act.looks
  | _ => false

/-- One after the other the calls lead from the filesystem `fs` to `last`. -/
def Leads : FileSystem → List FileCall → FileSystem → Prop
  | fs, [], last => fs = last
  | fs, call :: calls, last => call.shell.fs = fs ∧ Leads call.after calls last

/-- The files that calls have opened. -/
def openedFiles (calls : List FileCall) : List OpenFile :=
  calls.filterMap openedFile?

/-- The files that calls have closed. -/
def closedFiles (calls : List FileCall) : List OpenFile :=
  calls.filterMap closedFile?

/-- The calls that open or close files. -/
def handlings (calls : List FileCall) : List FileCall :=
  calls.filter handles

variable {fs mid last : FileSystem} {first rest calls : List FileCall}

/-- Calls are cut anywhere. -/
theorem leads_append_iff :
    Leads fs (first ++ rest) last ↔ ∃ mid, Leads fs first mid ∧ Leads mid rest last := by
  induction first generalizing fs with
  | nil =>
    rw [List.nil_append]
    exact ⟨fun h => ⟨fs, rfl, h⟩, fun ⟨mid, hmid, h⟩ => by rwa [show fs = mid from hmid]⟩
  | cons call first ih =>
    rw [List.cons_append, Leads, ih]
    exact ⟨fun ⟨hshell, mid, hfirst, hrest⟩ => ⟨mid, ⟨hshell, hfirst⟩, hrest⟩,
      fun ⟨mid, ⟨hshell, hfirst⟩, hrest⟩ => ⟨hshell, mid, hfirst, hrest⟩⟩

/-- Calls that lead on from where others have led. -/
theorem Leads.append (h : Leads fs first mid) (hrest : Leads mid rest last) :
    Leads fs (first ++ rest) last :=
  leads_append_iff.2 ⟨mid, h, hrest⟩

/-- What handles files among calls, told apart at a cut. -/
theorem handlings_append : handlings (first ++ rest) = handlings first ++ handlings rest :=
  List.filter_append ..

theorem handlings_eq_nil (h : ∀ call ∈ calls, call.handles = false) : handlings calls = [] :=
  List.filter_eq_nil_iff.2 fun call hcall => by simp [h call hcall]

theorem handlings_eq_self (h : ∀ call ∈ calls, call.handles = true) : handlings calls = calls :=
  List.filter_eq_self.2 h

/-- An act neither opens nor closes a file. -/
theorem handles_of_isAct {call : FileCall} (h : call.isAct = true) : call.handles = false := by
  cases call with
  | did act sh => rfl
  | _ => exact absurd h Bool.false_ne_true

/-- To look a path up is an act. -/
theorem isAct_of_looks {call : FileCall} (h : call.looks = true) : call.isAct = true := by
  cases call with
  | did act sh => rfl
  | _ => exact absurd h Bool.false_ne_true

/-- What is read off the calls that open or close files is read off these alone. -/
theorem filterMap_handlings {α : Type} {f : FileCall → Option α}
    (hf : ∀ call, call.handles = false → f call = none) (calls : List FileCall) :
    (handlings calls).filterMap f = calls.filterMap f := by
  induction calls with
  | nil => rfl
  | cons call calls ih =>
    cases hcall : call.handles with
    | true =>
      rw [handlings, List.filter_cons_of_pos hcall]
      cases hf' : f call with
      | none =>
        rw [List.filterMap_cons_none hf', List.filterMap_cons_none hf']
        exact ih
      | some a =>
        rw [List.filterMap_cons_some hf', List.filterMap_cons_some hf']
        exact congrArg (List.cons a) ih
    | false =>
      rw [handlings, List.filter_cons_of_neg (by simp [hcall]),
        List.filterMap_cons_none (hf call hcall)]
      exact ih

/-- The files that are opened can be read off the calls that handle files. -/
theorem openedFiles_handlings (calls : List FileCall) :
    openedFiles (handlings calls) = openedFiles calls := by
  refine filterMap_handlings (fun call h => ?_) calls
  cases call with
  | opened r sh => exact absurd h.symm Bool.false_ne_true
  | _ => rfl

/-- So can the files that are closed. -/
theorem closedFiles_handlings (calls : List FileCall) :
    closedFiles (handlings calls) = closedFiles calls := by
  refine filterMap_handlings (fun call h => ?_) calls
  cases call with
  | closed file sh => exact absurd h.symm Bool.false_ne_true
  | _ => rfl

/-- So can the redirections that are opened. -/
theorem redirections_handlings (calls : List FileCall) :
    (handlings calls).filterMap redirection? = calls.filterMap redirection? := by
  refine filterMap_handlings (fun call h => ?_) calls
  cases call with
  | opened r sh => exact absurd h.symm Bool.false_ne_true
  | _ => rfl

end FileCall

/-- The redirections in the order in which they are opened. -/
def outputsFirst (redirections : List Redirection) : List Redirection :=
  (redirections.filter fun r => r.mode.isWrite) ++ redirections.filter fun r => !r.mode.isWrite

/-- The files of the redirections that have not been released. -/
def Io.files (io : Io) : List OpenFile :=
  io.outputs.map Output.file ++ io.inputs

namespace Shell

/-- The calls that open redirections. -/
def openings (sh : Shell) : List Redirection → List FileCall
  | [] => []
  | r :: rest => .opened r sh :: (sh.openFile r.target r.mode.openMode).2.openings rest

/-- The calls that close files, which are none for a file that could not be opened. -/
def closingsOf (sh : Shell) : List OpenFile → List FileCall
  | [] => []
  | file :: rest =>
    if file.handle.isError then sh.closingsOf rest
    else .closed file sh :: { sh with fs := (sh.fs.close file).2 }.closingsOf rest

/-- The calls that close the redirections of a command. -/
def closings (sh : Shell) (io : Io) : List FileCall :=
  sh.closingsOf io.files

/-- The calls that write a line to outputs, which are none for a file that could not be opened. -/
def writings (line : String) (sh : Shell) : List Output → List FileCall
  | [] => []
  | out :: rest =>
    match out.file.handle.errorMessage with
    | some _ => writings line sh rest
    | none =>
      let data := (out.addLine line).1
      .wrote out.file data sh :: writings line { sh with fs := (sh.fs.write out.file data).2 } rest

/-- The calls that read files, up to the first that cannot be read. -/
def readings (sh : Shell) : List OpenFile → List FileCall
  | [] => []
  | file :: rest =>
    .read file sh ::
      match sh.fs.read file with
      | (.ok _, fs) => { sh with fs }.readings rest
      | (.error _, _) => []

/-- The calls that look for programs among the names in a directory. -/
def programLookups (dir : String) :
    List String → List (String × Command) → Shell → List FileCall
  | [], _, _ => []
  | name :: names, found, sh =>
    if NameMap.contains name found then programLookups dir names found sh
    else
      .did (.program (Path.resolveFrom dir name)) sh ::
        match sh.fs.program? (Path.resolveFrom dir name) with
        | (some program, fs) =>
          programLookups dir names (NameMap.insert name (.program program) found) { sh with fs }
        | (none, fs) => programLookups dir names found { sh with fs }

/-- The calls that look for programs in directories. -/
def directoryLookups (cwd : String) :
    List String → List (String × Command) → Shell → List FileCall
  | [], _, _ => []
  | dir :: dirs, found, sh =>
    let dir := Path.resolveFrom cwd dir
    .did (.get dir) sh ::
      match sh.fs.get dir with
      | (.error _, fs) => directoryLookups cwd dirs found { sh with fs }
      | (.ok entry, fs) =>
        programLookups dir entry.children found { sh with fs } ++
          let (found, fs) := addPrograms dir entry.children found fs
          directoryLookups cwd dirs found { sh with fs }

/-- The calls that find a command. -/
def lookups (sh : Shell) (name : String) : List FileCall :=
  match NameMap.find? name Builtin.table with
  | some _ => []
  | none =>
    let dirs := (Text.split ':' ((sh.env.stored "PATH").getD "")).filter (· ≠ "")
    directoryLookups sh.cwd dirs Builtin.table sh ++
      match NameMap.find? name sh.commands.1 with
      | some _ => []
      | none => [.did (.program (sh.resolvePath name)) sh.commands.2]

/-! ### What opening redirections does -/

/-- Redirections are opened one after the other. -/
theorem openAll_append (sh : Shell) (first rest : List Redirection) :
    sh.openAll (first ++ rest) =
      ((sh.openAll first).1 ++ ((sh.openAll first).2.openAll rest).1,
        ((sh.openAll first).2.openAll rest).2) := by
  induction first generalizing sh with
  | nil => rfl
  | cons r first ih =>
    rw [List.cons_append, openAll, openAll]
    simp only [ih, List.cons_append]

/-- The files are those that the calls have opened. -/
theorem openAll_fst (sh : Shell) (redirections : List Redirection) :
    (sh.openAll redirections).1 = FileCall.openedFiles (sh.openings redirections) := by
  induction redirections generalizing sh with
  | nil => rfl
  | cons r rest ih =>
    have hrest := ih (sh.openFile r.target r.mode.openMode).2
    rw [openAll, openings]
    simp only [hrest]
    rfl

/-- The opening calls account for all that opening redirections does. -/
theorem leads_openings (sh : Shell) (redirections : List Redirection) :
    FileCall.Leads sh.fs (sh.openings redirections) (sh.openAll redirections).2.fs := by
  induction redirections generalizing sh with
  | nil => rfl
  | cons r rest ih => exact ⟨rfl, ih _⟩

/-- Every redirection is opened once, in the given order. -/
theorem redirections_openings (sh : Shell) (redirections : List Redirection) :
    (sh.openings redirections).filterMap FileCall.redirection? = redirections := by
  induction redirections generalizing sh with
  | nil => rfl
  | cons r rest ih => exact congrArg (r :: ·) (ih _)

/-- Opening redirections makes no other calls, and each at a shell that differs in its filesystem
only. -/
theorem eq_opened_of_mem_openings {sh : Shell} {redirections : List Redirection} {call : FileCall}
    (h : call ∈ sh.openings redirections) :
    ∃ r ∈ redirections, ∃ fs, call = .opened r { sh with fs } := by
  induction redirections generalizing sh with
  | nil => exact absurd h (by simp [openings])
  | cons r rest ih =>
    rcases List.mem_cons.1 h with rfl | h
    · exact ⟨r, List.mem_cons_self, sh.fs, rfl⟩
    · obtain ⟨other, hmem, hother⟩ := ih h
      exact ⟨other, List.mem_cons_of_mem _ hmem, hother⟩

/-- Opening redirections closes nothing. -/
theorem closedFiles_openings (sh : Shell) (redirections : List Redirection) :
    FileCall.closedFiles (sh.openings redirections) = [] := by
  refine List.filterMap_eq_nil_iff.2 fun call hcall => ?_
  obtain ⟨r, -, fs, rfl⟩ := eq_opened_of_mem_openings hcall
  rfl

/-- Opening redirections changes the filesystem only. -/
theorem openAll_snd (sh : Shell) (redirections : List Redirection) :
    ∃ fs, (sh.openAll redirections).2 = { sh with fs } := by
  induction redirections generalizing sh with
  | nil => exact ⟨sh.fs, rfl⟩
  | cons r rest ih =>
    obtain ⟨fs, hfs⟩ := ih (sh.openFile r.target r.mode.openMode).2
    exact ⟨fs, hfs⟩

/-- The redirections of a command are opened outputs first, and their files are kept in that order.
-/
theorem buildIo_eq (sh : Shell) (command : String) (redirections : List Redirection) :
    (sh.buildIo command redirections).1.files = (sh.openAll (outputsFirst redirections)).1 ∧
      (sh.buildIo command redirections).2 = (sh.openAll (outputsFirst redirections)).2 := by
  unfold buildIo outputsFirst Io.files
  rw [openAll_append]
  refine ⟨?_, rfl⟩
  simp [List.map_map, Function.comp_def]

/-- The redirections of a command are the files that the calls have opened. -/
theorem files_buildIo (sh : Shell) (command : String) (redirections : List Redirection) :
    (sh.buildIo command redirections).1.files =
      FileCall.openedFiles (sh.openings (outputsFirst redirections)) :=
  (buildIo_eq sh command redirections).1.trans (openAll_fst sh _)

/-- Opening the redirections of a command changes the filesystem only. -/
theorem buildIo_snd (sh : Shell) (command : String) (redirections : List Redirection) :
    ∃ fs, (sh.buildIo command redirections).2 = { sh with fs } := by
  obtain ⟨fs, hfs⟩ := sh.openAll_snd (outputsFirst redirections)
  exact ⟨fs, (buildIo_eq sh command redirections).2.trans hfs⟩

/-- The opening calls account for all that opening the redirections of a command does. -/
theorem leads_buildIo (sh : Shell) (command : String) (redirections : List Redirection) :
    FileCall.Leads sh.fs (sh.openings (outputsFirst redirections))
      (sh.buildIo command redirections).2.fs := by
  rw [(buildIo_eq sh command redirections).2]
  exact sh.leads_openings _

/-! ### What releasing redirections does -/

/-- What closing leaves of the filesystem, file by file. -/
theorem closeFiles_cons_snd (file : OpenFile) (rest : List OpenFile) (fs : FileSystem) :
    (Io.closeFiles (file :: rest) fs).2 =
      (Io.closeFiles rest (if file.handle.isError then fs else (fs.close file).2)).2 := by
  rw [Io.closeFiles]
  by_cases herror : file.handle.isError = true
  · rw [if_pos herror, if_pos herror]
  · rw [if_neg herror, if_neg herror]
    cases fs.close file with
    | mk result after => cases result <;> rfl

/-- The calls of closing files lead to the filesystem that it leaves. -/
theorem leads_closingsOf (sh : Shell) (files : List OpenFile) :
    FileCall.Leads sh.fs (sh.closingsOf files) (Io.closeFiles files sh.fs).2 := by
  induction files generalizing sh with
  | nil => rfl
  | cons file rest ih =>
    rw [closingsOf, closeFiles_cons_snd]
    by_cases herror : file.handle.isError = true
    · rw [if_pos herror, if_pos herror]
      exact ih sh
    · rw [if_neg herror, if_neg herror]
      exact ⟨rfl, ih { sh with fs := (sh.fs.close file).2 }⟩

/-- The closing calls account for all that releasing does. -/
theorem leads_closings (sh : Shell) (io : Io) :
    FileCall.Leads sh.fs (sh.closings io) (sh.release io).fs :=
  sh.leads_closingsOf io.files

/-- Wherever closing calls lead, that is what releasing comes to. -/
theorem eq_closeFiles_of_leads {sh : Shell} {files : List OpenFile} {fs last : FileSystem}
    (h : FileCall.Leads fs (sh.closingsOf files) last) : last = (Io.closeFiles files fs).2 := by
  induction files generalizing sh fs with
  | nil => exact Eq.symm h
  | cons file rest ih =>
    rw [closingsOf] at h
    rw [closeFiles_cons_snd]
    by_cases herror : file.handle.isError = true
    · rw [if_pos herror] at h ⊢
      exact ih h
    · rw [if_neg herror] at h ⊢
      obtain ⟨rfl, hrest⟩ := h
      exact ih hrest

/-- The calls close the files that could be opened, one right after the other, each as often as it
stands there. -/
theorem map_closedFile?_closingsOf (sh : Shell) (files : List OpenFile) :
    (sh.closingsOf files).map FileCall.closedFile? =
      (files.filter fun file => !file.handle.isError).map some := by
  induction files generalizing sh with
  | nil => rfl
  | cons file rest ih =>
    rw [closingsOf]
    by_cases herror : file.handle.isError = true
    · rw [if_pos herror, List.filter_cons_of_neg (by simp [herror])]
      exact ih sh
    · rw [if_neg herror, List.filter_cons_of_pos (by simp [herror])]
      exact congrArg (some file :: ·) (ih _)

/-- All files are closed but those that failed to open. -/
theorem closedFiles_closingsOf (sh : Shell) (files : List OpenFile) :
    FileCall.closedFiles (sh.closingsOf files) =
      files.filter fun file => !file.handle.isError := by
  have hmap := congrArg (List.filterMap id) (sh.map_closedFile?_closingsOf files)
  rwa [List.filterMap_map, List.filterMap_map, Function.id_comp, Function.id_comp,
    List.filterMap_some] at hmap

/-- Closing files makes no other calls. -/
theorem eq_closed_of_mem_closingsOf {sh : Shell} {files : List OpenFile} {call : FileCall}
    (h : call ∈ sh.closingsOf files) :
    ∃ file ∈ files, file.handle.isError = false ∧ ∃ fs, call = .closed file { sh with fs } := by
  induction files generalizing sh with
  | nil => exact absurd h (by simp [closingsOf])
  | cons file rest ih =>
    rw [closingsOf] at h
    by_cases herror : file.handle.isError = true
    · rw [if_pos herror] at h
      obtain ⟨other, hmem, hother⟩ := ih h
      exact ⟨other, List.mem_cons_of_mem _ hmem, hother⟩
    · rw [if_neg herror] at h
      rcases List.mem_cons.1 h with rfl | h
      · exact ⟨file, List.mem_cons_self, Bool.eq_false_iff.2 herror, sh.fs, rfl⟩
      · obtain ⟨other, hmem, hother⟩ := ih h
        exact ⟨other, List.mem_cons_of_mem _ hmem, hother⟩

/-- Closing files opens nothing. -/
theorem openedFiles_closingsOf (sh : Shell) (files : List OpenFile) :
    FileCall.openedFiles (sh.closingsOf files) = [] := by
  refine List.filterMap_eq_nil_iff.2 fun call hcall => ?_
  obtain ⟨file, -, -, fs, rfl⟩ := eq_closed_of_mem_closingsOf hcall
  rfl

theorem redirections_closingsOf (sh : Shell) (files : List OpenFile) :
    (sh.closingsOf files).filterMap FileCall.redirection? = [] := by
  refine List.filterMap_eq_nil_iff.2 fun call hcall => ?_
  obtain ⟨file, -, -, fs, rfl⟩ := eq_closed_of_mem_closingsOf hcall
  rfl

/-- Releasing redirections only handles files. -/
theorem handles_closings {sh : Shell} {io : Io} {call : FileCall} (h : call ∈ sh.closings io) :
    call.handles = true := by
  obtain ⟨file, -, -, fs, rfl⟩ := eq_closed_of_mem_closingsOf h
  rfl

/-- A command that holds no redirections has nothing to close. -/
theorem closings_eq_nil {io : Io} (h : io.files = []) (sh : Shell) : sh.closings io = [] := by
  rw [closings, h]
  rfl

end Shell

/-! ### What goes through redirections -/

/-- A line does not change which file an output is bound to. -/
theorem Output.file_addLine (out : Output) (line : String) :
    (out.addLine line).2.file = out.file := by
  unfold Output.addLine
  cases out.file.handle.mode <;> rfl

namespace Shell

/-- A write to an output is a write to its file, unless that failed to open. -/
theorem fs_write (out : Output) (line : String) (fs : FileSystem) :
    (out.write line fs).2.2 =
      match out.file.handle.errorMessage with
      | some _ => fs
      | none => (fs.write out.file (out.addLine line).1).2 := by
  unfold Output.write
  cases out.file.handle.errorMessage with
  | some reason => rfl
  | none =>
    simp only [out.file_addLine line]
    rcases fs.write out.file (out.addLine line).1 with ⟨e | taken, after⟩ <;> rfl

/-- The writing calls account for all that writing a line to outputs does to the filesystem. -/
theorem leads_writings (command line : String) (outputs : List Output) (sh : Shell) (host : Host) :
    FileCall.Leads sh.fs (writings line sh outputs)
      (Io.writeOutputs command line outputs sh.fs host).2.1 := by
  induction outputs generalizing sh host with
  | nil => rfl
  | cons out rest ih =>
    have hfs := fs_write out line sh.fs
    rw [writings, Io.writeOutputs]
    simp only
    cases herror : out.file.handle.errorMessage with
    | some reason =>
      rw [herror] at hfs
      rw [hfs]
      exact ih sh _
    | none =>
      rw [herror] at hfs
      rw [hfs]
      exact ⟨rfl, ih { sh with fs := (sh.fs.write out.file (out.addLine line).1).2 } _⟩

/-- Writing a line makes no calls but writes to the outputs. -/
theorem eq_wrote_of_mem_writings {line : String} {sh : Shell} {outputs : List Output}
    {call : FileCall} (h : call ∈ writings line sh outputs) :
    ∃ out ∈ outputs, ∃ data fs, call = .wrote out.file data { sh with fs } := by
  induction outputs generalizing sh with
  | nil => exact absurd h (by simp [writings])
  | cons out rest ih =>
    rw [writings] at h
    cases herror : out.file.handle.errorMessage with
    | some reason =>
      rw [herror] at h
      obtain ⟨other, hmem, hother⟩ := ih h
      exact ⟨other, List.mem_cons_of_mem _ hmem, hother⟩
    | none =>
      rw [herror] at h
      rcases List.mem_cons.1 h with rfl | h
      · exact ⟨out, List.mem_cons_self, _, sh.fs, rfl⟩
      · obtain ⟨other, hmem, hother⟩ := ih h
        exact ⟨other, List.mem_cons_of_mem _ hmem, hother⟩

/-- The reading calls account for all that reading files does to the filesystem. -/
theorem leads_readings (files : List OpenFile) (sh : Shell) :
    FileCall.Leads sh.fs (sh.readings files) (Io.readFiles files sh.fs).2 := by
  induction files generalizing sh with
  | nil => rfl
  | cons file rest ih =>
    rw [readings]
    refine ⟨rfl, ?_⟩
    show FileCall.Leads (sh.fs.read file).2 _ _
    rcases hread : sh.fs.read file with ⟨e | body, fs⟩
    · rw [Io.readFiles, hread]
      rfl
    · have hrest := ih { sh with fs }
      have hsame : (Io.readFiles (file :: rest) sh.fs).2 = (Io.readFiles rest fs).2 := by
        rw [Io.readFiles, hread]
        simp only
        rcases Io.readFiles rest fs with ⟨e | bodies, last⟩ <;> rfl
      rw [hsame]
      exact hrest

/-- Reading the input makes no calls but reads of its files. -/
theorem eq_read_of_mem_readings {sh : Shell} {files : List OpenFile} {call : FileCall}
    (h : call ∈ sh.readings files) :
    ∃ file ∈ files, ∃ fs, call = .read file { sh with fs } := by
  induction files generalizing sh with
  | nil => exact absurd h (by simp [readings])
  | cons file rest ih =>
    rcases List.mem_cons.1 h with rfl | h
    · exact ⟨file, List.mem_cons_self, sh.fs, rfl⟩
    · rcases hread : sh.fs.read file with ⟨e | body, fs⟩
      · rw [hread] at h
        exact absurd h List.not_mem_nil
      · rw [hread] at h
        obtain ⟨other, hmem, hother⟩ := ih h
        exact ⟨other, List.mem_cons_of_mem _ hmem, hother⟩

/-! ### What finding a command does -/

/-- The lookups of the names in a directory lead to the filesystem that adding its programs leaves.
-/
theorem leads_programLookups (dir : String) (names : List String)
    (found : List (String × Command)) (sh : Shell) :
    FileCall.Leads sh.fs (programLookups dir names found sh)
      (addPrograms dir names found sh.fs).2 := by
  induction names generalizing found sh with
  | nil => rfl
  | cons name names ih =>
    rw [programLookups, addPrograms]
    by_cases hfound : NameMap.contains name found = true
    · rw [if_pos hfound, if_pos hfound]
      exact ih found sh
    · rw [if_neg hfound, if_neg hfound]
      refine ⟨rfl, ?_⟩
      show FileCall.Leads (sh.fs.program? (Path.resolveFrom dir name)).2 _ _
      rcases sh.fs.program? (Path.resolveFrom dir name) with ⟨_ | program, fs⟩
      · exact ih found { sh with fs }
      · exact ih _ { sh with fs }

/-- The lookups in all directories lead to the filesystem that adding their programs leaves. -/
theorem leads_directoryLookups (cwd : String) (dirs : List String)
    (found : List (String × Command)) (sh : Shell) :
    FileCall.Leads sh.fs (directoryLookups cwd dirs found sh)
      (addDirectories cwd dirs found sh.fs).2 := by
  induction dirs generalizing found sh with
  | nil => rfl
  | cons dir dirs ih =>
    rw [directoryLookups, addDirectories]
    refine ⟨rfl, ?_⟩
    show FileCall.Leads (sh.fs.get (Path.resolveFrom cwd dir)).2 _ _
    rcases sh.fs.get (Path.resolveFrom cwd dir) with ⟨e | entry, fs⟩
    · exact ih found { sh with fs }
    · exact (leads_programLookups _ entry.children found { sh with fs }).append
        (ih (addPrograms _ entry.children found fs).1 { sh with fs := _ })

/-- The lookups account for all that finding a command does. -/
theorem leads_lookups (sh : Shell) (name : String) :
    FileCall.Leads sh.fs (sh.lookups name) (sh.resolveCommand name).2.fs := by
  unfold lookups resolveCommand
  cases NameMap.find? name Builtin.table with
  | some command => rfl
  | none =>
    have hcommands : FileCall.Leads sh.fs _ sh.commands.2.fs :=
      leads_directoryLookups sh.cwd _ Builtin.table sh
    simp only
    cases NameMap.find? name sh.commands.1 with
    | some command =>
      rw [List.append_nil]
      exact hcommands
    | none =>
      refine hcommands.append ?_
      exact ⟨rfl, rfl⟩

/-- Adding programs makes no calls but lookups of programs. -/
theorem eq_did_of_mem_programLookups {dir : String} {names : List String}
    {found : List (String × Command)} {sh : Shell} {call : FileCall}
    (h : call ∈ programLookups dir names found sh) :
    ∃ path fs, call = .did (.program path) { sh with fs } := by
  induction names generalizing found sh with
  | nil => exact absurd h (by simp [programLookups])
  | cons name names ih =>
    rw [programLookups] at h
    by_cases hfound : NameMap.contains name found = true
    · rw [if_pos hfound] at h
      exact ih h
    · rw [if_neg hfound] at h
      rcases List.mem_cons.1 h with rfl | h
      · exact ⟨_, sh.fs, rfl⟩
      · rcases hprogram : sh.fs.program? (Path.resolveFrom dir name) with ⟨_ | program, fs⟩
        · rw [hprogram] at h
          obtain ⟨path, later, hcall⟩ := ih h
          exact ⟨path, later, hcall⟩
        · rw [hprogram] at h
          obtain ⟨path, later, hcall⟩ := ih h
          exact ⟨path, later, hcall⟩

/-- Adding the programs of directories makes no calls but lookups. -/
theorem eq_did_of_mem_directoryLookups {cwd : String} {dirs : List String}
    {found : List (String × Command)} {sh : Shell} {call : FileCall}
    (h : call ∈ directoryLookups cwd dirs found sh) :
    ∃ act fs, act.looks = true ∧ call = .did act { sh with fs } := by
  induction dirs generalizing found sh with
  | nil => exact absurd h (by simp [directoryLookups])
  | cons dir dirs ih =>
    rw [directoryLookups] at h
    rcases List.mem_cons.1 h with rfl | h
    · exact ⟨_, sh.fs, rfl, rfl⟩
    · rcases hget : sh.fs.get (Path.resolveFrom cwd dir) with ⟨e | entry, fs⟩
      · rw [hget] at h
        obtain ⟨act, later, hcall⟩ := ih h
        exact ⟨act, later, hcall⟩
      · rw [hget] at h
        rcases List.mem_append.1 h with h | h
        · obtain ⟨path, fs, rfl⟩ := eq_did_of_mem_programLookups h
          exact ⟨.program path, fs, rfl, rfl⟩
        · obtain ⟨act, later, hcall⟩ := ih h
          exact ⟨act, later, hcall⟩

/-- To find a command paths are looked up, and nothing else is done. -/
theorem eq_did_of_mem_lookups {sh : Shell} {name : String} {call : FileCall}
    (h : call ∈ sh.lookups name) :
    ∃ act fs, act.looks = true ∧ call = .did act { sh with fs } := by
  unfold lookups at h
  cases hown : NameMap.find? name Builtin.table with
  | some command =>
    rw [hown] at h
    exact absurd h List.not_mem_nil
  | none =>
    rw [hown] at h
    rcases List.mem_append.1 h with h | h
    · exact eq_did_of_mem_directoryLookups h
    · cases hfound : NameMap.find? name sh.commands.1 with
      | some command =>
        rw [hfound] at h
        exact absurd h List.not_mem_nil
      | none =>
        rw [hfound] at h
        obtain rfl := List.mem_singleton.1 h
        exact ⟨_, _, rfl, rfl⟩

end Shell

end MountShell
