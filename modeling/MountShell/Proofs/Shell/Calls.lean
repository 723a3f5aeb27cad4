import MountShell.Proofs.Shell.FileCall

/-!
# The calls of a command line

The calls of the filesystem that a request makes, a routine, a command that is driven, and a job
that is polled or dropped, all of them and in order.

Main statements: `Context.leads_answer`, what is listed for a request accounts for all that
answering it does to the filesystem; and `Context.cases_calls`, a request closes the redirections or
goes through them, or it is an act that needs none.
-/

namespace MountShell

/-- The calls of a request. -/
def Context.calls (c : Context) : Request → List FileCall
  | .writeLine line => Shell.writings line c.shell c.io.outputs
  | .readAll => c.shell.readings c.io.inputs
  | .release => c.shell.closings c.io
  | .getPath path => [.did (.get (c.shell.resolvePath path)) c.shell]
  | .readEntry entry => [.did (.fetch entry) c.shell]
  | .createFile path => [.did (.create (c.shell.resolvePath path)) c.shell]
  | .chmod path mode => [.did (.chmod (c.shell.resolvePath path) mode) c.shell]
  | _ => []

/-- The calls of a routine. -/
def Routine.calls {α : Type} : Routine α → Context → List FileCall
  | done _, _ => []
  | ask request next, c =>
    c.calls request ++ (next (c.answer request).1).calls (c.answer request).2

namespace CommandLine

/-- The shell that opens the redirections of a line which is begun in the shell `sh`; there is none
unless the command of the line is found. -/
def building? (line : CommandLine) (sh : Shell) : Option Shell :=
  match line.args with
  | [] => none
  | name :: _ =>
    match { sh with env := sh.env.pushScope line.exports }.resolveCommand name with
    | (none, _) => none
    | (some _, sh) => some { sh with phase := .buildingIo }

theorem building?_cons {line : CommandLine} {name : String} {args : List String}
    (h : line.args = name :: args) (sh : Shell) :
    line.building? sh =
      match { sh with env := sh.env.pushScope line.exports }.resolveCommand name with
      | (none, _) => none
      | (some _, sh) => some { sh with phase := .buildingIo } := by
  cases line
  cases h
  rfl

/-- The calls that find the command of a line. -/
def lookups (line : CommandLine) (sh : Shell) : List FileCall :=
  match line.args with
  | [] => []
  | name :: _ => { sh with env := sh.env.pushScope line.exports }.lookups name

theorem lookups_cons {line : CommandLine} {name : String} {args : List String}
    (h : line.args = name :: args) (sh : Shell) :
    line.lookups sh = { sh with env := sh.env.pushScope line.exports }.lookups name := by
  cases line
  cases h
  rfl

/-- The calls that open the redirections of a line, if there is a shell that opens them. -/
def openings (line : CommandLine) : Option Shell → List FileCall
  | none => []
  | some sh => sh.openings (outputsFirst line.redirections)

/-- The calls before a command runs: it is looked for, and if it is found the redirections are
opened. -/
def preparations (line : CommandLine) (sh : Shell) : List FileCall :=
  line.lookups sh ++ line.openings (line.building? sh)

end CommandLine

namespace Job

variable {κ τ : Type} [Zero τ] [Add τ] [LT τ] [DecidableLT τ]

/-- The calls between two steps and in the second of them. -/
def boundaryCalls (programs : Programs κ τ) (computation : κ) (c : Context) : List FileCall :=
  if c.shell.flag.take.2 then []
  else
    (programs.step computation).calls
      { c with shell := { c.shell with flag := c.shell.flag.take.1 } }

/-- The calls of a computation that is driven. -/
def driveCalls (programs : Programs κ τ) (id : Nat) :
    Nat → κ → Context → TimerQueue τ Waker → List FileCall
  | 0, _, _, _ => []
  | n + 1, computation, c, timers =>
    boundaryCalls programs computation c ++
      match boundary programs computation c with
      | (.inl _, c) => c.shell.closings c.io
      | (.inr (.turn _), _) => []
      | (.inr wait, c) =>
        match lookAt id wait c.shell timers with
        | (.inl next, shell, timers) => driveCalls programs id n next { c with shell } timers
        | (.inr _, _, _) => []

/-- The calls of a computation in one poll. -/
def goOnCalls (programs : Programs κ τ) (id : Nat) (computation : κ) (c : Context)
    (timers : TimerQueue τ Waker) : List FileCall :=
  driveCalls programs id (stepsAllowed programs computation c.shell) computation c timers

/-- The calls of a command whose redirections have been opened. -/
def runCalls (programs : Programs κ τ) (id : Nat) (command : Command) (args : List String)
    (c : Context) (timers : TimerQueue τ Waker) : List FileCall :=
  (command.run programs args).calls c ++
    match (command.run programs args).run c with
    | (.exit _, c) => c.shell.closings c.io
    | (.nothing, c) => c.shell.closings c.io
    | (.suspend computation, c) => goOnCalls programs id computation c timers

/-- The calls of a line that is begun. -/
def commenceCalls (programs : Programs κ τ) (id : Nat) (line : CommandLine) (sh : Shell)
    (timers : TimerQueue τ Waker) : List FileCall :=
  line.preparations sh ++
    match line.args with
    | [] => []
    | name :: args =>
      match { sh with env := sh.env.pushScope line.exports }.resolveCommand name with
      | (none, _) => []
      | (some command, sh) =>
        let (io, sh) := { sh with phase := .buildingIo }.buildIo name line.redirections
        runCalls programs id command args { shell := { sh with phase := .running }, io } timers

/-- The calls of a job that is polled on behalf of the task in slot `id`. -/
def pollCalls (programs : Programs κ τ) (id : Nat) (job : Job κ τ) (sh : Shell)
    (timers : TimerQueue τ Waker) : List FileCall :=
  match job with
  | .settled _ => []
  | .accepted line => commenceCalls programs id line sh timers
  | .suspended io wait =>
    match lookAt id wait sh timers with
    | (.inl next, shell, timers) => goOnCalls programs id next { shell, io } timers
    | (.inr _, _, _) => []

/-- A line without a command calls for nothing. -/
theorem pollCalls_of_args_eq_nil (programs : Programs κ τ) (id : Nat) {line : CommandLine}
    (h : line.args = []) (sh : Shell) (timers : TimerQueue τ Waker) :
    pollCalls programs id (.accepted line) sh timers = [] := by
  cases line
  cases h
  rfl

/-- The calls of a job that is dropped. -/
def dropCalls (job : Job κ τ) (sh : Shell) : List FileCall :=
  match job with
  | .settled _ | .accepted _ => []
  | .suspended io _ => sh.closings io

end Job

/-! ### Requests -/

theorem Shell.fs_getPath (sh : Shell) (path : String) :
    (sh.getPath path).2 = { sh with fs := (sh.fs.get (sh.resolvePath path)).2 } := by
  unfold Shell.getPath
  rcases sh.fs.get (sh.resolvePath path) with ⟨e | entry, fs⟩ <;> rfl

theorem Shell.fs_createFile (sh : Shell) (path : String) :
    (sh.createFile path).2 = { sh with fs := (sh.fs.create (sh.resolvePath path)).2 } := by
  unfold Shell.createFile
  rcases sh.fs.create (sh.resolvePath path) with ⟨e | node, fs⟩ <;> rfl

namespace Context

variable {c : Context} {r : Request} {call : FileCall}

/-- The calls of a request account for all that answering it does to the filesystem. -/
theorem leads_answer (c : Context) (r : Request) :
    FileCall.Leads c.shell.fs (c.calls r) (c.answer r).2.shell.fs := by
  cases r with
  | writeLine line =>
    have hlead := Shell.leads_writings c.io.command line c.io.outputs c.shell c.shell.host
    show FileCall.Leads _ _ (c.io.writeLine line c.shell.fs c.shell.host).2.1
    unfold Io.writeLine
    by_cases hempty : c.io.outputs.isEmpty = true
    · have hnil : c.io.outputs = [] := List.isEmpty_iff.1 hempty
      rw [if_pos hempty, calls, hnil]
      rfl
    · rw [if_neg hempty]
      exact hlead
  | readAll =>
    have hlead := Shell.leads_readings c.io.inputs c.shell
    show FileCall.Leads _ _ (c.io.readAll c.shell.fs c.shell.host).2.1
    unfold Io.readAll
    by_cases hempty : c.io.inputs.isEmpty = true
    · have hnil : c.io.inputs = [] := List.isEmpty_iff.1 hempty
      rw [if_pos hempty, calls, hnil]
      rfl
    · rw [if_neg hempty]
      exact hlead
  | release => exact c.shell.leads_closings c.io
  | getPath path => exact ⟨rfl, (congrArg Shell.fs (c.shell.fs_getPath path)).symm⟩
  | createFile path => exact ⟨rfl, (congrArg Shell.fs (c.shell.fs_createFile path)).symm⟩
  | readEntry entry => exact ⟨rfl, rfl⟩
  | chmod path mode => exact ⟨rfl, rfl⟩
  | _ => rfl

/-- What a request calls for: it closes what the command holds, or writes to or reads what the
command holds, or it is an act that needs no open file. -/
theorem cases_calls (h : call ∈ c.calls r) :
    (r = .release ∧ call.handles = true) ∨
      (r ≠ .release ∧ c.io.files ≠ [] ∧ call.handles = false) ∨
      (r ≠ .release ∧ call.isAct = true) := by
  cases r with
  | release => exact Or.inl ⟨rfl, Shell.handles_closings h⟩
  | writeLine line =>
    obtain ⟨out, hout, data, fs, rfl⟩ := Shell.eq_wrote_of_mem_writings h
    refine Or.inr (Or.inl ⟨Request.noConfusion, fun hnil => ?_, rfl⟩)
    have hmap := (List.append_eq_nil_iff.1 hnil).1
    exact absurd (List.map_eq_nil_iff.1 hmap ▸ hout) List.not_mem_nil
  | readAll =>
    obtain ⟨file, hfile, fs, rfl⟩ := Shell.eq_read_of_mem_readings h
    refine Or.inr (Or.inl ⟨Request.noConfusion, fun hnil => ?_, rfl⟩)
    exact absurd ((List.append_eq_nil_iff.1 hnil).2 ▸ hfile) List.not_mem_nil
  | getPath path =>
    obtain rfl := List.mem_singleton.1 h
    exact Or.inr (Or.inr ⟨Request.noConfusion, rfl⟩)
  | readEntry entry =>
    obtain rfl := List.mem_singleton.1 h
    exact Or.inr (Or.inr ⟨Request.noConfusion, rfl⟩)
  | createFile path =>
    obtain rfl := List.mem_singleton.1 h
    exact Or.inr (Or.inr ⟨Request.noConfusion, rfl⟩)
  | chmod path mode =>
    obtain rfl := List.mem_singleton.1 h
    exact Or.inr (Or.inr ⟨Request.noConfusion, rfl⟩)
  | _ => exact absurd h List.not_mem_nil

/-- A request other than that to release the redirections opens and closes nothing. -/
theorem handlings_calls (h : r ≠ .release) : FileCall.handlings (c.calls r) = [] := by
  refine FileCall.handlings_eq_nil fun call hcall => ?_
  rcases cases_calls hcall with ⟨hrelease, -⟩ | ⟨-, -, hnot⟩ | ⟨-, hact⟩
  · exact absurd hrelease h
  · exact hnot
  · exact FileCall.handles_of_isAct hact

/-- A command that holds no redirections is left with acts. -/
theorem isAct_of_mem_calls (hnil : c.io.files = []) (h : call ∈ c.calls r) :
    call.isAct = true := by
  by_cases hrelease : r = .release
  · subst hrelease
    rw [calls, c.shell.closings_eq_nil hnil] at h
    exact absurd h List.not_mem_nil
  · rcases cases_calls h with ⟨heq, -⟩ | ⟨-, hfiles, -⟩ | ⟨-, hact⟩
    · exact absurd heq hrelease
    · exact absurd hnil hfiles
    · exact hact

/-- Calls are made in the phase of the shell. -/
theorem phase_of_mem_calls (h : call ∈ c.calls r) : call.shell.phase = c.shell.phase := by
  cases r with
  | release =>
    obtain ⟨file, -, -, fs, rfl⟩ := Shell.eq_closed_of_mem_closingsOf h
    rfl
  | writeLine line =>
    obtain ⟨out, -, data, fs, rfl⟩ := Shell.eq_wrote_of_mem_writings h
    rfl
  | readAll =>
    obtain ⟨file, -, fs, rfl⟩ := Shell.eq_read_of_mem_readings h
    rfl
  | getPath path => exact congrArg (·.shell.phase) (List.mem_singleton.1 h)
  | readEntry entry => exact congrArg (·.shell.phase) (List.mem_singleton.1 h)
  | createFile path => exact congrArg (·.shell.phase) (List.mem_singleton.1 h)
  | chmod path mode => exact congrArg (·.shell.phase) (List.mem_singleton.1 h)
  | _ => exact absurd h List.not_mem_nil

end Context

/-! ### Lines -/

namespace CommandLine

variable {line : CommandLine} {sh : Shell} {call : FileCall}

/-- To find the command of a line paths are looked up, and nothing else is done. -/
theorem eq_did_of_mem_lookups (h : call ∈ line.lookups sh) :
    ∃ act env fs, act.looks = true ∧ call = .did act { sh with env, fs } := by
  unfold lookups at h
  cases hargs : line.args with
  | nil =>
    rw [hargs] at h
    exact absurd h List.not_mem_nil
  | cons name args =>
    rw [hargs] at h
    obtain ⟨act, fs, hlooks, rfl⟩ := Shell.eq_did_of_mem_lookups h
    exact ⟨act, _, fs, hlooks, rfl⟩

theorem looks_of_mem_lookups (h : call ∈ line.lookups sh) : call.looks = true := by
  obtain ⟨act, env, fs, hlooks, rfl⟩ := eq_did_of_mem_lookups h
  exact hlooks

/-- Before a command runs, no file is handled but for its redirections. -/
theorem handlings_preparations (line : CommandLine) (sh : Shell) :
    FileCall.handlings (line.preparations sh) = line.openings (line.building? sh) := by
  have hlookups : FileCall.handlings (line.lookups sh) = [] :=
    FileCall.handlings_eq_nil fun call hcall =>
      FileCall.handles_of_isAct (FileCall.isAct_of_looks (looks_of_mem_lookups hcall))
  have hopenings : FileCall.handlings (line.openings (line.building? sh)) =
      line.openings (line.building? sh) := by
    refine FileCall.handlings_eq_self fun call hcall => ?_
    cases hbuild : line.building? sh with
    | none =>
      rw [hbuild] at hcall
      exact absurd hcall List.not_mem_nil
    | some build =>
      rw [hbuild] at hcall
      obtain ⟨r, -, fs, rfl⟩ := Shell.eq_opened_of_mem_openings hcall
      rfl
  rw [preparations, FileCall.handlings_append, hlookups, hopenings, List.nil_append]

/-- The shell that opens redirections is on its way to do so. -/
theorem phase_building? {build : Shell} (h : line.building? sh = some build) :
    build.phase = .buildingIo := by
  unfold building? at h
  cases hargs : line.args with
  | nil => exact absurd h (by simp [hargs])
  | cons name args =>
    rw [hargs] at h
    simp only at h
    rcases hfound : { sh with env := sh.env.pushScope line.exports }.resolveCommand name with
      ⟨_ | command, found⟩
    · rw [hfound] at h
      exact absurd h (by simp)
    · rw [hfound] at h
      obtain rfl := Option.some.inj h
      rfl

/-- The calls before a command runs are not made by an idle shell. -/
theorem phase_of_mem_preparations (hphase : sh.phase ≠ .idle) (h : call ∈ line.preparations sh) :
    call.shell.phase ≠ .idle := by
  rcases List.mem_append.1 h with hlookup | hopening
  · obtain ⟨act, env, fs, -, rfl⟩ := eq_did_of_mem_lookups hlookup
    exact hphase
  · cases hbuild : line.building? sh with
    | none =>
      rw [hbuild] at hopening
      exact absurd hopening List.not_mem_nil
    | some build =>
      rw [hbuild] at hopening
      obtain ⟨r, -, fs, rfl⟩ := Shell.eq_opened_of_mem_openings hopening
      show build.phase ≠ .idle
      rw [phase_building? hbuild]
      exact Phase.noConfusion

end CommandLine

end MountShell
