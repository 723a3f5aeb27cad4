import MountShell.Proofs.Shell.Calls

/-!
# What a command does between its waits

A command asks requests, step by step, and a raised flag ends it between two steps. These are its
deeds (`Deed`): those of a computation that is driven, and of a job that is polled.

Between two waits a command is driven, and at a wait it may go on or be suspended. What is known of
a command (`Account`) is told apart accordingly (`Course`): what holds while it is driven, what
holds of a wait that is about to be looked at, and what holds of a wait that a command has been
suspended with. Each request, each look at the flag and at what is waited for lead from one to the
next, and so does a whole poll.

Main statements: `phase_answer` and `scopes_answer`, no request touches the phase of the shell or
its scopes; `Course.drive`, for a computation that is driven, and `Course.poll_suspended` and
`Course.commence`, for a job.
-/

namespace MountShell

/-! ### What requests leave alone -/

/-- No request touches the phase of the shell. -/
theorem Context.phase_answer (c : Context) (r : Request) :
    (c.answer r).2.shell.phase = c.shell.phase := by
  cases r with
  | getPath path => exact congrArg (·.phase) (c.shell.fs_getPath path)
  | createFile path => exact congrArg (·.phase) (c.shell.fs_createFile path)
  | _ => rfl

/-- No request opens or closes a scope. -/
theorem Context.scopes_answer (c : Context) (r : Request) :
    (c.answer r).2.shell.env.scopes = c.shell.env.scopes := by
  cases r with
  | getPath path => exact congrArg (·.env.scopes) (c.shell.fs_getPath path)
  | createFile path => exact congrArg (·.env.scopes) (c.shell.fs_createFile path)
  | _ => rfl

/-- A write keeps the file of an output. -/
theorem Output.file_write (out : Output) (line : String) (fs : FileSystem) :
    (out.write line fs).2.1.file = out.file := by
  unfold Output.write
  cases out.file.handle.errorMessage with
  | some reason => rfl
  | none =>
    have hfile := out.file_addLine line
    simp only
    cases fs.write (out.addLine line).2.file (out.addLine line).1 with
    | mk result after => cases result <;> exact hfile

theorem Io.files_writeOutputs (command line : String) (outputs : List Output) (fs : FileSystem)
    (host : Host) :
    (writeOutputs command line outputs fs host).1.map Output.file = outputs.map Output.file := by
  induction outputs generalizing fs host with
  | nil => rfl
  | cons out rest ih =>
    have hfile := out.file_write line fs
    rw [writeOutputs]
    exact List.cons_eq_cons.2 ⟨hfile, ih _ _⟩

/-- A request other than that to release the redirections keeps their files. -/
theorem Context.files_answer (c : Context) {r : Request} (h : r ≠ .release) :
    (c.answer r).2.io.files = c.io.files := by
  cases r with
  | release => exact absurd rfl h
  | writeLine line =>
    show (c.io.writeLine line c.shell.fs c.shell.host).1.files = c.io.files
    unfold Io.writeLine
    by_cases hempty : c.io.outputs.isEmpty = true
    · rw [if_pos hempty]
    · rw [if_neg hempty]
      exact congrArg (· ++ c.io.inputs) (Io.files_writeOutputs _ _ _ _ _)
  | _ => rfl

/-- Finding a command changes the filesystem only. -/
theorem Shell.resolveCommand_snd (sh : Shell) (name : String) :
    ∃ fs, (sh.resolveCommand name).2 = { sh with fs } := by
  unfold Shell.resolveCommand
  cases NameMap.find? name Builtin.table with
  | some command => exact ⟨sh.fs, rfl⟩
  | none =>
    simp only
    cases NameMap.find? name sh.commands.1 with
    | some command => exact ⟨_, rfl⟩
    | none => exact ⟨_, rfl⟩

/-! ### Deeds -/

/-- Something that becomes of a command while it does not wait. -/
inductive Deed where
  | asks (request : Request)
  /-- The flag is raised, which ends the command. -/
  | cancelled
  deriving DecidableEq

/-- The requests of a routine, in order. -/
def Routine.requests {α : Type} : Routine α → Context → List Request
  | done _, _ => []
  | ask request next, c => request :: (next (c.answer request).1).requests (c.answer request).2

namespace Job

variable {κ τ : Type} [Zero τ] [Add τ] [LT τ] [DecidableLT τ]

/-- The deeds between two steps and in the second of them. -/
def boundaryDeeds (programs : Programs κ τ) (computation : κ) (c : Context) : List Deed :=
  if c.shell.flag.take.2 then [.cancelled]
  else
    ((programs.step computation).requests
      { c with shell := { c.shell with flag := c.shell.flag.take.1 } }).map .asks

/-- The deeds of a computation that is driven. -/
def driveDeeds (programs : Programs κ τ) (id : Nat) :
    Nat → κ → Context → TimerQueue τ Waker → List Deed
  | 0, _, _, _ => []
  | n + 1, computation, c, timers =>
    boundaryDeeds programs computation c ++
      match boundary programs computation c with
      | (.inl _, _) => []
      | (.inr (.turn _), _) => []
      | (.inr wait, c) =>
        match lookAt id wait c.shell timers with
        | (.inl next, shell, timers) => driveDeeds programs id n next { c with shell } timers
        | (.inr _, _, _) => []

/-- The deeds of a computation in one poll. -/
def goOnDeeds (programs : Programs κ τ) (id : Nat) (computation : κ) (c : Context)
    (timers : TimerQueue τ Waker) : List Deed :=
  driveDeeds programs id (stepsAllowed programs computation c.shell) computation c timers

/-- The deeds of a command whose redirections have been opened. -/
def runDeeds (programs : Programs κ τ) (id : Nat) (command : Command) (args : List String)
    (c : Context) (timers : TimerQueue τ Waker) : List Deed :=
  ((command.run programs args).requests c).map .asks ++
    match (command.run programs args).run c with
    | (.suspend computation, c) => goOnDeeds programs id computation c timers
    | _ => []

/-- The deeds of a line that is begun. -/
def commenceDeeds (programs : Programs κ τ) (id : Nat) (line : CommandLine) (sh : Shell)
    (timers : TimerQueue τ Waker) : List Deed :=
  match line.args with
  | [] => []
  | name :: args =>
    match { sh with env := sh.env.pushScope line.exports }.resolveCommand name with
    | (none, _) => []
    | (some command, sh) =>
      let (io, sh) := { sh with phase := .buildingIo }.buildIo name line.redirections
      runDeeds programs id command args { shell := { sh with phase := .running }, io } timers

/-- The deeds of a job that is polled on behalf of the task in slot `id`. -/
def pollDeeds (programs : Programs κ τ) (id : Nat) (job : Job κ τ) (sh : Shell)
    (timers : TimerQueue τ Waker) : List Deed :=
  match job with
  | .settled _ => []
  | .accepted line => commenceDeeds programs id line sh timers
  | .suspended io wait =>
    match lookAt id wait sh timers with
    | (.inl next, shell, timers) => goOnDeeds programs id next { shell, io } timers
    | (.inr _, _, _) => []

end Job

/-! ### The course of a command -/

/-- What is known of a command with some calls and some deeds behind it. -/
abbrev Account (τ : Type) : Type :=
  Context → TimerQueue τ Waker → List FileCall → List Deed → Prop

/-- What is known while a command is driven (`P`), of a wait that is about to be looked at (`Q`) and
of a wait that the command has been suspended with (`R`), on behalf of the task in slot `id`. -/
structure Course {κ τ : Type} [Zero τ] [Add τ] [LT τ] [DecidableLT τ] (id : Nat) (P : Account τ)
    (Q R : Wait κ τ → Account τ) : Prop where
  answer : ∀ (c : Context) (r : Request) {timers calls deeds}, P c timers calls deeds →
    P (c.answer r).2 timers (calls ++ c.calls r) (deeds ++ [.asks r])
  cancelled : ∀ (c : Context) {timers calls deeds}, c.shell.flag.raised = true →
    P c timers calls deeds →
    P { c with shell := { c.shell with flag := c.shell.flag.take.1 } } timers calls
      (deeds ++ [.cancelled])
  turn : ∀ (c : Context) next {timers calls deeds}, P c timers calls deeds →
    R (.turn next) { c with woken := c.woken ++ [id] } timers calls deeds
  sleep : ∀ (c : Context) delay next {timers calls deeds}, P c timers calls deeds →
    Q (.sleep { delay } next) c timers calls deeds
  key : ∀ (c : Context) next {timers calls deeds}, P c timers calls deeds →
    Q (.key next) c timers calls deeds
  goes : ∀ (c : Context) (wait : Wait κ τ) {timers calls deeds next shell timers'},
    Job.lookAt id wait c.shell timers = (.inl next, shell, timers') → Q wait c timers calls deeds →
    P { c with shell } timers' calls deeds
  stays : ∀ (c : Context) (wait : Wait κ τ) {timers calls deeds wait' shell timers'},
    Job.lookAt id wait c.shell timers = (.inr wait', shell, timers') →
    Q wait c timers calls deeds → R wait' { c with shell } timers' calls deeds

/-- After some calls and deeds a poll has ended a command, or it has suspended it. -/
inductive Job.Arrives {κ τ : Type} (P : Account τ) (R : Wait κ τ → Account τ) :
    JobPoll κ τ → List FileCall → List Deed → Prop
  | finish (code : Int) (c : Context) (timers : TimerQueue τ Waker) (calls : List FileCall)
    (deeds : List Deed) : P c timers calls deeds →
    Arrives P R (finish code c timers) (calls ++ c.shell.closings c.io) deeds
  | suspend (wait : Wait κ τ) (c : Context) (timers : TimerQueue τ Waker) (calls : List FileCall)
    (deeds : List Deed) : R wait c timers calls deeds →
    Arrives P R (suspend wait c timers) calls deeds

/-- Looking for a key tells the host nothing. -/
theorem Host.events_nextKey (h : Host) (waiter : Waker) :
    (h.nextKey waiter).2.events = h.events := by
  have hrefill : h.refill.events = h.events := by
    unfold refill
    split <;> rfl
  unfold nextKey
  simp only
  split
  · exact hrefill
  · split <;> exact hrefill

/-- Looking at a wait touches only what the host knows of keys, and the flag by looking at it. -/
theorem Job.lookAt_shell {κ τ : Type} [Zero τ] [Add τ] [LT τ] [DecidableLT τ] (id : Nat)
    (wait : Wait κ τ) (sh : Shell) (timers : TimerQueue τ Waker) :
    ∃ host : Host, host.events = sh.host.events ∧
      ((Job.lookAt id wait sh timers).2.1 = { sh with host } ∨
        (Job.lookAt id wait sh timers).2.1 =
          { sh with host, flag := (sh.flag.look (.task id)).1 }) := by
  unfold Job.lookAt
  cases wait with
  | turn next => exact ⟨sh.host, rfl, Or.inl rfl⟩
  | sleep s next =>
    simp only
    rcases s.poll timers (.task id) with ⟨_ | _, s', timers'⟩
    · refine ⟨sh.host, rfl, Or.inr ?_⟩
      simp only
      split <;> rfl
    · exact ⟨sh.host, rfl, Or.inl rfl⟩
  | key next =>
    have hevents := sh.host.events_nextKey (.task id)
    simp only
    revert hevents
    rcases sh.host.nextKey (.task id) with ⟨_ | answer, host⟩ <;> intro hevents
    · refine ⟨host, hevents, Or.inr ?_⟩
      simp only
      split <;> rfl
    · exact ⟨host, hevents, Or.inl rfl⟩

/-- What is known of the shell, the redirections, the calls and the deeds of a command, whatever it
waits for, if requests, looks at the flag and the keys of the host leave it so. -/
theorem Course.ofShell {κ τ : Type} [Zero τ] [Add τ] [LT τ] [DecidableLT τ] (id : Nat)
    {P : Shell → Io → List FileCall → List Deed → Prop}
    (answer : ∀ (c : Context) (r : Request) calls deeds, P c.shell c.io calls deeds →
      P (c.answer r).2.shell (c.answer r).2.io (calls ++ c.calls r) (deeds ++ [.asks r]))
    (cancelled : ∀ sh io calls deeds, sh.flag.raised = true → P sh io calls deeds →
      P { sh with flag := sh.flag.take.1 } io calls (deeds ++ [.cancelled]))
    (look : ∀ sh io calls deeds waiter, P sh io calls deeds →
      P { sh with flag := (sh.flag.look waiter).1 } io calls deeds)
    (host : ∀ sh io calls deeds (host : Host), host.events = sh.host.events →
      P sh io calls deeds → P { sh with host } io calls deeds) :
    Course (κ := κ) (τ := τ) id (fun c _ calls deeds => P c.shell c.io calls deeds)
      (fun _ c _ calls deeds => P c.shell c.io calls deeds)
      (fun _ c _ calls deeds => P c.shell c.io calls deeds) := by
  have hlooked : ∀ (wait : Wait κ τ) (sh : Shell) (timers : TimerQueue τ Waker) io calls deeds,
      P sh io calls deeds → P (Job.lookAt id wait sh timers).2.1 io calls deeds := by
    intro wait sh timers io calls deeds hsh
    obtain ⟨h, hevents, hshell | hshell⟩ := Job.lookAt_shell id wait sh timers
    · rw [hshell]
      exact host sh io calls deeds h hevents hsh
    · rw [hshell]
      exact look { sh with host := h } io calls deeds (.task id)
        (host sh io calls deeds h hevents hsh)
  constructor
  · exact fun c r _ calls deeds hc => answer c r calls deeds hc
  · exact fun c _ calls deeds hraised hc => cancelled c.shell c.io calls deeds hraised hc
  · exact fun c _ _ _ _ hc => hc
  · exact fun c _ _ _ _ _ hc => hc
  · exact fun c _ _ _ _ hc => hc
  · intro c wait timers calls deeds next shell timers' hlook hc
    have hkept := hlooked wait c.shell timers c.io calls deeds hc
    rwa [hlook] at hkept
  · intro c wait timers calls deeds wait' shell timers' hlook hc
    have hkept := hlooked wait c.shell timers c.io calls deeds hc
    rwa [hlook] at hkept

/-- A flag that is not raised is not changed by lowering it. -/
theorem SignalFlag.take_of_not_raised {ω : Type} {flag : SignalFlag ω}
    (h : flag.raised = false) : flag.take.1 = flag := by
  cases flag
  cases h
  rfl

namespace Course

variable {κ τ : Type} [Zero τ] [Add τ] [LT τ] [DecidableLT τ] {id : Nat} {P : Account τ}
  {Q R : Wait κ τ → Account τ} {timers : TimerQueue τ Waker} {calls : List FileCall}
  {deeds : List Deed}

theorem run (h : Course id P Q R) {α : Type} (routine : Routine α) {c : Context}
    (hc : P c timers calls deeds) :
    P (routine.run c).2 timers (calls ++ routine.calls c)
      (deeds ++ (routine.requests c).map .asks) := by
  induction routine generalizing c calls deeds with
  | done result =>
    rw [Routine.calls, Routine.requests, List.map_nil, List.append_nil, List.append_nil]
    exact hc
  | ask request next ih =>
    have hanswer := ih (c.answer request).1 (h.answer c request hc)
    rw [List.append_assoc, List.append_assoc, List.singleton_append] at hanswer
    rw [Routine.calls, Routine.requests, List.map_cons]
    exact hanswer

/-- After a step the command has ended, or it waits: for its turn, or for what has still to be
looked at. -/
theorem boundary (h : Course id P Q R) (programs : Programs κ τ) (computation : κ) {c : Context}
    (hc : P c timers calls deeds) :
    let outcome := Job.boundary programs computation c
    let stepped := calls ++ Job.boundaryCalls programs computation c
    let done := deeds ++ Job.boundaryDeeds programs computation c
    P outcome.2 timers stepped done ∧
      ∀ wait, outcome.1 = .inr wait →
        (∃ next, wait = .turn next) ∨ Q wait outcome.2 timers stepped done := by
  unfold Job.boundary Job.boundaryCalls Job.boundaryDeeds
  simp only
  by_cases hraised : c.shell.flag.take.2 = true
  · rw [if_pos hraised, if_pos hraised, if_pos hraised, List.append_nil]
    exact ⟨h.cancelled c hraised hc, fun wait hwait => absurd hwait Sum.inl_ne_inr⟩
  · rw [if_neg hraised, if_neg hraised, if_neg hraised,
      SignalFlag.take_of_not_raised (Bool.eq_false_iff.2 hraised)]
    have hrun := h.run (programs.step computation) hc
    revert hrun
    cases (programs.step computation).run c with
    | mk step after =>
      intro hrun
      refine ⟨by cases step <;> exact hrun, fun wait hwait => ?_⟩
      cases step with
      | again next => exact Or.inl ⟨next, (Sum.inr.inj hwait).symm⟩
      | sleep delay next => exact Or.inr (Sum.inr.inj hwait ▸ h.sleep after delay next hrun)
      | key next => exact Or.inr (Sum.inr.inj hwait ▸ h.key after next hrun)
      | done code => exact absurd hwait Sum.inl_ne_inr

/-- A computation that is driven ends or is suspended. -/
theorem drive (h : Course id P Q R) (programs : Programs κ τ) (n : Nat) (computation : κ)
    {c : Context} (hc : P c timers calls deeds) :
    Job.Arrives P R (Job.drive programs id n computation c timers)
      (calls ++ Job.driveCalls programs id n computation c timers)
      (deeds ++ Job.driveDeeds programs id n computation c timers) := by
  induction n generalizing computation c timers calls deeds with
  | zero =>
    rw [Job.driveCalls, Job.driveDeeds, List.append_nil, List.append_nil]
    exact .suspend _ _ _ _ _ (h.turn c computation hc)
  | succ n ih =>
    have hboundary := h.boundary programs computation hc
    rw [Job.drive, Job.driveCalls, Job.driveDeeds, ← List.append_assoc, ← List.append_assoc]
    revert hboundary
    generalize calls ++ Job.boundaryCalls programs computation c = stepped
    generalize deeds ++ Job.boundaryDeeds programs computation c = done
    rcases Job.boundary programs computation c with ⟨code | wait, after⟩
    · rintro ⟨hend, -⟩
      simp only [List.append_nil]
      exact .finish code after timers stepped done hend
    · rintro ⟨hturn, hwaits⟩
      cases wait with
      | turn next =>
        simp only [List.append_nil]
        exact .suspend _ _ _ _ _ (h.turn after next hturn)
      | _ =>
        have hwait := (hwaits _ rfl).resolve_left (by simp)
        simp only
        rcases hlook : Job.lookAt id _ after.shell timers with ⟨next | wait', shell, timers'⟩
        · exact ih next (h.goes after _ hlook hwait)
        · simp only [List.append_nil]
          exact .suspend _ _ _ _ _ (h.stays after _ hlook hwait)

/-- A job that is suspended goes on until it ends, or waits again. -/
theorem poll_suspended (h : Course id P Q R) (programs : Programs κ τ) (wait : Wait κ τ)
    (timers : TimerQueue τ Waker) (calls : List FileCall) (deeds : List Deed) (sh : Shell)
    (io : Io) (hwait : Q wait { shell := sh, io } timers calls deeds) :
    Job.Arrives P R (Job.poll programs id (.suspended io wait) sh timers)
      (calls ++ Job.pollCalls programs id (.suspended io wait) sh timers)
      (deeds ++ Job.pollDeeds programs id (.suspended io wait) sh timers) := by
  rw [Job.poll, Job.pollCalls, Job.pollDeeds]
  rcases hlook : Job.lookAt id wait sh timers with ⟨next | wait', shell, timers'⟩
  · exact h.drive programs _ next (h.goes _ wait hlook hwait)
  · simp only [List.append_nil]
    exact .suspend wait' { shell, io } timers' calls deeds (h.stays _ wait hlook hwait)

/-- A command that has been found runs until it ends, or waits. -/
theorem runCommand (h : Course id P Q R) (programs : Programs κ τ) (command : Command)
    (args : List String) {c : Context} (hc : P c timers calls deeds) :
    Job.Arrives P R
      (match (command.run programs args).run c with
        | (.exit code, c) => Job.finish code c timers
        | (.nothing, c) => Job.finish 0 c timers
        | (.suspend computation, c) => Job.goOn programs id computation c timers)
      (calls ++ Job.runCalls programs id command args c timers)
      (deeds ++ Job.runDeeds programs id command args c timers) := by
  have hrun := h.run (command.run programs args) hc
  rw [Job.runCalls, Job.runDeeds, ← List.append_assoc, ← List.append_assoc]
  revert hrun
  generalize calls ++ (command.run programs args).calls c = ran
  generalize deeds ++ ((command.run programs args).requests c).map .asks = asked
  rcases (command.run programs args).run c with ⟨code | _ | computation, after⟩
  · intro hrun
    simp only [List.append_nil]
    exact .finish code after timers ran asked hrun
  · intro hrun
    simp only [List.append_nil]
    exact .finish 0 after timers ran asked hrun
  · intro hrun
    exact h.drive programs _ computation hrun

/-- A line with a command is carried out until it ends, or waits. What is known while a command is
driven has to hold when the redirections have been opened, and also when the command is not
found: in both cases after the preparations. -/
theorem commence (h : Course id P Q R) (programs : Programs κ τ) {line : CommandLine}
    {name : String} {args : List String} (hargs : line.args = name :: args) (sh : Shell)
    (timers : TimerQueue τ Waker)
    (hmissing : ∀ begun,
      { sh with env := sh.env.pushScope line.exports }.resolveCommand name = (none, begun) →
      let report := HostEvent.errorLine (ShellError.commandNotFound name).message
      P { shell := { begun with host := begun.host.tell report }, io := { command := name } } timers
        (line.preparations sh) [])
    (hfound : ∀ command begun,
      { sh with env := sh.env.pushScope line.exports }.resolveCommand name = (some command, begun) →
      let built := { begun with phase := .buildingIo }.buildIo name line.redirections
      P { shell := { built.2 with phase := .running }, io := built.1 } timers
        (line.preparations sh) []) :
    Job.Arrives P R (Job.poll programs id (.accepted line) sh timers)
      (Job.pollCalls programs id (.accepted line) sh timers)
      (Job.pollDeeds programs id (.accepted line) sh timers) := by
  rw [Job.poll, Job.pollCalls, Job.pollDeeds, Job.commence, Job.commenceCalls, Job.commenceDeeds,
    hargs]
  simp only
  revert hmissing hfound
  generalize line.preparations sh = prepared
  cases { sh with env := sh.env.pushScope line.exports }.resolveCommand name with
  | mk command begun =>
    intro hmissing hfound
    cases command with
    | none =>
      have hprepared := hmissing begun rfl
      exact .finish _ { shell := _, io := { command := name } } timers prepared [] hprepared
    | some command => exact h.runCommand programs command args (hfound command begun rfl)

/-- Where it does not matter what becomes of the filesystem when a line is begun. -/
theorem commence_cons (h : Course id P Q R) (programs : Programs κ τ) {line : CommandLine}
    {name : String} {args : List String} (hargs : line.args = name :: args) (sh : Shell)
    (timers : TimerQueue τ Waker)
    (hmissing : ∀ fs host, line.building? sh = none →
      P { shell := { sh with env := sh.env.pushScope line.exports, fs, host },
          io := { command := name } } timers (line.preparations sh) [])
    (hfound : ∀ fs io, io.files = FileCall.openedFiles (line.openings (line.building? sh)) →
      P { shell := { sh with env := sh.env.pushScope line.exports, fs, phase := .running }, io }
        timers (line.preparations sh) []) :
    Job.Arrives P R (Job.poll programs id (.accepted line) sh timers)
      (Job.pollCalls programs id (.accepted line) sh timers)
      (Job.pollDeeds programs id (.accepted line) sh timers) := by
  have hbuilding := CommandLine.building?_cons hargs sh
  obtain ⟨fs, hfs⟩ := Shell.resolveCommand_snd { sh with env := sh.env.pushScope line.exports } name
  refine h.commence programs hargs sh timers (fun begun hbegun => ?_) fun command begun hbegun => ?_
  · rw [hbegun] at hbuilding hfs
    obtain rfl : begun = _ := hfs
    exact hmissing fs _ hbuilding
  · rw [hbegun] at hbuilding hfs
    obtain rfl : begun = _ := hfs
    obtain ⟨build, hbuild⟩ : ∃ build : Shell, build =
        { sh with env := sh.env.pushScope line.exports, fs, phase := .buildingIo } := ⟨_, rfl⟩
    have hopenings : line.openings (line.building? sh) =
        build.openings (outputsFirst line.redirections) := by
      rw [hbuilding, hbuild]
      rfl
    have hfiles := build.files_buildIo name line.redirections
    obtain ⟨fs', hbuilt⟩ := build.buildIo_snd name line.redirections
    rw [← hopenings] at hfiles
    have hrun : P
        { shell := { (build.buildIo name line.redirections).2 with phase := .running },
          io := (build.buildIo name line.redirections).1 } timers (line.preparations sh) [] := by
      rw [hbuilt, hbuild]
      exact hfound fs' _ (hbuild ▸ hfiles)
    rw [hbuild] at hrun
    exact hrun

end Course

end MountShell
