import Mathlib.Data.List.Induction
import MountShell.Proofs.Shell.Wakeups

/-!
# Cancellation

An interrupt raises the flag of a shell that is not idle, and wakes the task that waits.  When a
computation is looked at again it goes on to the boundary before its next step, whatever it has been
waiting for, and there the flag ends it: no further step is taken, and the task is finished before
the clock moves.

The flag is lowered whenever a command ends.  So where the flag is raised by interrupts only, it is
raised only while the command is in progress that was in progress when the interrupt came.

Main statements: `Job.poll_raised`, a poll when the flag is raised; `Doomed.settle`, the ticks that
follow; `Engine.interrupted_of_cancelled`, no command is cancelled by an interrupt for another one;
and `cancellation_run`, cancellation in every session and in every run.
-/

namespace MountShell

/-! ### A raised flag ends a computation -/

/-- Only one request touches the flag. -/
theorem Context.flag_answer (c : Context) {r : Request} (h : r ≠ .raise) :
    (c.answer r).2.shell.flag = c.shell.flag := by
  cases r with
  | raise => exact absurd rfl h
  | getPath path => exact congrArg (·.flag) (c.shell.fs_getPath path)
  | createFile path => exact congrArg (·.flag) (c.shell.fs_createFile path)
  | _ => rfl

/-- No request lowers the flag. -/
theorem Context.raised_answer {c : Context} (h : c.shell.flag.raised = true) (r : Request) :
    (c.answer r).2.shell.flag.raised = true := by
  by_cases hr : r = .raise
  · subst hr
    rfl
  · rw [c.flag_answer hr]
    exact h

/-- A flag that is up stays up while a routine runs. -/
theorem Routine.raised_run {α : Type} (routine : Routine α) {c : Context}
    (h : c.shell.flag.raised = true) : (routine.run c).2.shell.flag.raised = true := by
  induction routine generalizing c with
  | done result => exact h
  | ask request next ih => exact ih _ (Context.raised_answer h request)

section Job

variable {κ τ : Type}

/-- The command of a line that is begun in the shell `sh`, its arguments, and the context in which
it runs, if the command is found. -/
def CommandLine.begun? (line : CommandLine) (sh : Shell) :
    Option (Command × List String × Context) :=
  match line.args with
  | [] => none
  | name :: args =>
    match { sh with env := sh.env.pushScope line.exports }.resolveCommand name with
    | (none, _) => none
    | (some command, sh) =>
      let (io, sh) := { sh with phase := .buildingIo }.buildIo name line.redirections
      some (command, args, { shell := { sh with phase := .running }, io })

/-- What a line with a command begins with, when its name has been looked up. -/
theorem CommandLine.begun?_cons {line : CommandLine} {name : String} {args : List String}
    (h : line.args = name :: args) (sh : Shell) :
    line.begun? sh =
      match { sh with env := sh.env.pushScope line.exports }.resolveCommand name with
      | (none, _) => none
      | (some command, sh) =>
        let (io, sh) := { sh with phase := .buildingIo }.buildIo name line.redirections
        some (command, args, { shell := { sh with phase := .running }, io }) := by
  cases line
  cases h
  rfl

/-- The command of a line that is begun in the shell `sh` is found and comes to a computation. -/
def CommandLine.Computes (programs : Programs κ τ) (line : CommandLine) (sh : Shell) : Prop :=
  ∃ command args c computation after, line.begun? sh = some (command, args, c) ∧
    (command.run programs args).run c = (.suspend computation, after)

/-- A command is in progress that is a computation, or will be one when its line is begun in the
shell `sh`. -/
def Job.Computes (programs : Programs κ τ) (sh : Shell) : Job κ τ → Prop
  | .settled _ => False
  | .accepted line => line.Computes programs sh
  | .suspended _ _ => True

/-- A job that computes has been accepted. -/
theorem Job.Computes.isAccepted {programs : Programs κ τ} {sh : Shell} {job : Job κ τ}
    (h : job.Computes programs sh) : job.isAccepted = true := by
  cases job with
  | settled result => exact absurd h not_false
  | _ => rfl

/-- What a command does before its computation begins has nothing to do with steps. -/
theorem Command.run_withStep (programs : Programs κ τ) (step : κ → Routine (Step κ τ))
    (command : Command) (args : List String) :
    command.run { programs with step } args = command.run programs args := by
  cases command <;> rfl

/-- The shell that a cancelled command leaves. -/
structure Shell.Stopped (sh : Shell) : Prop where
  phase : sh.phase = .idle
  flag : sh.flag.raised = false
  status : sh.env.stored statusName = some "1"

/-- A command that ends with the code of a cancellation has stopped. -/
theorem Job.stopped_finish (c : Context) (timers : TimerQueue τ Waker) :
    (finish cancelledCode c timers : JobPoll κ τ).shell.Stopped := by
  refine ⟨rfl, rfl, ?_⟩
  show (Environment.set _ statusName (Text.showInt cancelledCode)).stored statusName = _
  rw [Environment.stored_set_self]
  decide +kernel

variable [Zero τ] [Add τ] [LT τ] [DecidableLT τ] {timers : TimerQueue τ Waker}

/-- A computation that is driven when the flag is raised ends without a step. -/
theorem Job.goOn_raised (programs : Programs κ τ) (id : Nat) (computation : κ) {c : Context}
    (h : c.shell.flag.raised = true) (timers : TimerQueue τ Waker) :
    goOn programs id computation c timers =
      finish cancelledCode { c with shell := { c.shell with flag := c.shell.flag.take.1 } }
        timers := by
  have htaken : c.shell.flag.take.2 = true := h
  have hboundary : boundary programs computation c =
      (.inl cancelledCode, { c with shell := { c.shell with flag := c.shell.flag.take.1 } }) :=
    if_pos htaken
  unfold goOn stepsAllowed
  rw [drive, hboundary]

/-- A command that is found runs, in a shell whose flag is as it was. -/
theorem Job.commence_begun {line : CommandLine} {sh : Shell} {command : Command}
    {args : List String} {c : Context} (h : line.begun? sh = some (command, args, c)) (id : Nat)
    (timers : TimerQueue τ Waker) :
    c.shell.flag = sh.flag ∧ ∀ programs : Programs κ τ, commence programs id line sh timers =
      match (command.run programs args).run c with
      | (.exit code, c) => finish code c timers
      | (.nothing, c) => finish 0 c timers
      | (.suspend computation, c) => goOn programs id computation c timers := by
  cases hargs : line.args with
  | nil =>
    rw [CommandLine.begun?, hargs] at h
    exact absurd h (by simp)
  | cons name words =>
    obtain ⟨fs, hfs⟩ :=
      Shell.resolveCommand_snd { sh with env := sh.env.pushScope line.exports } name
    rw [CommandLine.begun?_cons hargs] at h
    simp only [commence, hargs]
    revert h hfs
    cases { sh with env := sh.env.pushScope line.exports }.resolveCommand name with
    | mk found begun =>
      rintro h rfl
      cases found with
      | none => exact absurd h (by simp)
      | some found =>
        obtain ⟨fs', hbuilt⟩ := Shell.buildIo_snd
          { sh with env := sh.env.pushScope line.exports, fs, phase := .buildingIo } name
          line.redirections
        obtain ⟨rfl, rfl, rfl⟩ : found = command ∧ words = args ∧ _ = c := by
          simpa only [Option.some.injEq, Prod.mk.injEq] using h
        exact ⟨congrArg (·.flag) hbuilt, fun programs => rfl⟩

/-- A wait that is looked at when the flag is raised is over. -/
theorem Job.lookAt_raised (id : Nat) {wait : Wait κ τ} {sh : Shell}
    (hserves : timers.Serves wait.timer?) (h : sh.flag.raised = true) :
    ∃ next shell timers', lookAt id wait sh timers = (.inl next, shell, timers') ∧
      shell.flag = sh.flag ∧ timers'.Serves none := by
  have hlook : sh.flag.look (Waker.task id) = (sh.flag, true) := if_pos h
  obtain ⟨next, shell, timers', hgoes, hflag⟩ : ∃ next shell timers',
      lookAt id wait sh timers = (.inl next, shell, timers') ∧ shell.flag = sh.flag := by
    unfold lookAt
    cases wait with
    | turn next => exact ⟨next, sh, timers, rfl, rfl⟩
    | sleep s next =>
      simp only [hlook]
      rcases s.poll timers (.task id) with ⟨_ | _, s', polled⟩
      · exact ⟨next, _, s'.drop polled, rfl, rfl⟩
      · exact ⟨next, sh, polled, rfl, rfl⟩
    | key next =>
      simp only [hlook]
      rcases sh.host.nextKey (.task id) with ⟨_ | answer, host⟩
      · exact ⟨next .interrupted, _, timers, rfl, rfl⟩
      · exact ⟨next answer, _, timers, rfl, rfl⟩
  have hlooked := looked_lookAt id hserves sh
  rw [hgoes] at hlooked
  cases hlooked with
  | goes _ _ _ hnone => exact ⟨next, shell, timers', hgoes, hflag, hnone⟩

/-- A command in progress that is polled when the flag is raised ends, whatever its steps are, and
leaves no timer pending. -/
theorem Job.poll_raised (programs : Programs κ τ) (id : Nat) {job : Job κ τ} {sh : Shell}
    (hserves : timers.Serves job.timer?) (h : sh.flag.raised = true)
    (hcomputes : job.Computes programs sh) :
    ∃ c timers', timers'.Serves none ∧
      ∀ step, job.poll { programs with step } id sh timers = finish cancelledCode c timers' := by
  cases job with
  | settled result => exact absurd hcomputes not_false
  | suspended io wait =>
    obtain ⟨next, shell, timers', hgoes, hflag, hnone⟩ := lookAt_raised id hserves h
    have hraised : shell.flag.raised = true := hflag.symm ▸ h
    refine ⟨{ shell := { shell with flag := shell.flag.take.1 }, io }, timers', hnone, ?_⟩
    intro step
    rw [poll, hgoes]
    exact goOn_raised { programs with step } id next (c := { shell, io }) hraised timers'
  | accepted line =>
    obtain ⟨command, args, c, computation, after, hbegun, hrun⟩ := hcomputes
    obtain ⟨hflag, hcommence⟩ := commence_begun (κ := κ) hbegun id timers
    have hraised : after.shell.flag.raised = true := by
      have hkept := Routine.raised_run (command.run programs args) (hflag.symm ▸ h)
      rwa [hrun] at hkept
    refine ⟨{ after with shell := { after.shell with flag := after.shell.flag.take.1 } }, timers,
      hserves, fun step => ?_⟩
    rw [poll, hcommence, Command.run_withStep, hrun]
    exact goOn_raised { programs with step } id computation hraised timers

end Job

/-! ### The ticks after an interrupt -/

/-- A command with the given place for its result has been cancelled, and has left the shell `sh`.
What is left are tasks whose results were known. -/
structure Cancelled {κ τ : Type} (place : Nat) (sh : Shell) (pool : TaskPool (JobTask κ τ))
    (k : Shared τ SessionState) : Prop where
  settled : ∀ id task, pool.task? id = some task →
    task.job.isAccepted ≠ true ∧ task.place ≠ place
  shell : k.state.shell = sh
  timers : k.timers.Serves none
  result : k.state.results[place]? = some (some (.ok cancelledCode))

/-- The task in slot `id` is a command in progress, and the flag is raised. -/
structure Doomed {κ τ : Type} (programs : Programs κ τ) (id : Nat) (task : JobTask κ τ)
    (pool : TaskPool (JobTask κ τ)) (k : Shared τ SessionState) : Prop where
  here : pool.task? id = some task
  others : ∀ other new, other ≠ id → pool.task? other = some new →
    new.job.isAccepted ≠ true ∧ new.place ≠ task.place
  raised : k.state.shell.flag.raised = true
  timers : k.timers.Serves task.job.timer?
  placed : task.place < k.state.results.length
  computes : task.job.Computes programs k.state.shell

/-- What is shared when a task has ended with a result. -/
def JobTask.ended {κ τ : Type} (task : JobTask κ τ) (result : JobResult) (shell : Shell)
    (timers : TimerQueue τ Waker) (k : Shared τ SessionState) : Shared τ SessionState where
  timers := timers
  state := { shell, results := k.state.results.set task.place (some result) }

section Ticks

variable {κ τ : Type} {place : Nat} {sh : Shell} {pool : TaskPool (JobTask κ τ)}
  {k : Shared τ SessionState} {programs : Programs κ τ} {id : Nat} {task : JobTask κ τ}

/-- Waking others and timers leaves a task cancelled. -/
theorem Cancelled.wakeAll (h : Cancelled place sh pool k) (ids : List Nat)
    {timers : TimerQueue τ Waker} (htimers : timers.Serves none) :
    Cancelled place sh (pool.wakeAll ids) { k with timers } :=
  ⟨fun id task hid => h.settled id task ((pool.task?_wakeAll ids id).symm.trans hid), h.shell,
    htimers, h.result⟩

/-- So it does with a task that is bound to be cancelled. -/
theorem Doomed.wakeAll (h : Doomed programs id task pool k) (ids : List Nat)
    {timers : TimerQueue τ Waker} (htimers : timers.Serves task.job.timer?) :
    Doomed programs id task (pool.wakeAll ids) { k with timers } :=
  ⟨(pool.task?_wakeAll ids id).trans h.here,
    fun other new hne hother =>
      h.others other new hne ((pool.task?_wakeAll ids other).symm.trans hother),
    h.raised, htimers, h.placed, h.computes⟩

variable [Zero τ] [Add τ] [LT τ] [DecidableLT τ]

/-- Tasks whose results were known are finished by a poll, and nothing else happens. -/
theorem JobTask.poll_settled (programs : Programs κ τ) (id : Nat)
    (hsettled : task.job.isAccepted ≠ true) (k : Shared τ SessionState) :
    ∃ result, ∀ step, task.poll { programs with step } id k =
      { next := none, state := task.ended result k.state.shell k.timers k } := by
  obtain ⟨job, place⟩ := task
  cases job with
  | settled result => exact ⟨result, fun step => rfl⟩
  | _ => exact absurd rfl hsettled

/-- What a tick goes through after a command has been cancelled. -/
theorem Cancelled.pollAll (h : Cancelled place sh pool k) (programs : Programs κ τ)
    (ids : List Nat) :
    ∃ pool' k', Cancelled place sh pool' k' ∧ pool'.ready = pool.ready ∧ ∀ step,
      (TaskPool.pollAll (JobTask.behavior { programs with step }) ids pool k).2 = (pool', k') := by
  induction ids generalizing pool k with
  | nil => exact ⟨pool, k, h, rfl, fun step => rfl⟩
  | cons id ids ih =>
    cases hid : pool.task? id with
    | none =>
      obtain ⟨pool', k', hcancelled, hready, hpolled⟩ := ih h
      exact ⟨pool', k', hcancelled, hready, fun step =>
        (congrArg Prod.snd (TaskPool.pollAll_of_none _ hid ids k)).trans (hpolled step)⟩
    | some task =>
      have hlt := TaskPool.lt_of_task? hid
      obtain ⟨hsettled, hplace⟩ := h.settled id task hid
      obtain ⟨result, hpoll⟩ := JobTask.poll_settled programs id hsettled k
      have hnext : Cancelled place sh ((pool.leave id none).wakeAll [])
          (task.ended result k.state.shell k.timers k) := by
        refine ⟨fun other new hother => ?_, h.shell, h.timers, ?_⟩
        · rw [TaskPool.task?_polled hlt] at hother
          by_cases hsame : other = id
          · rw [if_pos hsame] at hother
            exact absurd hother (by simp)
          · rw [if_neg hsame] at hother
            exact h.settled other new hother
        · exact (List.getElem?_set_ne hplace).trans h.result
      obtain ⟨pool', k', hcancelled, hready, hpolled⟩ := ih hnext
      refine ⟨pool', k', hcancelled, hready, fun step => ?_⟩
      have hstep : (JobTask.behavior { programs with step }).poll id task k = _ := hpoll step
      rw [TaskPool.pollAll_of_task? _ hid, hstep]
      exact hpolled step

/-- What a tick goes through when a command is to be cancelled. -/
theorem Doomed.pollAll (h : Doomed programs id task pool k) {ids : List Nat} (hmem : id ∈ ids) :
    ∃ sh pool' k', sh.Stopped ∧ Cancelled task.place sh pool' k' ∧ ∀ step,
      (TaskPool.pollAll (JobTask.behavior { programs with step }) ids pool k).2 = (pool', k') := by
  induction ids generalizing pool k with
  | nil => exact absurd hmem List.not_mem_nil
  | cons other ids ih =>
    by_cases hsame : other = id
    · subst hsame
      have hlt := TaskPool.lt_of_task? h.here
      obtain ⟨c, timers', hnone, hpoll⟩ :=
        Job.poll_raised programs other h.timers h.raised h.computes
      obtain ⟨sh, hsh⟩ : ∃ sh, sh =
          (Job.finish cancelledCode c timers' : JobPoll κ τ).shell := ⟨_, rfl⟩
      have hended : ∀ step, (JobTask.behavior { programs with step }).poll other task k =
          { next := none
            state := task.ended (.ok cancelledCode) sh timers' k
            woken := c.woken } := by
        intro step
        show task.poll { programs with step } other k = _
        rw [JobTask.poll, hpoll step, hsh]
        rfl
      -- the poll of the task itself ends it, so that all that are left were settled
      have hcancelled : Cancelled task.place sh ((pool.leave other none).wakeAll c.woken)
          (task.ended (.ok cancelledCode) sh timers' k) := by
        refine ⟨fun id new hid => ?_, rfl, hnone, List.getElem?_set_self h.placed⟩
        rw [TaskPool.task?_polled hlt] at hid
        by_cases hid' : id = other
        · rw [if_pos hid'] at hid
          exact absurd hid (by simp)
        · rw [if_neg hid'] at hid
          exact h.others id new hid' hid
      obtain ⟨pool', k', hrest, -, hpolled⟩ := hcancelled.pollAll programs ids
      refine ⟨sh, pool', k', hsh ▸ Job.stopped_finish c timers', hrest, fun step => ?_⟩
      rw [TaskPool.pollAll_of_task? _ h.here, hended step]
      exact hpolled step
    · have hrest : id ∈ ids := List.mem_of_ne_of_mem (Ne.symm hsame) hmem
      cases hother : pool.task? other with
      | none =>
        obtain ⟨sh, pool', k', hstopped, hcancelled, hpolled⟩ := ih h hrest
        exact ⟨sh, pool', k', hstopped, hcancelled, fun step =>
          (congrArg Prod.snd (TaskPool.pollAll_of_none _ hother ids k)).trans (hpolled step)⟩
      | some new =>
        have hlt := TaskPool.lt_of_task? hother
        obtain ⟨hsettled, hplace⟩ := h.others other new hsame hother
        obtain ⟨result, hpoll⟩ := JobTask.poll_settled programs other hsettled k
        -- a task that is polled before was settled, and is removed without a change to the shell
        have hnext : Doomed programs id task ((pool.leave other none).wakeAll [])
            (new.ended result k.state.shell k.timers k) := by
          refine ⟨?_, fun id' old hne hid' => ?_, h.raised, h.timers, ?_, h.computes⟩
          · rw [TaskPool.task?_polled hlt, if_neg (Ne.symm hsame)]
            exact h.here
          · rw [TaskPool.task?_polled hlt] at hid'
            by_cases hgone : id' = other
            · rw [if_pos hgone] at hid'
              exact absurd hid' (by simp)
            · rw [if_neg hgone] at hid'
              exact h.others id' old hne hid'
          · exact List.length_set.symm ▸ h.placed
        obtain ⟨sh, pool', k', hstopped, hcancelled, hpolled⟩ := ih hnext hrest
        refine ⟨sh, pool', k', hstopped, hcancelled, fun step => ?_⟩
        have hstep : (JobTask.behavior { programs with step }).poll other new k = _ := hpoll step
        rw [TaskPool.pollAll_of_task? _ hother, hstep]
        exact hpolled step

/-- A tick after a command has been cancelled leaves nothing to be polled. -/
theorem Cancelled.tick {s : Session κ τ} (h : Cancelled place sh s.pool s.shared)
    (programs : Programs κ τ) :
    ∃ after : Session κ τ, Cancelled place sh after.pool after.shared ∧ after.clock = s.clock ∧
      after.pool.ready = [] ∧
      ∀ step, (TimedPool.tick (JobTask.behavior { programs with step }) s).2 = after := by
  have hfired := h.wakeAll (Waker.tasks (s.shared.timers.tick s.clock).1)
    (h.timers.tick s.clock)
  have hbegun : Cancelled place sh
      { s.pool.wakeAll (Waker.tasks (s.shared.timers.tick s.clock).1) with ready := [] }
      { s.shared with timers := (s.shared.timers.tick s.clock).2 } :=
    ⟨hfired.settled, hfired.shell, hfired.timers, hfired.result⟩
  obtain ⟨pool', k', hcancelled, hready, hpolled⟩ := hbegun.pollAll programs
    (s.pool.wakeAll (Waker.tasks (s.shared.timers.tick s.clock).1)).ready
  refine ⟨{ s with pool := pool', shared := k' }, hcancelled, rfl, hready, fun step => ?_⟩
  exact congrArg (fun polled => { s with pool := polled.1, shared := polled.2 }) (hpolled step)

/-- The tick in which a command is cancelled. -/
theorem Doomed.tick {s : Session κ τ} (h : Doomed programs id task s.pool s.shared)
    (hready : id ∈ s.pool.ready) :
    ∃ sh, ∃ after : Session κ τ, sh.Stopped ∧ Cancelled task.place sh after.pool after.shared ∧
      after.clock = s.clock ∧
      ∀ step, (TimedPool.tick (JobTask.behavior { programs with step }) s).2 = after := by
  have hfired := h.wakeAll (Waker.tasks (s.shared.timers.tick s.clock).1)
    (h.timers.tick s.clock)
  have hbegun : Doomed programs id task
      { s.pool.wakeAll (Waker.tasks (s.shared.timers.tick s.clock).1) with ready := [] }
      { s.shared with timers := (s.shared.timers.tick s.clock).2 } :=
    ⟨hfired.here, hfired.others, hfired.raised, hfired.timers, hfired.placed, hfired.computes⟩
  have hmem := (TaskPool.mem_ready_wakeAll s.pool
    (Waker.tasks (s.shared.timers.tick s.clock).1) id).2 (Or.inl hready)
  obtain ⟨sh, pool', k', hstopped, hcancelled, hpolled⟩ := hbegun.pollAll hmem
  refine ⟨sh, { s with pool := pool', shared := k' }, hstopped, hcancelled, rfl, fun step => ?_⟩
  exact congrArg (fun polled => { s with pool := polled.1, shared := polled.2 }) (hpolled step)

/-- When a command is to be cancelled, nothing is ready after two ticks. -/
theorem Doomed.settle {s : Session κ τ} (h : Doomed programs id task s.pool s.shared)
    (hready : id ∈ s.pool.ready) :
    ∃ sh, ∃ after : Session κ τ, sh.Stopped ∧ Cancelled task.place sh after.pool after.shared ∧
      after.clock = s.clock ∧ ∀ step n, 2 ≤ n →
        TimedPool.settle (JobTask.behavior { programs with step }) n s = (true, after) := by
  obtain ⟨sh, first, hstopped, hfirst, hclock, htick⟩ := h.tick hready
  by_cases hmore : first.pool.hasReady = true
  · obtain ⟨last, hlast, hlastClock, hnone, hlastTick⟩ := hfirst.tick programs
    refine ⟨sh, last, hstopped, hlast, hlastClock.trans hclock, fun step n hn => ?_⟩
    have hempty : last.pool.hasReady = false := by
      rw [TaskPool.hasReady, hnone]
      rfl
    obtain ⟨m, rfl⟩ := Nat.exists_eq_add_of_le' hn
    rw [TimedPool.settle]
    simp only [htick step]
    rw [if_pos hmore, TimedPool.settle]
    simp only [hlastTick step]
    rw [hempty]
    rfl
  · refine ⟨sh, first, hstopped, hfirst, hclock, fun step n hn => ?_⟩
    obtain ⟨m, rfl⟩ := Nat.exists_eq_add_of_le' hn
    rw [TimedPool.settle]
    simp only [htick step]
    rw [if_neg hmore]

end Ticks

namespace Session

variable {κ τ : Type} {s : Session κ τ} {outer : List (List (String × Option String))}

/-- The task of a command in progress is ready when an interrupt has been delivered, and the flag is
raised. -/
theorem Sound.doomed (h : s.Sound outer) {programs : Programs κ τ} {id : Nat}
    {task : JobTask κ τ} (hid : s.pool.task? id = some task)
    (hcomputes : task.job.Computes programs (s.shell.trap .interrupt).1) :
    let trapped := s.withWoken (s.shell.trap .interrupt)
    Doomed programs id task trapped.pool trapped.shared ∧ id ∈ trapped.pool.ready := by
  intro trapped
  have haccepted := hcomputes.isAccepted
  have hbusy : s.shell.phase ≠ .idle := fun hphase => h.idle hphase id task hid haccepted
  have htrap : s.shell.trap .interrupt = s.shell.raise := if_pos ⟨rfl, hbusy⟩
  obtain ⟨hattends, -⟩ := h
  refine ⟨⟨(s.pool.task?_wakeAll _ id).trans hid, ?_, ?_, hattends.serves hid haccepted,
    hattends.placed id task hid, hcomputes⟩, ?_⟩
  · intro other new hne hother
    have hwas : s.pool.task? other = some new := (s.pool.task?_wakeAll _ other).symm.trans hother
    refine ⟨fun hnew => ?_, fun hplace => ?_⟩
    · exact hne (hattends.single other new id task hwas hnew hid haccepted)
    · exact hne (hattends.apart other new id task hwas hid hplace)
  · show (s.shell.trap .interrupt).1.flag.raised = true
    rw [htrap]
    rfl
  · show id ∈ (s.pool.wakeAll (s.shell.trap .interrupt).2).ready
    rw [htrap, TaskPool.mem_ready_wakeAll]
    rcases hattends.ready id task hid haccepted with hmem | hready | hwaits
    · exact absurd hmem List.not_mem_nil
    · exact Or.inl hready
    · exact Or.inr (mem_raise hwaits)

end Session

/-! ### In whose progress a flag was raised -/

section Explained

variable {κ τ : Type} {id : Nat}

/-- If the flag is raised, or has ended the command, it was raised before (which `before` tells), or
the command has raised it itself. -/
def Shell.Explained (before : Bool) (sh : Shell) (deeds : List Deed) : Prop :=
  sh.flag.raised = true ∨ .cancelled ∈ deeds → before = true ∨ .asks .raise ∈ deeds

/-- What a poll tells of the flag before it. -/
structure JobPoll.Explained (before : Bool) (p : JobPoll κ τ) (deeds : List Deed) : Prop where
  cancelled : .cancelled ∈ deeds → before = true ∨ .asks .raise ∈ deeds
  waits : ∀ next, p.progress = .waits next → p.shell.flag.raised = true →
    before = true ∨ .asks .raise ∈ deeds

/-- What a poll leaves of a raised flag is explained by its deeds. -/
theorem Job.Arrives.explained {before : Bool} {p : JobPoll κ τ} {calls : List FileCall}
    {deeds : List Deed}
    (h : Job.Arrives (fun c _ _ deeds => c.shell.Explained before deeds)
      (fun _ c _ _ deeds => c.shell.Explained before deeds) p calls deeds) :
    p.Explained before deeds := by
  rcases h with ⟨code, c, timers, calls, deeds, hc⟩ | ⟨wait, c, timers, calls, deeds, hc⟩
  · exact ⟨fun hcancelled => hc (Or.inr hcancelled), fun next hwaits =>
      absurd hwaits (by simp [Job.finish])⟩
  · exact ⟨fun hcancelled => hc (Or.inr hcancelled), fun _ _ hraised => hc (Or.inl hraised)⟩

variable [Zero τ] [Add τ] [LT τ] [DecidableLT τ]

/-- While a command is driven a raised flag is explained by where it began, or by a request to raise
it. -/
theorem Course.explained (id : Nat) (before : Bool) :
    Course (κ := κ) (τ := τ) id (fun c _ _ deeds => c.shell.Explained before deeds)
      (fun _ c _ _ deeds => c.shell.Explained before deeds)
      (fun _ c _ _ deeds => c.shell.Explained before deeds) := by
  refine Course.ofShell (P := fun sh _ _ deeds => sh.Explained before deeds) id ?_ ?_ ?_ ?_
  · intro c r calls deeds hc hnow
    by_cases hr : r = .raise
    · subst hr
      exact Or.inr (List.mem_append_right _ (List.mem_singleton_self _))
    · have hwas : c.shell.flag.raised = true ∨ .cancelled ∈ deeds := by
        rcases hnow with hraised | hcancelled
        · rw [c.flag_answer hr] at hraised
          exact Or.inl hraised
        · exact Or.inr (by simpa using hcancelled)
      exact (hc hwas).imp_right (List.mem_append_left _)
  · intro sh io calls deeds hraised hsh _
    exact (hsh (Or.inl hraised)).imp_right (List.mem_append_left _)
  · intro sh io calls deeds waiter hsh hnow
    refine hsh (hnow.imp_left fun hraised => ?_)
    by_cases hwas : sh.flag.raised = true
    · exact hwas
    · rw [SignalFlag.look, if_neg hwas] at hraised
      exact hraised
  · intro sh io calls deeds host _ hsh
    exact hsh

/-- A poll that finds the flag down, and in which nothing raises it, cancels nothing. -/
theorem Job.explained_poll (programs : Programs κ τ) (id : Nat) (job : Job κ τ) (sh : Shell)
    (timers : TimerQueue τ Waker) :
    (job.poll programs id sh timers).Explained sh.flag.raised
      (job.pollDeeds programs id sh timers) := by
  have hcourse := Course.explained (κ := κ) (τ := τ) id sh.flag.raised
  have hstart : ∀ begun : Shell, begun.flag = sh.flag → begun.Explained sh.flag.raised [] := by
    intro begun hflag hnow
    rw [hflag] at hnow
    exact Or.inl (hnow.resolve_right List.not_mem_nil)
  have hends : ∀ (p : JobPoll κ τ) result, p.progress = .ends result →
      p.Explained sh.flag.raised [] := by
    intro p result hprogress
    refine ⟨fun h => absurd h List.not_mem_nil, fun next hnext => ?_⟩
    exact absurd (hprogress.symm.trans hnext) (by simp)
  cases job with
  | settled result => exact hends _ result rfl
  | suspended io wait =>
    have harrives := hcourse.poll_suspended programs wait timers [] [] sh io (hstart sh rfl)
    exact harrives.explained
  | accepted line =>
    cases hargs : line.args with
    | nil =>
      rw [poll, commence, pollDeeds, commenceDeeds, hargs]
      exact hends _ (.ok 0) rfl
    | cons name args =>
      have harrives := hcourse.commence_cons programs hargs sh timers
        (fun _ _ _ => hstart _ rfl) (fun _ _ _ => hstart _ rfl)
      exact harrives.explained

end Explained

namespace Engine

variable {κ τ : Type} [Zero τ] [Add τ] [LT τ] [DecidableLT τ] {e : Engine κ τ}
  {outer : List (List (String × Option String))}

/-- Among the events there is an interrupt that was delivered while a future was active. -/
def Interrupted (programs : Programs κ τ) (e : Engine κ τ) (events : List (EngineEvent τ))
    (i : Nat) : Prop :=
  ∃ first rest, events = first ++ .trap .interrupt :: rest ∧ (e.run programs first).Active i

/-- What has interrupted a command lies behind for good. -/
theorem Interrupted.append {programs : Programs κ τ} {events : List (EngineEvent τ)} {i : Nat}
    (h : Interrupted programs e events i) (more : List (EngineEvent τ)) :
    Interrupted programs e (events ++ more) i := by
  obtain ⟨first, rest, rfl, hactive⟩ := h
  exact ⟨first, rest ++ more, by simp, hactive⟩

/-- The deeds of events, cut in two. -/
theorem deeds_append (programs : Programs κ τ) (first rest : List (EngineEvent τ)) :
    deeds programs e (first ++ rest) =
      deeds programs e first ++ deeds programs (e.run programs first) rest := by
  induction first generalizing e with
  | nil => rfl
  | cons event first ih =>
    rw [List.cons_append, deeds, ih, ← List.append_assoc]
    rfl

/-- One more event at the end. -/
theorem run_concat (programs : Programs κ τ) (events : List (EngineEvent τ))
    (event : EngineEvent τ) :
    e.run programs (events ++ [event]) = (e.run programs events).after programs event :=
  List.foldl_append

/-- An event that is about no active future leaves the flag as it is, unless it is a signal. -/
theorem flag_after (programs : Programs κ τ) {event : EngineEvent τ}
    (hother : ∀ i, e.Active i → event.future? ≠ some i)
    (hsignal : event ≠ .raise ∧ (event = .trap .interrupt → e.shell.phase = .idle)) :
    (e.after programs event).shell.flag = e.shell.flag := by
  have hleft : ∀ i, event.future? = some i → (e.after programs event).shell = e.shell :=
    fun i hevent => shell_after_of_not_active (fun hi => hother i hi hevent) programs hevent
  cases event with
  | execute line =>
    obtain ⟨draws, phase, haccept⟩ := Shell.accept_snd (κ := κ) (τ := τ) e.shell line
    exact congrArg (·.flag) haccept
  | start =>
    obtain ⟨draws, phase, hstart⟩ := Shell.start_snd (κ := κ) (τ := τ) e.shell
    exact congrArg (·.flag) hstart
  | poll i id => exact congrArg (·.flag) (hleft i rfl)
  | drop i => exact congrArg (·.flag) (hleft i rfl)
  | trap signal =>
    show (e.shell.trap signal).1.flag = e.shell.flag
    unfold Shell.trap
    by_cases hcancels : signal = .interrupt ∧ e.shell.phase ≠ .idle
    · exact absurd (hsignal.2 (hcancels.1 ▸ rfl)) hcancels.2
    · rw [if_neg hcancels]
      rfl
  | raise => exact absurd rfl hsignal.1
  | setenv name value => rfl
  | host fs host timers draws today => rfl

/-- A future that is active after an event about it, with the flag raised, has found it raised,
unless its command has raised it. -/
theorem raised_of_active (h : e.Tidy outer) (programs : Programs κ τ) {event : EngineEvent τ}
    {i : Nat} (hi : e.Active i) (hevent : event.future? = some i)
    (hraised : (e.after programs event).shell.flag.raised = true)
    (hdeeds : .asks .raise ∉ e.deedsOn programs event) :
    e.shell.flag.raised = true ∧ (e.after programs event).Active i := by
  -- a future that is over leaves the shell with the flag lowered
  have hactive : (e.after programs event).Active i := by
    refine Decidable.byContradiction fun hover => ?_
    have hrests := h.rests_of_not_active hi programs hover
    exact absurd (hrests.flag.symm.trans hraised) (by simp)
  obtain ⟨job, hjob, haccepted⟩ := hi
  have hlt : i < e.futures.length := (List.getElem?_eq_some_iff.1 hjob).1
  cases event with
  | poll j id =>
    obtain rfl : j = i := Option.some.inj hevent
    refine ⟨?_, hactive⟩
    have hexplained := Job.explained_poll programs id job e.shell e.timers
    rw [deedsOn_poll hjob] at hdeeds
    rw [after_poll hjob] at hraised hactive
    obtain ⟨next, hnext, -⟩ := hactive
    have hnext : (e.futures.set j _)[j]? = some (.live next) := hnext
    rw [List.getElem?_set_self hlt] at hnext
    cases hprogress : (job.poll programs id e.shell e.timers).progress with
    | waits waiting => exact (hexplained.waits waiting hprogress hraised).resolve_right hdeeds
    | ends result =>
      rw [hprogress] at hnext
      exact absurd hnext (by simp [Future.ofProgress])
  | drop j =>
    obtain rfl : j = i := Option.some.inj hevent
    rw [after_drop hjob] at hactive
    obtain ⟨next, hnext, -⟩ := hactive
    have hnext : (e.futures.set j .dropped)[j]? = some (.live next) := hnext
    rw [List.getElem?_set_self hlt] at hnext
    exact absurd hnext (by simp)
  | _ => exact absurd hevent (by simp [EngineEvent.future?])

/-- Where only interrupts raise the flag, it is raised in the progress of a future that has been
interrupted. -/
theorem interrupted_of_raised (h : e.Tidy outer) (hflag : e.shell.flag.raised = false)
    (programs : Programs κ τ) {events : List (EngineEvent τ)} (hevents : .raise ∉ events)
    (hdeeds : .asks .raise ∉ deeds programs e events)
    (hraised : (e.run programs events).shell.flag.raised = true) :
    ∃ i, (e.run programs events).Active i ∧ Interrupted programs e events i := by
  induction events using List.reverseRecOn with
  | nil => exact absurd (hflag.symm.trans hraised) (by simp)
  | append_singleton events event ih =>
    have htidy := h.run programs events
    rw [deeds_append, List.mem_append, not_or] at hdeeds
    rw [List.mem_append, not_or] at hevents
    rw [run_concat] at hraised ⊢
    have hnow : .asks .raise ∉ (e.run programs events).deedsOn programs event := by
      have hlast : deeds programs (e.run programs events) [event] = _ := List.append_nil _
      rw [hlast] at hdeeds
      exact hdeeds.2
    -- The last event is an interrupt of the future in progress, or it is about that future, which
    -- found the flag raised, or it leaves the flag as it is.
    by_cases hinterrupt : event = .trap .interrupt ∧ (e.run programs events).shell.phase ≠ .idle
    · obtain ⟨rfl, hbusy⟩ := hinterrupt
      obtain ⟨i, hi⟩ := not_forall.1 (mt htidy.idle_iff.2 hbusy)
      have hi : (e.run programs events).Active i := not_not.1 hi
      obtain ⟨job, hjob, haccepted⟩ := hi
      exact ⟨i, ⟨job, hjob, haccepted⟩, events, [], rfl, job, hjob, haccepted⟩
    · by_cases habout : ∃ i, (e.run programs events).Active i ∧ event.future? = some i
      · obtain ⟨i, hi, hevent⟩ := habout
        obtain ⟨hwas, hactive⟩ := raised_of_active htidy programs hi hevent hraised hnow
        obtain ⟨i', hi', hinterrupted⟩ := ih hevents.1 hdeeds.1 hwas
        obtain rfl := htidy.eq_of_active hi hi'
        exact ⟨i, hactive, hinterrupted.append [event]⟩
      · have hother : ∀ i, (e.run programs events).Active i → event.future? ≠ some i :=
          fun i hi hevent => habout ⟨i, hi, hevent⟩
        have hsame := flag_after programs hother
          ⟨fun heq => hevents.2 (by simp [heq]), fun heq => not_not.1 fun hbusy =>
            hinterrupt ⟨heq, hbusy⟩⟩
        rw [hsame] at hraised
        obtain ⟨i, hi, hinterrupted⟩ := ih hevents.1 hdeeds.1 hraised
        obtain ⟨job, hjob, haccepted⟩ := hi
        have hlt := (List.getElem?_eq_some_iff.1 hjob).1
        have hkept := futures_after hlt programs (hother i ⟨job, hjob, haccepted⟩)
        exact ⟨i, ⟨job, hkept.trans hjob, haccepted⟩, hinterrupted.append [event]⟩

/-- Where only interrupts raise the flag, a command that is cancelled when it is polled has been
interrupted. -/
theorem interrupted_of_cancelled (h : e.Tidy outer) (hflag : e.shell.flag.raised = false)
    (programs : Programs κ τ) {past : List (EngineEvent τ)} (hpast : .raise ∉ past) {i id : Nat}
    (hdeeds : .asks .raise ∉ deeds programs e (past ++ [.poll i id]))
    (hcancelled : .cancelled ∈ (e.run programs past).deedsOn programs (.poll i id)) :
    Interrupted programs e past i := by
  have htidy := h.run programs past
  have hlast : deeds programs (e.run programs past) [.poll i id] = _ := List.append_nil _
  rw [deeds_append, hlast, List.mem_append, not_or] at hdeeds
  obtain ⟨hbefore, hnow⟩ := hdeeds
  obtain ⟨job, hjob⟩ : ∃ job, (e.run programs past).futures[i]? = some (.live job) := by
    rw [deedsOn] at hcancelled
    split at hcancelled
    next job hjob => exact ⟨job, hjob⟩
    next => exact absurd hcancelled List.not_mem_nil
  rw [deedsOn_poll hjob] at hcancelled hnow
  have haccepted : job.isAccepted = true := by
    cases job with
    | settled result => exact absurd hcancelled List.not_mem_nil
    | _ => rfl
  have hexplained := Job.explained_poll programs id job (e.run programs past).shell
    (e.run programs past).timers
  have hraised := (hexplained.cancelled hcancelled).resolve_right hnow
  obtain ⟨i', hi', hinterrupted⟩ := interrupted_of_raised h hflag programs hpast hbefore hraised
  obtain rfl := htidy.eq_of_active ⟨job, hjob, haccepted⟩ hi'
  exact hinterrupted

end Engine

/-! ### Every session and every run -/

section Run

variable {κ τ : Type} [Zero τ] [Add τ] [LT τ] [DecidableLT τ]

/-- Cancellation.  Whatever has been done to a session whose shell began idle: if an interrupt is
delivered while the command of a task is in progress and is a computation, or will be one when its
line is begun, then two ticks are enough until nothing is ready.  No step is taken, so that what is
left (`after`) is the same whatever the steps are; the clock has not moved, the result of the task
is the code 1, and so is the status, the shell is idle, its flag is lowered, and no timer is
pending.

In every run of an engine an interrupt that is delivered when the shell is idle only asks it to exit
with the last status.  If the flag was lowered at first and nothing but interrupts has raised it,
neither the host nor a command, then a command is cancelled only if an interrupt was delivered while
it was in progress itself. -/
theorem cancellation_run (programs : Programs κ τ) {sh : Shell} (hphase : sh.phase = .idle) :
    (∀ (ops : List (SessionOp τ)) (id : Nat) (task : JobTask κ τ),
      let s : Session κ τ := ops.foldl (Session.perform programs) (Session.new sh)
      s.pool.task? id = some task → task.job.Computes programs (s.shell.trap .interrupt).1 →
      ∃ after : Session κ τ,
        (∀ step n, 2 ≤ n → TimedPool.settle (JobTask.behavior { programs with step }) n
          (s.withWoken (s.shell.trap .interrupt)) = (true, after)) ∧
        after.clock = s.clock ∧
        after.shared.state.results[task.place]? = some (some (.ok 1)) ∧
        after.shell.env.stored statusName = some "1" ∧
        after.shell.phase = .idle ∧
        after.shell.flag.raised = false ∧
        after.shared.timers.pendingCount = 0) ∧
    ∀ (timers : TimerQueue τ Waker) (past : List (EngineEvent τ)),
      let start : Engine κ τ := { shell := sh, timers }
      let e := start.run programs past
      (e.shell.phase = .idle → e.after programs (.trap .interrupt) =
        e.withShell (e.shell.requestExit e.shell.lastStatus)) ∧
      ∀ i id, sh.flag.raised = false → .raise ∉ past →
        .asks .raise ∉ Engine.deeds programs start (past ++ [.poll i id]) →
        .cancelled ∈ e.deedsOn programs (.poll i id) →
        Engine.Interrupted programs start past i := by
  constructor
  · intro ops id task s hid hcomputes
    have hsound : s.Sound sh.env.scopes :=
      (Session.sound_new hphase).moves (Session.moves_run programs (Session.new sh) ops)
    obtain ⟨hdoomed, hready⟩ := hsound.doomed hid hcomputes
    obtain ⟨left, after, hstopped, hcancelled, hclock, hsettle⟩ := hdoomed.settle hready
    have hshell : after.shell = left := hcancelled.shell
    refine ⟨after, hsettle, hclock, hcancelled.result, ?_, ?_, ?_, hcancelled.timers.pendingCount⟩
    · rw [hshell]
      exact hstopped.status
    · rw [hshell]
      exact hstopped.phase
    · rw [hshell]
      exact hstopped.flag
  · intro timers past start e
    have hstart : start.Tidy sh.env.scopes := Engine.tidy_start hphase rfl timers
    refine ⟨fun hidle => ?_, fun i id hflag hpast hdeeds hcancelled => ?_⟩
    · have htrap : e.shell.trap .interrupt = (e.shell.requestExit e.shell.lastStatus, []) :=
        if_neg fun h => h.2 hidle
      rw [Engine.after, htrap]
    · exact Engine.interrupted_of_cancelled hstart hflag programs hpast hdeeds hcancelled

/-- A shell with the program that sleeps. -/
def sleepShell : Shell where
  fs := FileSystem.mount {}
    { device := "none", mountPoint := "/", typeName := "jfs", options := "" }
    (.supplied (.directory true [("sleep", .file false (.program "sleep"))]))
  draws := .ofSeed 0

/-- A sleep that is interrupted. -/
theorem cancellation_slept :
    let programs := Stock.programs []
    let s : Session Computation Millis :=
      [SessionOp.spawn "/sleep 100", .tick].foldl (Session.perform programs)
        (Session.new sleepShell)
    let past : List (EngineEvent Millis) :=
      [.execute "/sleep 100", .poll 0 0, .trap .interrupt]
    sleepShell.phase = .idle ∧ s.shared.timers.pendingCount = 1 ∧
      (∃ after : Session Computation Millis, TimedPool.settle (JobTask.behavior programs) 2
          (s.withWoken (s.shell.trap .interrupt)) = (true, after) ∧
        after.shell.env.stored statusName = some "1" ∧ after.shared.timers.pendingCount = 0) ∧
      sleepShell.flag.raised = false ∧
      Engine.Interrupted programs { shell := sleepShell, timers := .empty } past 0 := by
  intro programs s past
  have hphase : sleepShell.phase = .idle := rfl
  have hflag : sleepShell.flag.raised = false := rfl
  obtain ⟨hsessions, hruns⟩ := cancellation_run programs hphase
  -- after the first tick the task is there and waits for its timer
  have hwaits : (s.pool.task? 0).any (fun task => task.job.timer?.isSome) = true := by
    decide +kernel
  obtain ⟨task, htask, htimer⟩ := (Option.any_eq_true ..).1 hwaits
  have hcomputes : task.job.Computes programs (s.shell.trap .interrupt).1 := by
    obtain ⟨job, place⟩ := task
    cases job with
    | suspended io wait => trivial
    | _ => exact absurd htimer (by simp [Job.timer?])
  obtain ⟨after, hsettle, -, -, hstatus, -, -, htimers⟩ :=
    hsessions [.spawn "/sleep 100", .tick] 0 task htask hcomputes
  have hpast : EngineEvent.raise ∉ past := by simp [past]
  have hinterrupted := (hruns .empty past).2 0 0 hflag hpast (by decide +kernel)
    (by decide +kernel)
  exact ⟨hphase, by decide +kernel, ⟨after, hsettle programs.step 2 (Nat.le_refl 2), hstatus,
    htimers⟩, hflag, hinterrupted⟩

end Run

end MountShell
