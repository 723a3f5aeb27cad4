import MountShell.Program.Stock
import MountShell.Proofs.Environment
import MountShell.Proofs.Shell.Poll

/-!
# One command at a time

A shell together with all the futures that it has given for command lines (`Engine`).  They are
polled and dropped in any order and at any time, by whatever tasks hold them, and in between lines
are executed, signals arrive and the host does as it pleases.  Dropping a future is also what
becomes of it when the task that waits for it is given up.

An accepted future holds the shell out of its idle phase until it is finished or dropped.  The
invariant (`Tidy`) says which future that is, and that the scopes of the environment are those from
before its line, with one more for the assignments of the line once it has been begun.

Main statements: `Tidy.after`, no event breaks the invariant, and `one_command_run`, what it comes
to in every run.
-/

namespace MountShell

/-- What has become of a future. -/
inductive Future (κ τ : Type) where
  /-- It can be polled. -/
  | live (job : Job κ τ)
  | finished (result : Except ShellError Int)
  | dropped

/-- A shell, its timers, and the futures that it has given, the oldest first. -/
structure Engine (κ τ : Type) where
  shell : Shell
  timers : TimerQueue τ Waker
  futures : List (Future κ τ) := []

/-- Something that happens to an engine. -/
inductive EngineEvent (τ : Type) where
  | execute (line : String)
  /-- The command that comes first is executed. -/
  | start
  /-- The future with the given number is polled by the task in slot `id`. -/
  | poll (i id : Nat)
  | drop (i : Nat)
  | trap (signal : Signal)
  | raise
  | setenv (name value : String)
  /-- Files, keys, timers, random numbers and the date are what the host makes of them. -/
  | host (fs : FileSystem) (host : Host) (timers : TimerQueue τ Waker) (draws : Draws)
      (today : String)

/-- The future that an event is about. -/
def EngineEvent.future? {τ : Type} : EngineEvent τ → Option Nat
  | poll i _ | drop i => some i
  | _ => none

/-- Has a line been accepted, so that the shell is held by the job? -/
def Job.isAccepted {κ τ : Type} : Job κ τ → Bool
  | settled _ => false
  | accepted _ | suspended _ _ => true

/-- What a future is after a poll. -/
def Future.ofProgress {κ τ : Type} : Progress κ τ → Future κ τ
  | .waits job => .live job
  | .ends result => .finished result

namespace Engine

variable {κ τ : Type}

/-- Adds the future of a job that the shell gives. -/
def add (e : Engine κ τ) (given : Job κ τ × Shell) : Engine κ τ :=
  { e with shell := given.2, futures := e.futures ++ [.live given.1] }

/-- The engine with its shell changed. -/
def withShell (e : Engine κ τ) (shell : Shell) : Engine κ τ :=
  { e with shell }

/-- A future that has been accepted and is neither finished nor dropped. -/
def Active (e : Engine κ τ) (i : Nat) : Prop :=
  ∃ job, e.futures[i]? = some (.live job) ∧ job.isAccepted = true

instance decidableActive (e : Engine κ τ) (i : Nat) : Decidable (e.Active i) :=
  match h : e.futures[i]? with
  | some (.live job) =>
    if haccepted : job.isAccepted = true then isTrue ⟨job, h, haccepted⟩
    else isFalse fun ⟨other, hother, hactive⟩ => by
      obtain rfl : job = other := by simpa [h] using hother
      exact haccepted hactive
  | none | some (.finished _) | some .dropped => isFalse fun ⟨job, hjob, _⟩ => by
      simp [h] at hjob

variable [Zero τ] [Add τ] [LT τ] [DecidableLT τ]

/-- The engine after an event.  What is finished or dropped is not polled or dropped again. -/
def after (programs : Programs κ τ) (e : Engine κ τ) : EngineEvent τ → Engine κ τ
  | .execute line => e.add (e.shell.accept line)
  | .start => e.add e.shell.start
  | .poll i id =>
    match e.futures[i]? with
    | some (.live job) =>
      let p := job.poll programs id e.shell e.timers
      { shell := p.shell, timers := p.timers, futures := e.futures.set i (.ofProgress p.progress) }
    | _ => e
  | .drop i =>
    match e.futures[i]? with
    | some (.live job) =>
      let (shell, timers) := job.drop e.shell e.timers
      { shell, timers, futures := e.futures.set i .dropped }
    | _ => e
  | .trap signal => e.withShell (e.shell.trap signal).1
  | .raise => e.withShell e.shell.raise.1
  | .setenv name value => e.withShell (e.shell.setenv name value)
  | .host fs host timers draws today =>
    { e with timers, shell := { e.shell with fs, host, draws, today } }

/-- The engine after a list of events. -/
def run (programs : Programs κ τ) (e : Engine κ τ) (events : List (EngineEvent τ)) : Engine κ τ :=
  events.foldl (after programs) e

/-- The deeds of the command that an event polls. -/
def deedsOn (programs : Programs κ τ) (e : Engine κ τ) : EngineEvent τ → List Deed
  | .poll i id =>
    match e.futures[i]? with
    | some (.live job) => job.pollDeeds programs id e.shell e.timers
    | _ => []
  | _ => []

/-- The deeds of all commands in a list of events. -/
def deeds (programs : Programs κ τ) : Engine κ τ → List (EngineEvent τ) → List Deed
  | _, [] => []
  | e, event :: events =>
    e.deedsOn programs event ++ deeds programs (e.after programs event) events

end Engine

/-! ### What a job leaves -/

/-- Assignments for good open no scope. -/
theorem Shell.scopes_assignAll (sh : Shell) (assignments : List Assignment) :
    (sh.assignAll assignments).env.scopes = sh.env.scopes := by
  unfold Shell.assignAll
  induction assignments generalizing sh with
  | nil => rfl
  | cons a rest ih => exact ih (sh.setenv a.name a.value)

/-- Accepting a line touches the phase of the shell and the random numbers only. -/
theorem Shell.accept_snd {κ τ : Type} (sh : Shell) (line : String) :
    ∃ draws phase, (sh.accept line : Job κ τ × Shell).2 = { sh with draws, phase } := by
  unfold accept
  by_cases h : sh.phase = .idle
  · rw [if_pos h]
    exact ⟨_, _, rfl⟩
  · rw [if_neg h]
    exact ⟨sh.draws, sh.phase, rfl⟩

/-- Starting only draws random numbers and leaves the idle phase. -/
theorem Shell.start_snd {κ τ : Type} (sh : Shell) :
    ∃ draws phase, (sh.start : Job κ τ × Shell).2 = { sh with draws, phase } := by
  unfold start
  split
  · exact sh.accept_snd _
  · exact ⟨sh.draws, sh.phase, rfl⟩

/-- A command holds the shell, in one scope more than those in `outer`. -/
def Shell.Scoped (outer : List (List (String × Option String))) (sh : Shell) : Prop :=
  sh.phase ≠ .idle ∧ ∃ saved, sh.env.scopes = saved :: outer

/-- The shell is idle with the scopes in `outer`, and no signal is left for the next command. -/
structure Shell.Rests (outer : List (List (String × Option String))) (sh : Shell) : Prop where
  phase : sh.phase = .idle
  scopes : sh.env.scopes = outer
  flag : sh.flag.raised = false

variable {κ τ : Type} {outer : List (List (String × Option String))}

/-- The shell is idle again when a command ends. -/
theorem Shell.rests_of_scopes {sh : Shell} (h : ∃ saved, sh.env.scopes = saved :: outer)
    (io : Io) : ((sh.release io).popScope.leave).Rests outer := by
  obtain ⟨saved, hsaved⟩ := h
  exact ⟨rfl, Environment.scopes_popScope hsaved, rfl⟩

/-- Storing a status leaves a shell at rest. -/
theorem Shell.Rests.setStatus {sh : Shell} (h : sh.Rests outer) (code : Int) :
    (sh.setStatus code).Rests outer :=
  ⟨h.phase, h.scopes, h.flag⟩

/-- Requests leave a command in its scope. -/
theorem undisturbed_scoped (outer : List (List (String × Option String))) :
    Undisturbed fun sh _ _ => sh.Scoped outer where
  answer c r calls h := by
    obtain ⟨hphase, saved, hsaved⟩ := h
    exact ⟨(c.phase_answer r).symm ▸ hphase, saved, (c.scopes_answer r).trans hsaved⟩
  flag sh io calls flag h := h
  host sh io calls host h := h

/-- What a poll leaves: a command that waits in its scope, or a shell that rests. -/
inductive JobPoll.Leaves (outer : List (List (String × Option String))) : JobPoll κ τ → Prop
  | ends {p : JobPoll κ τ} (result : Except ShellError Int) :
      p.progress = .ends result → p.shell.Rests outer → Leaves outer p
  | waits {p : JobPoll κ τ} (io : Io) (wait : Wait κ τ) :
      p.progress = .waits (.suspended io wait) → p.shell.Scoped outer → Leaves outer p

/-- What a poll leaves of the phase and the scopes, from what holds while the command runs. -/
theorem Job.Comes.leaves {p : JobPoll κ τ} {calls : List FileCall}
    (h : Job.Comes (fun sh _ _ => sh.Scoped outer) p calls) : p.Leaves outer := by
  cases h with
  | finish code c timers calls hc =>
    have hrests := Shell.rests_of_scopes hc.2 c.io
    exact .ends _ rfl (hrests.setStatus code)
  | suspend wait c timers calls hc => exact .waits c.io wait rfl hc

section Poll

variable [Zero τ] [Add τ] [LT τ] [DecidableLT τ]

/-- The first poll of a job opens a scope, and closes it if the command ends. -/
theorem Job.leaves_poll_accepted (programs : Programs κ τ) (id : Nat) (line : CommandLine)
    {sh : Shell} (hphase : sh.phase ≠ .idle) (timers : TimerQueue τ Waker) :
    (Job.poll programs id (.accepted line) sh timers).Leaves sh.env.scopes := by
  obtain ⟨saved, hsaved⟩ := Environment.scopes_pushScope sh.env line.exports
  cases hargs : line.args with
  | nil =>
    have hscopes := sh.scopes_assignAll line.assignments
    rw [Job.poll, Job.commence, hargs]
    exact .ends (.ok 0) rfl ⟨rfl, hscopes, rfl⟩
  | cons name args =>
    refine Job.Comes.leaves ((undisturbed_scoped _).commence_cons programs id hargs timers ?_ ?_)
    · intro fs host _
      exact ⟨hphase, saved, hsaved⟩
    · intro fs io _
      exact ⟨Phase.noConfusion, saved, hsaved⟩

/-- A later poll leaves the scope of the command open until the command ends. -/
theorem Job.leaves_poll_suspended (programs : Programs κ τ) (id : Nat) (io : Io) (wait : Wait κ τ)
    {sh : Shell} (h : sh.Scoped outer) (timers : TimerQueue τ Waker) :
    (Job.poll programs id (.suspended io wait) sh timers).Leaves outer := by
  have hcomes : Job.Comes (fun sh _ _ => sh.Scoped outer)
      (Job.poll programs id (.suspended io wait) sh timers)
      ([] ++ Job.pollCalls programs id (.suspended io wait) sh timers) :=
    (undisturbed_scoped outer).poll_suspended programs id wait timers h
  exact hcomes.leaves

end Poll

/-! ### The invariant -/

namespace Engine

/-- The scopes of a shell that is held by a job, with those from before its line in `outer`. -/
def Holds (outer : List (List (String × Option String))) (sh : Shell) : Job κ τ → Prop
  | .settled _ => False
  | .accepted _ => sh.phase ≠ .idle ∧ sh.env.scopes = outer
  | .suspended _ _ => sh.Scoped outer

/-- Either the shell is idle, no future is active and the scopes are those in `outer`, or there is
one active future and its job holds the shell. -/
inductive Tidy (outer : List (List (String × Option String))) (e : Engine κ τ) : Prop
  | idle : e.shell.phase = .idle → e.shell.env.scopes = outer → (∀ i, ¬ e.Active i) → Tidy outer e
  | busy (i : Nat) (job : Job κ τ) : e.futures[i]? = some (.live job) → Holds outer e.shell job →
      (∀ j, e.Active j → j = i) → Tidy outer e

variable {e : Engine κ τ}

/-- Only the new future can become active when one is added. -/
theorem active_add {given : Job κ τ × Shell} {j : Nat} (h : (e.add given).Active j) :
    e.Active j ∨ j = e.futures.length ∧ given.1.isAccepted = true := by
  obtain ⟨job, hjob, haccepted⟩ := h
  have hjob : (e.futures ++ [.live given.1])[j]? = some (.live job) := hjob
  by_cases hj : j < e.futures.length
  · rw [List.getElem?_append_left hj] at hjob
    exact Or.inl ⟨job, hjob, haccepted⟩
  · rw [List.getElem?_append_right (Nat.not_lt.1 hj), List.getElem?_singleton] at hjob
    by_cases hlast : j - e.futures.length = 0
    · rw [if_pos hlast] at hjob
      obtain rfl : given.1 = job := by simpa using hjob
      exact Or.inr ⟨by omega, haccepted⟩
    · exact absurd hjob (by simp [hlast])

/-- When a future changes, only that one can become active. -/
theorem active_set {f : Future κ τ} {i j : Nat} {sh : Shell} {timers : TimerQueue τ Waker}
    (h : Active { shell := sh, timers, futures := e.futures.set i f } j) :
    (j = i ∧ ∃ job, f = .live job ∧ job.isAccepted = true) ∨ (j ≠ i ∧ e.Active j) := by
  obtain ⟨job, hjob, haccepted⟩ := h
  have hjob : (e.futures.set i f)[j]? = some (.live job) := hjob
  by_cases hj : j = i
  · subst hj
    by_cases hlt : j < e.futures.length
    · rw [List.getElem?_set_self hlt] at hjob
      exact Or.inl ⟨rfl, job, Option.some.inj hjob, haccepted⟩
    · rw [List.getElem?_eq_none (by simpa using hlt)] at hjob
      exact absurd hjob (by simp)
  · rw [List.getElem?_set_ne (Ne.symm hj)] at hjob
    exact Or.inr ⟨hj, job, hjob, haccepted⟩

/-- Whether a job holds the shell is told by the phase and the scopes. -/
theorem Holds.congr {sh other : Shell} {job : Job κ τ} (h : Holds outer sh job)
    (hphase : other.phase = sh.phase) (hscopes : other.env.scopes = sh.env.scopes) :
    Holds outer other job := by
  cases job with
  | settled result => exact h
  | accepted line => exact ⟨hphase.symm ▸ h.1, hscopes.trans h.2⟩
  | suspended io wait =>
    obtain ⟨hbusy, saved, hsaved⟩ := h
    exact ⟨hphase.symm ▸ hbusy, saved, hscopes.trans hsaved⟩

/-- A shell that is held is not idle. -/
theorem Holds.phase_ne_idle {sh : Shell} {job : Job κ τ} (h : Holds outer sh job) :
    sh.phase ≠ .idle := by
  cases job with
  | settled result => exact absurd h not_false
  | _ => exact h.1

/-- Only a job whose line has been accepted holds the shell. -/
theorem Holds.isAccepted {sh : Shell} {job : Job κ τ} (h : Holds outer sh job) :
    job.isAccepted = true := by
  cases job with
  | settled result => exact absurd h not_false
  | _ => rfl

/-- What keeps the phase and the scopes of the shell keeps the invariant. -/
theorem Tidy.congr (h : Tidy outer e) {sh : Shell} (timers : TimerQueue τ Waker)
    (hphase : sh.phase = e.shell.phase) (hscopes : sh.env.scopes = e.shell.env.scopes) :
    Tidy outer { e with shell := sh, timers } := by
  cases h with
  | idle hidle houter hnone => exact .idle (hphase.trans hidle) (hscopes.trans houter) hnone
  | busy i job hjob hholds honly => exact .busy i job hjob (hholds.congr hphase hscopes) honly

/-- The job of an active future holds the shell, and no other future is active. -/
theorem Tidy.holds (h : Tidy outer e) {i : Nat} {job : Job κ τ}
    (hjob : e.futures[i]? = some (.live job)) (haccepted : job.isAccepted = true) :
    Holds outer e.shell job ∧ ∀ j, e.Active j → j = i := by
  have hactive : e.Active i := ⟨job, hjob, haccepted⟩
  cases h with
  | idle _ _ hnone => exact absurd hactive (hnone i)
  | busy i' job' hjob' hholds honly =>
    obtain rfl := honly i hactive
    obtain rfl : job = job' := by simpa [hjob] using hjob'
    exact ⟨hholds, honly⟩

/-- An engine begins tidy if its shell is idle. -/
theorem tidy_start {sh : Shell} (hphase : sh.phase = .idle) (hscopes : sh.env.scopes = outer)
    (timers : TimerQueue τ Waker) : Tidy (κ := κ) outer { shell := sh, timers } :=
  .idle hphase hscopes fun i hi => by simp [Active] at hi

/-- No two futures are active. -/
theorem Tidy.eq_of_active (h : Tidy outer e) {i j : Nat} (hi : e.Active i) (hj : e.Active j) :
    i = j := by
  obtain ⟨job, hjob, haccepted⟩ := hi
  exact ((h.holds hjob haccepted).2 j hj).symm

/-- The shell is idle just when no future is active. -/
theorem Tidy.idle_iff (h : Tidy outer e) : e.shell.phase = .idle ↔ ∀ i, ¬ e.Active i := by
  constructor
  · rintro hidle i ⟨job, hjob, haccepted⟩
    exact (h.holds hjob haccepted).1.phase_ne_idle hidle
  · intro hnone
    cases h with
    | idle hidle _ _ => exact hidle
    | busy i job hjob hholds _ => exact absurd ⟨job, hjob, hholds.isAccepted⟩ (hnone i)

/-- An idle shell has the scopes that it began with. -/
theorem Tidy.scopes_of_idle (h : Tidy outer e) (hidle : e.shell.phase = .idle) :
    e.shell.env.scopes = outer := by
  cases h with
  | idle _ houter _ => exact houter
  | busy i job hjob hholds _ => exact absurd hidle hholds.phase_ne_idle

/-- What becomes of a future whose result was known is nothing to the others. -/
theorem Tidy.settle (h : Tidy outer e) {i : Nat} {result : Except ShellError Int}
    (hi : e.futures[i]? = some (.live (.settled result))) {f : Future κ τ}
    (hf : ∀ job, f ≠ .live job) : Tidy outer { e with futures := e.futures.set i f } := by
  have hsame : ∀ j, Active { e with futures := e.futures.set i f } j → e.Active j := by
    intro j hj
    rcases active_set hj with ⟨-, job, hjob, -⟩ | ⟨-, hactive⟩
    · exact absurd hjob (hf job)
    · exact hactive
  cases h with
  | idle hidle houter hnone => exact .idle hidle houter fun j hj => hnone j (hsame j hj)
  | busy i' job hjob hholds honly =>
    have hne : i ≠ i' := by
      rintro rfl
      obtain rfl : Job.settled result = job := by simpa [hi] using hjob
      exact hholds
    refine .busy i' job ?_ hholds fun j hj => honly j (hsame j hj)
    show (e.futures.set i f)[i']? = _
    rw [List.getElem?_set_ne hne]
    exact hjob

/-- When the active future is finished or dropped none is left. -/
theorem Tidy.rest (h : Tidy outer e) {i : Nat} (hi : e.Active i) {f : Future κ τ}
    (hf : ∀ job, f ≠ .live job) {sh : Shell} (timers : TimerQueue τ Waker)
    (hrests : sh.Rests outer) :
    Tidy outer { shell := sh, timers, futures := e.futures.set i f } := by
  obtain ⟨job, hjob, haccepted⟩ := hi
  refine .idle hrests.phase hrests.scopes fun j hj => ?_
  rcases active_set hj with ⟨-, other, hother, -⟩ | ⟨hne, hactive⟩
  · exact hf other hother
  · exact hne ((h.holds hjob haccepted).2 j hactive)

/-- While a command waits its future stays the active one. -/
theorem Tidy.wait (h : Tidy outer e) {i : Nat} (hi : e.Active i) (io : Io) (wait : Wait κ τ)
    {sh : Shell} (timers : TimerQueue τ Waker) (hscoped : sh.Scoped outer) :
    Tidy outer
      { shell := sh, timers, futures := e.futures.set i (.live (.suspended io wait)) } := by
  obtain ⟨job, hjob, haccepted⟩ := hi
  have hlt : i < e.futures.length := (List.getElem?_eq_some_iff.1 hjob).1
  refine .busy i (.suspended io wait) (List.getElem?_set_self hlt) hscoped fun j hj => ?_
  rcases active_set hj with ⟨rfl, -⟩ | ⟨-, hactive⟩
  · rfl
  · exact (h.holds hjob haccepted).2 j hactive

/-- A future whose result is known is added without touching the shell. -/
theorem Tidy.addSettled (h : Tidy outer e) (result : Except ShellError Int) :
    Tidy outer (e.add (.settled result, e.shell)) := by
  have hsame : ∀ j, (e.add (.settled result, e.shell)).Active j → e.Active j := by
    intro j hj
    rcases active_add hj with hactive | ⟨-, haccepted⟩
    · exact hactive
    · exact absurd haccepted (by simp [Job.isAccepted])
  cases h with
  | idle hidle houter hnone => exact .idle hidle houter fun j hj => hnone j (hsame j hj)
  | busy i job hjob hholds honly =>
    have hlt : i < e.futures.length := (List.getElem?_eq_some_iff.1 hjob).1
    exact .busy i job ((List.getElem?_append_left hlt).trans hjob) hholds
      fun j hj => honly j (hsame j hj)

/-- A line that is executed is accepted by an idle shell, whose only active future is then the new
one. -/
theorem Tidy.accept (h : Tidy outer e) (line : String) :
    Tidy outer (e.add (e.shell.accept line)) := by
  unfold Shell.accept
  by_cases hphase : e.shell.phase = .idle
  · rw [if_pos hphase]
    cases h with
    | busy i job hjob hholds honly => exact absurd hphase hholds.phase_ne_idle
    | idle hidle houter hnone =>
      refine .busy e.futures.length _ (List.getElem?_concat_length ..)
        ⟨Phase.noConfusion, houter⟩ fun j hj => ?_
      rcases active_add hj with hactive | ⟨rfl, -⟩
      · exact absurd hactive (hnone j)
      · rfl
  · rw [if_neg hphase]
    exact h.addSettled (.error .busy)

/-- Starting leaves an engine tidy. -/
theorem Tidy.start (h : Tidy outer e) : Tidy outer (e.add e.shell.start) := by
  unfold Shell.start
  cases e.shell.motd with
  | some line => exact h.accept line
  | none => exact h.addSettled (.ok 0)

/-- The job of an active future that is dropped leaves a shell that rests. -/
theorem Holds.rests_drop {sh : Shell} {job : Job κ τ} (h : Holds outer sh job)
    (timers : TimerQueue τ Waker) : (job.drop sh timers).1.Rests outer := by
  cases job with
  | settled result => exact absurd h not_false
  | accepted line => exact ⟨rfl, h.2, rfl⟩
  | suspended io wait => exact Shell.rests_of_scopes h.2 io

variable [Zero τ] [Add τ] [LT τ] [DecidableLT τ]

/-- A poll of the job that holds the shell leaves it held, or at rest. -/
theorem Holds.leaves_poll {sh : Shell} {job : Job κ τ} (h : Holds outer sh job)
    (programs : Programs κ τ) (id : Nat) (timers : TimerQueue τ Waker) :
    (job.poll programs id sh timers).Leaves outer := by
  cases job with
  | settled result => exact absurd h not_false
  | accepted line =>
    obtain ⟨hphase, rfl⟩ := h
    exact Job.leaves_poll_accepted programs id line hphase timers
  | suspended io wait => exact Job.leaves_poll_suspended programs id io wait h timers

/-- Polling leaves an engine tidy, whichever future is polled. -/
theorem Tidy.poll (h : Tidy outer e) (programs : Programs κ τ) (i id : Nat) :
    Tidy outer (e.after programs (.poll i id)) := by
  rw [after]
  cases hfuture : e.futures[i]? with
  | none => exact h
  | some f =>
    cases f with
    | finished result => exact h
    | dropped => exact h
    | live job =>
      by_cases haccepted : job.isAccepted = true
      · have hactive : e.Active i := ⟨job, hfuture, haccepted⟩
        simp only
        cases (h.holds hfuture haccepted).1.leaves_poll programs id e.timers with
        | ends result hprogress hrests =>
          rw [hprogress]
          exact h.rest hactive (f := .finished result) (by simp) _ hrests
        | waits io wait hprogress hscoped =>
          rw [hprogress]
          exact h.wait hactive io wait _ hscoped
      · cases job with
        | settled result => exact h.settle hfuture (f := .finished result) (by simp)
        | _ => exact absurd rfl haccepted

/-- So does dropping a future. -/
theorem Tidy.drop (h : Tidy outer e) (programs : Programs κ τ) (i : Nat) :
    Tidy outer (e.after programs (.drop i)) := by
  rw [after]
  cases hfuture : e.futures[i]? with
  | none => exact h
  | some f =>
    cases f with
    | finished result => exact h
    | dropped => exact h
    | live job =>
      by_cases haccepted : job.isAccepted = true
      · have hholds := (h.holds hfuture haccepted).1
        exact h.rest ⟨job, hfuture, haccepted⟩ (f := .dropped) (by simp) _
          (hholds.rests_drop e.timers)
      · cases job with
        | settled result => exact h.settle hfuture (f := .dropped) (by simp)
        | _ => exact absurd rfl haccepted

/-- No event breaks the invariant. -/
theorem Tidy.after (h : Tidy outer e) (programs : Programs κ τ) (event : EngineEvent τ) :
    Tidy outer (e.after programs event) := by
  cases event with
  | execute line => exact h.accept line
  | start => exact h.start
  | poll i id => exact h.poll programs i id
  | drop i => exact h.drop programs i
  | trap signal =>
    have hkept : (e.shell.trap signal).1.phase = e.shell.phase ∧
        (e.shell.trap signal).1.env.scopes = e.shell.env.scopes := by
      unfold Shell.trap
      split <;> exact ⟨rfl, rfl⟩
    exact h.congr e.timers hkept.1 hkept.2
  | raise => exact h.congr e.timers rfl rfl
  | setenv name value => exact h.congr e.timers rfl rfl
  | host fs host timers draws today => exact h.congr timers rfl rfl

/-- So does every run, by induction on its events. -/
theorem Tidy.run (h : Tidy outer e) (programs : Programs κ τ) (events : List (EngineEvent τ)) :
    Tidy outer (e.run programs events) := by
  induction events generalizing e with
  | nil => exact h
  | cons event events ih => exact ih (h.after programs event)

/-! ### One future among the others -/

/-- An event that is about another future leaves a future as it is. -/
theorem futures_after {i : Nat} (hi : i < e.futures.length) (programs : Programs κ τ)
    {event : EngineEvent τ} (hevent : event.future? ≠ some i) :
    (e.after programs event).futures[i]? = e.futures[i]? := by
  have hadd : ∀ given, (e.add given).futures[i]? = e.futures[i]? :=
    fun given => List.getElem?_append_left hi
  have hset : ∀ {j : Nat} {f : Future κ τ}, j ≠ i → (e.futures.set j f)[i]? = e.futures[i]? :=
    fun hj => List.getElem?_set_ne hj
  cases event with
  | execute line => exact hadd _
  | start => exact hadd _
  | poll j id =>
    have hj : j ≠ i := fun h => hevent (congrArg some h)
    rw [Engine.after]
    split
    · exact hset hj
    · rfl
  | drop j =>
    have hj : j ≠ i := fun h => hevent (congrArg some h)
    rw [Engine.after]
    split
    · exact hset hj
    · rfl
  | _ => rfl

/-- A line that is executed by an idle shell is accepted. -/
theorem accepted_after (hidle : e.shell.phase = .idle) (programs : Programs κ τ) (text : String) :
    (e.after programs (.execute text)).futures[e.futures.length]? =
      some (.live (.accepted (CommandLine.parse e.shell.env text e.shell.draws).1)) := by
  have haccept : e.shell.accept (κ := κ) (τ := τ) text =
      (.accepted (CommandLine.parse e.shell.env text e.shell.draws).1, _) := if_pos hidle
  show (e.futures ++ [.live (e.shell.accept text).1])[e.futures.length]? = _
  rw [haccept]
  exact List.getElem?_concat_length ..

/-- What polling a live future leaves of an engine. -/
theorem after_poll {i : Nat} {job : Job κ τ} (hi : e.futures[i]? = some (.live job))
    (programs : Programs κ τ) (id : Nat) :
    e.after programs (.poll i id) =
      { shell := (job.poll programs id e.shell e.timers).shell
        timers := (job.poll programs id e.shell e.timers).timers
        futures :=
          e.futures.set i (.ofProgress (job.poll programs id e.shell e.timers).progress) } := by
  rw [Engine.after, hi]

theorem deedsOn_poll {i : Nat} {job : Job κ τ} (hi : e.futures[i]? = some (.live job))
    (programs : Programs κ τ) (id : Nat) :
    e.deedsOn programs (.poll i id) = job.pollDeeds programs id e.shell e.timers := by
  rw [Engine.deedsOn, hi]

/-- What dropping a live future leaves of an engine. -/
theorem after_drop {i : Nat} {job : Job κ τ} (hi : e.futures[i]? = some (.live job))
    (programs : Programs κ τ) :
    e.after programs (.drop i) =
      { shell := (job.drop e.shell e.timers).1
        timers := (job.drop e.shell e.timers).2
        futures := e.futures.set i .dropped } := by
  rw [Engine.after, hi]

/-- An event about a future that is not active leaves the shell as it is. -/
theorem shell_after_of_not_active {i : Nat} (hi : ¬ e.Active i) (programs : Programs κ τ)
    {event : EngineEvent τ} (hevent : event.future? = some i) :
    (e.after programs event).shell = e.shell := by
  have hsettled : ∀ {j : Nat} {job : Job κ τ}, some j = some i → e.futures[j]? = some (.live job) →
      ∃ result, job = .settled result := by
    intro j job hj hjob
    obtain rfl : j = i := Option.some.inj hj
    cases job with
    | settled result => exact ⟨result, rfl⟩
    | _ => exact absurd ⟨_, hjob, rfl⟩ hi
  cases event with
  | poll j id =>
    rw [Engine.after]
    split
    next job hjob =>
      obtain ⟨result, rfl⟩ := hsettled hevent hjob
      rfl
    next => rfl
  | drop j =>
    rw [Engine.after]
    split
    next job hjob =>
      obtain ⟨result, rfl⟩ := hsettled hevent hjob
      rfl
    next => rfl
  | _ => exact absurd hevent (by simp [EngineEvent.future?])

/-- What is finished or dropped stays so, and nothing else happens. -/
theorem after_eq_self {i : Nat} {f : Future κ τ} (hi : e.futures[i]? = some f)
    (hf : ∀ job, f ≠ .live job) (programs : Programs κ τ) {event : EngineEvent τ}
    (hevent : event.future? = some i) : e.after programs event = e := by
  have hover : ∀ {j : Nat}, some j = some i → ∀ job, e.futures[j]? ≠ some (.live job) := by
    intro j hj job hjob
    obtain rfl : j = i := Option.some.inj hj
    exact hf job (Option.some.inj (hi.symm.trans hjob))
  cases event with
  | poll j id =>
    rw [Engine.after]
    split
    next job hjob => exact absurd hjob (hover hevent job)
    next => rfl
  | drop j =>
    rw [Engine.after]
    split
    next job hjob => exact absurd hjob (hover hevent job)
    next => rfl
  | _ => exact absurd hevent (by simp [EngineEvent.future?])

/-- An active future stays active until a poll of it ends the command or it is dropped, and then the
shell rests. -/
theorem Tidy.rests_of_not_active (h : Tidy outer e) {i : Nat} (hi : e.Active i)
    (programs : Programs κ τ) {event : EngineEvent τ}
    (hafter : ¬ (e.after programs event).Active i) :
    (e.after programs event).shell.Rests outer := by
  obtain ⟨job, hjob, haccepted⟩ := hi
  have hlt : i < e.futures.length := (List.getElem?_eq_some_iff.1 hjob).1
  have hholds := (h.holds hjob haccepted).1
  by_cases hevent : event.future? = some i
  · cases event with
    | poll j id =>
      obtain rfl : j = i := Option.some.inj hevent
      rw [Engine.after, hjob] at hafter ⊢
      simp only at hafter ⊢
      cases hholds.leaves_poll programs id e.timers with
      | ends result hprogress hrests => exact hrests
      | waits io wait hprogress hscoped =>
        rw [hprogress] at hafter
        exact absurd ⟨.suspended io wait, List.getElem?_set_self hlt, rfl⟩ hafter
    | drop j =>
      obtain rfl : j = i := Option.some.inj hevent
      rw [Engine.after, hjob]
      exact hholds.rests_drop e.timers
    | _ => exact absurd hevent (by simp [EngineEvent.future?])
  · exact absurd ⟨job, (futures_after hlt programs hevent).trans hjob, haccepted⟩ hafter

/-- A future that has been refused: a poll finds that the shell was busy, and neither that nor
dropping the future changes anything else. -/
def Refused (programs : Programs κ τ) (e : Engine κ τ) (i : Nat) : Prop :=
  e.futures[i]? = some (.finished (.error .busy)) ∨ e.futures[i]? = some .dropped ∨
    e.futures[i]? = some (.live (.settled (.error .busy))) ∧
      (∀ id, e.after programs (.poll i id) =
        { e with futures := e.futures.set i (.finished (.error .busy)) }) ∧
      e.after programs (.drop i) = { e with futures := e.futures.set i .dropped }

/-- A future that was refused at once is refused. -/
theorem refused_of_settled (programs : Programs κ τ) {i : Nat}
    (hi : e.futures[i]? = some (.live (.settled (.error .busy)))) : Refused programs e i := by
  refine Or.inr (Or.inr ⟨hi, fun id => ?_, ?_⟩)
  · rw [Engine.after, hi]
    rfl
  · rw [Engine.after, hi]
    rfl

/-- No event changes that a future has been refused. -/
theorem Refused.after {programs : Programs κ τ} {i : Nat} (h : Refused programs e i)
    (event : EngineEvent τ) : Refused programs (e.after programs event) i := by
  by_cases hevent : event.future? = some i
  · rcases h with hdone | hdropped | ⟨hlive, hpoll, hdrop⟩
    · rw [after_eq_self hdone (by simp) programs hevent]
      exact Or.inl hdone
    · rw [after_eq_self hdropped (by simp) programs hevent]
      exact Or.inr (Or.inl hdropped)
    · have hlt : i < e.futures.length := (List.getElem?_eq_some_iff.1 hlive).1
      cases event with
      | poll j id =>
        obtain rfl : j = i := Option.some.inj hevent
        rw [hpoll id]
        exact Or.inl (List.getElem?_set_self hlt)
      | drop j =>
        obtain rfl : j = i := Option.some.inj hevent
        rw [hdrop]
        exact Or.inr (Or.inl (List.getElem?_set_self hlt))
      | _ => exact absurd hevent (by simp [EngineEvent.future?])
  · have hkept : ∀ {f : Future κ τ}, e.futures[i]? = some f →
        (e.after programs event).futures[i]? = some f := by
      intro f hf
      have hlt : i < e.futures.length := (List.getElem?_eq_some_iff.1 hf).1
      exact (futures_after hlt programs hevent).trans hf
    rcases h with hdone | hdropped | ⟨hlive, -⟩
    · exact Or.inl (hkept hdone)
    · exact Or.inr (Or.inl (hkept hdropped))
    · exact refused_of_settled programs (hkept hlive)

/-- Nor does any run. -/
theorem Refused.run {programs : Programs κ τ} {i : Nat} (h : Refused programs e i)
    (events : List (EngineEvent τ)) : Refused programs (e.run programs events) i := by
  induction events generalizing e with
  | nil => exact h
  | cons event events ih => exact ih (h.after event)

/-! ### Every run -/

/-- One command at a time.  In every run of an engine whose shell begins idle and without scopes, at
most one future is active, the shell is idle just when none is, and then no scope is open.  A line
that is executed when the shell is not idle changes nothing: its future is refused, whatever comes
after.  When an active future is finished or dropped, the flag is lowered and the shell is idle. -/
theorem one_command_run (programs : Programs κ τ) {sh : Shell} (hphase : sh.phase = .idle)
    (hscopes : sh.env.scopes = []) (timers : TimerQueue τ Waker)
    (events : List (EngineEvent τ)) :
    let e := Engine.run programs { shell := sh, timers } events
    (∀ i j, e.Active i → e.Active j → i = j) ∧
      (e.shell.phase = .idle ↔ ∀ i, ¬ e.Active i) ∧
      (e.shell.phase = .idle → e.shell.env.scopes = []) ∧
      (∀ line, e.shell.phase ≠ .idle →
        e.after programs (.execute line) =
            { e with futures := e.futures ++ [.live (.settled (.error .busy))] } ∧
          ∀ more, Refused programs ((e.after programs (.execute line)).run programs more)
            e.futures.length) ∧
      ∀ event i, e.Active i → ¬ (e.after programs event).Active i →
        (e.after programs event).shell.phase = .idle ∧
          (e.after programs event).shell.flag.raised = false := by
  intro e
  have htidy : Tidy [] e := (tidy_start hphase hscopes timers).run programs events
  refine ⟨fun i j => htidy.eq_of_active, htidy.idle_iff, htidy.scopes_of_idle, ?_, ?_⟩
  · intro line hbusy
    have hrefused : e.after programs (.execute line) =
        { e with futures := e.futures ++ [.live (.settled (.error .busy))] } := by
      rw [Engine.after, Shell.accept, if_neg hbusy]
      rfl
    refine ⟨hrefused, fun more => Refused.run (refused_of_settled programs ?_) more⟩
    rw [hrefused]
    exact List.getElem?_concat_length ..
  · intro event i hi hafter
    have hrests := htidy.rests_of_not_active hi programs hafter
    exact ⟨hrests.phase, hrests.flag⟩

/-- A shell with a program that goes on for ever, and a text. -/
def yesShell : Shell where
  fs := FileSystem.mount {}
    { device := "none", mountPoint := "/", typeName := "jfs", options := "" }
    (.supplied (.directory true [
      ("bin", .directory false [("yes", .file false (.program "yes"))]),
      ("f", .file true (.text "a"))]))
  draws := .ofSeed 0

/-- A command that is dropped while it waits, with a signal and a refused line in between. -/
theorem one_command_dropped :
    let e := Engine.run (Stock.programs []) { shell := yesShell, timers := .empty }
      [.execute "X=1 /bin/yes", .poll 0 0, .trap .interrupt, .execute "clear", .drop 0]
    yesShell.phase = .idle ∧ yesShell.env.scopes = [] ∧ e.futures.length = 2 ∧
      e.shell.env.scopes = [] ∧ ∀ i, ¬ e.Active i := by
  have hphase : yesShell.phase = .idle := rfl
  have hscopes : yesShell.env.scopes = [] := rfl
  have hrun := one_command_run (Stock.programs []) hphase hscopes .empty
    [.execute "X=1 /bin/yes", .poll 0 0, .trap .interrupt, .execute "clear", .drop 0]
  have hidle : (Engine.run (Stock.programs []) { shell := yesShell, timers := .empty }
      [.execute "X=1 /bin/yes", .poll 0 0, .trap .interrupt, .execute "clear",
        .drop 0]).shell.phase = .idle := by
    decide +kernel
  exact ⟨hphase, hscopes, by decide +kernel, hrun.2.2.1 hidle, hrun.2.1.1 hidle⟩

end Engine

end MountShell
