import MountShell.Proofs.Shell.Deeds

/-!
# What a poll of a job comes to

A job that has been polled has ended, or it waits with its command suspended.  Between the two lie
any number of steps of the command, with any requests.  A property of the shell, of the
redirections and of the calls of the filesystem that no request disturbs (`Undisturbed`) still holds
when the poll comes to its end.  That the calls account for all that becomes of the filesystem is
such a property.

Main statements: `Undisturbed.course`, such a property holds all the time,
`Undisturbed.poll_suspended` and `Undisturbed.commence`, what a poll of a job comes to; and
`leads_poll` and `leads_drop`, the calls of a job lead from the filesystem before to the one after.
-/

namespace MountShell

/-- A property of the shell, the redirections and the calls of a command that requests, and looks at
the flag and at the keys, leave alone. -/
structure Undisturbed (P : Shell → Io → List FileCall → Prop) : Prop where
  answer : ∀ (c : Context) (r : Request) (calls : List FileCall),
    P c.shell c.io calls → P (c.answer r).2.shell (c.answer r).2.io (calls ++ c.calls r)
  flag : ∀ (sh : Shell) (io : Io) (calls : List FileCall) (flag : SignalFlag Waker),
    P sh io calls → P { sh with flag } io calls
  host : ∀ (sh : Shell) (io : Io) (calls : List FileCall) (host : Host),
    P sh io calls → P { sh with host } io calls

namespace Job

/-- After the given calls a poll has ended a command, or suspended it, when the property `P`
held. -/
inductive Comes {κ τ : Type} (P : Shell → Io → List FileCall → Prop) :
    JobPoll κ τ → List FileCall → Prop
  | finish (code : Int) (c : Context) (timers : TimerQueue τ Waker) (calls : List FileCall) :
      P c.shell c.io calls → Comes P (finish code c timers) (calls ++ c.shell.closings c.io)
  | suspend (wait : Wait κ τ) (c : Context) (timers : TimerQueue τ Waker) (calls : List FileCall) :
      P c.shell c.io calls → Comes P (suspend wait c timers) calls

end Job

/-- What a poll has come to, without regard to its deeds. -/
theorem Job.Arrives.comes {κ τ : Type} {P : Shell → Io → List FileCall → Prop} {p : JobPoll κ τ}
    {calls : List FileCall} {deeds : List Deed}
    (h : Job.Arrives (fun c _ calls _ => P c.shell c.io calls)
      (fun _ c _ calls _ => P c.shell c.io calls) p calls deeds) : Job.Comes P p calls := by
  cases h with
  | finish code c timers calls deeds hc => exact .finish code c timers calls hc
  | suspend wait c timers calls deeds hc => exact .suspend wait c timers calls hc

namespace Undisturbed

variable {P : Shell → Io → List FileCall → Prop} {κ τ : Type} [Zero τ] [Add τ] [LT τ]
  [DecidableLT τ]

/-- Whatever a command does and waits for, the property holds all the time. -/
theorem course (h : Undisturbed P) (id : Nat) :
    Course (κ := κ) (τ := τ) id (fun c _ calls _ => P c.shell c.io calls)
      (fun _ c _ calls _ => P c.shell c.io calls) (fun _ c _ calls _ => P c.shell c.io calls) :=
  Course.ofShell id (fun c r calls _ => h.answer c r calls)
    (fun sh io calls _ _ => h.flag sh io calls sh.flag.take.1)
    (fun sh io calls _ waiter => h.flag sh io calls (sh.flag.look waiter).1)
    (fun sh io calls _ host _ => h.host sh io calls host)

/-- A job that is suspended goes on until it ends, or waits again. -/
theorem poll_suspended (h : Undisturbed P) (programs : Programs κ τ) (id : Nat) (wait : Wait κ τ)
    {sh : Shell} {io : Io} {calls : List FileCall} (timers : TimerQueue τ Waker)
    (hsh : P sh io calls) :
    Job.Comes P (Job.poll programs id (.suspended io wait) sh timers)
      (calls ++ Job.pollCalls programs id (.suspended io wait) sh timers) := by
  have harrives := (h.course id).poll_suspended programs wait timers calls [] sh io hsh
  exact harrives.comes

/-- A line with a command is carried out until it ends, or waits.  The property has to hold when the
redirections have been opened, and also when the command is not found. -/
theorem commence (h : Undisturbed P) (programs : Programs κ τ) (id : Nat) {line : CommandLine}
    {name : String} {args : List String} (hargs : line.args = name :: args) {sh : Shell}
    (timers : TimerQueue τ Waker)
    (hmissing : ∀ begun host,
      { sh with env := sh.env.pushScope line.exports }.resolveCommand name = (none, begun) →
      P { begun with host } { command := name } (line.preparations sh))
    (hfound : ∀ command begun,
      { sh with env := sh.env.pushScope line.exports }.resolveCommand name = (some command, begun) →
      let built := { begun with phase := .buildingIo }.buildIo name line.redirections
      P { built.2 with phase := .running } built.1 (line.preparations sh)) :
    Job.Comes P (Job.poll programs id (.accepted line) sh timers)
      (Job.pollCalls programs id (.accepted line) sh timers) :=
  ((h.course id).commence programs hargs sh timers
    (fun begun hbegun => hmissing begun _ hbegun) hfound).comes

/-- Where it does not matter what becomes of the filesystem when a line is begun. -/
theorem commence_cons (h : Undisturbed P) (programs : Programs κ τ) (id : Nat) {line : CommandLine}
    {name : String} {args : List String} (hargs : line.args = name :: args) {sh : Shell}
    (timers : TimerQueue τ Waker)
    (hmissing : ∀ fs host, line.building? sh = none →
      P { sh with env := sh.env.pushScope line.exports, fs, host } { command := name }
        (line.preparations sh))
    (hfound : ∀ fs io, io.files = FileCall.openedFiles (line.openings (line.building? sh)) →
      P { sh with env := sh.env.pushScope line.exports, fs, phase := .running } io
        (line.preparations sh)) :
    Job.Comes P (Job.poll programs id (.accepted line) sh timers)
      (Job.pollCalls programs id (.accepted line) sh timers) :=
  ((h.course id).commence_cons programs hargs sh timers hmissing hfound).comes

end Undisturbed

/-! ### The calls account for what becomes of the filesystem -/

/-- Where calls have led to the filesystem of the shell, those of a request lead on. -/
theorem undisturbed_leads (fs : FileSystem) :
    Undisturbed fun sh _ calls => FileCall.Leads fs calls sh.fs where
  answer c r _ h := h.append (c.leads_answer r)
  flag _ _ _ _ h := h
  host _ _ _ _ h := h

/-- Making assignments leaves the filesystem. -/
theorem Shell.fs_assignAll (sh : Shell) (assignments : List Assignment) :
    (sh.assignAll assignments).fs = sh.fs := by
  unfold Shell.assignAll
  induction assignments generalizing sh with
  | nil => rfl
  | cons a rest ih => exact ih (sh.setenv a.name a.value)

namespace Job

variable {κ τ : Type} {fs : FileSystem}

/-- The end of a command closes its redirections. -/
theorem Comes.leads {p : JobPoll κ τ} {calls : List FileCall}
    (h : Comes (fun sh _ calls => FileCall.Leads fs calls sh.fs) p calls) :
    FileCall.Leads fs calls p.shell.fs := by
  cases h with
  | finish code c timers calls hc => exact hc.append (c.shell.leads_closings c.io)
  | suspend wait c timers calls hc => exact hc

/-- The calls of a job that is dropped account for all that dropping it does to the filesystem. -/
theorem leads_drop (job : Job κ τ) (sh : Shell) (timers : TimerQueue τ Waker) :
    FileCall.Leads sh.fs (job.dropCalls sh) (job.drop sh timers).1.fs := by
  cases job with
  | settled result => rfl
  | accepted line => rfl
  | suspended io wait => exact sh.leads_closings io

variable [Zero τ] [Add τ] [LT τ] [DecidableLT τ]

/-- The first poll of a line leads through its preparations. -/
theorem leads_poll_accepted (programs : Programs κ τ) (id : Nat) (line : CommandLine) (sh : Shell)
    (timers : TimerQueue τ Waker) :
    FileCall.Leads sh.fs (pollCalls programs id (.accepted line) sh timers)
      (poll programs id (.accepted line) sh timers).shell.fs := by
  cases hargs : line.args with
  | nil =>
    have hcalls := pollCalls_of_args_eq_nil programs id hargs sh timers
    rw [hcalls, poll, commence, hargs]
    exact (sh.fs_assignAll line.assignments).symm
  | cons name args =>
    have hlookups := Shell.leads_lookups { sh with env := sh.env.pushScope line.exports } name
    have hbuilding := CommandLine.building?_cons hargs sh
    rw [← CommandLine.lookups_cons hargs] at hlookups
    refine ((undisturbed_leads sh.fs).commence programs id hargs timers ?_ ?_).leads
    · intro begun host hbegun
      rw [hbegun] at hlookups hbuilding
      rw [CommandLine.preparations, hbuilding]
      exact hlookups.append rfl
    · intro command begun hbegun
      rw [hbegun] at hlookups hbuilding
      rw [CommandLine.preparations, hbuilding]
      exact hlookups.append (Shell.leads_buildIo { begun with phase := .buildingIo } name _)

/-- The calls of a job that is polled account for all that the poll does to the filesystem. -/
theorem leads_poll (programs : Programs κ τ) (id : Nat) (job : Job κ τ) (sh : Shell)
    (timers : TimerQueue τ Waker) :
    FileCall.Leads sh.fs (job.pollCalls programs id sh timers)
      (job.poll programs id sh timers).shell.fs := by
  cases job with
  | settled result => rfl
  | accepted line => exact leads_poll_accepted programs id line sh timers
  | suspended io wait =>
    have hstart : FileCall.Leads sh.fs [] sh.fs := rfl
    exact ((undisturbed_leads sh.fs).poll_suspended programs id wait timers hstart).leads

end Job

end MountShell
