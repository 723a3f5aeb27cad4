import Mathlib.Algebra.Group.Int.Defs
import MountShell.Proofs.Shell.Redirection
import MountShell.Proofs.Text.Numeral

/-!
# What a line leaves of the variables

The assignments of a line hold while its command runs, and a command may store variables itself.
When its future has ended, the names that the line assigns stand for what they stood for when the
line was begun, however often they are assigned and whatever has been stored under them since; the
others have the last value that they were given.  A command that has not been dropped leaves its
exit code in the status.  A line without a command makes its assignments for good.

The invariant says that the environment of a command that waits is the one in which its scope was
opened with everything stored that has been written since (`Environment.setAll`).

Main statement: `environment_run`, the variables at the end of every line in every run.
-/

namespace MountShell

/-! ### What is written in one poll -/

namespace Deed

/-- The variable that a deed stores, and its value. -/
def write? : Deed → Option (String × String)
  | asks (.setenv name value) => some (name, value)
  | _ => none

/-- The variables that deeds store, in order. -/
def writes (deeds : List Deed) : List (String × String) :=
  deeds.filterMap write?

theorem writes_append (first rest : List Deed) :
    writes (first ++ rest) = writes first ++ writes rest :=
  List.filterMap_append

end Deed

/-- Only a request to store a variable changes the environment. -/
theorem Context.env_answer (c : Context) (r : Request) :
    (c.answer r).2.shell.env = c.shell.env.setAll (Deed.writes [.asks r]) := by
  cases r with
  | getPath path => exact congrArg (·.env) (c.shell.fs_getPath path)
  | createFile path => exact congrArg (·.env) (c.shell.fs_createFile path)
  | _ => rfl

/-- While a command is driven and while it waits, the environment is the one it began with, with
everything stored that the command has written. -/
theorem Course.stores {κ τ : Type} [Zero τ] [Add τ] [LT τ] [DecidableLT τ] (id : Nat)
    (base : Environment) :
    Course (κ := κ) (τ := τ) id (fun c _ _ deeds => c.shell.env = base.setAll (Deed.writes deeds))
      (fun _ c _ _ deeds => c.shell.env = base.setAll (Deed.writes deeds))
      (fun _ c _ _ deeds => c.shell.env = base.setAll (Deed.writes deeds)) := by
  refine Course.ofShell (P := fun sh _ _ deeds => sh.env = base.setAll (Deed.writes deeds)) id
    ?_ ?_ ?_ ?_
  · intro c r calls deeds hc
    rw [Deed.writes_append, Environment.setAll_append, ← hc]
    exact c.env_answer r
  · intro sh io calls deeds hraised hsh
    rw [Deed.writes_append]
    exact hsh.trans (congrArg base.setAll (List.append_nil _).symm)
  · intro sh io calls deeds waiter hsh
    exact hsh
  · intro sh io calls deeds host _ hsh
    exact hsh

/-- What a poll leaves of the variables, when `wrote` has been written since the scope of the
command was opened in `base`: the command has ended, or it still waits. -/
inductive JobPoll.Stores {κ τ : Type} (base : Environment) (wrote : List (String × String)) :
    JobPoll κ τ → Prop
  | ends {p : JobPoll κ τ} (code : Int) :
      p.progress = .ends (.ok code) →
      p.shell.env = (base.setAll wrote).popScope.set statusName (Text.showInt code) →
      Stores base wrote p
  | waits {p : JobPoll κ τ} (io : Io) (wait : Wait κ τ) :
      p.progress = .waits (.suspended io wait) → p.shell.env = base.setAll wrote →
      Stores base wrote p

section Poll

variable {κ τ : Type} {base : Environment}

theorem Job.Arrives.stores {p : JobPoll κ τ} {calls : List FileCall} {deeds : List Deed}
    (h : Job.Arrives (fun c _ _ deeds => c.shell.env = base.setAll (Deed.writes deeds))
      (fun _ c _ _ deeds => c.shell.env = base.setAll (Deed.writes deeds)) p calls deeds) :
    p.Stores base (Deed.writes deeds) := by
  rcases h with ⟨code, c, timers, calls, deeds, hc⟩ | ⟨wait, c, timers, calls, deeds, hc⟩
  · have hended : (Job.finish code c timers : JobPoll κ τ).shell.env =
        c.shell.env.popScope.set statusName (Text.showInt code) := rfl
    rw [hc] at hended
    exact .ends code rfl hended
  · exact .waits c.io wait rfl hc

variable [Zero τ] [Add τ] [LT τ] [DecidableLT τ]

/-- The first poll of a line with a command opens the scope in which the command writes. -/
theorem Job.stores_poll_accepted (programs : Programs κ τ) (id : Nat) {line : CommandLine}
    (hargs : line.args ≠ []) (sh : Shell) (timers : TimerQueue τ Waker) :
    (Job.poll programs id (.accepted line) sh timers).Stores (sh.env.pushScope line.exports)
      (Deed.writes (Job.pollDeeds programs id (.accepted line) sh timers)) := by
  obtain ⟨name, args, hcons⟩ := List.exists_cons_of_ne_nil hargs
  have hcourse := Course.stores (κ := κ) (τ := τ) id (sh.env.pushScope line.exports)
  have harrives := hcourse.commence_cons programs hcons sh timers
    (fun _ _ _ => rfl) (fun _ _ _ => rfl)
  exact harrives.stores

/-- A later poll goes on writing. -/
theorem Job.stores_poll_suspended (programs : Programs κ τ) (id : Nat) (io : Io) (wait : Wait κ τ)
    {sh : Shell} {wrote : List (String × String)} (hsh : sh.env = base.setAll wrote)
    (timers : TimerQueue τ Waker) :
    (Job.poll programs id (.suspended io wait) sh timers).Stores base
      (wrote ++ Deed.writes (Job.pollDeeds programs id (.suspended io wait) sh timers)) := by
  have hcourse := Course.stores (κ := κ) (τ := τ) id sh.env
  have harrives := hcourse.poll_suspended programs wait timers [] [] sh io rfl
  rw [List.nil_append, List.nil_append] at harrives
  rcases harrives.stores with ⟨code, hprogress, hended⟩ | ⟨io', wait', hprogress, hwaits⟩
  · rw [hsh, ← Environment.setAll_append] at hended
    exact .ends code hprogress hended
  · rw [hsh, ← Environment.setAll_append] at hwaits
    exact .waits io' wait' hprogress hwaits

end Poll

/-- The status that a command leaves is read back as its exit code. -/
theorem Shell.lastStatus_of_stored {sh : Shell} {code : Int}
    (h : sh.env.stored statusName = some (Text.showInt code))
    (hlow : -2 ^ 31 ≤ code) (hhigh : code < 2 ^ 31) : sh.lastStatus = code := by
  have hread : Text.readInt Shell.codeBits (Text.showInt code) = some code :=
    Text.readInt_showInt hlow hhigh
  rw [Shell.lastStatus, h, Option.bind_some, hread]
  rfl

/-- A line without a command stores the last value that it assigns to each name. -/
theorem Shell.env_assignAll (sh : Shell) (assignments : List Assignment) :
    (sh.assignAll assignments).env =
      sh.env.setAll (assignments.map fun a => (a.name, a.value)) := by
  unfold Shell.assignAll
  induction assignments generalizing sh with
  | nil => rfl
  | cons a rest ih => exact ih (sh.setenv a.name a.value)

/-! ### What is written in a run -/

namespace Engine

variable {κ τ : Type} [Zero τ] [Add τ] [LT τ] [DecidableLT τ]

/-- The variables that an event stores while the command of the future with number `i` runs: those
that the command writes when it is polled, and those that the host sets while it waits. -/
def writesOn (programs : Programs κ τ) (e : Engine κ τ) (i : Nat) (event : EngineEvent τ) :
    List (String × String) :=
  match event, e.futures[i]? with
  | .poll j id, _ => if j = i then Deed.writes (e.deedsOn programs (.poll j id)) else []
  | .setenv name value, some (.live (.suspended _ _)) => [(name, value)]
  | _, _ => []

/-- The variables that events store while the command of a future runs. -/
def writes (programs : Programs κ τ) (i : Nat) :
    Engine κ τ → List (EngineEvent τ) → List (String × String)
  | _, [] => []
  | e, event :: events =>
    e.writesOn programs i event ++ writes programs i (e.after programs event) events

variable {e : Engine κ τ} {outer : List (List (String × Option String))} {base : Environment}
  {wrote : List (String × String)}

theorem writesOn_poll {i : Nat} {job : Job κ τ} (hi : e.futures[i]? = some (.live job))
    (programs : Programs κ τ) (id : Nat) :
    e.writesOn programs i (.poll i id) =
      Deed.writes (job.pollDeeds programs id e.shell e.timers) := by
  rw [← deedsOn_poll hi]
  exact if_pos rfl

/-- Before the first poll nothing counts as written by a command. -/
theorem writesOn_of_accepted {i : Nat} {line : CommandLine}
    (hi : e.futures[i]? = some (.live (.accepted line))) (programs : Programs κ τ)
    {event : EngineEvent τ} (hevent : event.future? ≠ some i) :
    e.writesOn programs i event = [] := by
  unfold writesOn
  rw [hi]
  cases event with
  | poll j id =>
    have hj : j ≠ i := fun h => hevent (congrArg some h)
    exact if_neg hj
  | _ => rfl

theorem writesOn_drop (programs : Programs κ τ) (i j : Nat) :
    e.writesOn programs i (.drop j) = [] := rfl

/-- While a command waits, an event that is not about its future changes the environment only if the
host stores a variable. -/
theorem env_after (htidy : Tidy outer e) {i : Nat} {io : Io} {wait : Wait κ τ}
    (hi : e.futures[i]? = some (.live (.suspended io wait))) (programs : Programs κ τ)
    {event : EngineEvent τ} (hevent : event.future? ≠ some i) :
    (e.after programs event).shell.env = e.shell.env.setAll (e.writesOn programs i event) := by
  -- no other future is active, so that what is polled or dropped leaves the shell alone
  have hother : ∀ j, event.future? = some j → (e.after programs event).shell = e.shell := by
    intro j hj
    refine shell_after_of_not_active (fun hactive => ?_) programs hj
    obtain rfl := (htidy.holds hi rfl).2 j hactive
    exact hevent hj
  unfold writesOn
  rw [hi]
  cases event with
  | execute line =>
    obtain ⟨draws, phase, haccept⟩ := Shell.accept_snd (κ := κ) (τ := τ) e.shell line
    exact congrArg (·.env) haccept
  | start =>
    obtain ⟨draws, phase, hstart⟩ := Shell.start_snd (κ := κ) (τ := τ) e.shell
    exact congrArg (·.env) hstart
  | poll j id =>
    have hne : j ≠ i := fun h => hevent (congrArg some h)
    have hnone : (if j = i then Deed.writes (e.deedsOn programs (.poll j id)) else []) = [] :=
      if_neg hne
    simp only [hnone]
    exact congrArg (·.env) (hother j rfl)
  | drop j => exact congrArg (·.env) (hother j rfl)
  | trap signal =>
    show (e.shell.trap signal).1.env = e.shell.env
    unfold Shell.trap
    split <;> rfl
  | _ => rfl

/-- What is left of the variables when `wrote` has been written since the scope of the command was
opened in `base`: the command still waits, or its future is finished or dropped. -/
inductive Stores (base : Environment) (wrote : List (String × String)) (e : Engine κ τ) :
    Future κ τ → Prop
  | waits (io : Io) (wait : Wait κ τ) :
      e.shell.env = base.setAll wrote → Stores base wrote e (.live (.suspended io wait))
  | finished (code : Int) :
      e.shell.env = (base.setAll wrote).popScope.set statusName (Text.showInt code) →
      Stores base wrote e (.finished (.ok code))
  | dropped : e.shell.env = (base.setAll wrote).popScope → Stores base wrote e .dropped

/-- A poll leaves the variables of the engine as it leaves them in the shell. -/
theorem stores_of_poll {i id : Nat} {job : Job κ τ} (hi : e.futures[i]? = some (.live job))
    {programs : Programs κ τ}
    (h : (job.poll programs id e.shell e.timers).Stores base wrote) :
    ∃ f, (e.after programs (.poll i id)).futures[i]? = some f ∧
      Stores base wrote (e.after programs (.poll i id)) f := by
  have hlt : i < e.futures.length := (List.getElem?_eq_some_iff.1 hi).1
  rw [after_poll hi]
  rcases h with ⟨code, hprogress, hended⟩ | ⟨io, wait, hprogress, hwaits⟩
  · rw [hprogress]
    exact ⟨_, List.getElem?_set_self hlt, .finished code hended⟩
  · rw [hprogress]
    exact ⟨_, List.getElem?_set_self hlt, .waits io wait hwaits⟩

/-- What any event leaves of the variables while a command waits. -/
theorem stores_after (htidy : Tidy outer e) {i : Nat} {io : Io} {wait : Wait κ τ}
    (hi : e.futures[i]? = some (.live (.suspended io wait)))
    (henv : e.shell.env = base.setAll wrote) (programs : Programs κ τ) (event : EngineEvent τ) :
    ∃ f, (e.after programs event).futures[i]? = some f ∧
      Stores base (wrote ++ e.writesOn programs i event) (e.after programs event) f := by
  have hlt : i < e.futures.length := (List.getElem?_eq_some_iff.1 hi).1
  by_cases hevent : event.future? = some i
  · cases event with
    | poll j id =>
      obtain rfl : j = i := Option.some.inj hevent
      rw [writesOn_poll hi]
      exact stores_of_poll hi (Job.stores_poll_suspended programs id io wait henv e.timers)
    | drop j =>
      obtain rfl : j = i := Option.some.inj hevent
      rw [writesOn_drop, List.append_nil, after_drop hi]
      have hdropped : ((Job.suspended io wait).drop e.shell e.timers).1.env =
          e.shell.env.popScope := rfl
      rw [henv] at hdropped
      exact ⟨_, List.getElem?_set_self hlt, .dropped hdropped⟩
    | _ => exact absurd hevent (by simp [EngineEvent.future?])
  · have hafter := env_after htidy hi programs hevent
    rw [henv, ← Environment.setAll_append] at hafter
    exact ⟨_, (futures_after hlt programs hevent).trans hi, .waits io wait hafter⟩

/-- A future that is finished or dropped stays so. -/
theorem not_active_run {i : Nat} {f : Future κ τ} (hi : e.futures[i]? = some f)
    (hf : ∀ job, f ≠ .live job) (programs : Programs κ τ) (events : List (EngineEvent τ)) :
    ¬ (e.run programs events).Active i := by
  induction events generalizing e with
  | nil =>
    rintro ⟨job, hjob, -⟩
    exact hf job (Option.some.inj (hi.symm.trans hjob))
  | cons event events ih =>
    refine ih ?_
    by_cases hevent : event.future? = some i
    · rw [after_eq_self hi hf programs hevent]
      exact hi
    · have hlt : i < e.futures.length := (List.getElem?_eq_some_iff.1 hi).1
      exact (futures_after hlt programs hevent).trans hi

/-- As long as a command waits, what it and the host write adds up. -/
theorem stores_run (htidy : Tidy outer e) {i : Nat} {io : Io} {wait : Wait κ τ}
    (hi : e.futures[i]? = some (.live (.suspended io wait)))
    (henv : e.shell.env = base.setAll wrote) (programs : Programs κ τ)
    (more : List (EngineEvent τ)) (hactive : (e.run programs more).Active i)
    (event : EngineEvent τ) :
    ∃ f, (e.run programs (more ++ [event])).futures[i]? = some f ∧
      Stores base (wrote ++ writes programs i e (more ++ [event]))
        (e.run programs (more ++ [event])) f := by
  induction more generalizing e io wait wrote with
  | nil =>
    have hafter := stores_after htidy hi henv programs event
    have hwrites : writes programs i e ([] ++ [event]) = e.writesOn programs i event :=
      List.append_nil _
    rw [hwrites]
    exact hafter
  | cons first more ih =>
    obtain ⟨f, hf, hstores⟩ := stores_after htidy hi henv programs first
    rw [List.cons_append, writes, ← List.append_assoc]
    rcases hstores with ⟨io', wait', hwaits⟩ | ⟨code, -⟩ | -
    · exact ih (htidy.after programs first) hf hwaits hactive
    · exact absurd hactive (not_active_run hf (by simp) programs more)
    · exact absurd hactive (not_active_run hf (by simp) programs more)

/-! ### The first poll -/

/-- The first poll of a line with a command opens its scope. -/
theorem stores_first {i : Nat} {line : CommandLine}
    (hi : e.futures[i]? = some (.live (.accepted line))) (hargs : line.args ≠ [])
    (programs : Programs κ τ) (id : Nat) :
    ∃ f, (e.after programs (.poll i id)).futures[i]? = some f ∧
      Stores (e.shell.env.pushScope line.exports) (e.writesOn programs i (.poll i id))
        (e.after programs (.poll i id)) f := by
  rw [writesOn_poll hi]
  exact stores_of_poll hi (Job.stores_poll_accepted programs id hargs e.shell e.timers)

/-- A line without a command ends when it is polled, with its assignments made for good and the
filesystem as it was. -/
theorem assigns_first {i : Nat} {line : CommandLine}
    (hi : e.futures[i]? = some (.live (.accepted line))) (hargs : line.args = [])
    (programs : Programs κ τ) (id : Nat) :
    (e.after programs (.poll i id)).futures[i]? = some (.finished (.ok 0)) ∧
      (e.callsOn programs i (.poll i id) = [] ∧
        (e.after programs (.poll i id)).shell.fs = e.shell.fs) ∧
      (e.after programs (.poll i id)).shell.env =
        (e.shell.env.setAll line.exports).set statusName (Text.showInt 0) := by
  have hlt : i < e.futures.length := (List.getElem?_eq_some_iff.1 hi).1
  have hpoll : (Job.accepted line).poll programs id e.shell e.timers =
      { progress := .ends (.ok 0)
        shell := ((e.shell.assignAll line.assignments).leave).setStatus 0
        timers := e.timers
        woken := [] } := by
    rw [Job.poll, Job.commence, hargs]
  have henv := e.shell.env_assignAll line.assignments
  have hcalls : (Job.accepted line).pollCalls programs id e.shell e.timers = [] := by
    cases line
    cases hargs
    rfl
  rw [callsOn_poll hi, hcalls, after_poll hi, hpoll]
  exact ⟨List.getElem?_set_self hlt, ⟨rfl, e.shell.fs_assignAll line.assignments⟩,
    congrArg (fun env => env.set statusName (Text.showInt 0)) henv⟩

/-- A command that is still active after the first poll of its line has been storing variables since
then. -/
theorem stores_begun (htidy : Tidy outer e) {i : Nat} {line : CommandLine}
    (hi : e.futures[i]? = some (.live (.accepted line))) (programs : Programs κ τ) (id : Nat)
    (more : List (EngineEvent τ))
    (hactive : ((e.after programs (.poll i id)).run programs more).Active i)
    (event : EngineEvent τ) :
    line.args ≠ [] ∧ ∃ f,
      ((e.after programs (.poll i id)).run programs (more ++ [event])).futures[i]? = some f ∧
        Stores (e.shell.env.pushScope line.exports)
          (e.writesOn programs i (.poll i id) ++
            writes programs i (e.after programs (.poll i id)) (more ++ [event]))
          ((e.after programs (.poll i id)).run programs (more ++ [event])) f := by
  have hargs : line.args ≠ [] := by
    intro hargs
    have hended := (assigns_first hi hargs programs id).1
    exact not_active_run hended (by simp) programs more hactive
  obtain ⟨f, hf, hstores⟩ := stores_first hi hargs programs id
  refine ⟨hargs, ?_⟩
  rcases hstores with ⟨io, wait, hwaits⟩ | ⟨code, -⟩ | -
  · exact stores_run (htidy.after programs _) hf hwaits programs more hactive event
  · exact absurd hactive (not_active_run hf (by simp) programs more)
  · exact absurd hactive (not_active_run hf (by simp) programs more)

/-- What is left of the variables when the future of an accepted line is over: it has been dropped
without being polled, or the line has been begun by its first poll, and then it has been carried
out, with a command or without. -/
theorem stores_of_accepted (htidy : Tidy outer e) {i : Nat} {line : CommandLine}
    (hi : e.futures[i]? = some (.live (.accepted line))) (programs : Programs κ τ)
    (more : List (EngineEvent τ)) (hactive : (e.run programs more).Active i)
    (event : EngineEvent τ) (hover : ¬ ((e.run programs more).after programs event).Active i) :
    let events := more ++ [event]
    let last := e.run programs events
    (last.futures[i]? = some .dropped ∧ firstPolled programs i e events = none ∧
        last.shell.env = (e.run programs more).shell.env) ∨
      ∃ first, firstPolled programs i e events = some first ∧
        ((line.args ≠ [] ∧ ∃ f, last.futures[i]? = some f ∧
            Stores (first.env.pushScope line.exports) (writes programs i e events) last f) ∨
          (line.args = [] ∧ last.futures[i]? = some (.finished (.ok 0)) ∧
            (history programs i e events = [] ∧
              last.shell.fs = (e.run programs more).shell.fs) ∧
            last.shell.env =
              (first.env.setAll line.exports).set statusName (Text.showInt 0))) := by
  intro events last
  -- By induction on the events up to the last one: nothing happens to the variables of the line
  -- until the first that is about its future.
  induction more generalizing e with
  | nil =>
    have hlt : i < e.futures.length := (List.getElem?_eq_some_iff.1 hi).1
    have hlast : last = e.after programs event := rfl
    have hwrites : writes programs i e events = e.writesOn programs i event := List.append_nil _
    have hhistory : history programs i e events = e.callsOn programs i event :=
      (history_cons ..).trans (List.append_nil _)
    rw [hlast, hwrites, hhistory]
    by_cases hevent : event.future? = some i
    · cases event with
      | poll j id =>
        obtain rfl : j = i := Option.some.inj hevent
        refine Or.inr ⟨e.shell, firstPolled_poll programs j id [], ?_⟩
        by_cases hargs : line.args = []
        · exact Or.inr ⟨hargs, assigns_first hi hargs programs id⟩
        · exact Or.inl ⟨hargs, stores_first hi hargs programs id⟩
      | drop j =>
        obtain rfl : j = i := Option.some.inj hevent
        refine Or.inl ⟨?_, firstPolled_drop programs j [], ?_⟩
        · rw [after_drop hi]
          exact List.getElem?_set_self hlt
        · rw [after_drop hi]
          rfl
      | _ => exact absurd hevent (by simp [EngineEvent.future?])
    · exact absurd ⟨_, (futures_after hlt programs hevent).trans hi, rfl⟩ hover
  | cons first more ih =>
    have hnext := htidy.after programs first
    have hwrites : writes programs i e events = e.writesOn programs i first ++
      writes programs i (e.after programs first) (more ++ [event]) := rfl
    have hhistory : history programs i e events = e.callsOn programs i first ++
      history programs i (e.after programs first) (more ++ [event]) := history_cons ..
    by_cases hfirst : first.future? = some i
    · cases first with
      | poll j id =>
        obtain rfl : j = i := Option.some.inj hfirst
        have hbegun := stores_begun htidy hi programs id more hactive event
        rw [hwrites]
        exact Or.inr
          ⟨e.shell, firstPolled_poll programs j id (more ++ [event]), Or.inl hbegun⟩
      | drop j =>
        obtain rfl : j = i := Option.some.inj hfirst
        have hlt : j < e.futures.length := (List.getElem?_eq_some_iff.1 hi).1
        have hdropped : (e.after programs (.drop j)).futures[j]? = some .dropped := by
          rw [after_drop hi]
          exact List.getElem?_set_self hlt
        exact absurd hactive (not_active_run hdropped (by simp) programs more)
      | _ => exact absurd hfirst (by simp [EngineEvent.future?])
    · have hlt : i < e.futures.length := (List.getElem?_eq_some_iff.1 hi).1
      have hkept := (futures_after hlt programs hfirst).trans hi
      have hpolled : firstPolled programs i e events =
          firstPolled programs i (e.after programs first) (more ++ [event]) :=
        firstPolled_of_ne hfirst programs (more ++ [event])
      rw [hpolled, hwrites, hhistory, writesOn_of_accepted hi programs hfirst,
        callsOn_of_ne hfirst]
      exact ih hnext hkept hactive hover

/-! ### Every run -/

/-- The variables at the end of a line.  Whenever in a run a line is executed while the shell is
idle, look at the engine just before (`current`) and just after (`last`) the event by which its
future is finished or dropped.

A future that is finished has an exit code, which is what the status shows and what is read back
from it.  If the line has a command, every other name that it assigns stands for what it stood for
in the shell that polled the future first, and every remaining name has the last value that was
written while the command ran.  Without a command the filesystem is not called at all and stays as
it is, the exit code is zero, and every other name has the last value that the line assigns to it.

A future that is dropped leaves the names as they are if it has not been polled, and otherwise as
those of a finished command, the status included. -/
theorem environment_run (programs : Programs κ τ) {sh : Shell} (hphase : sh.phase = .idle)
    (timers : TimerQueue τ Waker) (before : List (EngineEvent τ))
    (hidle : (Engine.run programs { shell := sh, timers } before).shell.phase = .idle)
    (text : String) (more : List (EngineEvent τ)) (event : EngineEvent τ) :
    let e := Engine.run programs { shell := sh, timers } before
    let line := (CommandLine.parse e.shell.env text e.shell.draws).1
    let i := e.futures.length
    let accepted := e.after programs (.execute text)
    let current := accepted.run programs more
    let last := current.after programs event
    let events := more ++ [event]
    let polled := firstPolled programs i accepted events
    let wrote := writes programs i accepted events
    current.Active i → ¬ last.Active i →
      (∃ code first, last.futures[i]? = some (.finished (.ok code)) ∧ polled = some first ∧
        last.shell.env.stored statusName = some (Text.showInt code) ∧
        (-2 ^ 31 ≤ code → code < 2 ^ 31 → last.shell.lastStatus = code) ∧
        (line.args ≠ [] → ∀ name, name ≠ statusName →
          last.shell.env.stored name = first.env.valueAfter line.exports wrote name) ∧
        (line.args = [] → code = 0 ∧ history programs i accepted events = [] ∧
          last.shell.fs = current.shell.fs ∧ ∀ name, name ≠ statusName →
            last.shell.env.stored name =
              (Environment.lastValue? name line.exports).or (first.env.stored name))) ∨
      (last.futures[i]? = some .dropped ∧
        match polled with
        | none => last.shell.env = current.shell.env
        | some first => line.args ≠ [] ∧
          ∀ name, last.shell.env.stored name = first.env.valueAfter line.exports wrote name) := by
  intro e line i accepted current last events polled wrote hactive hover
  have htidy : Tidy sh.env.scopes accepted :=
    ((tidy_start hphase rfl timers).run programs before).after programs _
  have hfuture : accepted.futures[i]? = some (.live (.accepted line)) :=
    accepted_after hidle programs text
  have hlast : accepted.run programs events = last := List.foldl_append
  have hends := stores_of_accepted htidy hfuture programs more hactive event hover
  simp only at hends
  rw [hlast] at hends
  rcases hends with ⟨hdropped, hnone, hkept⟩ | ⟨first, hfirst, hbegun⟩
  · refine Or.inr ⟨hdropped, ?_⟩
    have hpolled : polled = none := hnone
    rw [hpolled]
    exact hkept
  · have hpolled : polled = some first := hfirst
    rcases hbegun with ⟨hargs, f, hf, hstores⟩ | ⟨hargs, hended, ⟨hhistory, hfs⟩, henv⟩
    · have hscope := first.env.stored_popScope_setAll line.exports wrote
      rcases hstores with ⟨io, wait, -⟩ | ⟨code, henv⟩ | henv
      · exact absurd ⟨_, hf, rfl⟩ hover
      · have hcode : last.shell.env.stored statusName = some (Text.showInt code) := by
          rw [henv]
          exact Environment.stored_set_self _ _ _
        refine Or.inl ⟨code, first, hf, hpolled, hcode,
          Shell.lastStatus_of_stored hcode, fun _ name hname => ?_,
          fun hnil => absurd hnil hargs⟩
        rw [henv, Environment.stored_set_of_ne _ hname]
        exact hscope name
      · refine Or.inr ⟨hf, ?_⟩
        rw [hpolled]
        refine ⟨hargs, fun name => ?_⟩
        rw [henv]
        exact hscope name
    · have hcode : last.shell.env.stored statusName = some (Text.showInt 0) := by
        rw [henv]
        exact Environment.stored_set_self _ _ _
      refine Or.inl ⟨0, first, hended, hpolled, hcode, Shell.lastStatus_of_stored hcode,
        fun hne => absurd hargs hne, fun _ => ⟨rfl, hhistory, hfs, fun name hname => ?_⟩⟩
      rw [henv, Environment.stored_set_of_ne _ hname]
      exact first.env.stored_setAll line.exports name

/-- A command that stores variables, waits, and stores one of them again. -/
def workScript : ProgramScript where
  actions := [.setenv "X" "9", .setenv "Y" "8", .setenv "?" "6"]
  ending := .suspend [⟨[], .again⟩, ⟨[.setenv "Y" "7"], .done (some (-5))⟩]

/-- A shell with that command. -/
def workShell : Shell where
  fs := FileSystem.mount {}
    { device := "none", mountPoint := "/", typeName := "jfs", options := "" }
    (.supplied (.directory true [("work", .file false (.program "work"))]))
  draws := .ofSeed 0

/-- A line that assigns a name twice, and the status, for that command, with a variable set by the
host while the command waits. -/
theorem environment_worked :
    let programs := Stock.programs [("work", workScript)]
    let accepted := Engine.after programs { shell := workShell, timers := .empty }
      (.execute "X=1 X=2 ?=3 /work")
    let current := accepted.run programs [.poll 0 0, .setenv "Z" "4"]
    let last := current.after programs (.poll 0 0)
    workShell.phase = .idle ∧ current.Active 0 ∧ ¬ last.Active 0 ∧
      last.shell.env.stored "X" = none ∧ last.shell.env.stored "Y" = some "7" ∧
      last.shell.env.stored "Z" = some "4" ∧ last.shell.env.stored "?" = some "-5" := by
  intro programs accepted current last
  have hphase : workShell.phase = .idle := rfl
  have hactive : current.Active 0 := by decide +kernel
  have hover : ¬ last.Active 0 := by decide +kernel
  have hstatus : last.shell.env.stored "?" = some "-5" := by decide +kernel
  have hargs : (CommandLine.parse workShell.env "X=1 X=2 ?=3 /work" workShell.draws).1.args ≠ [] :=
    by decide +kernel
  have hrun := environment_run programs hphase .empty [] rfl "X=1 X=2 ?=3 /work"
    [.poll 0 0, .setenv "Z" "4"] (.poll 0 0) hactive hover
  rcases hrun with ⟨code, first, -, hfirst, -, -, hnames, -⟩ | ⟨hdropped, -⟩
  · obtain rfl : accepted.shell = first := Option.some.inj hfirst
    have hnames := hnames hargs
    refine ⟨hphase, hactive, hover, ?_, ?_, ?_, hstatus⟩
    · exact (hnames "X" (by decide)).trans (by decide +kernel)
    · exact (hnames "Y" (by decide)).trans (by decide +kernel)
    · exact (hnames "Z" (by decide)).trans (by decide +kernel)
  · have hfinished : (last.futures[0]?.any fun f => f matches .dropped) = false := by
      decide +kernel
    have hdropped : last.futures[0]? = some .dropped := hdropped
    rw [hdropped] at hfinished
    exact absurd hfinished (by decide)

end Engine

end MountShell
