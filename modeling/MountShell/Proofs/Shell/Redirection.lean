import MountShell.Proofs.Shell.Engine
import MountShell.Proofs.Shell.Passage

/-!
# Redirections are released once

The files that are opened for the redirections of a line are closed by one release, whatever the
command does and however its future ends: a command may release them itself, it may be cancelled,
and its future may be dropped at any point.

Whenever the future of a line is polled or dropped, the filesystem of the engine passes from one
state to another through calls that account for all that happens to it (`Passage`).  What the calls
of all passages come to is kept by every event (`Engine.Accounts`): the command still holds the
files that have been opened, or they have been released in one of the passages and there is nothing
left to close.

Main statements: `leads_passages`, the calls lead through each passage of the engine's filesystem;
and `redirections_run`, the passages for the line of a future in every run.
-/

namespace MountShell

open FileCall Passage

namespace Engine

variable {κ τ : Type} [Zero τ] [Add τ] [LT τ] [DecidableLT τ]

/-! ### The calls of one future -/

/-- The calls that an event makes for the line of the future with number `i`. -/
def callsOn (programs : Programs κ τ) (e : Engine κ τ) (i : Nat) (event : EngineEvent τ) :
    List FileCall :=
  if event.future? = some i then
    match event, e.futures[i]? with
    | .poll _ id, some (.live job) => job.pollCalls programs id e.shell e.timers
    | .drop _, some (.live job) => job.dropCalls e.shell
    | _, _ => []
  else []

/-- The passage of the filesystem through an event, if that polls or drops the future. -/
def passagesOn (programs : Programs κ τ) (e : Engine κ τ) (i : Nat) (event : EngineEvent τ) :
    List Passage :=
  if event.future? = some i then
    [⟨e.shell, e.callsOn programs i event, (e.after programs event).shell⟩]
  else []

/-- The passages of the filesystem through the events that poll or drop a future. -/
def passages (programs : Programs κ τ) (i : Nat) :
    Engine κ τ → List (EngineEvent τ) → List Passage
  | _, [] => []
  | e, event :: events =>
    e.passagesOn programs i event ++ passages programs i (e.after programs event) events

/-- The calls that events make for the line of a future. -/
def history (programs : Programs κ τ) (i : Nat) (e : Engine κ τ) (events : List (EngineEvent τ)) :
    List FileCall :=
  allCalls (passages programs i e events)

/-- The shell in which a future is polled for the first time, unless it is dropped before that. -/
def firstPolled (programs : Programs κ τ) (i : Nat) :
    Engine κ τ → List (EngineEvent τ) → Option Shell
  | _, [] => none
  | e, event :: events =>
    if event.future? = some i then
      match event with
      | .poll _ _ => some e.shell
      | _ => none
    else firstPolled programs i (e.after programs event) events

/-- What the passages for the line of a future come to, once the line has been begun or the future
has been dropped. -/
inductive Accounts (opens : List FileCall) : Future κ τ → List Passage → Prop
  /-- The command holds what has been opened. -/
  | holds {through : List Passage} (io : Io) (wait : Wait κ τ) :
      io.files = openedFiles opens → handlings (allCalls through) = opens →
        Accounts opens (.live (.suspended io wait)) through
  /-- The command has released everything and goes on. -/
  | empty {through : List Passage} (io : Io) (wait : Wait κ τ) :
      io.files = [] → ReleasedIn opens through →
        Accounts opens (.live (.suspended io wait)) through
  | finished {through : List Passage} (result : Except ShellError Int) :
      ReleasedIn opens through → Accounts opens (.finished result) through
  | dropped {through : List Passage} :
      ReleasedIn opens through → Accounts opens .dropped through

variable {e : Engine κ τ} {outer : List (List (String × Option String))}

theorem callsOn_of_ne {i : Nat} {event : EngineEvent τ} (h : event.future? ≠ some i)
    (programs : Programs κ τ) : e.callsOn programs i event = [] :=
  if_neg h

theorem callsOn_poll {i : Nat} {job : Job κ τ} (hi : e.futures[i]? = some (.live job))
    (programs : Programs κ τ) (id : Nat) :
    e.callsOn programs i (.poll i id) = job.pollCalls programs id e.shell e.timers := by
  have hself : e.callsOn programs i (.poll i id) = _ := if_pos rfl
  rw [hself, hi]

theorem callsOn_drop {i : Nat} {job : Job κ τ} (hi : e.futures[i]? = some (.live job))
    (programs : Programs κ τ) : e.callsOn programs i (.drop i) = job.dropCalls e.shell := by
  have hself : e.callsOn programs i (.drop i) = _ := if_pos rfl
  rw [hself, hi]

/-- A future that is finished or dropped makes no calls. -/
theorem callsOn_of_not_live {i : Nat} {f : Future κ τ} (hi : e.futures[i]? = some f)
    (hf : ∀ job, f ≠ .live job) (programs : Programs κ τ) (event : EngineEvent τ) :
    e.callsOn programs i event = [] := by
  have hnone : ∀ job, e.futures[i]? ≠ some (.live job) :=
    fun job hjob => hf job (Option.some.inj (hi.symm.trans hjob))
  unfold callsOn
  by_cases hevent : event.future? = some i
  · rw [if_pos hevent]
    split
    next job hjob => exact absurd hjob (hnone job)
    next job hjob => exact absurd hjob (hnone job)
    next => rfl
  · rw [if_neg hevent]

theorem passagesOn_of_ne {i : Nat} {event : EngineEvent τ} (h : event.future? ≠ some i)
    (programs : Programs κ τ) : e.passagesOn programs i event = [] :=
  if_neg h

theorem passagesOn_eq {i : Nat} {event : EngineEvent τ} (h : event.future? = some i)
    (programs : Programs κ τ) :
    e.passagesOn programs i event =
      [⟨e.shell, e.callsOn programs i event, (e.after programs event).shell⟩] :=
  if_pos h

theorem allCalls_passagesOn (programs : Programs κ τ) (e : Engine κ τ) (i : Nat)
    (event : EngineEvent τ) : allCalls (e.passagesOn programs i event) =
      e.callsOn programs i event := by
  by_cases hevent : event.future? = some i
  · rw [passagesOn_eq hevent, allCalls_singleton]
  · rw [passagesOn_of_ne hevent, callsOn_of_ne hevent]
    rfl

theorem history_cons (programs : Programs κ τ) (i : Nat) (e : Engine κ τ) (event : EngineEvent τ)
    (events : List (EngineEvent τ)) :
    history programs i e (event :: events) =
      e.callsOn programs i event ++ history programs i (e.after programs event) events := by
  rw [history, passages, allCalls_append, allCalls_passagesOn, history]

theorem firstPolled_of_ne {i : Nat} {event : EngineEvent τ} (h : event.future? ≠ some i)
    (programs : Programs κ τ) (events : List (EngineEvent τ)) :
    firstPolled programs i e (event :: events) =
      firstPolled programs i (e.after programs event) events := by
  cases event <;> exact if_neg h

theorem firstPolled_poll (programs : Programs κ τ) (i id : Nat) (events : List (EngineEvent τ)) :
    firstPolled programs i e (.poll i id :: events) = some e.shell :=
  if_pos rfl

theorem firstPolled_drop (programs : Programs κ τ) (i : Nat) (events : List (EngineEvent τ)) :
    firstPolled programs i e (.drop i :: events) = none :=
  if_pos rfl

/-! ### The calls lead through every passage -/

/-- The calls of an event about a future account for all that it does to the filesystem. -/
theorem leads_callsOn (e : Engine κ τ) {i : Nat} {event : EngineEvent τ}
    (h : event.future? = some i) (programs : Programs κ τ) :
    Leads e.shell.fs (e.callsOn programs i event) (e.after programs event).shell.fs := by
  cases hi : e.futures[i]? with
  | none =>
    have hcalls : e.callsOn programs i event = [] := by
      unfold callsOn
      rw [if_pos h]
      split <;> simp_all
    have hafter : e.after programs event = e := by
      cases event with
      | poll j id =>
        obtain rfl : j = i := Option.some.inj h
        rw [after, hi]
      | drop j =>
        obtain rfl : j = i := Option.some.inj h
        rw [after, hi]
      | _ => exact absurd h (by simp [EngineEvent.future?])
    rw [hcalls, hafter]
    rfl
  | some f =>
    cases f with
    | live job =>
      cases event with
      | poll j id =>
        obtain rfl : j = i := Option.some.inj h
        rw [callsOn_poll hi, after_poll hi]
        exact Job.leads_poll programs id job e.shell e.timers
      | drop j =>
        obtain rfl : j = i := Option.some.inj h
        rw [callsOn_drop hi, after_drop hi]
        exact Job.leads_drop job e.shell e.timers
      | _ => exact absurd h (by simp [EngineEvent.future?])
    | _ =>
      rw [callsOn_of_not_live hi (by simp), after_eq_self hi (by simp) programs h]
      rfl

/-- A passage is that of an event about the future, in an engine of the run. -/
theorem eq_of_mem_passages {programs : Programs κ τ} {i : Nat} {events : List (EngineEvent τ)}
    {p : Passage} (h : p ∈ passages programs i e events) :
    ∃ earlier event, event.future? = some i ∧
      p = ⟨(e.run programs earlier).shell, (e.run programs earlier).callsOn programs i event,
        ((e.run programs earlier).after programs event).shell⟩ := by
  induction events generalizing e with
  | nil => exact absurd h List.not_mem_nil
  | cons event events ih =>
    rcases List.mem_append.1 h with hfirst | hrest
    · by_cases hevent : event.future? = some i
      · rw [passagesOn_eq hevent] at hfirst
        exact ⟨[], event, hevent, List.mem_singleton.1 hfirst⟩
      · rw [passagesOn_of_ne hevent] at hfirst
        exact absurd hfirst List.not_mem_nil
    · obtain ⟨earlier, later, hlater, hp⟩ := ih hrest
      exact ⟨event :: earlier, later, hlater, hp⟩

/-- The calls lead through every passage of the engine's filesystem. -/
theorem leads_passages (programs : Programs κ τ) (i : Nat) (e : Engine κ τ)
    (events : List (EngineEvent τ)) :
    ∀ p ∈ passages programs i e events, Leads p.before.fs p.calls p.after.fs := by
  intro p hp
  obtain ⟨earlier, event, hevent, rfl⟩ := eq_of_mem_passages hp
  exact (e.run programs earlier).leads_callsOn hevent programs

/-- No call for a line is made while the shell is idle. -/
theorem Tidy.busy_callsOn (htidy : Tidy outer e) (programs : Programs κ τ) (i : Nat)
    (event : EngineEvent τ) :
    ∀ call ∈ e.callsOn programs i event, e.shell.phase ≠ .idle ∧ call.shell.phase ≠ .idle := by
  intro call hcall
  by_cases hevent : event.future? = some i
  · cases hi : e.futures[i]? with
    | none =>
      unfold callsOn at hcall
      rw [if_pos hevent, hi] at hcall
      cases event <;> exact absurd hcall List.not_mem_nil
    | some f =>
      cases f with
      | live job =>
        by_cases hjob : job.isAccepted = true
        · have hphase := (htidy.holds hi hjob).1.phase_ne_idle
          cases event with
          | poll j id =>
            obtain rfl : j = i := Option.some.inj hevent
            rw [callsOn_poll hi] at hcall
            exact ⟨hphase, Job.busy_poll programs id job hphase e.timers call hcall⟩
          | drop j =>
            obtain rfl : j = i := Option.some.inj hevent
            rw [callsOn_drop hi] at hcall
            cases job with
            | suspended io wait => exact ⟨hphase, Shell.busy_closings hphase hcall⟩
            | _ => exact absurd hcall List.not_mem_nil
          | _ => exact absurd hevent (by simp [EngineEvent.future?])
        · -- A future that was refused makes no calls.
          unfold callsOn at hcall
          rw [if_pos hevent, hi] at hcall
          cases job with
          | settled result => cases event <;> exact absurd hcall List.not_mem_nil
          | _ => exact absurd rfl hjob
      | _ =>
        rw [callsOn_of_not_live hi (by simp)] at hcall
        exact absurd hcall List.not_mem_nil
  · rw [callsOn_of_ne hevent] at hcall
    exact absurd hcall List.not_mem_nil

theorem Tidy.busy_passages (htidy : Tidy outer e) (programs : Programs κ τ) (i : Nat)
    (events : List (EngineEvent τ)) :
    ∀ p ∈ passages programs i e events, ∀ call ∈ p.calls,
      p.before.phase ≠ .idle ∧ call.shell.phase ≠ .idle := by
  intro p hp
  obtain ⟨earlier, event, -, rfl⟩ := eq_of_mem_passages hp
  exact (htidy.run programs earlier).busy_callsOn programs i event

/-! ### What the passages come to -/

/-- What a poll of a command that holds the opened files leaves. -/
theorem accounts_of_poll {i : Nat} {job : Job κ τ} (hi : e.futures[i]? = some (.live job))
    (programs : Programs κ τ) (id : Nat) {opens own : List FileCall} {through : List Passage}
    (h : (job.poll programs id e.shell e.timers).Accounts (openedFiles opens) own
      (job.pollCalls programs id e.shell e.timers))
    (hopens : handlings (allCalls through) ++ own = opens) :
    ∃ f, (e.after programs (.poll i id)).futures[i]? = some f ∧
      Accounts opens f (through ++ e.passagesOn programs i (.poll i id)) := by
  have hlt : i < e.futures.length := (List.getElem?_eq_some_iff.1 hi).1
  have hpassage : e.passagesOn programs i (.poll i id) =
      [⟨e.shell, job.pollCalls programs id e.shell e.timers,
        (e.after programs (.poll i id)).shell⟩] := by
    rw [passagesOn_eq rfl, callsOn_poll hi]
  rw [hpassage]
  generalize (e.after programs (.poll i id)).shell = last
  rw [after_poll hi]
  refine ⟨_, List.getElem?_set_self hlt, ?_⟩
  cases h with
  | ends result hprogress hreleased =>
    rw [hprogress]
    exact .finished result (hreleased.releasedIn hopens)
  | waits io wait hprogress hledger =>
    rw [hprogress]
    rcases hledger with ⟨hfiles, hown⟩ | ⟨hnone, hreleased⟩
    · refine .holds io wait hfiles ?_
      rw [allCalls_append, handlings_append, allCalls_singleton, hown]
      exact hopens
    · exact .empty io wait hnone (hreleased.releasedIn hopens)

/-- What a poll of a command that holds nothing leaves. -/
theorem accounts_of_poll_empty {i : Nat} {io : Io} {wait : Wait κ τ}
    (hi : e.futures[i]? = some (.live (.suspended io wait))) (hnone : io.files = [])
    (programs : Programs κ τ) (id : Nat) {opens : List FileCall} {through : List Passage}
    (h : ReleasedIn opens through) :
    ∃ f, (e.after programs (.poll i id)).futures[i]? = some f ∧
      Accounts opens f (through ++ e.passagesOn programs i (.poll i id)) := by
  have hlt : i < e.futures.length := (List.getElem?_eq_some_iff.1 hi).1
  obtain ⟨hacts, hkeeps⟩ := Job.acts_poll_suspended programs id hnone wait e.shell e.timers
  have hreleased : ReleasedIn opens (through ++ e.passagesOn programs i (.poll i id)) := by
    rw [passagesOn_eq rfl, callsOn_poll hi]
    exact h.concat hacts
  have hpoll := Job.accounts_poll_suspended programs id io wait e.shell e.timers
  rw [after_poll hi]
  refine ⟨_, List.getElem?_set_self hlt, ?_⟩
  cases hpoll with
  | ends result hprogress _ =>
    rw [hprogress]
    exact .finished result hreleased
  | waits io' wait' hprogress _ =>
    rw [hprogress]
    exact .empty io' wait' (hkeeps io' wait' hprogress) hreleased

/-- What dropping a command that waits leaves. -/
theorem accounts_of_drop {i : Nat} {job : Job κ τ} (hi : e.futures[i]? = some (.live job))
    (programs : Programs κ τ) {opens : List FileCall} {through : List Passage}
    (h : ReleasedIn opens (through ++ e.passagesOn programs i (.drop i))) :
    ∃ f, (e.after programs (.drop i)).futures[i]? = some f ∧
      Accounts opens f (through ++ e.passagesOn programs i (.drop i)) := by
  have hlt : i < e.futures.length := (List.getElem?_eq_some_iff.1 hi).1
  refine ⟨.dropped, ?_, .dropped h⟩
  rw [after_drop hi]
  exact List.getElem?_set_self hlt

/-- Once a line has been begun, the events that follow keep the account of its redirections. -/
theorem Accounts.after {i : Nat} {f : Future κ τ} (hi : e.futures[i]? = some f)
    {opens : List FileCall} {through : List Passage} (h : Accounts opens f through)
    (programs : Programs κ τ) (event : EngineEvent τ) :
    ∃ f', (e.after programs event).futures[i]? = some f' ∧
      Accounts opens f' (through ++ e.passagesOn programs i event) := by
  have hlt : i < e.futures.length := (List.getElem?_eq_some_iff.1 hi).1
  by_cases hevent : event.future? = some i
  · -- A future that is over stays so, and nothing happens in the passage.
    have hover : (∀ job, f ≠ .live job) → ReleasedIn opens through →
        (e.after programs event).futures[i]? = some f ∧
          ReleasedIn opens (through ++ e.passagesOn programs i event) := by
      intro hf hreleased
      rw [after_eq_self hi hf programs hevent, passagesOn_eq hevent,
        callsOn_of_not_live hi hf]
      exact ⟨hi, hreleased.concat fun call hcall => absurd hcall List.not_mem_nil⟩
    cases h with
    | holds io wait hfiles hopens =>
      have hown : handlings (allCalls through) ++ [] = opens := (List.append_nil _).trans hopens
      cases event with
      | poll j id =>
        obtain rfl : j = i := Option.some.inj hevent
        have hpoll := Job.accounts_poll_suspended programs id io wait e.shell e.timers
        rw [hfiles] at hpoll
        exact accounts_of_poll hi programs id hpoll hown
      | drop j =>
        obtain rfl : j = i := Option.some.inj hevent
        refine accounts_of_drop hi programs ?_
        rw [passagesOn_eq rfl, callsOn_drop hi]
        have hledger : Ledger (openedFiles opens) [] io [] := Or.inl ⟨hfiles, rfl⟩
        exact (hledger.released e.shell).releasedIn hown
      | _ => exact absurd hevent (by simp [EngineEvent.future?])
    | empty io wait hnone hreleased =>
      cases event with
      | poll j id =>
        obtain rfl : j = i := Option.some.inj hevent
        exact accounts_of_poll_empty hi hnone programs id hreleased
      | drop j =>
        obtain rfl : j = i := Option.some.inj hevent
        refine accounts_of_drop hi programs ?_
        rw [passagesOn_eq rfl, callsOn_drop hi]
        refine hreleased.concat fun call hcall => ?_
        rw [Job.dropCalls, e.shell.closings_eq_nil hnone] at hcall
        exact absurd hcall List.not_mem_nil
      | _ => exact absurd hevent (by simp [EngineEvent.future?])
    | finished result hreleased =>
      obtain ⟨hsame, hlater⟩ := hover (by simp) hreleased
      exact ⟨_, hsame, .finished result hlater⟩
    | dropped hreleased =>
      obtain ⟨hsame, hlater⟩ := hover (by simp) hreleased
      exact ⟨_, hsame, .dropped hlater⟩
  · rw [passagesOn_of_ne hevent, List.append_nil]
    exact ⟨f, (futures_after hlt programs hevent).trans hi, h⟩

/-- The account is kept in every run. -/
theorem Accounts.run {i : Nat} {f : Future κ τ} (hi : e.futures[i]? = some f)
    {opens : List FileCall} {begun : List Passage} (h : Accounts opens f begun)
    (programs : Programs κ τ) (events : List (EngineEvent τ)) :
    ∃ f', (e.run programs events).futures[i]? = some f' ∧
      Accounts opens f' (begun ++ passages programs i e events) := by
  induction events generalizing e f begun with
  | nil =>
    rw [passages, List.append_nil]
    exact ⟨f, hi, h⟩
  | cons event events ih =>
    obtain ⟨f', hf', hafter⟩ := h.after hi programs event
    rw [passages, ← List.append_assoc]
    exact ih hf' hafter

/-- A line that has been accepted is begun by the first poll of its future, in the shell of that
moment, unless the future is dropped before. -/
theorem accounts_of_accepted {i : Nat} {line : CommandLine}
    (hi : e.futures[i]? = some (.live (.accepted line))) (programs : Programs κ τ)
    (events : List (EngineEvent τ)) :
    (e.run programs events).futures[i]? = some (.live (.accepted line)) ∧
        firstPolled programs i e events = none ∧ passages programs i e events = [] ∨
      ∃ f, (e.run programs events).futures[i]? = some f ∧
        Accounts (line.openings ((firstPolled programs i e events).bind line.building?)) f
          (passages programs i e events) := by
  have hlt : i < e.futures.length := (List.getElem?_eq_some_iff.1 hi).1
  induction events generalizing e with
  | nil => exact Or.inl ⟨hi, rfl, rfl⟩
  | cons event events ih =>
    rw [passages]
    by_cases hevent : event.future? = some i
    · refine Or.inr ?_
      cases event with
      | poll j id =>
        obtain rfl : j = i := Option.some.inj hevent
        rw [firstPolled_poll]
        have hpoll := Job.accounts_poll_accepted programs id line e.shell e.timers
        obtain ⟨f, hf, hbegun⟩ :=
          @accounts_of_poll κ τ _ _ _ _ e j _ hi programs id _ _ [] hpoll rfl
        exact hbegun.run hf programs events
      | drop j =>
        obtain rfl : j = i := Option.some.inj hevent
        rw [firstPolled_drop]
        have hledger : Ledger [] [] { command := "" } [] := Or.inl ⟨rfl, rfl⟩
        have hreleased : ReleasedIn [] ([] ++ e.passagesOn programs j (.drop j)) := by
          have hnothing : Released (openedFiles []) [] [] := hledger.released e.shell
          rw [passagesOn_eq rfl, callsOn_drop hi]
          exact hnothing.releasedIn rfl
        obtain ⟨f, hf, hdropped⟩ := accounts_of_drop hi programs hreleased
        exact hdropped.run hf programs events
      | _ => exact absurd hevent (by simp [EngineEvent.future?])
    · rw [firstPolled_of_ne hevent, passagesOn_of_ne hevent, List.nil_append]
      have hfuture := (futures_after hlt programs hevent).trans hi
      have hlength : i < (e.after programs event).futures.length :=
        (List.getElem?_eq_some_iff.1 hfuture).1
      exact ih hfuture hlength

/-! ### Every run -/

/-- Redirections are released once.  Whenever in a run a line is executed while the shell is idle,
and whatever happens after that, look at the shell of the engine each time the future of the line is
polled or dropped: its filesystem passes through the calls that are listed, which account for all
that happens to it, and none of them is made by an idle shell.

The redirections of the line are opened once each if its command is found, and not at all otherwise,
and only files that could be opened are closed, none twice.  As soon as the future is finished or
dropped, and so whenever the shell is idle again, all of them have been closed, one right after the
other, which has ended each text with one newline for every redirection that was opened to write to
it. -/
theorem redirections_run (programs : Programs κ τ) {sh : Shell} (hphase : sh.phase = .idle)
    (timers : TimerQueue τ Waker) (before : List (EngineEvent τ))
    (hidle : (Engine.run programs { shell := sh, timers } before).shell.phase = .idle)
    (text : String) (more : List (EngineEvent τ)) :
    let e := Engine.run programs { shell := sh, timers } before
    let line := (CommandLine.parse e.shell.env text e.shell.draws).1
    let i := e.futures.length
    let accepted := e.after programs (.execute text)
    let later := accepted.run programs more
    let build := (firstPolled programs i accepted more).bind line.building?
    let through := passages programs i accepted more
    (∀ p ∈ through, Leads p.before.fs p.calls p.after.fs ∧
      ∀ call ∈ p.calls, p.before.phase ≠ .idle ∧ call.shell.phase ≠ .idle) ∧
    CallsFor line.redirections build (allCalls through) ∧
    (¬ later.Active i → AllClosed line.redirections build through) ∧
    (later.shell.phase = .idle → ¬ later.Active i) := by
  intro e line i accepted later build through
  have htidy : Tidy sh.env.scopes accepted :=
    ((tidy_start hphase rfl timers).run programs before).after programs _
  have hfuture : accepted.futures[i]? = some (.live (.accepted line)) := by
    have haccept : e.shell.accept (κ := κ) (τ := τ) text = (.accepted line, _) := if_pos hidle
    show (e.futures ++ [.live (e.shell.accept text).1])[e.futures.length]? = _
    rw [haccept]
    exact List.getElem?_concat_length ..
  have hleads := leads_passages programs i accepted more
  refine ⟨fun p hp => ⟨hleads p hp, htidy.busy_passages programs i more p hp⟩, ?_⟩
  have hbusy : later.shell.phase = .idle → ¬ later.Active i :=
    fun hidle => (htidy.run programs more).idle_iff.1 hidle i
  -- Either the future still waits for its first poll, or the account tells what has become of it.
  rcases accounts_of_accepted hfuture programs more with
    ⟨hwaiting, hnone, hempty⟩ | ⟨f, hf, haccounts⟩
  · have hcalls : handlings (allCalls through) = line.openings build := by
      show handlings (allCalls (passages programs i accepted more)) =
        line.openings (Option.bind _ _)
      rw [hempty, hnone]
      rfl
    exact ⟨callsFor_of_opens hcalls, fun hover => absurd ⟨_, hwaiting, rfl⟩ hover, hbusy⟩
  · have hreleased : ReleasedIn (line.openings build) through →
        CallsFor line.redirections build (allCalls through) ∧
          AllClosed line.redirections build through := by
      intro hreleased
      obtain ⟨_, _, hfiles, hcalls⟩ := hreleased.handlings_eq
      exact ⟨callsFor_of_released hfiles hcalls, hreleased.allClosed hleads⟩
    cases haccounts with
    | holds io wait hfiles hopens =>
      exact ⟨callsFor_of_opens hopens, fun hover => absurd ⟨_, hf, rfl⟩ hover, hbusy⟩
    | empty io wait hnone h =>
      exact ⟨(hreleased h).1, fun hover => absurd ⟨_, hf, rfl⟩ hover, hbusy⟩
    | finished result h => exact ⟨(hreleased h).1, fun _ => (hreleased h).2, hbusy⟩
    | dropped h => exact ⟨(hreleased h).1, fun _ => (hreleased h).2, hbusy⟩

/-- A command that is dropped while it waits, with two redirections to the same text. -/
theorem redirections_dropped :
    let text := "/bin/yes > /f >> /f"
    let line := (CommandLine.parse yesShell.env text yesShell.draws).1
    let accepted := Engine.after (Stock.programs []) { shell := yesShell, timers := .empty }
      (.execute text)
    let later := accepted.run (Stock.programs []) [.poll 0 0, .drop 0]
    let build := (firstPolled (Stock.programs []) 0 accepted [.poll 0 0, .drop 0]).bind
      line.building?
    let through := passages (Stock.programs []) 0 accepted [.poll 0 0, .drop 0]
    yesShell.phase = .idle ∧ later.shell.phase = .idle ∧
      later.shell.fs.textAt? ⟨0, ["f"]⟩ = some "yy\n\n" ∧
      (handlings (allCalls through)).length = 4 ∧
      (∀ p ∈ through, Leads p.before.fs p.calls p.after.fs) ∧
      CallsFor line.redirections build (allCalls through) ∧
      AllClosed line.redirections build through := by
  have hphase : yesShell.phase = .idle := rfl
  have hrun := redirections_run (Stock.programs []) hphase .empty [] rfl "/bin/yes > /f >> /f"
    [.poll 0 0, .drop 0]
  have hidle : (Engine.run (Stock.programs [])
      (Engine.after (Stock.programs []) { shell := yesShell, timers := .empty }
        (.execute "/bin/yes > /f >> /f"))
      [.poll 0 0, .drop 0]).shell.phase = .idle := by
    decide +kernel
  obtain ⟨hleads, hcalls, hover, hbusy⟩ := hrun
  refine ⟨hphase, hidle, ?_, ?_, fun p hp => (hleads p hp).1, hcalls, hover (hbusy hidle)⟩
  · decide +kernel
  · decide +kernel

end Engine

end MountShell
