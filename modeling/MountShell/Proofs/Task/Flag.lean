import MountShell.Proofs.Task.History
import MountShell.Task.Script
import MountShell.Timer.Millis

/-!
# Who hears of a raised flag

Scripted tasks wait until the flag that they share is raised, or sleep until then.  A poll of such a
wait that finds it not over leaves the task with the flag, in place of whoever was there; raising
the flag wakes whoever is there.  So of the tasks that wait only one is woken, the last that was
polled; and it is so once, since a second raise finds nobody there.  The others are not lost when
they are polled for another reason: until the flag is lowered they find that their waits are over.

A history of the flag (`FlagUse`) is any sequence of polls, raises and lowerings, with anything
happening in between to the timers and to the rest of what the tasks share.  It is noted in a log
what the polls have found (`FlagMark`), and from this the flag can be read off
(`SignalFlag.Agrees`).

Main statements: `FlagLog.agrees_after`, what one use keeps, and `FlagLog.alerts_run`.
-/

namespace MountShell

variable {τ : Type}

/-- Is this a wait that ends when the flag is raised? -/
def TaskWait.forFlag : TaskWait τ → Bool
  | .signal | .interruptibleSleep _ => true
  | _ => false

/-- What is done to the flag, and to what else scripted tasks share. -/
inductive FlagUse (τ : Type) where
  /-- The task in a slot looks at what it waits for. -/
  | poll (id : Nat) (name : String) (wait : TaskWait τ)
  | raise
  | take
  /-- Anything but the flag changes. -/
  | outside (k : Shared τ ScriptState)

/-- What happens to the flag. -/
inductive FlagMark where
  /-- A task looks at a wait for the flag, which is not over. -/
  | waited (id : Nat)
  /-- A task looks at a wait for the flag, which is over. -/
  | passed (id : Nat)
  | raised
  | taken
  deriving DecidableEq, Repr

/-- The latest poll of a task that waits for the flag has found that its wait is not over. -/
def LeftWaiting (past : List FlagMark) (id : Nat) : Prop :=
  Since (fun mark => mark = .waited id) (fun mark => mark = .passed id) past

/-- A task was the last to be left waiting, and the flag has not been raised since. -/
def LastToWait (past : List FlagMark) (id : Nat) : Prop :=
  Since (fun mark => mark = .waited id)
    (fun mark => mark = .raised ∨ ∃ other, mark = .waited other) past

/-- The flag has been raised, and not lowered since. -/
def Raised (past : List FlagMark) : Prop :=
  Since (fun mark => mark = .raised) (fun mark => mark = .taken) past

/-- What scripted tasks share, and the log. -/
structure FlagLog (τ : Type) where
  shared : Shared τ ScriptState
  past : List FlagMark := []

variable [Zero τ] [Add τ] [LT τ] [DecidableLT τ]

/-! ### Looking at waits -/

/-- A waiter finds the flag raised and leaves it as it is, or takes the place of the other. -/
theorem SignalFlag.look_cases {ω : Type} (flag : SignalFlag ω) (waiter : ω) :
    (flag.raised = true ∧ flag.look waiter = (flag, true)) ∨
      (flag.raised = false ∧
        flag.look waiter = ({ raised := false, waiter := some waiter }, false)) := by
  obtain ⟨raised, before⟩ := flag
  cases raised with
  | true => exact .inl ⟨rfl, rfl⟩
  | false => exact .inr ⟨rfl, rfl⟩

namespace ScriptedTask

variable {wait : TaskWait τ} (id : Nat) (name : String) (k : Shared τ ScriptState)

/-- A task that looks at a wait for the flag finds it over, or is left with a flag that is not
raised. -/
theorem look_of_forFlag (h : wait.forFlag = true) :
    ((look id name wait k).1 = none ∧ (look id name wait k).2.state.flag = k.state.flag) ∨
      ((look id name wait k).1.isSome = true ∧ k.state.flag.raised = false ∧
        (look id name wait k).2.state.flag = { raised := false, waiter := some (.task id) }) := by
  have hflag := k.state.flag.look_cases (.task id)
  cases wait with
  | signal =>
    rcases hflag with ⟨-, hlook⟩ | ⟨hraised, hlook⟩
    · refine .inl ?_
      simp [look, hlook, write, ScriptState.write]
    · refine .inr ?_
      simp [look, hlook, hraised]
  | interruptibleSleep s =>
    rcases hpoll : s.poll k.timers (.task id) with ⟨done, left, timers⟩
    cases done with
    | true =>
      refine .inl ?_
      simp [look, hpoll, write, ScriptState.write]
    | false =>
      rcases hflag with ⟨-, hlook⟩ | ⟨hraised, hlook⟩
      · refine .inl ?_
        simp [look, hpoll, hlook, write, ScriptState.write]
      · refine .inr ?_
        simp [look, hpoll, hlook, hraised]
  | _ => exact absurd h (by simp [TaskWait.forFlag])

/-- A task that waits for something else leaves the flag alone. -/
theorem flag_look (h : wait.forFlag = false) :
    (look id name wait k).2.state.flag = k.state.flag := by
  cases wait with
  | signal => exact absurd h (by simp [TaskWait.forFlag])
  | interruptibleSleep s => exact absurd h (by simp [TaskWait.forFlag])
  | nothing => rfl
  | turn => rfl
  | forever => rfl
  | sleep s report again =>
    rcases hpoll : s.poll k.timers (.task id) with ⟨done, left, timers⟩
    cases done with
    | false => simp [look, hpoll]
    | true => cases again <;> simp [look, hpoll, write, ScriptState.write]
  | join channel =>
    simp only [look]
    split
    · rfl
    · rename_i value hsent
      simp [ScriptState.receive, hsent, write, ScriptState.write]
    · rfl

end ScriptedTask

/-! ### What every use keeps -/

namespace SignalFlag

variable {flag : SignalFlag Waker} {past : List FlagMark}

/-- The flag is as its log says. -/
structure Agrees (past : List FlagMark) (flag : SignalFlag Waker) : Prop where
  raised : flag.raised = true ↔ Raised past
  waiter : ∀ waker, flag.waiter = some waker ↔ ∃ id, waker = .task id ∧ LastToWait past id

theorem agrees_new : Agrees [] {} where
  raised := ⟨nofun, fun hraised => absurd hraised not_since_nil⟩
  waiter _ := ⟨nofun, fun ⟨_, _, hlast⟩ => absurd hlast not_since_nil⟩

/-- A task that finds its wait over leaves the flag alone. -/
theorem Agrees.passed (h : Agrees past flag) (id : Nat) :
    Agrees (past ++ [.passed id]) flag where
  raised := by simpa [Raised, since_concat] using h.raised
  waiter := by simpa [LastToWait, since_concat] using h.waiter

/-- A task that is left waiting takes the place of whoever was there. -/
theorem Agrees.waited (h : Agrees past flag) (hlow : flag.raised = false) (id : Nat) :
    Agrees (past ++ [.waited id]) { raised := false, waiter := some (.task id) } where
  raised := by simpa [Raised, since_concat, hlow] using h.raised
  waiter waker := by simp [LastToWait, since_concat, eq_comm]

/-- A flag that has been raised has nobody to wake. -/
theorem agrees_raise (flag : SignalFlag Waker) (past : List FlagMark) :
    Agrees (past ++ [.raised]) flag.raise.1 where
  raised := by simp [SignalFlag.raise, Raised, since_concat]
  waiter waker := by simp [SignalFlag.raise, LastToWait, since_concat]

theorem Agrees.take (h : Agrees past flag) : Agrees (past ++ [.taken]) flag.take.1 where
  raised := by simp [SignalFlag.take, Raised, since_concat]
  waiter := by simpa [SignalFlag.take, LastToWait, since_concat] using h.waiter

/-- A flag that is raised wakes the last task that was left waiting. -/
theorem Agrees.woken (h : Agrees past flag) (id : Nat) :
    flag.raise.2 = some (.task id) ↔ LastToWait past id := by
  refine (h.waiter (.task id)).trans ⟨?_, fun hlast => ⟨id, rfl, hlast⟩⟩
  rintro ⟨other, hsame, hlast⟩
  exact Waker.task.inj hsame ▸ hlast

end SignalFlag

namespace FlagLog

variable {l : FlagLog τ}

/-- The flag itself. -/
def flag (l : FlagLog τ) : SignalFlag Waker := l.shared.state.flag

/-- The mark that a task leaves which has looked at a wait for the flag. -/
def found (id : Nat) : Option (TaskWait τ) → FlagMark
  | some _ => .waited id
  | none => .passed id

/-- What one use makes of the flag. -/
def after (l : FlagLog τ) : FlagUse τ → FlagLog τ
  | .poll id name wait =>
    let (left, shared) := ScriptedTask.look id name wait l.shared
    { shared, past := l.past ++ if wait.forFlag then [found id left] else [] }
  | .raise =>
    { shared := { l.shared with state := { l.shared.state with flag := l.flag.raise.1 } }
      past := l.past ++ [.raised] }
  | .take =>
    { shared := { l.shared with state := { l.shared.state with flag := l.flag.take.1 } }
      past := l.past ++ [.taken] }
  | .outside k => { l with shared := { k with state := { k.state with flag := l.flag } } }

/-- What comes after a list of uses. -/
def run (l : FlagLog τ) (uses : List (FlagUse τ)) : FlagLog τ :=
  uses.foldl after l

/-- What one use keeps. -/
theorem agrees_after (h : l.flag.Agrees l.past) (use : FlagUse τ) :
    (l.after use).flag.Agrees (l.after use).past := by
  cases use with
  | raise => exact SignalFlag.agrees_raise l.flag l.past
  | take => exact h.take
  | outside k => exact h
  | poll id name wait =>
    cases hfor : wait.forFlag with
    | false =>
      have hflag : (l.after (.poll id name wait)).flag = l.flag :=
        ScriptedTask.flag_look id name l.shared hfor
      have hpast : (l.after (.poll id name wait)).past = l.past := by simp [after, hfor]
      rw [hflag, hpast]
      exact h
    | true =>
      rcases ScriptedTask.look_of_forFlag id name l.shared hfor with
        ⟨hover, hflag⟩ | ⟨hleft, hlow, hflag⟩
      · have hsame : (l.after (.poll id name wait)).flag = l.flag := hflag
        have hpast : (l.after (.poll id name wait)).past = l.past ++ [.passed id] := by
          simp [after, hfor, hover, found]
        rw [hsame, hpast]
        exact h.passed id
      · have htaken : (l.after (.poll id name wait)).flag =
            { raised := false, waiter := some (.task id) } := hflag
        obtain ⟨left, hleft⟩ := Option.isSome_iff_exists.1 hleft
        have hpast : (l.after (.poll id name wait)).past = l.past ++ [.waited id] := by
          simp [after, hfor, hleft, found]
        rw [htaken, hpast]
        exact h.waited hlow id

/-- What every history keeps. -/
theorem agrees_run (h : l.flag.Agrees l.past) (uses : List (FlagUse τ)) :
    (l.run uses).flag.Agrees (l.run uses).past := by
  induction uses generalizing l with
  | nil => exact h
  | cons use rest ih => exact ih (agrees_after h use)

/-! ### Who is woken -/

/-- What raising the flag does for the tasks that wait for it. -/
structure Alerts (l : FlagLog τ) : Prop where
  /-- It wakes the task that was the last to be left waiting, unless the flag has been raised since,
  and no other. -/
  woken : ∀ waker, l.flag.raise.2 = some waker ↔ ∃ id, waker = .task id ∧ LastToWait l.past id
  /-- So all those who wait are woken just when each of them was the last, -/
  all : (∀ id, LeftWaiting l.past id → l.flag.raise.2 = some (.task id)) ↔
    ∀ id, LeftWaiting l.past id → LastToWait l.past id
  /-- which it is not when there are several. -/
  alone : (∀ id, LeftWaiting l.past id → l.flag.raise.2 = some (.task id)) →
    ∀ id other, LeftWaiting l.past id → LeftWaiting l.past other → id = other
  /-- When the flag has been raised and has not been lowered, every task that looks finds its wait
  over. -/
  passes : Raised l.past → ∀ id name (wait : TaskWait τ), wait.forFlag = true →
    (ScriptedTask.look id name wait l.shared).1 = none

/-- A flag that is as its log says, and has been raised, is found so by every task that looks. -/
theorem over_of_agrees (h : l.flag.Agrees l.past) (hraised : Raised l.past) (id : Nat)
    (name : String) {wait : TaskWait τ} (hfor : wait.forFlag = true) :
    (ScriptedTask.look id name wait l.shared).1 = none := by
  rcases ScriptedTask.look_of_forFlag id name l.shared hfor with
    ⟨hover, -⟩ | ⟨-, hlow, -⟩
  · exact hover
  · have hup : l.shared.state.flag.raised = true := h.raised.2 hraised
    exact absurd (hup.symm.trans hlow) (by simp)

/-- In every history of the flag, raising it wakes only the last task that was left waiting, and
lets the waits of all the tasks end. -/
theorem alerts_run (k : Shared τ ScriptState) (uses : List (FlagUse τ)) :
    Alerts (run { shared := { k with state := { k.state with flag := {} } } } uses) := by
  have h := agrees_run (l := { shared := { k with state := { k.state with flag := {} } } })
    SignalFlag.agrees_new uses
  refine ⟨h.waiter, ?_, fun hall id other hid hother => ?_,
    fun hraised id name wait hfor => over_of_agrees h hraised id name hfor⟩
  · exact forall₂_congr fun id _ => h.woken id
  · have hsame := (hall id hid).symm.trans (hall other hother)
    exact Waker.task.inj (Option.some.inj hsame)

/-! ### Two tasks that wait -/

/-- Two tasks wait for the flag, and both have been polled. -/
def twoWaiting : PoolLog (ScriptedTask Millis) (Shared Millis ScriptState) :=
  PoolLog.run ScriptedTask.behavior { state := { timers := TimerQueue.empty, state := {} } }
    [.spawn { name := "a", actions := [.waitSignal] },
      .spawn { name := "a", actions := [.waitSignal] }, .tick]

/-- Raising the flag wakes the second of them only: the next tick polls that one, and the first
waits on. -/
theorem alerts_twoWaiting :
    (twoWaiting.pool.task? 0).map ScriptedTask.wait = some .signal ∧
      (twoWaiting.pool.task? 1).map ScriptedTask.wait = some .signal ∧
      twoWaiting.past = [.spawned 0, .spawned 1, .polled 0, .polled 1] ∧
      twoWaiting.state.state.flag.raise.2 = some (.task 1) ∧
      (twoWaiting.after ScriptedTask.behavior (.wake 1)).polledNext ScriptedTask.behavior =
        [1] := by
  refine ⟨?_, ?_, ?_, ?_, ?_⟩ <;> rfl

end FlagLog

end MountShell
