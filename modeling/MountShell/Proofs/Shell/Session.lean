import Mathlib.Logic.Relation
import MountShell.Proofs.Shell.Engine
import MountShell.Proofs.Task.Slots
import MountShell.Shell.Session

/-!
# Sessions are engines

The tasks of a session are futures that its pool polls and drops: when they have been woken, and
when a task is cancelled, also because nothing is left to wait for.  Whatever is done to a session
(`SessionOp`) consists of a few moves (`Session.Move`), of which a tick is the most important.  For
each of them there are events after which an engine has the same shell and the same timers, and the
tasks are its futures that can still be polled (`Follows`).  So what holds of every run of an engine
holds of every session.

Main statements: `moves_run`, `Follows.moves`, and `one_task_run`, one command at a time in a
session.
-/

namespace MountShell

/-- Something that is done to a session. -/
inductive SessionOp (τ : Type) where
  /-- A line becomes a task. -/
  | spawn (line : String)
  /-- A line is waited for, for at most so many ticks, and dropped when nothing is left to wait
  for. -/
  | runLine (ticks : Nat) (line : String)
  /-- The command that comes first is waited for. -/
  | start (ticks : Nat)
  | tick
  | settle (ticks : Nat)
  | advance (amount : τ)
  | cancel (id : Nat)
  | take (place : Nat)
  | trap (signal : Signal)
  | raise
  | setenv (name value : String)
  /-- Files, keys, random numbers and the date are what the host makes of them, and tasks are
  woken. -/
  | host (fs : FileSystem) (host : Host) (draws : Draws) (today : String) (woken : List Nat)

/-- The tasks of a pool are the futures of an engine that can be polled; that in slot `id` is the
future with the number `number id`. -/
structure Shows {κ τ : Type} (pool : TaskPool (JobTask κ τ)) (k : Shared τ SessionState)
    (number : Nat → Nat) (e : Engine κ τ) : Prop where
  shell : e.shell = k.state.shell
  timers : e.timers = k.timers
  slotted : pool.Slotted
  live : ∀ id task, pool.task? id = some task → e.futures[number id]? = some (.live task.job)
  apart : ∀ id task id' task', pool.task? id = some task → pool.task? id' = some task' →
    number id = number id' → id = id'
  all : ∀ i job, e.futures[i]? = some (.live job) →
    ∃ id task, pool.task? id = some task ∧ number id = i

/-- A session is what an engine has come to. -/
def Session.Follows {κ τ : Type} (s : Session κ τ) (e : Engine κ τ) : Prop :=
  ∃ number, Shows s.pool s.shared number e

namespace Shows

variable {κ τ : Type} {pool : TaskPool (JobTask κ τ)} {k : Shared τ SessionState}
  {number : Nat → Nat} {e : Engine κ τ}

/-- Waking tasks changes no task, and results are nothing to an engine. -/
theorem wakeAll (h : Shows pool k number e) (ids : List Nat) {k' : Shared τ SessionState}
    (hshell : k'.state.shell = k.state.shell) (htimers : k'.timers = k.timers) :
    Shows (pool.wakeAll ids) k' number e where
  shell := h.shell.trans hshell.symm
  timers := h.timers.trans htimers.symm
  slotted := h.slotted.wakeAll ids
  live id task hid := h.live id task (pool.task?_wakeAll ids id ▸ hid)
  apart id task id' task' hid hid' :=
    h.apart id task id' task' (pool.task?_wakeAll ids id ▸ hid) (pool.task?_wakeAll ids id' ▸ hid')
  all i job hi := by
    obtain ⟨id, task, hid, hnumber⟩ := h.all i job hi
    exact ⟨id, task, (pool.task?_wakeAll ids id).trans hid, hnumber⟩

theorem ready (h : Shows pool k number e) (ids : List Nat) :
    Shows { pool with ready := ids } k number e :=
  ⟨h.shell, h.timers, ⟨h.slotted.empty, h.slotted.nodup⟩, h.live, h.apart, h.all⟩

/-- A slot and the future of its task change together. -/
theorem update (h : Shows pool k number e) {id : Nat} {task : JobTask κ τ}
    (hid : pool.task? id = some task) {pool' : TaskPool (JobTask κ τ)}
    (hslotted : pool'.Slotted) {slot : Option (JobTask κ τ)}
    (htask : ∀ other, pool'.task? other = if other = id then slot else pool.task? other)
    {f : Future κ τ} (hf : ∀ job, f = .live job ↔ ∃ new, slot = some new ∧ job = new.job)
    {k' : Shared τ SessionState} {e' : Engine κ τ} (hshell : e'.shell = k'.state.shell)
    (htimers : e'.timers = k'.timers) (hfutures : e'.futures = e.futures.set (number id) f) :
    Shows pool' k' number e' := by
  have hlt : number id < e.futures.length :=
    (List.getElem?_eq_some_iff.1 (h.live id task hid)).1
  -- no task is new, so that distinct tasks are still shown by distinct futures
  have hold : ∀ {other new}, pool'.task? other = some new →
      ∃ old, pool.task? other = some old := by
    intro other new hother
    rw [htask] at hother
    by_cases hsame : other = id
    · exact ⟨task, hsame ▸ hid⟩
    · rw [if_neg hsame] at hother
      exact ⟨new, hother⟩
  refine ⟨hshell, htimers, hslotted, ?_, ?_, ?_⟩
  · intro other new hother
    rw [hfutures]
    by_cases hsame : other = id
    · subst hsame
      rw [htask, if_pos rfl] at hother
      rw [List.getElem?_set_self hlt]
      exact congrArg some ((hf new.job).2 ⟨new, hother, rfl⟩)
    · rw [htask, if_neg hsame] at hother
      have hne : number id ≠ number other :=
        fun heq => hsame (h.apart id task other new hid hother heq).symm
      rw [List.getElem?_set_ne hne]
      exact h.live other new hother
  · intro other new other' new' hother hother'
    obtain ⟨old, hold₁⟩ := hold hother
    obtain ⟨old', hold₂⟩ := hold hother'
    exact h.apart other old other' old' hold₁ hold₂
  · intro i job hi
    rw [hfutures] at hi
    by_cases hsame : i = number id
    · subst hsame
      rw [List.getElem?_set_self hlt] at hi
      obtain ⟨new, hnew, -⟩ := (hf job).1 (Option.some.inj hi)
      exact ⟨id, new, by rw [htask, if_pos rfl, hnew], rfl⟩
    · rw [List.getElem?_set_ne (Ne.symm hsame)] at hi
      obtain ⟨other, old, hother, rfl⟩ := h.all i job hi
      have hne : other ≠ id := fun heq => hsame (congrArg number heq)
      exact ⟨other, old, by rw [htask, if_neg hne, hother], rfl⟩

/-- A task that is added is a new future. -/
theorem spawn (h : Shows pool k number e) (given : Job κ τ × Shell) (place : Nat)
    {k' : Shared τ SessionState} (hshell : k'.state.shell = given.2)
    (htimers : k'.timers = k.timers) :
    Shows (pool.spawn { job := given.1, place }).2 k'
      (fun other =>
        if other = (pool.spawn { job := given.1, place }).1 then e.futures.length
        else number other)
      (e.add given) := by
  obtain ⟨hnone, htask⟩ := TaskPool.task?_spawn h.slotted { job := given.1, place }
  revert hnone htask
  have hslotted := h.slotted.spawn { job := given.1, place }
  revert hslotted
  cases pool.spawn { job := given.1, place } with
  | mk id pool' =>
    intro hslotted hnone htask
    -- the futures of the tasks so far come before the one that is added
    have hbelow : ∀ {other old}, pool.task? other = some old → number other < e.futures.length :=
      fun hother => (List.getElem?_eq_some_iff.1 (h.live _ _ hother)).1
    refine ⟨hshell.symm, h.timers.trans htimers.symm, hslotted, ?_, ?_, ?_⟩
    · intro other new hother
      show (e.futures ++ [.live given.1])[_]? = _
      rw [htask] at hother
      by_cases hsame : other = id
      · rw [if_pos hsame] at hother
        obtain rfl := Option.some.inj hother
        simp only [hsame, ↓reduceIte]
        exact List.getElem?_concat_length ..
      · rw [if_neg hsame] at hother
        simp only [hsame, ↓reduceIte]
        rw [List.getElem?_append_left (hbelow hother)]
        exact h.live other new hother
    · intro other new other' new' hother hother' heq
      rw [htask] at hother hother'
      by_cases hsame : other = id <;> by_cases hsame' : other' = id
      · rw [hsame, hsame']
      · rw [if_neg hsame'] at hother'
        simp only [hsame, hsame', ↓reduceIte] at heq
        exact absurd heq (Nat.ne_of_gt (hbelow hother'))
      · rw [if_neg hsame] at hother
        simp only [hsame, hsame', ↓reduceIte] at heq
        exact absurd heq (Nat.ne_of_lt (hbelow hother))
      · rw [if_neg hsame] at hother
        rw [if_neg hsame'] at hother'
        simp only [hsame, hsame', ↓reduceIte] at heq
        exact h.apart other new other' new' hother hother' heq
    · intro i job hi
      have hi : (e.futures ++ [.live given.1])[i]? = some (.live job) := hi
      by_cases hlt : i < e.futures.length
      · rw [List.getElem?_append_left hlt] at hi
        obtain ⟨other, old, hother, rfl⟩ := h.all i job hi
        have hne : other ≠ id := by
          rintro rfl
          exact absurd (hnone.symm.trans hother) (by simp)
        exact ⟨other, old, by rw [htask, if_neg hne, hother], if_neg hne⟩
      · have hlast : i = e.futures.length := by
          have hle := (List.getElem?_eq_some_iff.1 hi).1
          rw [List.length_append, List.length_singleton] at hle
          omega
        exact ⟨id, { job := given.1, place }, by rw [htask, if_pos rfl], by
          rw [if_pos rfl, hlast]⟩

variable [Zero τ] [Add τ] [LT τ] [DecidableLT τ]

/-- A poll of a task is a poll of its future. -/
theorem poll (h : Shows pool k number e) (programs : Programs κ τ) {id : Nat}
    {task : JobTask κ τ} (hid : pool.task? id = some task) :
    Shows ((pool.leave id (task.poll programs id k).next).wakeAll (task.poll programs id k).woken)
      (task.poll programs id k).state number (e.after programs (.poll (number id) id)) := by
  have hlt := TaskPool.lt_of_task? hid
  have hafter := Engine.after_poll (h.live id task hid) programs id
  rw [h.shell, h.timers] at hafter
  rw [hafter]
  unfold JobTask.poll
  simp only
  cases hprogress : (task.job.poll programs id k.state.shell k.timers).progress with
  | waits job =>
    refine Shows.wakeAll ?_ _ rfl rfl
    exact h.update hid (h.slotted.leave hid _) (TaskPool.task?_leave hlt _) (f := .live job)
      (fun other => by simp [eq_comm]) rfl rfl rfl
  | ends result =>
    refine Shows.wakeAll ?_ _ rfl rfl
    exact h.update hid (h.slotted.leave hid _) (TaskPool.task?_leave hlt _)
      (f := .finished result) (fun other => by simp) rfl rfl rfl

/-- The tasks that are polled one after the other are futures that are polled. -/
theorem pollAll (h : Shows pool k number e) (programs : Programs κ τ) (ids : List Nat) :
    ∃ events, Shows (TaskPool.pollAll (JobTask.behavior programs) ids pool k).2.1
      (TaskPool.pollAll (JobTask.behavior programs) ids pool k).2.2 number
      (e.run programs events) := by
  induction ids generalizing pool k e with
  | nil => exact ⟨[], h⟩
  | cons id ids ih =>
    cases hid : pool.task? id with
    | none =>
      rw [TaskPool.pollAll_of_none _ hid]
      exact ih h
    | some task =>
      rw [TaskPool.pollAll_of_task? _ hid]
      obtain ⟨events, hevents⟩ := ih (h.poll programs hid)
      exact ⟨.poll (number id) id :: events, hevents⟩

/-- A task that is cancelled is a future that is dropped. -/
theorem cancel (h : Shows pool k number e) (programs : Programs κ τ) (id : Nat) :
    ∃ events, Shows (pool.cancel (JobTask.behavior programs) k id).2.1
      (pool.cancel (JobTask.behavior programs) k id).2.2 number (e.run programs events) := by
  unfold TaskPool.cancel
  cases hid : pool.task? id with
  | none => exact ⟨[], h⟩
  | some task =>
    have hlt := TaskPool.lt_of_task? hid
    have hafter := Engine.after_drop (h.live id task hid) programs
    rw [h.shell, h.timers] at hafter
    refine ⟨[.drop (number id)], ?_⟩
    show Shows _ _ number (e.after programs (.drop (number id)))
    rw [hafter]
    exact h.update hid (h.slotted.leave hid none) (TaskPool.task?_leave hlt none)
      (f := .dropped) (fun other => by simp) rfl rfl rfl

end Shows

namespace Session

variable {κ τ : Type} {s : Session κ τ} {e : Engine κ τ}

theorem Follows.shell_eq (h : s.Follows e) : e.shell = s.shell := by
  obtain ⟨number, hshows⟩ := h
  exact hshows.shell

/-- The clock and the results that are kept are nothing to an engine. -/
theorem Follows.congr (h : s.Follows e) {other : Session κ τ} (hpool : other.pool = s.pool)
    (hshell : other.shell = s.shell) (htimers : other.shared.timers = s.shared.timers) :
    other.Follows e := by
  obtain ⟨number, hshows⟩ := h
  refine ⟨number, ?_⟩
  rw [hpool]
  exact hshows.wakeAll [] hshell htimers

/-- The shell may change from outside, which may wake tasks. -/
theorem Follows.withWoken (h : s.Follows e) (change : Shell × List Nat) :
    Follows (s.withWoken change) (e.withShell change.1) := by
  obtain ⟨number, hshows⟩ := h
  have hsame : Shows s.pool { s.shared with state := { s.shared.state with shell := change.1 } }
      number (e.withShell change.1) :=
    ⟨rfl, hshows.timers, hshows.slotted, hshows.live, hshows.apart, hshows.all⟩
  exact ⟨number, hsame.wakeAll change.2 rfl rfl⟩

/-- A job that the shell gives becomes a task. -/
theorem Follows.spawn (h : s.Follows e) (given : Job κ τ × Shell) (place : Nat)
    (results : List (Option JobResult)) :
    Follows
      { s with
        pool := (s.pool.spawn { job := given.1, place }).2
        shared := { s.shared with state := { shell := given.2, results } } }
      (e.add given) := by
  obtain ⟨number, hshows⟩ := h
  exact ⟨_, hshows.spawn given place rfl rfl⟩

/-- A session without tasks follows an engine without futures. -/
theorem follows_new [Zero τ] (sh : Shell) :
    Follows (κ := κ) (τ := τ) (Session.new sh) { shell := sh, timers := .empty } :=
  ⟨id, rfl, rfl, ⟨by simp [Session.new, TimedPool.new], List.nodup_nil⟩,
    by simp [Session.new, TimedPool.new, TaskPool.task?],
    by simp [Session.new, TimedPool.new, TaskPool.task?], by simp⟩

variable [Zero τ] [Add τ] [LT τ] [DecidableLT τ]

theorem run_append (e : Engine κ τ) (programs : Programs κ τ) (first rest : List (EngineEvent τ)) :
    e.run programs (first ++ rest) = (e.run programs first).run programs rest :=
  List.foldl_append

/-- Some events lead the engine to where the session `after` is. -/
def Reaches (programs : Programs κ τ) (e : Engine κ τ) (after : Session κ τ) : Prop :=
  ∃ events, after.Follows (e.run programs events)

/-- Timers that are due fire, and tasks that are ready are polled. -/
theorem Follows.tick (h : s.Follows e) (programs : Programs κ τ) :
    Reaches programs e (TimedPool.tick (JobTask.behavior programs) s).2 := by
  obtain ⟨number, hshows⟩ := h
  obtain ⟨wakers, timers, hticked⟩ : ∃ wakers timers,
      s.shared.timers.tick s.clock = (wakers, timers) := ⟨_, _, rfl⟩
  have hsame : Shows s.pool { s.shared with timers } number { e with timers } :=
    { hshows with timers := rfl }
  have hfired := hsame.wakeAll (Waker.tasks wakers) rfl rfl
  obtain ⟨events, hevents⟩ :=
    (hfired.ready []).pollAll programs (s.pool.wakeAll (Waker.tasks wakers)).ready
  refine ⟨.host e.shell.fs e.shell.host timers e.shell.draws e.shell.today :: events, number, ?_⟩
  unfold TimedPool.tick TimedPool.wakeTimers
  rw [hticked]
  exact hevents

theorem Follows.cancel (h : s.Follows e) (programs : Programs κ τ) (id : Nat) :
    Reaches programs e (TimedPool.cancel (JobTask.behavior programs) s id).2 := by
  obtain ⟨number, hshows⟩ := h
  obtain ⟨events, hevents⟩ := hshows.cancel programs id
  exact ⟨events, number, hevents⟩

/-! ### Moves -/

/-- What is done to a session. -/
def perform (programs : Programs κ τ) (s : Session κ τ) : SessionOp τ → Session κ τ
  | .spawn line => (s.spawnLine line).2
  | .runLine ticks line => (s.runLine programs ticks line).2
  | .start ticks => (Session.start programs ticks s).2
  | .tick => (TimedPool.tick (JobTask.behavior programs) s).2
  | .settle ticks => (TimedPool.settle (JobTask.behavior programs) ticks s).2
  | .advance amount => TimedPool.advance s amount
  | .cancel id => (TimedPool.cancel (JobTask.behavior programs) s id).2
  | .take place => (takeResult? place s).2
  | .trap signal => s.withWoken (s.shell.trap signal)
  | .raise => s.withWoken s.shell.raise
  | .setenv name value => s.withShell (s.shell.setenv name value)
  | .host fs host draws today woken => s.withWoken ({ s.shell with fs, host, draws, today }, woken)

/-- One of the moves that everything that is done to a session consists of. -/
inductive Move (programs : Programs κ τ) (s : Session κ τ) : Session κ τ → Prop
  | execute (line : String) : Move programs s (s.spawnJob (s.shell.accept line)).2
  | start : Move programs s (s.spawnJob s.shell.start).2
  | tick : Move programs s (TimedPool.tick (JobTask.behavior programs) s).2
  | clock (clock : τ) : Move programs s { s with clock }
  | cancel (id : Nat) : Move programs s (TimedPool.cancel (JobTask.behavior programs) s id).2
  | take (place : Nat) : Move programs s (takeResult? place s).2
  | trap (signal : Signal) : Move programs s (s.withWoken (s.shell.trap signal))
  | raise : Move programs s (s.withWoken s.shell.raise)
  | setenv (name value : String) : Move programs s (s.withShell (s.shell.setenv name value))
  | host (fs : FileSystem) (host : Host) (draws : Draws) (today : String) (woken : List Nat) :
      Move programs s (s.withWoken ({ s.shell with fs, host, draws, today }, woken))

/-- Some moves lead from one session to another. -/
def Moves (programs : Programs κ τ) : Session κ τ → Session κ τ → Prop :=
  Relation.ReflTransGen (Move programs)

theorem moves_settle (programs : Programs κ τ) (ticks : Nat) (s : Session κ τ) :
    Moves programs s (TimedPool.settle (JobTask.behavior programs) ticks s).2 := by
  induction ticks generalizing s with
  | zero => exact .refl
  | succ n ih =>
    have htick : Move programs s (TimedPool.tick (JobTask.behavior programs) s).2 := .tick
    rw [TimedPool.settle]
    simp only
    by_cases hready : (TimedPool.tick (JobTask.behavior programs) s).2.pool.hasReady = true
    · rw [if_pos hready]
      exact .head htick (ih _)
    · rw [if_neg hready]
      exact .single htick

/-- Waiting for a task ticks, moves the clock, and in the end takes the result or drops the task. -/
theorem moves_waitFor (programs : Programs κ τ) (id place ticks : Nat) (s : Session κ τ) :
    Moves programs s
      (TimedPool.waitFor (JobTask.behavior programs) id (takeResult place) ticks s).2 := by
  induction ticks generalizing s with
  | zero => exact .refl
  | succ n ih =>
    have htick : Move programs s (TimedPool.tick (JobTask.behavior programs) s).2 := .tick
    refine .head htick ?_
    rw [TimedPool.waitFor]
    simp only
    -- After the tick the result is taken if it is known; otherwise the wait goes on, jumps to the
    -- next deadline, or is given up.
    generalize (TimedPool.tick (JobTask.behavior programs) s).2 = ticked
    have htake : Move programs ticked (takeResult? place ticked).2 := .take place
    unfold takeResult? at htake
    revert htake
    rcases takeResult place ticked.shared.state with ⟨_ | result, state⟩
    · intro _
      simp only
      by_cases hready : ticked.pool.hasReady = true
      · rw [if_pos hready]
        exact ih ticked
      · rw [if_neg hready]
        cases ticked.shared.timers.nextDeadline with
        | none => exact .single (.cancel id)
        | some deadline =>
          have hclock : Moves programs ticked
              (if ticked.clock < deadline then { ticked with clock := deadline } else ticked) := by
            by_cases hbefore : ticked.clock < deadline
            · rw [if_pos hbefore]
              exact .single (.clock deadline)
            · rw [if_neg hbefore]
              exact .refl
          exact hclock.trans (ih _)
    · intro htake
      exact .single htake

/-- Everything that is done to a session consists of moves. -/
theorem moves_perform (programs : Programs κ τ) (s : Session κ τ) (op : SessionOp τ) :
    Moves programs s (s.perform programs op) := by
  cases op with
  | spawn line => exact .single (.execute line)
  | runLine ticks line => exact .head (.execute line) (moves_waitFor programs _ _ ticks _)
  | start ticks => exact .head .start (moves_waitFor programs _ _ ticks _)
  | tick => exact .single .tick
  | settle ticks => exact moves_settle programs ticks s
  | advance amount => exact .single (.clock _)
  | cancel id => exact .single (.cancel id)
  | take place => exact .single (.take place)
  | trap signal => exact .single (.trap signal)
  | raise => exact .single .raise
  | setenv name value => exact .single (.setenv name value)
  | host fs host draws today woken => exact .single (.host fs host draws today woken)

theorem moves_run (programs : Programs κ τ) (s : Session κ τ) (ops : List (SessionOp τ)) :
    Moves programs s (ops.foldl (Session.perform programs) s) := by
  induction ops generalizing s with
  | nil => exact .refl
  | cons op ops ih => exact (moves_perform programs s op).trans (ih _)

/-- Whatever move a session that follows an engine makes, the engine can go along. -/
theorem Follows.move (h : s.Follows e) {programs : Programs κ τ} {after : Session κ τ}
    (hmove : Move programs s after) : Reaches programs e after := by
  have hspawn := fun given => h.spawn given s.shared.state.results.length
    (s.shared.state.results ++ [none])
  rcases hmove with line | _ | _ | clock | id | place | signal | _ | ⟨name, value⟩ |
    ⟨fs, host, draws, today, woken⟩
  · refine ⟨[.execute line], ?_⟩
    show Follows _ (e.add (e.shell.accept line))
    rw [h.shell_eq]
    exact hspawn (s.shell.accept line)
  · refine ⟨[.start], ?_⟩
    show Follows _ (e.add e.shell.start)
    rw [h.shell_eq]
    exact hspawn s.shell.start
  · exact h.tick programs
  · exact ⟨[], h.congr rfl rfl rfl⟩
  · exact h.cancel programs id
  · exact ⟨[], h.congr rfl rfl rfl⟩
  · refine ⟨[.trap signal], ?_⟩
    show Follows _ (e.withShell (e.shell.trap signal).1)
    rw [h.shell_eq]
    exact h.withWoken (s.shell.trap signal)
  · refine ⟨[.raise], ?_⟩
    show Follows _ (e.withShell e.shell.raise.1)
    rw [h.shell_eq]
    exact h.withWoken s.shell.raise
  · refine ⟨[.setenv name value], ?_⟩
    show Follows _ (e.withShell (e.shell.setenv name value))
    rw [h.shell_eq]
    exact h.withWoken (s.shell.setenv name value, [])
  · refine ⟨[.host fs host e.timers draws today], ?_⟩
    show Follows _ (e.withShell { e.shell with fs, host, draws, today })
    rw [h.shell_eq]
    exact h.withWoken ({ s.shell with fs, host, draws, today }, woken)

/-- Whatever is done to a session, an engine can go along all the way. -/
theorem Follows.moves (h : s.Follows e) {programs : Programs κ τ} {after : Session κ τ}
    (hmoves : Moves programs s after) : Reaches programs e after := by
  induction hmoves with
  | refl => exact ⟨[], h⟩
  | tail _ hmove ih =>
    obtain ⟨first, hfirst⟩ := ih
    obtain ⟨rest, hrest⟩ := hfirst.move hmove
    exact ⟨first ++ rest, (run_append e programs first rest).symm ▸ hrest⟩

/-- One command at a time in a session.  Whatever is done to a session whose shell begins idle and
without scopes, at most one of its tasks is a line that has been accepted, the shell is idle just
when none is, and then no scope is open. -/
theorem one_task_run (programs : Programs κ τ) {sh : Shell} (hphase : sh.phase = .idle)
    (hscopes : sh.env.scopes = []) (ops : List (SessionOp τ)) :
    let s := ops.foldl (Session.perform programs) (Session.new sh)
    let holds := fun id => ∃ task, s.pool.task? id = some task ∧ task.job.isAccepted = true
    (∀ id id', holds id → holds id' → id = id') ∧
      (s.shell.phase = .idle ↔ ∀ id, ¬ holds id) ∧
      (s.shell.phase = .idle → s.shell.env.scopes = []) := by
  intro s holds
  obtain ⟨number, e, hshows, htidy⟩ : ∃ number e,
      Shows s.pool s.shared number e ∧ Engine.Tidy [] e := by
    have hmoves := moves_run programs (Session.new sh) ops
    obtain ⟨events, number, hshows⟩ := (follows_new sh).moves hmoves
    exact ⟨number, _, hshows, (Engine.tidy_start hphase hscopes .empty).run programs events⟩
  have hactive : ∀ id, holds id → e.Active (number id) := by
    rintro id ⟨task, hid, haccepted⟩
    exact ⟨task.job, hshows.live id task hid, haccepted⟩
  have hshell := hshows.shell
  refine ⟨?_, ?_, ?_⟩
  · intro id id' hid hid'
    have hsame := htidy.eq_of_active (hactive id hid) (hactive id' hid')
    obtain ⟨task, htask, -⟩ := hid
    obtain ⟨task', htask', -⟩ := hid'
    exact hshows.apart id task id' task' htask htask' hsame
  · show s.shared.state.shell.phase = .idle ↔ _
    rw [← hshell, htidy.idle_iff]
    constructor
    · intro hnone id hid
      exact hnone (number id) (hactive id hid)
    · rintro hnone i ⟨job, hjob, haccepted⟩
      obtain ⟨id, task, hid, rfl⟩ := hshows.all i job hjob
      obtain rfl : task.job = job := by simpa [hshows.live id task hid] using hjob
      exact hnone id ⟨task, hid, haccepted⟩
  · show s.shared.state.shell.phase = .idle → s.shared.state.shell.env.scopes = []
    rw [← hshell]
    exact htidy.scopes_of_idle

end Session

end MountShell
