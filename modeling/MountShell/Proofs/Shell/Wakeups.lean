import MountShell.Proofs.Shell.Session
import MountShell.Proofs.Timer.Queue

/-!
# No wake-up is lost

A command that waits in a session will be polled again when the flag is raised: either its task is
ready already, or it is the one that the flag wakes.  Other tasks of a session do not wait, so that
nothing else takes this one place.  The timer of a sleep that a command waits for is the only one
that can be pending.

The invariant (`Attended`) is about the tasks of a pool, what they share, and the numbers that a
tick has still to go through.

Main statements: `Job.heard_poll`, what a poll leaves; `Attended.poll` and `Attended.pollAll`, what
a tick leaves; and `Session.Sound.moves`, every session is so.
-/

namespace MountShell

/-! ### What a poll leaves -/

section Poll

variable {κ τ : Type}

/-- The timer of a sleep that has begun. -/
def Wait.timer? : Wait κ τ → Option Nat
  | .sleep s _ => s.timer
  | .turn _ | .key _ => none

/-- The timer that a job waits for. -/
def Job.timer? : Job κ τ → Option Nat
  | .suspended _ wait => wait.timer?
  | .settled _ | .accepted _ => none

theorem Job.isAccepted_of_timer? {job : Job κ τ} {t : Nat} (h : job.timer? = some t) :
    job.isAccepted = true := by
  cases job with
  | suspended io wait => rfl
  | _ => exact absurd h (by simp [timer?])

/-- The task in slot `id`, whose command waits, will be polled when the flag is raised: it has been
woken, or the flag wakes it. -/
def Wait.Heard (id : Nat) (wait : Wait κ τ) (c : Context) : Prop :=
  match wait with
  | .turn _ => id ∈ c.woken
  | .sleep _ _ | .key _ => c.shell.flag.waiter = some (.task id)

/-- What a poll on behalf of the task in slot `id` leaves: a command that has ended and no timer
pending, or one that waits and is heard. -/
inductive JobPoll.Heard (id : Nat) : JobPoll κ τ → Prop
  | ends {p : JobPoll κ τ} (result : Except ShellError Int) :
      p.progress = .ends result → p.timers.Serves none → Heard id p
  | waits {p : JobPoll κ τ} (io : Io) (wait : Wait κ τ) :
      p.progress = .waits (.suspended io wait) → p.timers.Serves wait.timer? →
      id ∈ p.woken ∨ p.shell.flag.waiter = some (.task id) → Heard id p

/-- A waiter that finds the flag lowered is remembered. -/
theorem SignalFlag.waiter_look {ω : Type} (flag : SignalFlag ω) (waiter : ω)
    (h : (flag.look waiter).2 = false) : (flag.look waiter).1.waiter = some waiter := by
  unfold look at h ⊢
  by_cases hraised : flag.raised = true
  · rw [if_pos hraised] at h
    exact absurd h (by simp)
  · rw [if_neg hraised]

/-- What looking at a wait comes to: the computation goes on with no timer pending, or the wait is
heard and only its timer can be pending. -/
inductive Job.Looked (id : Nat) : (κ ⊕ Wait κ τ) × Shell × TimerQueue τ Waker → Prop
  | goes (next : κ) (sh : Shell) (timers : TimerQueue τ Waker) :
      timers.Serves none → Looked id (.inl next, sh, timers)
  | stays (wait : Wait κ τ) (sh : Shell) (timers : TimerQueue τ Waker) :
      timers.Serves wait.timer? → (∀ io woken, wait.Heard id { shell := sh, io, woken }) →
      Looked id (.inr wait, sh, timers)

variable {id : Nat} {timers : TimerQueue τ Waker}

/-- A job that is dropped leaves no timer pending. -/
theorem Job.serves_drop {job : Job κ τ} (h : timers.Serves job.timer?) (sh : Shell) :
    (job.drop sh timers).2.Serves none := by
  cases job with
  | suspended io wait =>
    cases wait with
    | sleep s next => exact TimerQueue.Serves.drop (s := s) h
    | _ => exact h
  | _ => exact h

theorem Job.Arrives.heard {p : JobPoll κ τ} {calls : List FileCall} {deeds : List Deed}
    (h : Job.Arrives (fun _ timers _ _ => timers.Serves none)
      (fun wait c timers _ _ => timers.Serves wait.timer? ∧ wait.Heard id c) p calls deeds) :
    p.Heard id := by
  rcases h with ⟨code, c, timers, calls, deeds, hserves⟩ |
    ⟨wait, c, timers, calls, deeds, hserves, hheard⟩
  · exact .ends (.ok code) rfl hserves
  · refine .waits c.io wait rfl hserves ?_
    cases wait with
    | turn next => exact Or.inl hheard
    | sleep s next => exact Or.inr hheard
    | key next => exact Or.inr hheard

variable [Zero τ] [Add τ] [LT τ] [DecidableLT τ]

theorem Job.looked_lookAt (id : Nat) {wait : Wait κ τ} (h : timers.Serves wait.timer?)
    (sh : Shell) : Looked id (lookAt id wait sh timers) := by
  have hwaiter := sh.flag.waiter_look (Waker.task id)
  unfold lookAt
  cases wait with
  | turn next => exact .goes next sh timers h
  | sleep s next =>
    have hpoll := TimerQueue.Serves.poll (s := s) h (Waker.task id)
    simp only
    revert hpoll
    rcases s.poll timers (.task id) with ⟨_ | _, s', polled⟩
    · intro hpoll
      simp only
      by_cases hraised : (sh.flag.look (.task id)).2 = true
      · rw [if_pos hraised]
        exact .goes next _ _ hpoll.drop
      · rw [if_neg hraised]
        exact .stays _ _ _ hpoll fun io woken => hwaiter (Bool.eq_false_iff.2 hraised)
    · intro hpoll
      exact .goes next sh polled hpoll
  | key next =>
    simp only
    rcases sh.host.nextKey (.task id) with ⟨_ | answer, host⟩
    · simp only
      by_cases hraised : (sh.flag.look (.task id)).2 = true
      · rw [if_pos hraised]
        exact .goes _ _ timers h
      · rw [if_neg hraised]
        exact .stays _ _ timers h fun io woken => hwaiter (Bool.eq_false_iff.2 hraised)
    · exact .goes _ _ timers h

/-- While a command is driven no timer is pending, and when it waits it is heard. -/
theorem Course.heard (id : Nat) :
    Course (κ := κ) (τ := τ) id (fun _ timers _ _ => timers.Serves none)
      (fun wait _ timers _ _ => timers.Serves wait.timer?)
      (fun wait c timers _ _ => timers.Serves wait.timer? ∧ wait.Heard id c) where
  answer _ _ _ _ _ h := h
  cancelled _ _ _ _ _ h := h
  turn _ _ _ _ _ h := ⟨h, List.mem_append_right _ (List.mem_singleton_self id)⟩
  sleep _ _ _ _ _ _ h := h
  key _ _ _ _ _ h := h
  goes c wait _ _ _ _ _ _ hlook h := by
    have hlooked := Job.looked_lookAt id h c.shell
    rw [hlook] at hlooked
    cases hlooked with
    | goes _ _ _ hserves => exact hserves
  stays c wait _ _ _ _ _ _ hlook h := by
    have hlooked := Job.looked_lookAt id h c.shell
    rw [hlook] at hlooked
    cases hlooked with
    | stays _ _ _ hserves hheard => exact ⟨hserves, hheard c.io c.woken⟩

/-- What a poll leaves, whatever the command does. -/
theorem Job.heard_poll (programs : Programs κ τ) (id : Nat) {job : Job κ τ}
    (haccepted : job.isAccepted = true) (h : timers.Serves job.timer?) (sh : Shell) :
    (job.poll programs id sh timers).Heard id := by
  cases job with
  | settled result => exact absurd haccepted (by simp [isAccepted])
  | suspended io wait =>
    have harrives := (Course.heard (κ := κ) (τ := τ) id).poll_suspended programs wait timers [] []
      sh io h
    exact harrives.heard
  | accepted line =>
    cases hargs : line.args with
    | nil =>
      rw [poll, commence, hargs]
      exact .ends (.ok 0) rfl h
    | cons name args =>
      have harrives := (Course.heard (κ := κ) (τ := τ) id).commence_cons programs hargs sh timers
        (fun _ _ _ => h) (fun _ _ _ => h)
      exact harrives.heard

end Poll

/-! ### The invariant -/

/-- The tasks of a pool are attended to, when those in `ids` are still to be polled in a tick. -/
structure Attended {κ τ : Type} (pool : TaskPool (JobTask κ τ)) (k : Shared τ SessionState)
    (ids : List Nat) : Prop where
  /-- At most one task is a line that has been accepted. -/
  single : ∀ id task id' task', pool.task? id = some task → task.job.isAccepted = true →
    pool.task? id' = some task' → task'.job.isAccepted = true → id = id'
  /-- That task will be polled when the flag is raised. -/
  ready : ∀ id task, pool.task? id = some task → task.job.isAccepted = true →
    id ∈ ids ∨ id ∈ pool.ready ∨ k.state.shell.flag.waiter = some (.task id)
  /-- No timer is pending except one that a task waits for. -/
  owner : ∃ owner, k.timers.Serves owner ∧
    ∀ t, owner = some t → ∃ id task, pool.task? id = some task ∧ task.job.timer? = some t
  /-- Each task has a place for its result, and no other task has it. -/
  placed : ∀ id task, pool.task? id = some task → task.place < k.state.results.length
  apart : ∀ id task id' task', pool.task? id = some task → pool.task? id' = some task' →
    task.place = task'.place → id = id'

namespace Attended

variable {κ τ : Type} {pool : TaskPool (JobTask κ τ)} {k : Shared τ SessionState}
  {ids : List Nat}

/-- The timer of a line that has been accepted is the only one that can be pending. -/
theorem serves (h : Attended pool k ids) {id : Nat} {task : JobTask κ τ}
    (hid : pool.task? id = some task) (haccepted : task.job.isAccepted = true) :
    k.timers.Serves task.job.timer? := by
  obtain ⟨owner, hserves, howner⟩ := h.owner
  cases owner with
  | none => exact hserves.of_none _
  | some t =>
    obtain ⟨id', task', hid', ht⟩ := howner t rfl
    obtain rfl := h.single id task id' task' hid haccepted hid' (Job.isAccepted_of_timer? ht)
    obtain rfl : task = task' := Option.some.inj (hid.symm.trans hid')
    rw [ht]
    exact hserves

/-- A task is replaced or removed. -/
theorem update (h : Attended pool k ids) {id : Nat} {task : JobTask κ τ}
    (hid : pool.task? id = some task) {pool' : TaskPool (JobTask κ τ)}
    {slot : Option (JobTask κ τ)}
    (htask : ∀ other, pool'.task? other = if other = id then slot else pool.task? other)
    (hslot : ∀ new, slot = some new →
      new.place = task.place ∧ (new.job.isAccepted = true → task.job.isAccepted = true))
    {k' : Shared τ SessionState} (hlength : k'.state.results.length = k.state.results.length)
    {ids' : List Nat}
    (hready : ∀ other new, pool'.task? other = some new → new.job.isAccepted = true →
      (∃ old, pool.task? other = some old ∧ old.job.isAccepted = true) →
      other ∈ ids' ∨ other ∈ pool'.ready ∨ k'.state.shell.flag.waiter = some (.task other))
    (howner : ∃ owner, k'.timers.Serves owner ∧
      ∀ t, owner = some t → ∃ id task, pool'.task? id = some task ∧ task.job.timer? = some t) :
    Attended pool' k' ids' := by
  have hold : ∀ other new, pool'.task? other = some new → ∃ old, pool.task? other = some old ∧
      new.place = old.place ∧ (new.job.isAccepted = true → old.job.isAccepted = true) := by
    intro other new hother
    rw [htask] at hother
    by_cases hsame : other = id
    · rw [if_pos hsame] at hother
      obtain ⟨hplace, haccepted⟩ := hslot new hother
      exact ⟨task, hsame ▸ hid, hplace, haccepted⟩
    · rw [if_neg hsame] at hother
      exact ⟨new, hother, rfl, fun haccepted => haccepted⟩
  refine ⟨?_, ?_, howner, ?_, ?_⟩
  · intro other new other' new' hother haccepted hother' haccepted'
    obtain ⟨old, hwas, -, hkept⟩ := hold other new hother
    obtain ⟨old', hwas', -, hkept'⟩ := hold other' new' hother'
    exact h.single other old other' old' hwas (hkept haccepted) hwas' (hkept' haccepted')
  · intro other new hother haccepted
    obtain ⟨old, hwas, -, hkept⟩ := hold other new hother
    exact hready other new hother haccepted ⟨old, hwas, hkept haccepted⟩
  · intro other new hother
    obtain ⟨old, hwas, hplace, -⟩ := hold other new hother
    rw [hplace, hlength]
    exact h.placed other old hwas
  · intro other new other' new' hother hother' heq
    obtain ⟨old, hwas, hplace, -⟩ := hold other new hother
    obtain ⟨old', hwas', hplace', -⟩ := hold other' new' hother'
    exact h.apart other old other' old' hwas hwas' (hplace.symm.trans (heq.trans hplace'))

/-- What is shared changes, and tasks are woken.  Whom the flag would wake is not forgotten, unless
he is woken. -/
theorem change (h : Attended pool k ids) (woken : List Nat) {k' : Shared τ SessionState}
    (hwaiter : ∀ id, k.state.shell.flag.waiter = some (.task id) →
      k'.state.shell.flag.waiter = some (.task id) ∨ id ∈ woken)
    (htimers : ∀ owner, k.timers.Serves owner → k'.timers.Serves owner)
    (hlength : k'.state.results.length = k.state.results.length) :
    Attended (pool.wakeAll woken) k' ids := by
  have hsame : ∀ {id task}, (pool.wakeAll woken).task? id = some task → pool.task? id = some task :=
    fun hid => (pool.task?_wakeAll woken _).symm.trans hid
  refine ⟨?_, ?_, ?_, ?_, ?_⟩
  · intro id task id' task' hid haccepted hid' haccepted'
    exact h.single id task id' task' (hsame hid) haccepted (hsame hid') haccepted'
  · intro id task hid haccepted
    rw [TaskPool.mem_ready_wakeAll]
    rcases h.ready id task (hsame hid) haccepted with hmem | hready | hwaits
    · exact Or.inl hmem
    · exact Or.inr (Or.inl (Or.inl hready))
    · rcases hwaiter id hwaits with hkept | hwoken
      · exact Or.inr (Or.inr hkept)
      · exact Or.inr (Or.inl (Or.inr hwoken))
  · obtain ⟨owner, hserves, howner⟩ := h.owner
    refine ⟨owner, htimers owner hserves, fun t ht => ?_⟩
    obtain ⟨id, task, hid, htimer⟩ := howner t ht
    exact ⟨id, task, (pool.task?_wakeAll woken id).trans hid, htimer⟩
  · intro id task hid
    rw [hlength]
    exact h.placed id task (hsame hid)
  · intro id task id' task' hid hid'
    exact h.apart id task id' task' (hsame hid) (hsame hid')

/-- The tasks that are ready when a tick begins are those to be polled in it. -/
theorem begin (h : Attended pool k []) : Attended { pool with ready := [] } k pool.ready where
  single := h.single
  ready id task hid haccepted := by
    rcases h.ready id task hid haccepted with hmem | hready | hwaits
    · exact absurd hmem List.not_mem_nil
    · exact Or.inl hready
    · exact Or.inr (Or.inr hwaits)
  owner := h.owner
  placed := h.placed
  apart := h.apart

/-- A task that is added is ready. -/
theorem spawn (h : Attended pool k []) (hslotted : pool.Slotted) (given : Job κ τ × Shell)
    (hflag : given.2.flag = k.state.shell.flag)
    (hsingle : given.1.isAccepted = true →
      ∀ id task, pool.task? id = some task → task.job.isAccepted ≠ true) :
    Attended (pool.spawn { job := given.1, place := k.state.results.length }).2
      { k with state := { shell := given.2, results := k.state.results ++ [none] } } [] := by
  obtain ⟨hnone, htask⟩ :=
    TaskPool.task?_spawn hslotted { job := given.1, place := k.state.results.length }
  have hready :=
    TaskPool.mem_ready_spawn pool { job := given.1, place := k.state.results.length }
  revert hnone htask hready
  generalize pool.spawn { job := given.1, place := k.state.results.length } = spawned
  obtain ⟨id, pool'⟩ := spawned
  intro hnone htask hready
  -- A task of the new pool is the one that was added, or it was there before.
  have hold : ∀ {other new}, other ≠ id → pool'.task? other = some new →
      pool.task? other = some new := by
    intro other new hne hother
    rwa [htask, if_neg hne] at hother
  have hnew : ∀ {new}, pool'.task? id = some new →
      new = { job := given.1, place := k.state.results.length } := by
    intro new hid
    rw [htask, if_pos rfl] at hid
    exact (Option.some.inj hid).symm
  refine ⟨?_, ?_, ?_, ?_, ?_⟩
  · intro other new other' new' hother haccepted hother' haccepted'
    by_cases hsame : other = id <;> by_cases hsame' : other' = id
    · rw [hsame, hsame']
    · subst hsame
      rw [hnew hother] at haccepted
      exact absurd haccepted' (hsingle haccepted other' new' (hold hsame' hother'))
    · subst hsame'
      rw [hnew hother'] at haccepted'
      exact absurd haccepted (hsingle haccepted' other new (hold hsame hother))
    · exact h.single other new other' new' (hold hsame hother) haccepted (hold hsame' hother')
        haccepted'
  · intro other new hother haccepted
    by_cases hsame : other = id
    · exact Or.inr (Or.inl ((hready other).2 (Or.inr hsame)))
    · rcases h.ready other new (hold hsame hother) haccepted with hmem | hmem | hwaits
      · exact absurd hmem List.not_mem_nil
      · exact Or.inr (Or.inl ((hready other).2 (Or.inl hmem)))
      · exact Or.inr (Or.inr (hflag.symm ▸ hwaits))
  · obtain ⟨owner, hserves, howner⟩ := h.owner
    refine ⟨owner, hserves, fun t ht => ?_⟩
    obtain ⟨other, task, hother, htimer⟩ := howner t ht
    have hne : other ≠ id := by
      rintro rfl
      exact absurd (hnone.symm.trans hother) (by simp)
    exact ⟨other, task, by rw [htask, if_neg hne, hother], htimer⟩
  · intro other new hother
    show new.place < (k.state.results ++ [none]).length
    rw [List.length_append]
    by_cases hsame : other = id
    · subst hsame
      rw [hnew hother]
      exact Nat.lt_succ_self _
    · exact Nat.lt_succ_of_lt (h.placed other new (hold hsame hother))
  · intro other new other' new' hother hother' heq
    by_cases hsame : other = id <;> by_cases hsame' : other' = id
    · rw [hsame, hsame']
    · subst hsame
      rw [hnew hother] at heq
      exact absurd heq.symm (Nat.ne_of_lt (h.placed other' new' (hold hsame' hother')))
    · subst hsame'
      rw [hnew hother'] at heq
      exact absurd heq (Nat.ne_of_lt (h.placed other new (hold hsame hother)))
    · exact h.apart other new other' new' (hold hsame hother) (hold hsame' hother') heq

/-- A task whose result was known is removed. -/
theorem removeSettled (h : Attended pool k ids) {id : Nat} {task : JobTask κ τ}
    (hid : pool.task? id = some task) (hsettled : task.job.isAccepted ≠ true)
    {k' : Shared τ SessionState} (hshell : k'.state.shell = k.state.shell)
    (htimers : k'.timers = k.timers) (hlength : k'.state.results.length = k.state.results.length)
    {ids' : List Nat} (hids : ∀ other ∈ ids, other ≠ id → other ∈ ids') :
    Attended ((pool.leave id none).wakeAll []) k' ids' := by
  have hlt := TaskPool.lt_of_task? hid
  have hpolled := fun other => TaskPool.task?_polled (p := pool) hlt none [] other
  refine h.update hid hpolled (by simp) hlength ?_ ?_
  · intro other new hother hnew hold
    rw [hpolled] at hother
    by_cases hsame : other = id
    · rw [if_pos hsame] at hother
      exact absurd hother (by simp)
    · rw [if_neg hsame] at hother
      rcases h.ready other new hother hnew with hmem | hready | hwaits
      · exact Or.inl (hids other hmem hsame)
      · exact Or.inr (Or.inl hready)
      · exact Or.inr (Or.inr (hshell.symm ▸ hwaits))
  · obtain ⟨owner, hserves, howner⟩ := h.owner
    refine ⟨owner, htimers.symm ▸ hserves, fun t ht => ?_⟩
    obtain ⟨other, old, hother, htimer⟩ := howner t ht
    -- a timer is held by a future that was accepted, and this one was settled
    have hne : other ≠ id := by
      rintro rfl
      obtain rfl : task = old := Option.some.inj (hid.symm.trans hother)
      exact hsettled (Job.isAccepted_of_timer? htimer)
    exact ⟨other, old, ((hpolled other).trans (if_neg hne)).trans hother, htimer⟩

variable [Zero τ] [Add τ] [LT τ] [DecidableLT τ]

/-- The task of a poll in a tick is attended to after it. -/
theorem poll {id : Nat} (h : Attended pool k (id :: ids)) (programs : Programs κ τ)
    {task : JobTask κ τ} (hid : pool.task? id = some task) :
    Attended
      ((pool.leave id (task.poll programs id k).next).wakeAll (task.poll programs id k).woken)
      (task.poll programs id k).state ids := by
  have hlt := TaskPool.lt_of_task? hid
  have hpolled := fun slot woken other => TaskPool.task?_polled (p := pool) hlt slot woken other
  -- There is only one accepted future, so that nothing has to be shown of the other tasks if it is
  -- this one.
  by_cases haccepted : task.job.isAccepted = true
  · have honly : ∀ other, (∃ old, pool.task? other = some old ∧ old.job.isAccepted = true) →
        other = id := by
      rintro other ⟨old, hold, hwas⟩
      exact h.single other old id task hold hwas hid haccepted
    have hheard := Job.heard_poll programs id haccepted (h.serves hid haccepted) k.state.shell
    unfold JobTask.poll
    simp only
    rcases hheard with ⟨result, hprogress, hserves⟩ | ⟨io, wait, hprogress, hserves, hheard⟩
    · rw [hprogress]
      refine h.update hid (hpolled _ _) (by simp) List.length_set ?_ ⟨none, hserves, by simp⟩
      intro other new hother _ hold
      rw [hpolled, if_pos (honly other hold)] at hother
      exact absurd hother (by simp)
    · rw [hprogress]
      refine h.update hid (hpolled _ _) ?_ ?_ ?_ ⟨wait.timer?, hserves, fun t ht => ?_⟩
      · intro new hnew
        obtain rfl := Option.some.inj hnew
        exact ⟨rfl, fun _ => haccepted⟩
      · rfl
      · intro other new _ _ hold
        rw [honly other hold, TaskPool.mem_ready_wakeAll]
        rcases hheard with hwoken | hwaits
        · exact Or.inr (Or.inl (Or.inr hwoken))
        · exact Or.inr (Or.inr hwaits)
      · exact ⟨id, _, (hpolled _ _ id).trans (if_pos rfl), ht⟩
  · -- a future that was not accepted has its result already, and its task is removed
    obtain ⟨job, place⟩ := task
    cases job with
    | settled result =>
      refine h.removeSettled hid haccepted ?_ ?_ ?_ fun other hmem hne =>
        List.mem_of_ne_of_mem hne hmem
      · rfl
      · rfl
      · exact List.length_set
    | _ => exact absurd rfl haccepted

/-- The tasks of a tick are polled one after the other. -/
theorem pollAll (h : Attended pool k ids) (programs : Programs κ τ) :
    Attended (TaskPool.pollAll (JobTask.behavior programs) ids pool k).2.1
      (TaskPool.pollAll (JobTask.behavior programs) ids pool k).2.2 [] := by
  induction ids generalizing pool k with
  | nil => exact h
  | cons id ids ih =>
    cases hid : pool.task? id with
    | none =>
      rw [TaskPool.pollAll_of_none _ hid]
      refine ih ⟨h.single, fun other task hother haccepted => ?_, h.owner, h.placed, h.apart⟩
      have hne : other ≠ id := by
        rintro rfl
        exact absurd (hid.symm.trans hother) (by simp)
      rcases h.ready other task hother haccepted with hmem | hready
      · exact Or.inl (List.mem_of_ne_of_mem hne hmem)
      · exact Or.inr hready
    | some task =>
      rw [TaskPool.pollAll_of_task? _ hid]
      exact ih (h.poll programs hid)

theorem cancel (h : Attended pool k []) (programs : Programs κ τ) (id : Nat) :
    Attended (pool.cancel (JobTask.behavior programs) k id).2.1
      (pool.cancel (JobTask.behavior programs) k id).2.2 [] := by
  unfold TaskPool.cancel
  cases hid : pool.task? id with
  | none => exact h
  | some task =>
    have hlt := TaskPool.lt_of_task? hid
    have hpolled := fun other => TaskPool.task?_polled (p := pool) hlt none [] other
    show Attended ((pool.leave id none).wakeAll []) (task.drop k).1 []
    by_cases haccepted : task.job.isAccepted = true
    · have hserves := Job.serves_drop (h.serves hid haccepted) k.state.shell
      refine h.update hid hpolled (by simp) ?_ ?_ ⟨none, hserves, by simp⟩
      · rfl
      · rintro other new hother - ⟨old, hold, hwas⟩
        rw [hpolled, if_pos (h.single other old id task hold hwas hid haccepted)] at hother
        exact absurd hother (by simp)
    · obtain ⟨job, place⟩ := task
      cases job with
      | settled result => exact h.removeSettled hid haccepted rfl rfl rfl fun other hmem _ => hmem
      | _ => exact absurd rfl haccepted

end Attended

/-! ### Every session -/

namespace Session

variable {κ τ : Type} {s : Session κ τ} {outer : List (List (String × Option String))}

/-- The tasks of a session between two ticks. -/
def Attends (s : Session κ τ) : Prop :=
  Attended s.pool s.shared []

/-- Whom the flag would wake is woken when the flag is raised. -/
theorem mem_raise {sh : Shell} {id : Nat} (h : sh.flag.waiter = some (.task id)) :
    id ∈ sh.raise.2 := by
  show id ∈ Waker.tasks sh.flag.waiter.toList
  rw [h]
  exact List.mem_singleton_self id

theorem Attends.withWoken (h : s.Attends) (change : Shell × List Nat)
    (hwaiter : ∀ id, s.shell.flag.waiter = some (.task id) →
      change.1.flag.waiter = some (.task id) ∨ id ∈ change.2) :
    Attends (s.withWoken change) :=
  Attended.change h change.2 hwaiter (fun _ hserves => hserves) rfl

theorem Attends.raise (h : s.Attends) : Attends (s.withWoken s.shell.raise) :=
  h.withWoken s.shell.raise fun _ hid => Or.inr (mem_raise hid)

theorem Attends.trap (h : s.Attends) (signal : Signal) :
    Attends (s.withWoken (s.shell.trap signal)) := by
  unfold Shell.trap
  by_cases hcancels : signal = .interrupt ∧ s.shell.phase ≠ .idle
  · rw [if_pos hcancels]
    exact h.raise
  · rw [if_neg hcancels]
    exact h.withWoken _ fun id hid => Or.inl hid

/-- A line that is accepted by an idle shell becomes the only task that holds it. -/
theorem Attends.spawnJob (h : s.Attends) (hslotted : s.pool.Slotted)
    (hidle : s.shell.phase = .idle → ∀ id task, s.pool.task? id = some task →
      task.job.isAccepted ≠ true) (line : String) :
    Attends (s.spawnJob (s.shell.accept line)).2 := by
  refine Attended.spawn h hslotted (s.shell.accept line) ?_ ?_
  · obtain ⟨draws, phase, haccept⟩ := Shell.accept_snd (κ := κ) (τ := τ) s.shell line
    rw [haccept]
    rfl
  · unfold Shell.accept
    by_cases hphase : s.shell.phase = .idle
    · rw [if_pos hphase]
      exact fun _ => hidle hphase
    · rw [if_neg hphase]
      exact fun hsettled => absurd hsettled (by simp [Job.isAccepted])

/-- A session whose tasks are attended to, and that follows a tidy engine. -/
def Sound (outer : List (List (String × Option String))) (s : Session κ τ) : Prop :=
  s.Attends ∧ ∃ e : Engine κ τ, s.Follows e ∧ e.Tidy outer

/-- When the shell is idle no task is a line that has been accepted. -/
theorem Sound.idle (h : s.Sound outer) (hphase : s.shell.phase = .idle) (id : Nat)
    (task : JobTask κ τ) (hid : s.pool.task? id = some task) : task.job.isAccepted ≠ true := by
  obtain ⟨-, e, ⟨number, hshows⟩, htidy⟩ := h
  have hidle : e.shell.phase = .idle := hshows.shell ▸ hphase
  exact fun haccepted =>
    htidy.idle_iff.1 hidle (number id) ⟨task.job, hshows.live id task hid, haccepted⟩

theorem sound_new [Zero τ] {sh : Shell} (hphase : sh.phase = .idle) :
    (Session.new sh : Session κ τ).Sound sh.env.scopes := by
  refine ⟨?_, _, follows_new sh, Engine.tidy_start hphase rfl .empty⟩
  have hnone : ∀ id, (TaskPool.task? {} id : Option (JobTask κ τ)) = none := fun id => rfl
  refine ⟨?_, ?_, ⟨none, TimerQueue.serves_empty, by simp⟩, ?_, ?_⟩
  all_goals
    intro id task
    intros
    have hid : TaskPool.task? {} id = some task := by assumption
    rw [hnone] at hid
    exact absurd hid (by simp)

/-- The timers that are due are fired. -/
theorem Attends.wakeTimers [LT τ] [DecidableLT τ] (h : s.Attends) (now : τ) :
    Attends (s.wakeTimers now).2 := by
  have hfired := fun owner (hserves : s.shared.timers.Serves owner) => hserves.tick now
  unfold TimedPool.wakeTimers Attends
  revert hfired
  rcases s.shared.timers.tick now with ⟨wakers, timers⟩
  intro hfired
  exact Attended.change h (Waker.tasks wakers) (fun id hid => Or.inl hid) hfired rfl

variable [Zero τ] [Add τ] [LT τ] [DecidableLT τ]

theorem Attends.tick (h : s.Attends) (programs : Programs κ τ) :
    Attends (TimedPool.tick (JobTask.behavior programs) s).2 :=
  (h.wakeTimers s.clock).begin.pollAll programs

theorem Attends.move (h : s.Attends) (hslotted : s.pool.Slotted)
    (hidle : s.shell.phase = .idle → ∀ id task, s.pool.task? id = some task →
      task.job.isAccepted ≠ true)
    {programs : Programs κ τ} {after : Session κ τ} (hmove : Move programs s after) :
    after.Attends := by
  rcases hmove with line | _ | _ | clock | id | place | signal | _ | ⟨name, value⟩ |
    ⟨fs, host, draws, today, woken⟩
  · exact h.spawnJob hslotted hidle line
  · unfold Shell.start
    cases s.shell.motd with
    | some line => exact h.spawnJob hslotted hidle line
    | none =>
      exact Attended.spawn h hslotted (.settled (.ok 0), s.shell) rfl
        fun hsettled => absurd hsettled (by simp [Job.isAccepted])
  · exact h.tick programs
  · exact h
  · exact Attended.cancel h programs id
  · exact Attended.change h [] (fun _ hid => Or.inl hid) (fun _ hserves => hserves)
      List.length_set
  · exact h.trap signal
  · exact h.raise
  · exact h.withWoken (s.shell.setenv name value, []) fun _ hid => Or.inl hid
  · exact h.withWoken ({ s.shell with fs, host, draws, today }, woken) fun _ hid => Or.inl hid

/-- Every session is sound. -/
theorem Sound.moves (h : s.Sound outer) {programs : Programs κ τ} {after : Session κ τ}
    (hmoves : Moves programs s after) : after.Sound outer := by
  induction hmoves with
  | refl => exact h
  | @tail middle after _ hmove ih =>
    obtain ⟨hattends, e, hfollows, htidy⟩ := ih
    have hslotted : middle.pool.Slotted := hfollows.choose_spec.slotted
    obtain ⟨events, hlater⟩ := hfollows.move hmove
    have hidle := Sound.idle ⟨hattends, e, hfollows, htidy⟩
    exact ⟨hattends.move hslotted hidle hmove, _, hlater, htidy.run programs events⟩

end Session

end MountShell
