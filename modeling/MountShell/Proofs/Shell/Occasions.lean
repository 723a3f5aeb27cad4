import MountShell.Proofs.Shell.Boundaries

/-!
# Polling a command to its end

A computation is driven in the poll in which its command has begun and then on one occasion after
the other.  Here is what one poll comes to, told by the flag at its first boundary and by the step
that is run there: it cancels the command (`drive_of_raised`), ends it (`drive_of_done`), hands the
turn on (`drive_of_again`), or looks for a key (`drive_of_key`).  Polling a command that hands the
turn on is driving it anew on the next occasion (`run_of_again`).

Main statement: `run_ofPrograms`, the driver of programs does on all occasions what jobs do.
-/

namespace MountShell

variable {κ τ : Type}

namespace Driver

variable {D : Driver κ τ} {computation next : κ} {c after : Context} {id n : Nat}
  {timers : TimerQueue τ Waker}

/-! ### One poll -/

/-- Looks whether a wait is over, and if it is goes on with at most the given number of steps. -/
def lookOn (D : Driver κ τ) (id n : Nat) (wait : Wait κ τ) (c : Context)
    (timers : TimerQueue τ Waker) : List (Moment κ τ) × JobPoll κ τ :=
  match D.look id wait c.shell timers with
  | (.inl next, shell, after) =>
    let (moments, p) := D.drive id n next { c with shell } after
    (.look id wait c.shell timers :: moments, p)
  | (.inr wait', shell, after) =>
    ([.look id wait c.shell timers], Job.suspend wait' { c with shell } after)

theorem drive_of_raised (h : c.shell.flag.raised = true) :
    D.drive id (n + 1) computation c timers =
      ([.boundary computation c], Job.finish cancelledCode c.lowered timers) := by
  rw [drive, if_pos h]

theorem drive_of_done {code : Option Int} (h : c.shell.flag.raised = false)
    (hstep : D.step computation c = (.done code, after)) :
    D.drive id (n + 1) computation c timers =
      ([.boundary computation c, .step computation c],
        Job.finish (code.getD 0) after timers) := by
  rw [drive, h, if_neg Bool.false_ne_true, hstep]
  rfl

theorem drive_of_again (h : c.shell.flag.raised = false)
    (hstep : D.step computation c = (.again next, after)) :
    D.drive id (n + 1) computation c timers =
      ([.boundary computation c, .step computation c],
        Job.suspend (.turn next) { after with woken := after.woken ++ [id] } timers) := by
  rw [drive, h, if_neg Bool.false_ne_true, hstep]
  rfl

theorem drive_of_key {next : KeyAnswer → κ} (h : c.shell.flag.raised = false)
    (hstep : D.step computation c = (.key next, after)) :
    D.drive id (n + 1) computation c timers =
      (.boundary computation c :: .step computation c :: (D.lookOn id n (.key next) after timers).1,
        (D.lookOn id n (.key next) after timers).2) := by
  rw [drive, h, if_neg Bool.false_ne_true, hstep, lookOn]
  simp only [Step.result]
  rcases D.look id (.key next) after.shell timers with ⟨computation | wait, shell, later⟩ <;> rfl

/-- A boundary at which the flag is up. -/
theorem deeds_of_raised (programs : Programs κ τ) (computation : κ)
    (h : c.shell.flag.raised = true) :
    [Moment.boundary computation c].flatMap (Moment.deeds programs) = [.cancelled] := by
  rw [List.flatMap_singleton, Moment.deeds, if_pos h]

/-- A boundary at which the flag is down, with its step, and what is done after them. -/
theorem deeds_of_step (programs : Programs κ τ) (computation : κ)
    (h : c.shell.flag.raised = false) (moments : List (Moment κ τ)) :
    (.boundary computation c :: .step computation c :: moments).flatMap (Moment.deeds programs) =
      ((programs.step computation).requests c).map .asks ++
        moments.flatMap (Moment.deeds programs) := by
  rw [List.flatMap_cons, List.flatMap_cons, Moment.deeds, h, if_neg Bool.false_ne_true,
    List.nil_append]
  rfl

/-- A command that waits looks at its wait first. -/
theorem poll_eq_lookOn (D : Driver κ τ) (id : Nat) (io : Io) (wait : Wait κ τ) (sh : Shell)
    (timers : TimerQueue τ Waker) : ∃ n, D.poll id io wait sh timers =
      D.lookOn id n wait { shell := sh, io } timers ∧
      ∀ next shell later, D.look id wait sh timers = (.inl next, shell, later) →
        n = D.patience next shell + 1 := by
  rw [poll]
  rcases hlook : D.look id wait sh timers with ⟨next | wait', shell, later⟩
  · refine ⟨D.patience next shell + 1, ?_, ?_⟩
    · rw [lookOn, hlook]
      rfl
    · rintro next' shell' later' ⟨⟩
      rfl
  · refine ⟨0, ?_, fun _ _ _ h => absurd (Prod.mk.inj h).1 Sum.inr_ne_inl⟩
    rw [lookOn, hlook]

/-! ### One poll after the other -/

/-- A command that has ended is not polled any more. -/
theorem follow_of_ends {p : JobPoll κ τ} {result : Except ShellError Int}
    (h : p.progress = .ends result) (occasions : List (Occasion τ)) :
    D.follow occasions p = ([], p) := by
  cases occasions with
  | nil => rfl
  | cons occasion rest => rw [follow, h]

/-- A command that waits is polled on the next occasion. -/
theorem follow_of_waits {p : JobPoll κ τ} {io : Io} {wait : Wait κ τ}
    (h : p.progress = .waits (.suspended io wait)) (occasion : Occasion τ)
    (rest : List (Occasion τ)) :
    let polled := D.poll occasion.id io wait occasion.shell occasion.timers
    D.follow (occasion :: rest) p =
      (polled.1 ++ (D.follow rest polled.2).1, (D.follow rest polled.2).2) := by
  rw [follow, h]

theorem run_nil (D : Driver κ τ) (id : Nat) (computation : κ) (c : Context)
    (timers : TimerQueue τ Waker) :
    D.run id computation c timers [] = D.goOn id computation c timers := by
  rw [run]
  simp only [follow, List.append_nil]

theorem run_of_ends {occasions : List (Occasion τ)} {moments : List (Moment κ τ)}
    {p : JobPoll κ τ} {result : Except ShellError Int}
    (h : D.goOn id computation c timers = (moments, p)) (hends : p.progress = .ends result) :
    D.run id computation c timers occasions = (moments, p) := by
  rw [run, h]
  simp only [follow_of_ends hends, List.append_nil]

/-- A command that hands the turn on is driven anew on the next occasion. -/
theorem run_of_again {occasion : Occasion τ} {rest : List (Occasion τ)}
    (h : c.shell.flag.raised = false) (hstep : D.step computation c = (.again next, after))
    (hlook : D.look occasion.id (.turn next) occasion.shell occasion.timers =
      (.inl next, occasion.shell, occasion.timers)) :
    let later := D.run occasion.id next { shell := occasion.shell, io := after.io }
      occasion.timers rest
    D.run id computation c timers (occasion :: rest) =
      (.boundary computation c :: .step computation c ::
        .look occasion.id (.turn next) occasion.shell occasion.timers :: later.1, later.2) := by
  intro later
  rw [run, goOn, drive_of_again h hstep]
  simp only [follow, Job.suspend, poll, hlook]
  rfl

end Driver

/-! ### Jobs -/

namespace Job

variable [Zero τ] [Add τ] [LT τ] [DecidableLT τ]

/-- Polls a job on one occasion after the other, as long as it waits. -/
def follow (programs : Programs κ τ) : List (Driver.Occasion τ) → JobPoll κ τ → JobPoll κ τ
  | [], p => p
  | occasion :: rest, p =>
    match p.progress with
    | .waits job => follow programs rest
        (poll programs occasion.id job occasion.shell occasion.timers)
    | .ends _ => p

/-- What a job does when it is polled on one occasion after the other. -/
def followDeeds (programs : Programs κ τ) : List (Driver.Occasion τ) → JobPoll κ τ → List Deed
  | [], _ => []
  | occasion :: rest, p =>
    match p.progress with
    | .waits job =>
      pollDeeds programs occasion.id job occasion.shell occasion.timers ++
        followDeeds programs rest (poll programs occasion.id job occasion.shell occasion.timers)
    | .ends _ => []

end Job

namespace Driver

variable [Zero τ] [Add τ] [LT τ] [DecidableLT τ]

theorem follow_ofPrograms {programs : Programs κ τ} {first : κ} {start : Context}
    {past : List (Moment κ τ)} {p : JobPoll κ τ}
    (h : (ofPrograms programs).Arrives first start past p) (occasions : List (Occasion τ)) :
    ((ofPrograms programs).follow occasions p).2 = Job.follow programs occasions p ∧
      ((ofPrograms programs).follow occasions p).1.flatMap (Moment.deeds programs) =
        Job.followDeeds programs occasions p := by
  induction occasions generalizing past p with
  | nil => exact ⟨rfl, rfl⟩
  | cons occasion rest ih =>
    cases h with
    | ended code c timers hended => exact ⟨rfl, rfl⟩
    | waits wait c timers hwaits =>
      have hpolled := hwaits.poll occasion.id occasion.shell occasion.timers
      obtain ⟨hpoll, hdeeds⟩ :=
        poll_ofPrograms programs occasion.id c.io wait occasion.shell occasion.timers
      obtain ⟨hlater, hmore⟩ := ih hpolled
      simp only [follow, Job.follow, Job.followDeeds, Job.suspend, List.flatMap_append]
      rw [hlater, hmore, hdeeds, hpoll]
      exact ⟨rfl, rfl⟩

/-- The driver of programs drives a computation on all occasions as a job is polled. -/
theorem run_ofPrograms (programs : Programs κ τ) (id : Nat) (computation : κ) (c : Context)
    (timers : TimerQueue τ Waker) (occasions : List (Occasion τ)) :
    let driven := (ofPrograms programs).run id computation c timers occasions
    let begun := Job.goOn programs id computation c timers
    driven.2 = Job.follow programs occasions begun ∧
      driven.1.flatMap (Moment.deeds programs) =
        Job.goOnDeeds programs id computation c timers ++
          Job.followDeeds programs occasions begun := by
  intro driven begun
  obtain ⟨hbegun, hdeeds⟩ := goOn_ofPrograms programs id computation c timers
  have harrives := (ofPrograms programs).arrives_run id computation c timers []
  obtain ⟨hlater, hmore⟩ := follow_ofPrograms harrives occasions
  have hfirst : ((ofPrograms programs).run id computation c timers []).2 = begun := hbegun
  rw [hfirst] at hlater hmore
  have hrun : driven = (((ofPrograms programs).goOn id computation c timers).1 ++
      ((ofPrograms programs).follow occasions begun).1,
        ((ofPrograms programs).follow occasions begun).2) := by
    rw [← hfirst]
    rfl
  rw [hrun, List.flatMap_append, hdeeds, hmore]
  exact ⟨hlater, rfl⟩

end Driver

end MountShell
