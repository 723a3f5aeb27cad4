import MountShell.Proofs.Shell.Deeds

/-!
# The boundaries between steps

A computation that is driven goes from boundary to boundary.  At each of them the flag is looked at:
if it is up, the command is cancelled; if it is down, a step is taken, and what the step awaits is
looked at until it has settled.

This has nothing to do with what steps do and what they may await.  So it is said of any driver
(`Driver`), whose steps and whose looks may do anything to the shell and may raise its flag.
Between two polls anything may become of the shell as well (`Driver.Occasion`).  A driver keeps a
record of the boundaries that it reaches, the steps that it runs and the looks that it takes
(`Driver.Moment`).  The driver of programs drives computations as jobs do (`drive_ofPrograms`).

Each moment leads from one stage of a computation to the next (`Driver.History`), and so do whole
polls (`History.drive`) and all the polls of a command (`Arrives.follow`).

Main statement: `run_exact`, the boundaries, the steps and the result of a computation.
-/

namespace MountShell

variable {κ τ : Type}

/-- What a step comes to: an exit code, or what it awaits. -/
def Step.result : Step κ τ → Int ⊕ Wait κ τ
  | again next => .inr (.turn next)
  | sleep delay next => .inr (.sleep { delay } next)
  | key next => .inr (.key next)
  | done code => .inl (code.getD 0)

theorem Step.result_eq_inl_iff {step : Step κ τ} {code : Int} :
    step.result = .inl code ↔ ∃ given, step = .done given ∧ code = given.getD 0 := by
  cases step with
  | done given =>
    refine ⟨fun h => ⟨given, rfl, (Sum.inl.inj h).symm⟩, ?_⟩
    rintro ⟨_, ⟨⟩, rfl⟩
    rfl
  | _ =>
    refine ⟨fun h => absurd h Sum.inr_ne_inl, ?_⟩
    rintro ⟨_, ⟨⟩, _⟩

theorem getElem?_concat_iff {α : Type} {l : List α} {a b : α} {k : Nat} :
    (l ++ [a])[k]? = some b ↔ l[k]? = some b ∨ (k = l.length ∧ a = b) := by
  rw [List.getElem?_append, List.getElem?_singleton]
  by_cases h : k < l.length
  · simp [h, Nat.ne_of_lt h]
  · rw [if_neg h, List.getElem?_eq_none (Nat.not_lt.1 h)]
    by_cases hk : k = l.length
    · simp [hk]
    · have hne : k - l.length ≠ 0 := by omega
      simp [hk, hne]

/-- The context after a raised flag has been lowered. -/
def Context.lowered (c : Context) : Context :=
  { c with shell := { c.shell with flag := c.shell.flag.take.1 } }

/-- What drives computations: what a step does, how it is found out whether a wait is over, and how
many steps a poll may take after the first. -/
structure Driver (κ τ : Type) where
  step : κ → Context → Step κ τ × Context
  /-- Looks at a wait on behalf of the task in the given slot. -/
  look : Nat → Wait κ τ → Shell → TimerQueue τ Waker → (κ ⊕ Wait κ τ) × Shell × TimerQueue τ Waker
  patience : κ → Shell → Nat

namespace Driver

/-- Something that a driver does. -/
inductive Moment (κ τ : Type) where
  /-- A boundary is reached, where the flag is looked at. -/
  | boundary (computation : κ) (c : Context)
  /-- A step is run. -/
  | step (computation : κ) (c : Context)
  /-- It is looked whether a wait is over. -/
  | look (id : Nat) (wait : Wait κ τ) (sh : Shell) (timers : TimerQueue τ Waker)

/-- What drives the computations of programs. -/
def ofPrograms [Zero τ] [Add τ] [LT τ] [DecidableLT τ] (programs : Programs κ τ) : Driver κ τ where
  step computation := (programs.step computation).run
  look := Job.lookAt
  patience computation sh := sh.host.keysAhead + programs.patience computation

/-- Drives a computation until it waits or ends, taking at most the given number of steps. -/
def drive (D : Driver κ τ) (id : Nat) :
    Nat → κ → Context → TimerQueue τ Waker → List (Moment κ τ) × JobPoll κ τ
  | 0, computation, c, timers =>
    ([], Job.suspend (.turn computation) { c with woken := c.woken ++ [id] } timers)
  | n + 1, computation, c, timers =>
    if c.shell.flag.raised then
      ([.boundary computation c], Job.finish cancelledCode c.lowered timers)
    else
      let (step, after) := D.step computation c
      let taken := [.boundary computation c, .step computation c]
      match step.result with
      | .inl code => (taken, Job.finish code after timers)
      | .inr (.turn next) =>
        (taken, Job.suspend (.turn next) { after with woken := after.woken ++ [id] } timers)
      | .inr wait =>
        let looked := taken ++ [.look id wait after.shell timers]
        match D.look id wait after.shell timers with
        | (.inl next, shell, timers) =>
          let (moments, p) := D.drive id n next { after with shell } timers
          (looked ++ moments, p)
        | (.inr wait, shell, timers) => (looked, Job.suspend wait { after with shell } timers)

/-- Drives a computation as far as one poll may take it. -/
def goOn (D : Driver κ τ) (id : Nat) (computation : κ) (c : Context) (timers : TimerQueue τ Waker) :
    List (Moment κ τ) × JobPoll κ τ :=
  D.drive id (D.patience computation c.shell + 1) computation c timers

/-- Polls a command that waits. -/
def poll (D : Driver κ τ) (id : Nat) (io : Io) (wait : Wait κ τ) (sh : Shell)
    (timers : TimerQueue τ Waker) : List (Moment κ τ) × JobPoll κ τ :=
  match D.look id wait sh timers with
  | (.inl next, shell, after) =>
    let (moments, p) := D.goOn id next { shell, io } after
    (.look id wait sh timers :: moments, p)
  | (.inr wait', shell, after) =>
    ([.look id wait sh timers], Job.suspend wait' { shell, io } after)

/-- What a command is polled with: the slot of its task, and what has become of the shell and the
timers in the meantime. -/
structure Occasion (τ : Type) where
  id : Nat
  shell : Shell
  timers : TimerQueue τ Waker

/-- Polls a command on one occasion after the other, as long as it waits. -/
def follow (D : Driver κ τ) :
    List (Occasion τ) → JobPoll κ τ → List (Moment κ τ) × JobPoll κ τ
  | [], p => ([], p)
  | occasion :: rest, p =>
    match p.progress with
    | .waits (.suspended io wait) =>
      let (polled, p) := D.poll occasion.id io wait occasion.shell occasion.timers
      let (moments, p) := D.follow rest p
      (polled ++ moments, p)
    | _ => ([], p)

/-- Drives a computation in the poll in which its command has begun, and in those that follow. -/
def run (D : Driver κ τ) (id : Nat) (computation : κ) (c : Context) (timers : TimerQueue τ Waker)
    (occasions : List (Occasion τ)) : List (Moment κ τ) × JobPoll κ τ :=
  let (begun, p) := D.goOn id computation c timers
  let (moments, p) := D.follow occasions p
  (begun ++ moments, p)

/-! ### The driver of programs -/

/-- The deeds of a moment. -/
def Moment.deeds (programs : Programs κ τ) : Moment κ τ → List Deed
  | boundary _ c => if c.shell.flag.raised then [.cancelled] else []
  | step computation c => ((programs.step computation).requests c).map .asks
  | look _ _ _ _ => []

theorem boundaryDeeds_eq (programs : Programs κ τ) (computation : κ) (c : Context) :
    Job.boundaryDeeds programs computation c =
      if c.shell.flag.raised then [.cancelled]
      else ((programs.step computation).requests c).map .asks := by
  unfold Job.boundaryDeeds
  by_cases h : c.shell.flag.raised = true
  · rw [if_pos h]
    exact if_pos h
  · have hsame : c.shell.flag.take.1 = c.shell.flag :=
      SignalFlag.take_of_not_raised (Bool.eq_false_iff.2 h)
    rw [hsame, if_neg h]
    exact if_neg h

section Programs

variable [Zero τ] [Add τ] [LT τ] [DecidableLT τ]

/-- At a boundary the flag is looked at, and where it is down a step is run. -/
theorem boundary_eq (programs : Programs κ τ) (computation : κ) (c : Context) :
    Job.boundary programs computation c =
      if c.shell.flag.raised then (.inl cancelledCode, c.lowered)
      else
        let (step, after) := (ofPrograms programs).step computation c
        (step.result, after) := by
  unfold Job.boundary
  by_cases h : c.shell.flag.raised = true
  · rw [if_pos h]
    exact if_pos h
  · have hsame : c.shell.flag.take.1 = c.shell.flag :=
      SignalFlag.take_of_not_raised (Bool.eq_false_iff.2 h)
    simp only [hsame]
    rw [if_neg h]
    refine (if_neg h).trans ?_
    simp only [ofPrograms]
    rcases (programs.step computation).run c with ⟨_ | _ | _ | _, after⟩ <;> rfl

/-- The driver of programs drives a computation as a job does. -/
theorem drive_ofPrograms (programs : Programs κ τ) (id n : Nat) (computation : κ) (c : Context)
    (timers : TimerQueue τ Waker) :
    ((ofPrograms programs).drive id n computation c timers).2 =
        Job.drive programs id n computation c timers ∧
      ((ofPrograms programs).drive id n computation c timers).1.flatMap (Moment.deeds programs) =
        Job.driveDeeds programs id n computation c timers := by
  induction n generalizing computation c timers with
  | zero => exact ⟨rfl, rfl⟩
  | succ n ih =>
    rw [drive, Job.drive, Job.driveDeeds, boundary_eq, boundaryDeeds_eq]
    by_cases h : c.shell.flag.raised = true
    · rw [if_pos h, if_pos h, if_pos h]
      refine ⟨rfl, ?_⟩
      simp only [List.flatMap_cons, List.flatMap_nil, Moment.deeds, if_pos h, List.append_nil]
    · rw [if_neg h, if_neg h, if_neg h]
      have htaken : ∀ moments : List (Moment κ τ),
          (.boundary computation c :: .step computation c :: moments).flatMap
              (Moment.deeds programs) =
            ((programs.step computation).requests c).map .asks ++
              moments.flatMap (Moment.deeds programs) := by
        intro moments
        rw [List.flatMap_cons, List.flatMap_cons, Moment.deeds, if_neg h, List.nil_append]
        rfl
      rcases (ofPrograms programs).step computation c with ⟨step, after⟩
      simp only
      rcases step.result with code | wait
      · exact ⟨rfl, htaken []⟩
      · cases wait with
        | turn next => exact ⟨rfl, htaken []⟩
        | _ =>
          have hlook : (ofPrograms programs).look id = Job.lookAt id := rfl
          simp only [hlook]
          rcases Job.lookAt id _ after.shell timers with ⟨next | wait', shell, timers'⟩
          · obtain ⟨hpoll, hdeeds⟩ := ih next { after with shell } timers'
            exact ⟨hpoll, (htaken _).trans (congrArg _ hdeeds)⟩
          · exact ⟨rfl, htaken _⟩

theorem goOn_ofPrograms (programs : Programs κ τ) (id : Nat) (computation : κ) (c : Context)
    (timers : TimerQueue τ Waker) :
    let driven := (ofPrograms programs).goOn id computation c timers
    driven.2 = Job.goOn programs id computation c timers ∧
      driven.1.flatMap (Moment.deeds programs) =
        Job.goOnDeeds programs id computation c timers :=
  drive_ofPrograms programs id _ computation c timers

theorem poll_ofPrograms (programs : Programs κ τ) (id : Nat) (io : Io) (wait : Wait κ τ)
    (sh : Shell) (timers : TimerQueue τ Waker) :
    let polled := (ofPrograms programs).poll id io wait sh timers
    polled.2 = Job.poll programs id (.suspended io wait) sh timers ∧
      polled.1.flatMap (Moment.deeds programs) =
        Job.pollDeeds programs id (.suspended io wait) sh timers := by
  have hlook : (ofPrograms programs).look id wait sh timers = Job.lookAt id wait sh timers := rfl
  rw [poll, Job.poll, Job.pollDeeds, hlook]
  rcases Job.lookAt id wait sh timers with ⟨next | wait', shell, after⟩
  · exact goOn_ofPrograms programs id next { shell, io } after
  · exact ⟨rfl, rfl⟩

end Programs

/-! ### Stages -/

/-- How it stands with a computation. -/
inductive Stage (κ τ : Type) where
  /-- The next boundary is about to be reached. -/
  | ready (computation : κ) (sh : Shell) (io : Io)
  /-- What the last step awaits has not settled. -/
  | awaiting (wait : Wait κ τ) (io : Io)
  /-- The command has ended with a code. -/
  | ended (code : Int) (c : Context)

/-- How it stands after a step. -/
def Stage.ofStep : Step κ τ × Context → Stage κ τ
  | (step, c) =>
    match step.result with
    | .inl code => .ended code c
    | .inr wait => .awaiting wait c.io

/-- How it stands after a look. -/
def Stage.ofLook (io : Io) : (κ ⊕ Wait κ τ) × Shell × TimerQueue τ Waker → Stage κ τ
  | (.inl next, sh, _) => .ready next sh io
  | (.inr wait, _, _) => .awaiting wait io

variable {D : Driver κ τ} {first : κ} {start : Context} {moments past : List (Moment κ τ)}
  {p : JobPoll κ τ} {computation : κ} {c : Context}

/-- The moments of a computation, and how it stands after them. -/
inductive History (D : Driver κ τ) (first : κ) (start : Context) :
    List (Moment κ τ) → Stage κ τ → Prop
  | start : History D first start [] (.ready first start.shell start.io)
  | cancel {past : List (Moment κ τ)} {computation : κ} {c : Context} :
      History D first start past (.ready computation c.shell c.io) →
      c.shell.flag.raised = true →
      History D first start (past ++ [.boundary computation c]) (.ended cancelledCode c.lowered)
  | step {past : List (Moment κ τ)} {computation : κ} {c : Context} :
      History D first start past (.ready computation c.shell c.io) →
      c.shell.flag.raised = false →
      History D first start (past ++ [.boundary computation c, .step computation c])
        (.ofStep (D.step computation c))
  | look {past : List (Moment κ τ)} {wait : Wait κ τ} {io : Io} (id : Nat) (sh : Shell)
      (timers : TimerQueue τ Waker) : History D first start past (.awaiting wait io) →
      History D first start (past ++ [.look id wait sh timers])
        (.ofLook io (D.look id wait sh timers))
  /-- The others get a turn before the boundary. -/
  | pause {past : List (Moment κ τ)} {computation : κ} {sh : Shell} {io : Io} : past ≠ [] →
      History D first start past (.ready computation sh io) →
      History D first start past (.awaiting (.turn computation) io)

/-- A poll has come to this after all the moments. -/
inductive Arrives (D : Driver κ τ) (first : κ) (start : Context) (moments : List (Moment κ τ)) :
    JobPoll κ τ → Prop
  | ended (code : Int) (c : Context) (timers : TimerQueue τ Waker) :
      History D first start moments (.ended code c) →
      Arrives D first start moments (Job.finish code c timers)
  | waits (wait : Wait κ τ) (c : Context) (timers : TimerQueue τ Waker) :
      History D first start moments (.awaiting wait c.io) →
      Arrives D first start moments (Job.suspend wait c timers)

/-- A computation that is driven. -/
theorem History.drive (id n : Nat) (timers : TimerQueue τ Waker)
    (h : D.History first start past (.ready computation c.shell c.io)) (hn : past = [] → n ≠ 0) :
    D.Arrives first start (past ++ (D.drive id n computation c timers).1)
      (D.drive id n computation c timers).2 := by
  induction n generalizing past computation c timers with
  | zero =>
    rw [Driver.drive, List.append_nil]
    exact .waits _ _ _ (h.pause fun hpast => hn hpast rfl)
  | succ n ih =>
    rw [Driver.drive]
    by_cases hflag : c.shell.flag.raised = true
    · rw [if_pos hflag]
      exact .ended _ _ _ (h.cancel hflag)
    · rw [if_neg hflag]
      have hstep := h.step (Bool.eq_false_iff.2 hflag)
      revert hstep
      rcases D.step computation c with ⟨step, after⟩
      simp only [Stage.ofStep]
      rcases step.result with code | wait
      · exact .ended _ _ _
      · intro hwaits
        cases wait with
        | turn next => exact .waits _ { after with woken := after.woken ++ [id] } _ hwaits
        | _ =>
          have hlook := hwaits.look id after.shell timers
          revert hlook
          rw [List.append_assoc]
          simp only
          rcases D.look id _ after.shell timers with ⟨next | wait', shell, timers'⟩
          · intro hready
            have hdriven := ih (c := { after with shell }) timers' hready (by simp)
            rwa [List.append_assoc] at hdriven
          · exact .waits _ { after with shell } _

/-- A command that waits is polled. -/
theorem History.poll {io : Io} {wait : Wait κ τ} (id : Nat) (sh : Shell)
    (timers : TimerQueue τ Waker) (h : D.History first start past (.awaiting wait io)) :
    D.Arrives first start (past ++ (D.poll id io wait sh timers).1)
      (D.poll id io wait sh timers).2 := by
  have hlook := h.look id sh timers
  rw [Driver.poll]
  revert hlook
  rcases D.look id wait sh timers with ⟨next | wait', shell, after⟩
  · intro hready
    have hdriven := History.drive (c := { shell, io }) id (D.patience next shell + 1) after hready
      (by simp)
    rwa [List.append_assoc] at hdriven
  · exact .waits _ { shell, io } _

/-- A command is polled any number of times. -/
theorem Arrives.follow (h : D.Arrives first start past p) (occasions : List (Occasion τ)) :
    D.Arrives first start (past ++ (D.follow occasions p).1) (D.follow occasions p).2 := by
  induction occasions generalizing past p with
  | nil =>
    rw [Driver.follow, List.append_nil]
    exact h
  | cons occasion rest ih =>
    rw [Driver.follow]
    cases h with
    | ended code c timers hended =>
      simp only [Job.finish, List.append_nil]
      exact .ended code c timers hended
    | waits wait c timers hwaits =>
      have hpolled := ih (hwaits.poll occasion.id occasion.shell occasion.timers)
      rw [List.append_assoc] at hpolled
      exact hpolled

/-- The moments of a computation. -/
theorem arrives_run (D : Driver κ τ) (id : Nat) (computation : κ) (c : Context)
    (timers : TimerQueue τ Waker) (occasions : List (Occasion τ)) :
    D.Arrives computation c (D.run id computation c timers occasions).1
      (D.run id computation c timers occasions).2 :=
  (History.drive id _ timers .start fun _ => Nat.succ_ne_zero _).follow occasions

/-! ### What a history holds -/

/-- When a boundary was reached, the computation was ready for it. -/
theorem History.reached {stage : Stage κ τ} (h : D.History first start moments stage)
    {before : List (Moment κ τ)} (hbefore : before ++ [.boundary computation c] <+: moments) :
    D.History first start before (.ready computation c.shell c.io) := by
  induction h with
  | start => exact absurd (List.prefix_nil.1 hbefore) (by simp)
  | cancel hready _ ih =>
    obtain hsame | hpast := List.prefix_concat_iff.1 hbefore
    · obtain ⟨rfl, ⟨⟩⟩ := List.append_inj' hsame rfl
      exact hready
    · exact ih hpast
  | @step past reached b hready _ ih =>
    rw [List.append_cons past] at hbefore
    obtain hsame | hpast := List.prefix_concat_iff.1 hbefore
    · exact absurd (List.append_inj' hsame rfl).2 (by simp)
    · obtain hsame | hpast := List.prefix_concat_iff.1 hpast
      · obtain ⟨rfl, ⟨⟩⟩ := List.append_inj' hsame rfl
        exact hready
      · exact ih hpast
  | look id sh timers _ ih =>
    obtain hsame | hpast := List.prefix_concat_iff.1 hbefore
    · exact absurd (List.append_inj' hsame rfl).2 (by simp)
    · exact ih hpast
  | pause _ _ ih => exact ih hbefore

/-- What the step before has awaited is looked at again and again, and this is how it stands
then. -/
inductive Looks (D : Driver κ τ) (wait : Wait κ τ) (io : Io) :
    List (Moment κ τ) → Stage κ τ → Prop
  | none : Looks D wait io [] (.awaiting wait io)
  | look {looks : List (Moment κ τ)} {rest : Wait κ τ} {io' : Io} (id : Nat) (sh : Shell)
      (timers : TimerQueue τ Waker) : Looks D wait io looks (.awaiting rest io') →
      Looks D wait io (looks ++ [.look id rest sh timers])
        (.ofLook io' (D.look id rest sh timers))
  | pause {looks : List (Moment κ τ)} {computation : κ} {sh : Shell} {io' : Io} :
      Looks D wait io looks (.ready computation sh io') →
      Looks D wait io looks (.awaiting (.turn computation) io')

/-- Nothing has been done yet, or a step has been run last, and what it awaits has been looked
at. -/
def Comes (D : Driver κ τ) (first : κ) (start : Context) (moments : List (Moment κ τ))
    (stage : Stage κ τ) : Prop :=
  (moments = [] ∧ stage = .ready first start.shell start.io) ∨
    ∃ earlier computation c wait looks, moments = earlier ++ .step computation c :: looks ∧
      (D.step computation c).1.result = .inr wait ∧
      D.Looks wait (D.step computation c).2.io looks stage

theorem History.comes {stage : Stage κ τ} (h : D.History first start moments stage)
    (hstage : ∀ code c, stage ≠ .ended code c) : D.Comes first start moments stage := by
  induction h with
  | start => exact .inl ⟨rfl, rfl⟩
  | cancel _ _ _ => exact absurd rfl (hstage _ _)
  | @step past computation c _ _ _ =>
    cases hresult : (D.step computation c).1.result with
    | inl code =>
      refine absurd ?_ (hstage code (D.step computation c).2)
      simp only [Stage.ofStep, hresult]
    | inr wait =>
      have hstage : Stage.ofStep (D.step computation c) =
          .awaiting wait (D.step computation c).2.io := by
        simp only [Stage.ofStep, hresult]
      rw [hstage]
      exact .inr ⟨past ++ [.boundary computation c], computation, c, wait, [],
        List.append_cons .., hresult, .none⟩
  | look id sh timers _ ih =>
    obtain ⟨-, heq⟩ | ⟨earlier, x, b, wait, looks, rfl, hresult, hlooks⟩ := ih (by simp)
    · exact absurd heq (by simp)
    · exact .inr ⟨earlier, x, b, wait, _, List.append_assoc .., hresult, hlooks.look id sh timers⟩
  | pause hpast _ ih =>
    obtain ⟨hnil, -⟩ | ⟨earlier, x, b, wait, looks, rfl, hresult, hlooks⟩ := ih (by simp)
    · exact absurd hnil hpast
    · exact .inr ⟨earlier, x, b, wait, looks, rfl, hresult, hlooks.pause⟩

/-- The computation and the context of a boundary. -/
def Moment.boundary? : Moment κ τ → Option (κ × Context)
  | boundary computation c => some (computation, c)
  | _ => none

/-- The computation and the context of a step. -/
def Moment.step? : Moment κ τ → Option (κ × Context)
  | step computation c => some (computation, c)
  | _ => none

/-- The boundaries that are reached, of which the first has the number 0. -/
def boundaries (moments : List (Moment κ τ)) : List (κ × Context) :=
  moments.filterMap Moment.boundary?

/-- The steps that are run, of which the first has the number 0. -/
def steps (moments : List (Moment κ τ)) : List (κ × Context) :=
  moments.filterMap Moment.step?

@[simp]
theorem boundaries_append (moments more : List (Moment κ τ)) :
    boundaries (moments ++ more) = boundaries moments ++ boundaries more :=
  List.filterMap_append

@[simp]
theorem steps_append (moments more : List (Moment κ τ)) :
    steps (moments ++ more) = steps moments ++ steps more :=
  List.filterMap_append

/-- The flag is down at a boundary, and the step that is run there awaits something. -/
def Passes (D : Driver κ τ) (boundary : κ × Context) : Prop :=
  boundary.2.shell.flag.raised = false ∧
    ∃ wait, (D.step boundary.1 boundary.2).1.result = .inr wait

/-- The boundaries and the steps before a stage.  All boundaries have been passed, except the last
one if the command has ended. -/
def Tally (D : Driver κ τ) (moments : List (Moment κ τ)) : Stage κ τ → Prop
  | .ended code c => ∃ passed last, (∀ boundary ∈ passed, D.Passes boundary) ∧
      boundaries moments = passed ++ [last] ∧
      ((last.2.shell.flag.raised = true ∧ steps moments = passed ∧
          code = cancelledCode ∧ c = last.2.lowered) ∨
        (last.2.shell.flag.raised = false ∧ steps moments = passed ++ [last] ∧
          (D.step last.1 last.2).1.result = .inl code ∧ c = (D.step last.1 last.2).2))
  | _ => (∀ boundary ∈ steps moments, D.Passes boundary) ∧ boundaries moments = steps moments

theorem Tally.ofStep (hflag : c.shell.flag.raised = false)
    (h : (∀ boundary ∈ steps past, D.Passes boundary) ∧ boundaries past = steps past) :
    D.Tally (past ++ [.boundary computation c, .step computation c])
      (.ofStep (D.step computation c)) := by
  obtain ⟨hpasses, hboundaries⟩ := h
  have hreached : boundaries (past ++ [.boundary computation c, .step computation c]) =
      steps past ++ [(computation, c)] := by
    rw [boundaries_append, hboundaries]
    rfl
  have hrun : steps (past ++ [.boundary computation c, .step computation c]) =
      steps past ++ [(computation, c)] := steps_append ..
  cases hresult : (D.step computation c).1.result with
  | inl code =>
    simp only [Stage.ofStep, hresult]
    exact ⟨steps past, (computation, c), hpasses, hreached, .inr ⟨hflag, hrun, hresult, rfl⟩⟩
  | inr wait =>
    simp only [Stage.ofStep, hresult]
    refine ⟨fun boundary hmem => ?_, hreached.trans hrun.symm⟩
    rw [hrun, List.mem_append, List.mem_singleton] at hmem
    obtain hmem | rfl := hmem
    · exact hpasses boundary hmem
    · exact ⟨hflag, wait, hresult⟩

theorem History.tally {stage : Stage κ τ} (h : D.History first start moments stage) :
    D.Tally moments stage := by
  induction h with
  | start => exact ⟨fun boundary hmem => absurd hmem List.not_mem_nil, rfl⟩
  | @cancel past computation c _ hflag ih =>
    obtain ⟨hpasses, hboundaries⟩ := ih
    refine ⟨steps past, (computation, c), hpasses, ?_, .inl ⟨hflag, ?_, rfl, rfl⟩⟩
    · rw [boundaries_append, hboundaries]
      rfl
    · exact (steps_append ..).trans (List.append_nil _)
  | step _ hflag ih => exact .ofStep hflag ih
  | @look past wait io id sh timers _ ih =>
    have hsame : steps (past ++ [.look id wait sh timers]) = steps past ∧
        boundaries (past ++ [.look id wait sh timers]) = boundaries past :=
      ⟨(steps_append ..).trans (List.append_nil _),
        (boundaries_append ..).trans (List.append_nil _)⟩
    have hlooked : (∀ boundary ∈ steps (past ++ [.look id wait sh timers]), D.Passes boundary) ∧
        boundaries (past ++ [.look id wait sh timers]) =
          steps (past ++ [.look id wait sh timers]) := by
      rw [hsame.1, hsame.2]
      exact ih
    rcases D.look id wait sh timers with ⟨next | rest, shell, after⟩ <;> exact hlooked
  | pause _ _ ih => exact ih

/-! ### The steps before the flag is up -/

/-- The steps that are run are those before the first boundary at which the flag is up.

With the boundaries numbered, step number `k` is the one at boundary number `k`.  If the flag is up
at boundary number `k` there are `k` steps, the result is 1, and nothing has become of the context
since but that the flag has been lowered.  If step number `k` says that the computation has ended
it is the last one, with the given result or 0, whatever the flag is after it.  Only in these two
ways a command comes to a result. -/
structure Exact (D : Driver κ τ) (first : κ) (start : Context) (moments : List (Moment κ τ))
    (p : JobPoll κ τ) : Prop where
  step : ∀ (k : Nat) boundary, (steps moments)[k]? = some boundary ↔
    (boundaries moments)[k]? = some boundary ∧ boundary.2.shell.flag.raised = false
  cancelled : ∀ (k : Nat) computation c, (boundaries moments)[k]? = some (computation, c) →
    c.shell.flag.raised = true →
    (boundaries moments).length = k + 1 ∧ (steps moments).length = k ∧
      p.progress = .ends (.ok 1) ∧ p.shell.flag.raised = false ∧
      ∃ timers, p = Job.finish cancelledCode c.lowered timers
  done : ∀ (k : Nat) computation c code, (steps moments)[k]? = some (computation, c) →
    (D.step computation c).1 = .done code →
    (boundaries moments).length = k + 1 ∧ (steps moments).length = k + 1 ∧
      p.progress = .ends (.ok (code.getD 0)) ∧
      ∃ timers, p = Job.finish (code.getD 0) (D.step computation c).2 timers
  ended : ∀ result, p.progress = .ends result →
    ∃ computation c, (boundaries moments).getLast? = some (computation, c) ∧
      (c.shell.flag.raised = false → ∃ code, (D.step computation c).1 = .done code)
  /-- Before each boundary as many steps have been run as there have been boundaries, and what the
  last of them has awaited has settled. -/
  settled : ∀ before computation c, before ++ [.boundary computation c] <+: moments →
    (steps before).length = (boundaries before).length ∧
      D.Comes first start before (.ready computation c.shell c.io)

/-- A step at a boundary that has been passed does not end the computation. -/
theorem Passes.ne_done {boundary : κ × Context} (h : D.Passes boundary) (code : Option Int) :
    (D.step boundary.1 boundary.2).1 ≠ .done code := by
  obtain ⟨-, wait, hresult⟩ := h
  intro hdone
  rw [hdone] at hresult
  exact Sum.inl_ne_inr hresult

theorem Passes.of_getElem? {passed : List (κ × Context)}
    (h : ∀ boundary ∈ passed, D.Passes boundary) {k : Nat} {boundary : κ × Context}
    (hk : passed[k]? = some boundary) : D.Passes boundary :=
  h boundary (List.mem_of_getElem? hk)

/-- Before a boundary all steps have been run and what they have awaited has settled. -/
theorem History.settled {stage : Stage κ τ} (h : D.History first start moments stage)
    (before : List (Moment κ τ)) (computation : κ) (c : Context)
    (hbefore : before ++ [.boundary computation c] <+: moments) :
    (steps before).length = (boundaries before).length ∧
      D.Comes first start before (.ready computation c.shell c.io) := by
  have hready := h.reached hbefore
  exact ⟨congrArg List.length hready.tally.2.symm, hready.comes (by simp)⟩

/-- A command that waits has passed all boundaries. -/
theorem History.exact_suspend {wait : Wait κ τ}
    (h : D.History first start moments (.awaiting wait c.io)) (timers : TimerQueue τ Waker) :
    D.Exact first start moments (Job.suspend wait c timers) := by
  obtain ⟨hpasses, hboundaries⟩ := h.tally
  refine ⟨fun k boundary => ?_, fun k x b hk hflag => ?_, fun k x b code hk hdone => ?_,
    fun result hends => absurd hends (by simp [Job.suspend]), h.settled⟩
  · rw [hboundaries]
    exact ⟨fun hk => ⟨hk, (Passes.of_getElem? hpasses hk).1⟩, And.left⟩
  · rw [hboundaries] at hk
    exact absurd (hflag.symm.trans (Passes.of_getElem? hpasses hk).1) (by simp)
  · exact absurd hdone ((Passes.of_getElem? hpasses hk).ne_done code)

/-- A command that is cancelled at a boundary, after it has passed the others. -/
theorem History.exact_cancelled {passed : List (κ × Context)}
    (h : D.History first start moments (.ended cancelledCode c.lowered))
    (hpasses : ∀ boundary ∈ passed, D.Passes boundary)
    (hboundaries : boundaries moments = passed ++ [(computation, c)])
    (hflag : c.shell.flag.raised = true) (hsteps : steps moments = passed)
    (timers : TimerQueue τ Waker) :
    D.Exact first start moments (Job.finish cancelledCode c.lowered timers) := by
  have hlast : (boundaries moments).getLast? = some (computation, c) := by
    rw [hboundaries, List.getLast?_concat]
  refine ⟨fun k boundary => ?_, fun k x b hk hraised => ?_, fun k x b code hk hdone => ?_,
    fun result _ => ⟨computation, c, hlast, fun hdown => ?_⟩, h.settled⟩
  · rw [hboundaries, hsteps, getElem?_concat_iff]
    constructor
    · exact fun hk => ⟨.inl hk, (Passes.of_getElem? hpasses hk).1⟩
    · rintro ⟨hk | ⟨-, rfl⟩, hdown⟩
      · exact hk
      · exact absurd (hflag.symm.trans hdown) (by simp)
  · rw [hboundaries, getElem?_concat_iff] at hk
    obtain hk | ⟨rfl, heq⟩ := hk
    · exact absurd (hraised.symm.trans (Passes.of_getElem? hpasses hk).1) (by simp)
    · cases heq
      refine ⟨?_, congrArg List.length hsteps, rfl, rfl, timers, rfl⟩
      rw [hboundaries, List.length_append, List.length_singleton]
  · rw [hsteps] at hk
    exact absurd hdone ((Passes.of_getElem? hpasses hk).ne_done code)
  · exact absurd (hflag.symm.trans hdown) (by simp)

/-- A command that ends with a step, after it has passed the boundaries before. -/
theorem History.exact_done {passed : List (κ × Context)} {given : Option Int}
    (h : D.History first start moments (.ended (given.getD 0) (D.step computation c).2))
    (hpasses : ∀ boundary ∈ passed, D.Passes boundary)
    (hboundaries : boundaries moments = passed ++ [(computation, c)])
    (hflag : c.shell.flag.raised = false) (hsteps : steps moments = passed ++ [(computation, c)])
    (hdone : (D.step computation c).1 = .done given) (timers : TimerQueue τ Waker) :
    D.Exact first start moments
      (Job.finish (given.getD 0) (D.step computation c).2 timers) := by
  have hlast : (boundaries moments).getLast? = some (computation, c) := by
    rw [hboundaries, List.getLast?_concat]
  have hsame : boundaries moments = steps moments := hboundaries.trans hsteps.symm
  have hdown : ∀ {k : Nat} {boundary}, (steps moments)[k]? = some boundary →
      boundary.2.shell.flag.raised = false := by
    intro k boundary hk
    rw [hsteps, getElem?_concat_iff] at hk
    obtain hk | ⟨-, rfl⟩ := hk
    · exact (Passes.of_getElem? hpasses hk).1
    · exact hflag
  refine ⟨fun k boundary => ?_, fun k x b hk hraised => ?_, fun k x b code hk hends => ?_,
    fun result _ => ⟨computation, c, hlast, fun _ => ⟨given, hdone⟩⟩, h.settled⟩
  · rw [hsame]
    exact ⟨fun hk => ⟨hk, hdown hk⟩, And.left⟩
  · rw [hsame] at hk
    exact absurd (hraised.symm.trans (hdown hk)) (by simp)
  · rw [hsteps, getElem?_concat_iff] at hk
    obtain hk | ⟨rfl, heq⟩ := hk
    · exact absurd hends ((Passes.of_getElem? hpasses hk).ne_done code)
    · cases heq
      cases hdone.symm.trans hends
      have hlength : (steps moments).length = passed.length + 1 := by
        rw [hsteps, List.length_append, List.length_singleton]
      exact ⟨hsame ▸ hlength, hlength, rfl, timers, rfl⟩

/-- A poll has left what is known of the boundaries and the steps. -/
theorem Arrives.exact (h : D.Arrives first start moments p) : D.Exact first start moments p := by
  cases h with
  | waits wait c timers hwaits => exact hwaits.exact_suspend timers
  | ended code c timers hended =>
    obtain ⟨passed, ⟨x, b⟩, hpasses, hboundaries, hlast⟩ := hended.tally
    obtain ⟨hflag, hsteps, rfl, rfl⟩ | ⟨hflag, hsteps, hresult, rfl⟩ := hlast
    · exact hended.exact_cancelled hpasses hboundaries hflag hsteps timers
    · obtain ⟨given, hdone, rfl⟩ := Step.result_eq_inl_iff.1 hresult
      exact hended.exact_done hpasses hboundaries hflag hsteps hdone timers

/-- A computation runs exactly the steps before the first boundary at which the flag is up, or up to
the first step that says that it has ended.  This holds of every driver, for any number of polls,
whatever has become of the shell before each of them.  The driver of programs does what jobs do:
they come to the same, and what a command asks for is asked for in the steps of the record. -/
theorem run_exact :
    (∀ (D : Driver κ τ) (id : Nat) (computation : κ) (c : Context) (timers : TimerQueue τ Waker)
      (occasions : List (Occasion τ)),
      D.Exact computation c (D.run id computation c timers occasions).1
        (D.run id computation c timers occasions).2) ∧
    ∀ [Zero τ] [Add τ] [LT τ] [DecidableLT τ] (programs : Programs κ τ) (id : Nat),
      (∀ computation c timers,
        let driven := (ofPrograms programs).goOn id computation c timers
        driven.2 = Job.goOn programs id computation c timers ∧
          driven.1.flatMap (Moment.deeds programs) =
            Job.goOnDeeds programs id computation c timers) ∧
      ∀ io wait sh timers,
        let polled := (ofPrograms programs).poll id io wait sh timers
        polled.2 = Job.poll programs id (.suspended io wait) sh timers ∧
          polled.1.flatMap (Moment.deeds programs) =
            Job.pollDeeds programs id (.suspended io wait) sh timers := by
  refine ⟨fun D id computation c timers occasions => ?_, fun programs id => ⟨?_, ?_⟩⟩
  · exact (D.arrives_run id computation c timers occasions).exact
  · exact fun computation c timers => goOn_ofPrograms programs id computation c timers
  · exact fun io wait sh timers => poll_ofPrograms programs id io wait sh timers

/-- Where step number 1 raises the flag, boundary number 2 is the last. -/
example :
    let D : Driver Nat Nat := {
      step := fun k c =>
        (.sleep 0 (k + 1), if k = 1 then { c with shell := c.shell.raise.1 } else c)
      look := fun _ wait sh timers =>
        match wait with
        | .turn next | .sleep _ next => (.inl next, sh, timers)
        | .key next => (.inl (next .interrupted), sh, timers)
      patience := fun _ _ => 5 }
    let c : Context := { shell := { fs := {}, draws := .ofSeed 0 }, io := { command := "" } }
    let moments := (D.run 0 0 c .empty []).1
    (boundaries moments).map Prod.fst = [0, 1, 2] ∧ (steps moments).map Prod.fst = [0, 1] := by
  decide

end Driver

end MountShell
