import MountShell.Program.Stock
import MountShell.Proofs.Shell.Delivery
import MountShell.Proofs.Text.Numeral

/-!
# Counting up to a number

The program `seq` takes one step in each poll.  A step writes a number and hands the turn on, with
the next number to come (`step_seq_of_le`); it ends the program behind the last number
(`step_seq_of_lt`), and already with it if there is none behind it in a word.

Main statement: `seq_run`, what is written, where it arrives and how the program ends, for all flags
that are found at the boundaries.
-/

namespace MountShell.Stock

/-- The whole numbers from the first to the last one, in order. -/
def numbers (first last : Int) : List Int :=
  (List.range (last + 1 - first).toNat).map fun i : Nat => first + i

theorem numbers_of_lt {first last : Int} (h : last < first) : numbers first last = [] := by
  have hnone : (last + 1 - first).toNat = 0 := by omega
  rw [numbers, hnone]
  rfl

theorem numbers_cons {first last : Int} (h : first ≤ last) :
    numbers first last = first :: numbers (first + 1) last := by
  have hsome : (last + 1 - first).toNat = (last + 1 - (first + 1)).toNat + 1 := by omega
  rw [numbers, hsome, List.range_succ_eq_map, List.map_cons, List.map_map, numbers]
  refine List.cons_eq_cons.2 ⟨by omega, List.map_congr_left fun i _ => ?_⟩
  simp only [Function.comp_apply, Int.natCast_succ]
  omega

/-- The steps that it takes to write the numbers: one for each, and one that finds no more, unless
the last number is the last of its word. -/
def stepCount (first last : Int) : Nat :=
  (numbers first last).length + if first ≤ last ∧ last = maxCount then 0 else 1

theorem stepCount_of_lt {first last : Int} (h : last < first) : stepCount first last = 1 := by
  rw [stepCount, numbers_of_lt h, if_neg fun hsome => absurd hsome.1 (Int.not_le.2 h)]
  rfl

theorem stepCount_maxCount : stepCount maxCount maxCount = 1 := by
  rw [stepCount, numbers_cons (Int.le_refl _), numbers_of_lt (by omega),
    if_pos ⟨Int.le_refl _, rfl⟩]
  rfl

theorem stepCount_succ {first last : Int} (h : first ≤ last) (hne : first ≠ maxCount) :
    stepCount first last = stepCount (first + 1) last + 1 := by
  rw [stepCount, stepCount, numbers_cons h, List.length_cons]
  by_cases hmax : last = maxCount
  · have hmore : first + 1 ≤ last := by omega
    rw [if_pos ⟨h, hmax⟩, if_pos ⟨hmore, hmax⟩]
  · rw [if_neg fun hboth => hmax hboth.2, if_neg fun hboth => hmax hboth.2]

/-! ### Steps -/

variable {scripts : List (String × ProgramScript)} {next last : Int} {c : Context}

/-- The deed of writing a number. -/
def writes (n : Int) : Deed :=
  .asks (.writeLine (Text.showInt n))

/-- Behind the last number there is nothing to write. -/
theorem step_seq_of_lt (scripts : List (String × ProgramScript)) (c : Context)
    (h : last < next) :
    ((programs scripts).step (.seq next last)).run c = (.done (some 0), c) ∧
      ((programs scripts).step (.seq next last)).requests c = [] := by
  have hstep : (programs scripts).step (.seq next last) = .done (.done (some 0)) := if_pos h
  rw [hstep]
  exact ⟨rfl, rfl⟩

/-- A number is written, and the next one is formed only if there is one. -/
theorem step_seq_of_le (scripts : List (String × ProgramScript)) (c : Context)
    (h : next ≤ last) :
    ((programs scripts).step (.seq next last)).run c =
        (if next = maxCount then .done (some 0) else .again (.seq (next + 1) last),
          (c.answer (.writeLine (Text.showInt next))).2) ∧
      ((programs scripts).step (.seq next last)).requests c =
        [.writeLine (Text.showInt next)] := by
  have hstep : (programs scripts).step (.seq next last) =
      .ask (.writeLine (Text.showInt next)) fun _ =>
        if next = maxCount then .done (.done (some 0))
        else .done (.again (.seq (next + 1) last)) :=
    if_neg (Int.not_lt.2 h)
  rw [hstep, Routine.run, Routine.requests]
  by_cases hmax : next = maxCount
  · simp only [if_pos hmax]
    exact ⟨rfl, rfl⟩
  · simp only [if_neg hmax]
    exact ⟨rfl, rfl⟩

/-! ### Polls -/

/-- The number of boundaries before the first one at which the flag is up. -/
def undisturbed (flags : List Bool) : Nat :=
  (flags.takeWhile (! ·)).length

/-- What has become of a program that counts, if these are the flags at the boundaries. -/
structure Counted (scripts : List (String × ProgramScript)) (first last : Int) (flags : List Bool)
    (driven : List (Driver.Moment Computation Millis) × JobPoll Computation Millis) : Prop where
  /-- The boundaries are those up to the first one at which the flag is up. -/
  looked : (Driver.boundaries driven.1).map (fun boundary => boundary.2.shell.flag.raised) =
    flags.take (min (undisturbed flags + 1) (stepCount first last))
  /-- No number is formed that does not fit into a word. -/
  fits : ∀ boundary ∈ Driver.boundaries driven.1,
    ∃ next, boundary.1 = .seq next last ∧ first ≤ next ∧ next ≤ maxCount
  steps : (Driver.steps driven.1).length = min (undisturbed flags) (stepCount first last)
  done : stepCount first last ≤ undisturbed flags →
    driven.1.flatMap (Driver.Moment.deeds (programs scripts)) = (numbers first last).map writes ∧
      driven.2.progress = .ends (.ok 0)
  cancelled : undisturbed flags < stepCount first last → undisturbed flags < flags.length →
    driven.1.flatMap (Driver.Moment.deeds (programs scripts)) =
        ((numbers first last).take (undisturbed flags)).map writes ++ [.cancelled] ∧
      driven.2.progress = .ends (.ok 1)
  waits : undisturbed flags < stepCount first last → undisturbed flags = flags.length →
    driven.1.flatMap (Driver.Moment.deeds (programs scripts)) =
        ((numbers first last).take (undisturbed flags)).map writes ∧
      ∃ job, driven.2.progress = .waits job

variable {flags : List Bool} {timers : TimerQueue Millis Waker}
  {driven : List (Driver.Moment Computation Millis) × JobPoll Computation Millis}

theorem stepCount_pos (first last : Int) : 0 < stepCount first last := by
  rw [stepCount]
  by_cases h : first ≤ last
  · rw [numbers_cons h, List.length_cons]
    omega
  · rw [if_neg fun hboth => h hboth.1]
    omega

/-- The flag is up at the first boundary. -/
theorem Counted.of_raised (hflag : c.shell.flag.raised = true) (hnext : next ≤ maxCount) :
    Counted scripts next last (true :: flags)
      ([.boundary (.seq next last) c], Job.finish cancelledCode c.lowered timers) where
  looked := by
    have hmin : min (undisturbed (true :: flags) + 1) (stepCount next last) = 1 :=
      Nat.min_eq_left (stepCount_pos next last)
    rw [hmin]
    exact congrArg (fun raised => [raised]) hflag
  fits boundary hboundary := by
    rw [List.mem_singleton.1 hboundary]
    exact ⟨next, rfl, Int.le_refl _, hnext⟩
  steps := (Nat.zero_min _).symm
  done hdone := absurd (Nat.lt_of_lt_of_le (stepCount_pos next last) hdone) (Nat.lt_irrefl 0)
  cancelled _ _ := ⟨Driver.deeds_of_raised _ _ hflag, rfl⟩
  waits _ hlength := absurd hlength (Nat.succ_ne_zero _).symm

/-- The flag is down at the first boundary, and the program ends with the step there, which writes
what there is to write. -/
theorem Counted.of_done (hflag : c.shell.flag.raised = false) (hnext : next ≤ maxCount)
    (hcount : stepCount next last = 1) {after : Context}
    (hwrites : (((programs scripts).step (.seq next last)).requests c).map .asks =
      (numbers next last).map writes) :
    Counted scripts next last (false :: flags)
      ([.boundary (.seq next last) c, .step (.seq next last) c], Job.finish 0 after timers) := by
  have hall : stepCount next last ≤ undisturbed (false :: flags) :=
    hcount ▸ Nat.succ_le_succ (Nat.zero_le _)
  refine ⟨?_, fun boundary hboundary => ?_, ?_, fun _ => ?_, fun hfew => ?_, fun hfew => ?_⟩
  · rw [hcount, Nat.min_eq_right (Nat.le_add_left 1 _)]
    exact congrArg (fun raised => [raised]) hflag
  · rw [List.mem_singleton.1 hboundary]
    exact ⟨next, rfl, Int.le_refl _, hnext⟩
  · rw [Nat.min_eq_right hall, hcount]
    rfl
  · rw [Driver.deeds_of_step _ _ hflag, hwrites]
    exact ⟨List.append_nil _, rfl⟩
  · exact absurd hfew (Nat.not_lt.2 hall)
  · exact absurd hfew (Nat.not_lt.2 hall)

/-- Nothing has become of a program that has still to reach a boundary. -/
theorem Counted.of_waits {p : JobPoll Computation Millis} {job : Job Computation Millis}
    (h : p.progress = .waits job) : Counted scripts next last [] ([], p) where
  looked := List.take_nil.symm
  fits _ hboundary := absurd hboundary List.not_mem_nil
  steps := (Nat.zero_min _).symm
  done hdone := absurd (Nat.lt_of_lt_of_le (stepCount_pos next last) hdone) (Nat.lt_irrefl 0)
  cancelled _ hflags := absurd hflags (Nat.lt_irrefl 0)
  waits _ _ := ⟨rfl, job, h⟩

/-- A look at a wait writes nothing. -/
theorem Counted.of_look (id : Nat) (wait : Wait Computation Millis) (sh : Shell)
    (h : Counted scripts next last flags driven) :
    Counted scripts next last flags (.look id wait sh timers :: driven.1, driven.2) :=
  ⟨h.looked, h.fits, h.steps, h.done, h.cancelled, h.waits⟩

/-- The flag is down at the first boundary, and the step there hands the turn on: this is one number
more. -/
theorem Counted.of_again (hflag : c.shell.flag.raised = false) (h : next ≤ last)
    (hne : next ≠ maxCount) (hnext : next ≤ maxCount)
    (hlater : Counted scripts (next + 1) last flags driven) :
    Counted scripts next last (false :: flags)
      (.boundary (.seq next last) c :: .step (.seq next last) c :: driven.1, driven.2) := by
  -- One step more is taken and one boundary more is passed, so that every count is one more than
  -- that of the rest.
  have hcount := stepCount_succ h hne
  have hdown : undisturbed (false :: flags) = undisturbed flags + 1 := rfl
  have hdeeds : ∀ deeds rest, driven.1.flatMap (Driver.Moment.deeds (programs scripts)) =
      deeds.map writes ++ rest →
        (.boundary (.seq next last) c :: .step (.seq next last) c :: driven.1).flatMap
            (Driver.Moment.deeds (programs scripts)) = (next :: deeds).map writes ++ rest := by
    intro deeds rest hrest
    rw [Driver.deeds_of_step _ _ hflag, (step_seq_of_le scripts c h).2, hrest]
    rfl
  refine ⟨?_, ?_, ?_, fun hdone => ?_, fun hfew hflags => ?_, fun hfew hlength => ?_⟩
  · rw [hdown, hcount, Nat.add_min_add_right, List.take_succ_cons, ← hlater.looked, ← hflag]
    rfl
  · intro boundary hboundary
    rcases List.mem_cons.1 hboundary with rfl | hboundary
    · exact ⟨next, rfl, Int.le_refl _, hnext⟩
    · obtain ⟨n, hn, hlow, hhigh⟩ := hlater.fits boundary hboundary
      exact ⟨n, hn, by omega, hhigh⟩
  · rw [hdown, hcount, Nat.add_min_add_right, ← hlater.steps]
    rfl
  · rw [hdown, hcount] at hdone
    obtain ⟨hwritten, hends⟩ := hlater.done (Nat.le_of_succ_le_succ hdone)
    rw [numbers_cons h]
    have hall := hdeeds _ [] (hwritten.trans (List.append_nil _).symm)
    exact ⟨hall.trans (List.append_nil _), hends⟩
  · rw [hdown, hcount] at hfew
    rw [hdown, List.length_cons] at hflags
    obtain ⟨hwritten, hends⟩ :=
      hlater.cancelled (Nat.lt_of_succ_lt_succ hfew) (Nat.lt_of_succ_lt_succ hflags)
    rw [numbers_cons h, hdown, List.take_succ_cons]
    exact ⟨hdeeds _ _ hwritten, hends⟩
  · rw [hdown, hcount] at hfew
    rw [hdown, List.length_cons] at hlength
    obtain ⟨hwritten, hwaits⟩ :=
      hlater.waits (Nat.lt_of_succ_lt_succ hfew) (Nat.succ.inj hlength)
    rw [numbers_cons h, hdown, List.take_succ_cons]
    have hall := hdeeds _ [] (hwritten.trans (List.append_nil _).symm)
    exact ⟨hall.trans (List.append_nil _), hwaits⟩

/-- The first poll ends the program if the flag is up, if there is no number to write, or if it is
the last of its word. -/
theorem counted_of_ends (id : Nat) (hnext : next ≤ maxCount) (hlast : last ≤ maxCount)
    (occasions : List (Driver.Occasion Millis))
    (h : c.shell.flag.raised = true ∨ last < next ∨ next = maxCount) :
    Counted scripts next last (c.shell.flag.raised :: flags)
      ((Driver.ofPrograms (programs scripts)).run id (.seq next last) c timers occasions) := by
  by_cases hflag : c.shell.flag.raised = true
  · rw [Driver.run_of_ends (Driver.drive_of_raised hflag) rfl, hflag]
    exact .of_raised hflag hnext
  · have hdown := Bool.eq_false_iff.2 hflag
    by_cases hlt : last < next
    · obtain ⟨hstep, hasks⟩ := step_seq_of_lt scripts c hlt
      rw [Driver.run_of_ends (Driver.drive_of_done hdown hstep) rfl, hdown]
      refine .of_done hdown hnext (stepCount_of_lt hlt) ?_
      rw [hasks, numbers_of_lt hlt]
      rfl
    · obtain rfl : next = maxCount := (h.resolve_left hflag).resolve_left hlt
      obtain rfl : last = maxCount := by omega
      obtain ⟨hstep, hasks⟩ := step_seq_of_le scripts c (Int.le_refl maxCount)
      rw [if_pos rfl] at hstep
      rw [Driver.run_of_ends (Driver.drive_of_done hdown hstep) rfl, hdown]
      refine .of_done hdown hnext stepCount_maxCount ?_
      rw [hasks, numbers_cons (Int.le_refl _), numbers_of_lt (by omega)]
      rfl

/-- A program that counts, at whatever number it is. -/
theorem counted_run (scripts : List (String × ProgramScript)) (id : Nat) {next last : Int}
    (hnext : next ≤ maxCount) (hlast : last ≤ maxCount) (c : Context)
    (timers : TimerQueue Millis Waker) (occasions : List (Driver.Occasion Millis)) :
    Counted scripts next last
      (c.shell.flag.raised :: occasions.map fun occasion => occasion.shell.flag.raised)
      ((Driver.ofPrograms (programs scripts)).run id (.seq next last) c timers occasions) := by
  induction occasions generalizing id next c timers with
  | nil =>
    by_cases hends : c.shell.flag.raised = true ∨ last < next ∨ next = maxCount
    · exact counted_of_ends id hnext hlast [] hends
    · rw [not_or, not_or, Bool.not_eq_true, Int.not_lt] at hends
      obtain ⟨hflag, hle, hne⟩ := hends
      obtain ⟨hstep, -⟩ := step_seq_of_le scripts c hle
      rw [if_neg hne] at hstep
      rw [Driver.run_nil, Driver.goOn, Driver.drive_of_again hflag hstep, hflag]
      exact .of_again hflag hle hne hnext (.of_waits rfl)
  | cons occasion rest ih =>
    by_cases hends : c.shell.flag.raised = true ∨ last < next ∨ next = maxCount
    · exact counted_of_ends id hnext hlast _ hends
    · rw [not_or, not_or, Bool.not_eq_true, Int.not_lt] at hends
      obtain ⟨hflag, hle, hne⟩ := hends
      obtain ⟨hstep, -⟩ := step_seq_of_le scripts c hle
      rw [if_neg hne] at hstep
      have hmore : next + 1 ≤ maxCount := by omega
      have hlater := ih occasion.id hmore
        { shell := occasion.shell, io := (c.answer (.writeLine (Text.showInt next))).2.io }
        occasion.timers
      rw [Driver.run_of_again hflag hstep rfl, hflag]
      exact .of_again hflag hle hne hnext (hlater.of_look _ _ _)

/-! ### The program -/

/-- The arguments give the numbers to count from and to. -/
inductive Given : List String → Int → Int → Prop
  | last {text : String} {last : Int} (hlast : Text.readInt countBits text = some last) :
      Given [text] 1 last
  | both {text other : String} {first last : Int}
      (hfirst : Text.readInt countBits text = some first)
      (hlast : Text.readInt countBits other = some last) : Given [text, other] first last

theorem Given.fits {args : List String} {first last : Int} (h : Given args first last) :
    first ≤ maxCount ∧ last ≤ maxCount := by
  have hmax : maxCount = (2 ^ (countBits - 1) : Nat) - 1 := rfl
  have hread : ∀ {text n}, Text.readInt countBits text = some n → n ≤ maxCount := by
    intro text n hn
    have hfits := (Text.fits_of_readInt hn).2
    omega
  cases h with
  | last hlast => exact ⟨by decide, hread hlast⟩
  | both hfirst hlast => exact ⟨hread hfirst, hread hlast⟩

/-- All numbers that fit into a word can be given, by their decimal forms. -/
theorem given_showInt {first last : Int} (hfirst : -maxCount - 1 ≤ first ∧ first ≤ maxCount)
    (hlast : -maxCount - 1 ≤ last ∧ last ≤ maxCount) :
    Given [Text.showInt last] 1 last ∧
      Given [Text.showInt first, Text.showInt last] first last := by
  have hmax : maxCount = (2 ^ (countBits - 1) : Nat) - 1 := rfl
  have hread : ∀ n, -maxCount - 1 ≤ n → n ≤ maxCount →
      Text.readInt countBits (Text.showInt n) = some n := fun n hlow hhigh =>
    Text.readInt_showInt (by omega) (by omega)
  exact ⟨.last (hread last hlast.1 hlast.2),
    .both (hread first hfirst.1 hfirst.2) (hread last hlast.1 hlast.2)⟩

theorem Given.run_eq {args : List String} {first last : Int} (h : Given args first last)
    (scripts : List (String × ProgramScript)) :
    (Command.program "seq").run (programs scripts) args =
      pure (.suspend (.seq first last)) := by
  show seq args = _
  unfold seq
  cases h with
  | last hlast => simp [hlast]
  | both hfirst hlast => simp [hfirst, hlast]

/-- Whatever has become of a program that counts, its deeds are that it has written the numbers up
to the first boundary at which the flag is up. -/
theorem Counted.written {first last : Int}
    (h : Counted scripts first last flags driven) :
    (∀ deed ∈ driven.1.flatMap (Driver.Moment.deeds (programs scripts)), deed.Plain) ∧
      Deed.lines (driven.1.flatMap (Driver.Moment.deeds (programs scripts))) =
        ((numbers first last).take (undisturbed flags)).map Text.showInt := by
  have hwrites : ∀ ns : List Int, (∀ deed ∈ ns.map writes, deed.Plain) ∧
      Deed.lines (ns.map writes) = ns.map Text.showInt := by
    intro ns
    refine ⟨fun deed hdeed => ?_, ?_⟩
    · obtain ⟨n, -, rfl⟩ := List.mem_map.1 hdeed
      exact .writeLine (Text.showInt n)
    · rw [Deed.lines, List.filterMap_map]
      exact congrFun List.filterMap_eq_map ns
  have hlength : undisturbed flags ≤ flags.length := (List.takeWhile_prefix _).length_le
  by_cases hdone : stepCount first last ≤ undisturbed flags
  · have hall : (numbers first last).length ≤ undisturbed flags :=
      Nat.le_trans (Nat.le_add_right _ _) hdone
    rw [(h.done hdone).1, List.take_of_length_le hall]
    exact hwrites _
  · have hfew := Nat.not_le.1 hdone
    by_cases hflags : undisturbed flags < flags.length
    · obtain ⟨hplain, hlines⟩ := hwrites ((numbers first last).take (undisturbed flags))
      rw [(h.cancelled hfew hflags).1, Deed.lines_append, hlines]
      exact ⟨List.forall_mem_append.2 ⟨hplain, List.forall_mem_singleton.2 .cancelled⟩,
        List.append_nil _⟩
    · rw [(h.waits hfew (Nat.le_antisymm hlength (Nat.not_lt.1 hflags))).1]
      exact hwrites _

/-- The program that counts, in the poll in which it is run and on all occasions that follow,
whatever has become of the shell in between.  It can be given all numbers of a word.

Each poll takes it to one boundary.  As long as the flag is down there it writes the numbers from
the first to the last one, in order, and ends with code 0 after so many steps; nothing is written if
there are none.  If the flag is up at boundary number `k` before, it has written the first `k` of
them and ends with code 1.  No number is formed that does not fit into a word, so that the program
ends also if the last number is the largest.

When it is left alone between the polls, the decimal forms of these numbers are the lines that have
reached its outputs, or the host if it has none. -/
theorem seq_run (scripts : List (String × ProgramScript)) :
    (∀ {first last : Int}, (-maxCount - 1 ≤ first ∧ first ≤ maxCount) →
      (-maxCount - 1 ≤ last ∧ last ≤ maxCount) →
      Given [Text.showInt last] 1 last ∧
        Given [Text.showInt first, Text.showInt last] first last) ∧
    ∀ {args : List String} {first last : Int}, Given args first last →
      (∀ c, ((Command.program "seq").run (programs scripts) args).run c =
        (.suspend (.seq first last), c)) ∧
      ∀ (id : Nat) (c : Context) (timers : TimerQueue Millis Waker)
        (occasions : List (Driver.Occasion Millis)),
        let driven :=
          (Driver.ofPrograms (programs scripts)).run id (.seq first last) c timers occasions
        let begun := Job.goOn (programs scripts) id (.seq first last) c timers
        let flags := c.shell.flag.raised :: occasions.map fun occasion => occasion.shell.flag.raised
        driven.2 = Job.follow (programs scripts) occasions begun ∧
          driven.1.flatMap (Driver.Moment.deeds (programs scripts)) =
            Job.runDeeds (programs scripts) id (.program "seq") args c timers ++
              Job.followDeeds (programs scripts) occasions begun ∧
          Counted scripts first last flags driven ∧
          (Job.Alone (programs scripts) occasions begun → c.io.Built c.shell.fs →
            OpenFile.Distinct (c.io.outputs.map Output.file) →
            Job.Delivered c (((numbers first last).take (undisturbed flags)).map Text.showInt)
              driven.2) := by
  refine ⟨given_showInt, fun {args first last} h => ?_⟩
  have hrun : ∀ c, ((Command.program "seq").run (programs scripts) args).run c =
      (.suspend (.seq first last), c) := fun c => by
    rw [h.run_eq]
    rfl
  refine ⟨hrun, fun id c timers occasions => ?_⟩
  obtain ⟨hpoll, hdeeds⟩ :=
    Driver.run_ofPrograms (programs scripts) id (.seq first last) c timers occasions
  have hcounted := counted_run scripts id h.fits.1 h.fits.2 c timers occasions
  refine ⟨hpoll, hdeeds.trans ?_, hcounted, fun halone hbuilt hdistinct => ?_⟩
  · have hbegun : Job.runDeeds (programs scripts) id (.program "seq") args c timers =
        Job.goOnDeeds (programs scripts) id (.seq first last) c timers := by
      rw [Job.runDeeds, hrun, h.run_eq]
      rfl
    rw [hbegun]
  · obtain ⟨hplain, hlines⟩ := hcounted.written
    rw [hdeeds] at hplain hlines
    obtain ⟨hfirst, hlater⟩ := List.forall_mem_append.1 hplain
    have hstart : c.Wrote [] c.shell c.io := ⟨rfl, rfl, rfl⟩
    have hbegun := Job.writes_goOn (programs scripts) id (.seq first last) hstart timers hfirst
    have hwrites := hbegun.follow halone hlater
    rw [List.append_assoc, ← Deed.lines_append, hlines, ← hpoll, List.nil_append] at hwrites
    exact hwrites.delivered hbuilt hdistinct

/-- A shell with a text. -/
def countingShell : Shell where
  fs := FileSystem.mount {}
    { device := "none", mountPoint := "/", typeName := "jfs", options := "" }
    (.supplied (.directory true [("out", .file true (.text "x"))]))
  draws := .ofSeed 0

/-- At the end of the word the second step is the last, if the flag is down at its boundary, and
both numbers arrive; if it is up there, one number has been written. -/
theorem seq_run_to_maxCount :
    let args := ["9223372036854775806", "9223372036854775807"]
    let built := countingShell.buildIo "seq" [⟨"/out", .append⟩]
    let c : Context := { shell := built.2, io := built.1 }
    let begun := Job.goOn (programs []) 0 (.seq (maxCount - 1) maxCount) c .empty
    let later (raised : Bool) : Driver.Occasion Millis :=
      { id := 0, shell := { begun.shell with flag := { raised } }, timers := .empty }
    let driven (raised : Bool) :=
      (Driver.ofPrograms (programs [])).run 0 (.seq (maxCount - 1) maxCount) c .empty [later raised]
    Given args (maxCount - 1) maxCount ∧
      ((driven false).1.flatMap (Driver.Moment.deeds (programs [])) =
          [.asks (.writeLine "9223372036854775806"), .asks (.writeLine "9223372036854775807")] ∧
        (driven false).2.progress = .ends (.ok 0) ∧ Job.Delivered c args (driven false).2) ∧
      (driven true).1.flatMap (Driver.Moment.deeds (programs [])) =
          [.asks (.writeLine "9223372036854775806"), .cancelled] ∧
        (driven true).2.progress = .ends (.ok 1) := by
  intro args built c begun later driven
  have hfits : ∀ n, maxCount - 1 ≤ n → n ≤ maxCount → -maxCount - 1 ≤ n ∧ n ≤ maxCount := by
    intro n hlow hhigh
    have hmax : maxCount = 2 ^ 63 - 1 := rfl
    omega
  have hargs : [Text.showInt (maxCount - 1), Text.showInt maxCount] = args := by decide +kernel
  have hgiven : Given args (maxCount - 1) maxCount :=
    hargs ▸ ((seq_run []).1 (hfits _ (by omega) (by omega)) (hfits _ (by omega) (by omega))).2
  have hrun := fun raised => ((seq_run []).2 hgiven).2 0 c .empty [later raised]
  have hwritten : (numbers (maxCount - 1) maxCount).map writes =
      [.asks (.writeLine "9223372036854775806"), .asks (.writeLine "9223372036854775807")] := by
    decide +kernel
  refine ⟨hgiven, ?_, ?_⟩
  · obtain ⟨-, -, hcounted, hdelivered⟩ := hrun false
    obtain ⟨hdeeds, hends⟩ := hcounted.done (by decide +kernel)
    refine ⟨hdeeds.trans hwritten, hends, ?_⟩
    have halone : Job.Alone (programs []) [later false] begun := ⟨rfl, rfl, trivial⟩
    have hbuilt : c.io.Built c.shell.fs :=
      countingShell.built_buildIo (by decide +kernel) "seq" [⟨"/out", .append⟩]
    have hdistinct : OpenFile.Distinct (c.io.outputs.map Output.file) := by
      unfold OpenFile.Distinct
      decide +kernel
    have hall := hdelivered halone hbuilt hdistinct
    have hlines : ((numbers (maxCount - 1) maxCount).take (undisturbed
        (c.shell.flag.raised :: [later false].map fun occasion =>
          occasion.shell.flag.raised))).map Text.showInt = args := by
      decide +kernel
    exact hlines ▸ hall
  · obtain ⟨-, -, hcounted, -⟩ := hrun true
    obtain ⟨hdeeds, hends⟩ := hcounted.cancelled (by decide +kernel) (by decide +kernel)
    exact ⟨hdeeds.trans (by decide +kernel), hends⟩

end MountShell.Stock
