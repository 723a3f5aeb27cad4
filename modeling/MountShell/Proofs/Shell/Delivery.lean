import MountShell.Proofs.Shell.Occasions
import MountShell.Proofs.Shell.Output

/-!
# Lines that are written in many polls

A command that does nothing but write lines (`Deed.Plain`) may need many polls to do so.  As long as
it is left alone in between, so that each poll finds the filesystem and what the host has been told
as the one before has left them (`Job.Alone`), its outputs and the host end up as they do when the
same lines are written one after the other (`Job.Writes.follow`).

Main statement: `Job.Writes.delivered`, what has reached the texts and the host by then.
-/

namespace MountShell

/-! ### Deeds that write lines -/

namespace Deed

/-- The line that a deed writes. -/
def line? : Deed → Option String
  | asks (.writeLine line) => some line
  | _ => none

/-- The lines that deeds write, in order. -/
def lines (deeds : List Deed) : List String :=
  deeds.filterMap line?

/-- Nothing is done but that a line is written, or that the command is cancelled. -/
inductive Plain : Deed → Prop
  | writeLine (line : String) : Plain (.asks (.writeLine line))
  | cancelled : Plain .cancelled

theorem lines_append (deeds more : List Deed) : lines (deeds ++ more) = lines deeds ++ lines more :=
  List.filterMap_append

end Deed

/-! ### Lines one after the other -/

namespace Io

theorem writeLines_append (io : Io) (lines more : List String) (fs : FileSystem) (host : Host) :
    io.writeLines (lines ++ more) fs host =
      let now := io.writeLines lines fs host
      now.1.writeLines more now.2.1 now.2.2 := by
  induction lines generalizing io fs host with
  | nil => rfl
  | cons line lines ih => exact ih _ _ _

/-- What becomes of a line does not depend on the host, which is only told of refusals. -/
theorem exists_writeOutputs_eq (command line : String) (outputs : List Output) (fs : FileSystem) :
    ∃ after fs' reports, ∀ host : Host,
      writeOutputs command line outputs fs host = (after, fs', host.tellAll reports) := by
  induction outputs generalizing fs with
  | nil => exact ⟨[], fs, [], fun host => rfl⟩
  | cons out rest ih =>
    simp only [writeOutputs]
    rcases out.write line fs with ⟨_ | reason, first, middle⟩
    · obtain ⟨after, fs', reports, hrest⟩ := ih middle
      exact ⟨first :: after, fs', reports, fun host => by simp only [hrest]⟩
    · obtain ⟨after, fs', reports, hrest⟩ := ih middle
      let report := ShellError.redirectionUnavailable first.file.handle.path reason
      refine ⟨first :: after, fs', .errorLine (command ++ ": " ++ report.message) :: reports,
        fun host => ?_⟩
      simp only [hrest]
      rfl

/-- Without outputs the host is told the line itself. -/
theorem exists_writeLine_eq (io : Io) (line : String) (fs : FileSystem) :
    ∃ after fs' reports, ∀ host : Host,
      io.writeLine line fs host = (after, fs', host.tellAll reports) := by
  unfold writeLine
  by_cases hnone : io.outputs.isEmpty = true
  · exact ⟨io, fs, [.line line], fun host => by rw [if_pos hnone]; rfl⟩
  · obtain ⟨outputs, fs', reports, hall⟩ :=
      exists_writeOutputs_eq io.command line io.outputs fs
    exact ⟨{ io with outputs }, fs', reports, fun host => by simp only [if_neg hnone, hall]⟩

end Io

/-! ### A command that only writes lines -/

namespace Context

variable {start : Context} {lines : List String} {sh : Shell} {io : Io}

/-- What lines come to that are written one after the other in a context. -/
def afterLines (c : Context) (lines : List String) : Io × FileSystem × Host :=
  c.io.writeLines lines c.shell.fs c.shell.host

/-- The outputs, the filesystem and what the host has been told are as lines leave them. -/
structure Wrote (start : Context) (lines : List String) (sh : Shell) (io : Io) : Prop where
  io : io = (start.afterLines lines).1
  fs : sh.fs = (start.afterLines lines).2.1
  events : sh.host.events = (start.afterLines lines).2.2.events

/-- One more line. -/
theorem Wrote.answer {c : Context} (h : start.Wrote lines c.shell c.io) (line : String) :
    start.Wrote (lines ++ [line]) (c.answer (.writeLine line)).2.shell
      (c.answer (.writeLine line)).2.io := by
  obtain ⟨after, fs, reports, hwrite⟩ := c.io.exists_writeLine_eq line c.shell.fs
  have hlast : start.afterLines (lines ++ [line]) =
      (after, fs, (start.afterLines lines).2.2.tellAll reports) := by
    rw [← hwrite, h.io, h.fs, afterLines, Io.writeLines_append]
    rfl
  have hanswer : (c.answer (.writeLine line)).2 =
      { c with
        io := after
        shell := { c.shell with fs, host := c.shell.host.tellAll reports } } := by
    simp only [Context.answer, hwrite]
  rw [hanswer]
  refine ⟨congrArg Prod.fst hlast.symm, congrArg (·.2.1) hlast.symm, ?_⟩
  rw [hlast, Host.tellAll_eq, Host.tellAll_eq, h.events]

end Context

/-- While a command is driven and while it waits, everything is as its lines have left it, provided
that they are all that it has done. -/
theorem Course.wrote {κ τ : Type} [Zero τ] [Add τ] [LT τ] [DecidableLT τ] (id : Nat)
    (start : Context) (before : List String) :
    let wrote (sh : Shell) (io : Io) (deeds : List Deed) : Prop :=
      (∀ deed ∈ deeds, deed.Plain) → start.Wrote (before ++ Deed.lines deeds) sh io
    Course (κ := κ) (τ := τ) id (fun c _ _ deeds => wrote c.shell c.io deeds)
      (fun _ c _ _ deeds => wrote c.shell c.io deeds)
      (fun _ c _ _ deeds => wrote c.shell c.io deeds) := by
  intro wrote
  refine Course.ofShell (P := fun sh io _ deeds => wrote sh io deeds) id ?_ ?_ ?_ ?_
  · intro c r calls deeds hc hplain
    obtain ⟨hdeeds, hlast⟩ := List.forall_mem_append.1 hplain
    cases hlast _ (List.mem_singleton_self _) with
    | writeLine line =>
      rw [Deed.lines_append, ← List.append_assoc]
      exact (hc hdeeds).answer line
  · intro sh io calls deeds _ hsh hplain
    rw [Deed.lines_append, ← List.append_assoc]
    have hsame := hsh (List.forall_mem_append.1 hplain).1
    rw [← List.append_nil (before ++ _)] at hsame
    exact ⟨hsame.io, hsame.fs, hsame.events⟩
  · intro sh io calls deeds _ hsh hplain
    exact ⟨(hsh hplain).io, (hsh hplain).fs, (hsh hplain).events⟩
  · intro sh io calls deeds host hevents hsh hplain
    exact ⟨(hsh hplain).io, (hsh hplain).fs, hevents.trans (hsh hplain).events⟩

namespace Job

variable {κ τ : Type} {start : Context} {lines : List String} {p : JobPoll κ τ}

/-- A command that has written lines waits with its outputs, or they have been released. -/
structure Writes (start : Context) (lines : List String) (p : JobPoll κ τ) : Prop where
  events : p.shell.host.events = (start.afterLines lines).2.2.events
  waits : ∀ job, p.progress = .waits job → p.shell.fs = (start.afterLines lines).2.1 ∧
    ∃ wait, job = .suspended (start.afterLines lines).1 wait
  ends : ∀ result, p.progress = .ends result →
    p.shell.fs = ((start.afterLines lines).1.release (start.afterLines lines).2.1).2.2

/-- A poll of which the deeds are lines has written them. -/
theorem Arrives.writes {before : List String} {calls : List FileCall} {deeds : List Deed}
    (h : Arrives
      (fun c _ _ deeds => (∀ deed ∈ deeds, deed.Plain) →
        start.Wrote (before ++ Deed.lines deeds) c.shell c.io)
      (fun _ c _ _ deeds => (∀ deed ∈ deeds, deed.Plain) →
        start.Wrote (before ++ Deed.lines deeds) c.shell c.io) p calls deeds)
    (hplain : ∀ deed ∈ deeds, deed.Plain) : Writes start (before ++ Deed.lines deeds) p := by
  rcases h with ⟨code, c, timers, calls, deeds, hc⟩ | ⟨wait, c, timers, calls, deeds, hc⟩
  · refine ⟨(hc hplain).events, fun job hwaits => absurd hwaits (by simp [Job.finish]),
      fun _ _ => ?_⟩
    rw [← (hc hplain).io, ← (hc hplain).fs]
    rfl
  · refine ⟨(hc hplain).events, fun job hjob => ⟨(hc hplain).fs, wait, ?_⟩,
      fun result hends => absurd hends (by simp [Job.suspend])⟩
    rw [← (hc hplain).io]
    exact (Progress.waits.inj hjob).symm

variable [Zero τ] [Add τ] [LT τ] [DecidableLT τ]

/-- The command is left alone: each poll finds the filesystem and what the host has been told as the
one before has left them. -/
def Alone (programs : Programs κ τ) : List (Driver.Occasion τ) → JobPoll κ τ → Prop
  | [], _ => True
  | occasion :: rest, p =>
    match p.progress with
    | .waits job =>
      occasion.shell.fs = p.shell.fs ∧ occasion.shell.host.events = p.shell.host.events ∧
        Alone programs rest (poll programs occasion.id job occasion.shell occasion.timers)
    | .ends _ => True

/-- The first poll of a computation, after lines that have been written before. -/
theorem writes_goOn (programs : Programs κ τ) (id : Nat) (computation : κ) {c : Context}
    (h : start.Wrote lines c.shell c.io) (timers : TimerQueue τ Waker)
    (hplain : ∀ deed ∈ goOnDeeds programs id computation c timers, deed.Plain) :
    Writes start (lines ++ Deed.lines (goOnDeeds programs id computation c timers))
      (goOn programs id computation c timers) := by
  have hcourse := Course.wrote (κ := κ) (τ := τ) id start lines
  have harrives := @Course.drive _ _ _ _ _ _ id _ _ _ timers [] [] hcourse programs
    (stepsAllowed programs computation c.shell) computation c fun _ => by
      rw [Deed.lines, List.filterMap_nil, List.append_nil]
      exact h
  exact harrives.writes hplain

/-- One more poll, which finds everything as the lines before have left it. -/
theorem Writes.poll {programs : Programs κ τ} (h : Writes start lines p) {job : Job κ τ}
    (hjob : p.progress = .waits job) {occasion : Driver.Occasion τ}
    (hfs : occasion.shell.fs = p.shell.fs)
    (hevents : occasion.shell.host.events = p.shell.host.events)
    (hplain : ∀ deed ∈ pollDeeds programs occasion.id job occasion.shell occasion.timers,
      deed.Plain) :
    Writes start
      (lines ++ Deed.lines (pollDeeds programs occasion.id job occasion.shell occasion.timers))
      (Job.poll programs occasion.id job occasion.shell occasion.timers) := by
  obtain ⟨hleft, wait, rfl⟩ := h.waits job hjob
  have hcourse := Course.wrote (κ := κ) (τ := τ) occasion.id start lines
  have harrives := hcourse.poll_suspended programs wait occasion.timers [] [] occasion.shell
    (start.afterLines lines).1 fun _ => by
      rw [Deed.lines, List.filterMap_nil, List.append_nil]
      exact ⟨rfl, hfs.trans hleft, hevents.trans h.events⟩
  exact harrives.writes hplain

/-- The polls that follow, by induction on the occasions. -/
theorem Writes.follow {programs : Programs κ τ} {occasions : List (Driver.Occasion τ)}
    (h : Writes start lines p) (halone : Alone programs occasions p)
    (hplain : ∀ deed ∈ followDeeds programs occasions p, deed.Plain) :
    Writes start (lines ++ Deed.lines (followDeeds programs occasions p))
      (Job.follow programs occasions p) := by
  induction occasions generalizing p lines with
  | nil =>
    rw [followDeeds, Job.follow]
    exact (List.append_nil lines).symm ▸ h
  | cons occasion rest ih =>
    cases hprogress : p.progress with
    | ends result =>
      rw [followDeeds, Job.follow, hprogress]
      exact (List.append_nil lines).symm ▸ h
    | waits job =>
      rw [followDeeds, hprogress] at hplain ⊢
      rw [Alone, hprogress] at halone
      rw [Job.follow, hprogress]
      obtain ⟨hfs, hevents, hrest⟩ := halone
      obtain ⟨hfirst, hlater⟩ := List.forall_mem_append.1 hplain
      have hall := ih (h.poll hprogress hfs hevents hfirst) hrest hlater
      rw [List.append_assoc, ← Deed.lines_append] at hall
      exact hall

/-- A command that writes no more lines is left alone if every poll finds the same. -/
theorem Writes.alone {programs : Programs κ τ} {occasions : List (Driver.Occasion τ)}
    (h : Writes start lines p)
    (hsame : ∀ occasion ∈ occasions, occasion.shell.fs = (start.afterLines lines).2.1 ∧
      occasion.shell.host.events = (start.afterLines lines).2.2.events)
    (hplain : ∀ deed ∈ followDeeds programs occasions p, deed.Plain)
    (hnone : Deed.lines (followDeeds programs occasions p) = []) :
    Alone programs occasions p := by
  induction occasions generalizing p with
  | nil => trivial
  | cons occasion rest ih =>
    cases hprogress : p.progress with
    | ends result =>
      rw [Alone, hprogress]
      trivial
    | waits job =>
      rw [followDeeds, hprogress] at hplain hnone
      obtain ⟨⟨hfs, hevents⟩, hrest⟩ := List.forall_mem_cons.1 hsame
      obtain ⟨hfirst, hlater⟩ := List.forall_mem_append.1 hplain
      obtain ⟨hpolled, hlast⟩ :=
        List.append_eq_nil_iff.1 ((Deed.lines_append _ _).symm.trans hnone)
      have hkept := hfs.trans (h.waits job hprogress).1.symm
      have htold := hevents.trans h.events.symm
      have hnext := h.poll hprogress hkept htold hfirst
      rw [hpolled, List.append_nil] at hnext
      rw [Alone, hprogress]
      exact ⟨hkept, htold, ih hnext hrest hlater hlast⟩

end Job

/-! ### What arrives -/

namespace Job

variable {κ τ : Type} {start : Context} {lines : List String} {p : JobPoll κ τ}

/-- The lines have arrived: the texts that the outputs take to hold them, and one more newline once
the command has ended, and the host has been told them, or the refusals of the outputs that do not
take lines. -/
structure Delivered (start : Context) (lines : List String) (p : JobPoll κ τ) : Prop where
  told : p.shell.host.events =
    (start.shell.host.tellAll (start.io.told start.shell.fs lines)).events
  waits : ∀ job, p.progress = .waits job →
    FileSystem.Written (start.io.outputs.map Output.file) (fun mode => mode.withLines lines)
      start.shell.fs p.shell.fs
  ends : ∀ result, p.progress = .ends result →
    FileSystem.Written (start.io.outputs.map Output.file)
      (fun mode old => mode.withLines lines old ++ "\n") start.shell.fs p.shell.fs

/-- Lines that have been written arrive, whatever the outputs are bound to, as long as they are
bound to different nodes. -/
theorem Writes.delivered (h : Writes start lines p) (hbuilt : start.io.Built start.shell.fs)
    (hdistinct : OpenFile.Distinct (start.io.outputs.map Output.file)) :
    Delivered start lines p := by
  have hsent : start.io.Sent start.shell.fs start.shell.host lines (start.afterLines lines) :=
    Io.sent_writeLines hbuilt hdistinct start.shell.host lines
  refine ⟨?_, fun job hjob => ?_, fun result hresult => ?_⟩
  · rw [h.events, hsent.heard]
  · rw [(h.waits job hjob).1]
    exact hsent.written
  · rw [h.ends result hresult]
    exact hsent.release hbuilt hdistinct

end Job

end MountShell
