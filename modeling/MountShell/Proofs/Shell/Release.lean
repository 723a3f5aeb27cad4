import MountShell.Proofs.FileSystem.Lasting
import MountShell.Proofs.Shell.Poll

/-!
# Releasing redirections

A command holds the files that have been opened for its redirections, until it releases them: by
itself, or when it ends.  After that it holds nothing, so that there is nothing left to write to, to
read or to close.  This is the invariant (`Ledger`) of everything that happens in a poll; it relates
what the command holds to the calls made so far.

A release closes the files one after the other, and each that is for writing ends the text that it
is bound to with a newline.  What the text is bound to is told by the redirections: by the path and
the mode of each (`Shell.writesTo`).

Main statements: `undisturbed_ledger`, no request disturbs the ledger; `textAt?_closeFiles`, what a
release does to a text; and `countP_openings`, how many of the files end it.
-/

namespace MountShell

open FileCall

/-! ### One release -/

/-- The calls handle files to open redirections and then in one release of the given files, after
which there are only acts. -/
def Released (files : List OpenFile) (opens calls : List FileCall) : Prop :=
  ∃ (early : List FileCall) (sh : Shell) (io : Io) (late : List FileCall),
    io.files = files ∧ handlings early = opens ∧ calls = early ++ sh.closings io ++ late ∧
      ∀ call ∈ late, call.isAct = true

/-- Either nothing has been released, and the command holds the files, or they have been released
and the command holds nothing. -/
def Ledger (files : List OpenFile) (opens : List FileCall) (io : Io) (calls : List FileCall) :
    Prop :=
  (io.files = files ∧ handlings calls = opens) ∨ (io.files = [] ∧ Released files opens calls)

variable {files : List OpenFile} {opens calls : List FileCall}

/-- A release settles the calls, for the first time or once more. -/
theorem Ledger.released {io : Io} (h : Ledger files opens io calls) (sh : Shell) :
    Released files opens (calls ++ sh.closings io) := by
  rcases h with ⟨hfiles, hopens⟩ | ⟨hnone, hreleased⟩
  · refine ⟨calls, sh, io, [], hfiles, hopens, (List.append_nil _).symm, ?_⟩
    exact fun call hcall => absurd hcall List.not_mem_nil
  · rw [sh.closings_eq_nil hnone, List.append_nil]
    exact hreleased

/-- What follows a release are acts. -/
theorem Released.append (h : Released files opens calls) {more : List FileCall}
    (hmore : ∀ call ∈ more, call.isAct = true) : Released files opens (calls ++ more) := by
  obtain ⟨early, sh, io, late, hfiles, hopens, rfl, hlate⟩ := h
  refine ⟨early, sh, io, late ++ more, hfiles, hopens, List.append_assoc .., fun call hcall => ?_⟩
  exact (List.mem_append.1 hcall).elim (hlate call) (hmore call)

/-- No request disturbs the ledger: a release settles it, and the other requests keep what the
command holds and handle no files. -/
theorem undisturbed_ledger (files : List OpenFile) (opens : List FileCall) :
    Undisturbed fun _ io calls => Ledger files opens io calls where
  answer c r calls h := by
    by_cases hrelease : r = .release
    · subst hrelease
      exact Or.inr ⟨rfl, h.released c.shell⟩
    rcases h with ⟨hfiles, hopens⟩ | ⟨hnone, hreleased⟩
    · refine Or.inl ⟨(c.files_answer hrelease).trans hfiles, ?_⟩
      rw [handlings_append, c.handlings_calls hrelease, List.append_nil]
      exact hopens
    · refine Or.inr ⟨(c.files_answer hrelease).trans hnone, hreleased.append fun call hcall => ?_⟩
      exact Context.isAct_of_mem_calls hnone hcall
  flag _ _ _ _ h := h
  host _ _ _ _ h := h

/-- A command that holds nothing is left with acts, and goes on to hold nothing. -/
theorem undisturbed_acts :
    Undisturbed fun _ io calls => io.files = [] ∧ ∀ call ∈ calls, call.isAct = true where
  answer c r calls h := by
    obtain ⟨hnone, hacts⟩ := h
    refine ⟨?_, fun call hcall => ?_⟩
    · by_cases hrelease : r = .release
      · subst hrelease
        rfl
      · exact (c.files_answer hrelease).trans hnone
    · exact (List.mem_append.1 hcall).elim (hacts call) (Context.isAct_of_mem_calls hnone)
  flag _ _ _ _ h := h
  host _ _ _ _ h := h

/-- The shell does not become idle while a command runs, so that no call is made by an idle one. -/
theorem undisturbed_busy :
    Undisturbed fun sh _ calls =>
      sh.phase ≠ .idle ∧ ∀ call ∈ calls, call.shell.phase ≠ .idle where
  answer c r calls h := by
    obtain ⟨hphase, hbusy⟩ := h
    refine ⟨(c.phase_answer r).symm ▸ hphase, fun call hcall => ?_⟩
    rcases List.mem_append.1 hcall with hearlier | hnew
    · exact hbusy call hearlier
    · rw [Context.phase_of_mem_calls hnew]
      exact hphase
  flag _ _ _ _ h := h
  host _ _ _ _ h := h

/-- A release is made in the phase of the shell. -/
theorem Shell.busy_closings {sh : Shell} (hphase : sh.phase ≠ .idle) {io : Io} {call : FileCall}
    (h : call ∈ sh.closings io) : call.shell.phase ≠ .idle := by
  obtain ⟨file, -, -, fs, rfl⟩ := Shell.eq_closed_of_mem_closingsOf h
  exact hphase

section Poll

variable {κ τ : Type}

/-- What the calls of a poll come to: the command still waits, or all that it held has been
released. -/
inductive JobPoll.Accounts (files : List OpenFile) (opens : List FileCall) :
    JobPoll κ τ → List FileCall → Prop
  | ends {p : JobPoll κ τ} {calls : List FileCall} (result : Except ShellError Int) :
      p.progress = .ends result → Released files opens calls → Accounts files opens p calls
  | waits {p : JobPoll κ τ} {calls : List FileCall} (io : Io) (wait : Wait κ τ) :
      p.progress = .waits (.suspended io wait) → Ledger files opens io calls →
        Accounts files opens p calls

namespace Job

/-- The end of a command settles the ledger. -/
theorem Comes.accounts {p : JobPoll κ τ}
    (h : Comes (fun _ io calls => Ledger files opens io calls) p calls) :
    p.Accounts files opens calls := by
  cases h with
  | finish code c timers calls hc => exact .ends _ rfl (hc.released c.shell)
  | suspend wait c timers calls hc => exact .waits c.io wait rfl hc

theorem Comes.busy {p : JobPoll κ τ}
    (h : Comes (fun sh _ calls => sh.phase ≠ .idle ∧ ∀ call ∈ calls, call.shell.phase ≠ .idle)
      p calls) : ∀ call ∈ calls, call.shell.phase ≠ .idle := by
  cases h with
  | finish code c timers calls hc =>
    exact fun call hcall => (List.mem_append.1 hcall).elim (hc.2 call) (Shell.busy_closings hc.1)
  | suspend wait c timers calls hc => exact hc.2

variable [Zero τ] [Add τ] [LT τ] [DecidableLT τ]

/-- The first poll opens the redirections, if the command is found. -/
theorem accounts_poll_accepted (programs : Programs κ τ) (id : Nat) (line : CommandLine)
    (sh : Shell) (timers : TimerQueue τ Waker) :
    (Job.poll programs id (.accepted line) sh timers).Accounts
      (openedFiles (line.openings (line.building? sh))) (line.openings (line.building? sh))
      (Job.pollCalls programs id (.accepted line) sh timers) := by
  cases hargs : line.args with
  | nil =>
    have hnone : line.building? sh = none := by
      rw [CommandLine.building?, hargs]
    have hcalls := pollCalls_of_args_eq_nil programs id hargs sh timers
    rw [hcalls, hnone, poll, commence, hargs]
    exact .ends (.ok 0) rfl ⟨[], sh, { command := "" }, [], rfl, rfl, rfl,
      fun call hcall => absurd hcall List.not_mem_nil⟩
  | cons name args =>
    refine Comes.accounts ((undisturbed_ledger _ _).commence_cons programs id hargs timers ?_ ?_)
    · intro fs host hnone
      exact Or.inl ⟨by rw [hnone]; rfl, line.handlings_preparations sh⟩
    · intro fs io hfiles
      exact Or.inl ⟨hfiles, line.handlings_preparations sh⟩

/-- A later poll opens nothing. -/
theorem accounts_poll_suspended (programs : Programs κ τ) (id : Nat) (io : Io) (wait : Wait κ τ)
    (sh : Shell) (timers : TimerQueue τ Waker) :
    (Job.poll programs id (.suspended io wait) sh timers).Accounts io.files []
      (Job.pollCalls programs id (.suspended io wait) sh timers) := by
  have hstart : Ledger io.files [] io [] := Or.inl ⟨rfl, rfl⟩
  exact ((undisturbed_ledger io.files []).poll_suspended programs id wait timers hstart).accounts

/-- A poll of a command that holds nothing. -/
theorem acts_poll_suspended (programs : Programs κ τ) (id : Nat) {io : Io} (hnone : io.files = [])
    (wait : Wait κ τ) (sh : Shell) (timers : TimerQueue τ Waker) :
    (∀ call ∈ Job.pollCalls programs id (.suspended io wait) sh timers, call.isAct = true) ∧
      ∀ io' wait', (Job.poll programs id (.suspended io wait) sh timers).progress =
        .waits (.suspended io' wait') → io'.files = [] := by
  have hcomes : Comes (fun _ io calls => io.files = [] ∧ ∀ call ∈ calls, call.isAct = true)
      (Job.poll programs id (.suspended io wait) sh timers)
      ([] ++ Job.pollCalls programs id (.suspended io wait) sh timers) :=
    undisturbed_acts.poll_suspended programs id wait timers
      ⟨hnone, fun call hcall => absurd hcall List.not_mem_nil⟩
  rw [List.nil_append] at hcomes
  revert hcomes
  generalize Job.poll programs id (.suspended io wait) sh timers = p
  generalize Job.pollCalls programs id (.suspended io wait) sh timers = calls
  intro hcomes
  cases hcomes with
  | finish code c timers calls hc =>
    rw [c.shell.closings_eq_nil hc.1, List.append_nil]
    exact ⟨hc.2, fun io' wait' h => nomatch h⟩
  | suspend wait c timers calls hc =>
    refine ⟨hc.2, fun io' wait' h => ?_⟩
    obtain ⟨rfl, -⟩ := Job.suspended.inj (Progress.waits.inj h)
    exact hc.1

/-- No call of a poll is made by an idle shell, if the shell is not idle before. -/
theorem busy_poll (programs : Programs κ τ) (id : Nat) (job : Job κ τ) {sh : Shell}
    (hphase : sh.phase ≠ .idle) (timers : TimerQueue τ Waker) :
    ∀ call ∈ job.pollCalls programs id sh timers, call.shell.phase ≠ .idle := by
  cases job with
  | settled result => exact fun call hcall => absurd hcall List.not_mem_nil
  | suspended io wait =>
    exact (undisturbed_busy.poll_suspended programs id wait timers
      ⟨hphase, fun call hcall => absurd hcall List.not_mem_nil⟩).busy
  | accepted line =>
    cases hargs : line.args with
    | nil =>
      have hcalls := pollCalls_of_args_eq_nil programs id hargs sh timers
      rw [hcalls]
      exact fun call hcall => absurd hcall List.not_mem_nil
    | cons name args =>
      refine Comes.busy (undisturbed_busy.commence_cons programs id hargs timers ?_ ?_)
      · exact fun fs host _ => ⟨hphase, fun call => CommandLine.phase_of_mem_preparations hphase⟩
      · exact fun fs io _ =>
          ⟨Phase.noConfusion, fun call => CommandLine.phase_of_mem_preparations hphase⟩

end Job

end Poll

/-! ### The files and their texts -/

namespace Shell

/-- Is the redirection one for writing whose path leads to a spot, on a mount that is not
read-only? -/
def writesTo (sh : Shell) (r : Redirection) (spot : Spot) : Bool :=
  r.mode.isWrite && decide (sh.fs.target? (sh.resolvePath r.target) = some spot)

/-- A file that could be opened is not closed when it is released. -/
theorem closed_of_mem_openedFiles {sh : Shell} {redirections : List Redirection} {file : OpenFile}
    (h : file ∈ openedFiles (sh.openings redirections)) (herror : file.handle.isError = false) :
    file.handle.closed = false := by
  obtain ⟨call, hcall, hfile⟩ := List.mem_filterMap.1 h
  obtain ⟨r, -, fs, rfl⟩ := eq_opened_of_mem_openings hcall
  obtain rfl := Option.some.inj hfile
  exact FileSystem.closed_openFile herror

/-- Opening a file leaves where redirections lead. -/
theorem writesTo_openFile (sh : Shell) (path : String) (mode : OpenMode) (other : Redirection)
    (spot : Spot) : writesTo (sh.openFile path mode).2 other spot = sh.writesTo other spot := by
  have htarget := sh.fs.target?_openFile (sh.resolvePath path) mode (sh.resolvePath other.target)
  show (other.mode.isWrite && decide (_ = some spot)) = _
  exact congrArg (fun target => other.mode.isWrite && decide (target = some spot)) htarget

/-- Where no text can come to stand, none stands after more redirections have been opened. -/
theorem bars_openAll {sh : Shell} {spot : Spot} (h : sh.fs.Bars spot)
    (redirections : List Redirection) : (sh.openAll redirections).2.fs.Bars spot := by
  induction redirections generalizing sh with
  | nil => exact h
  | cons r rest ih =>
    exact @ih (sh.openFile r.target r.mode.openMode).2
      (h.openFile (sh.resolvePath r.target) r.mode.openMode)

/-- Where there is a node already, or a text when all redirections have been opened, the files that
closing ends are those of the redirections for writing that lead there. -/
theorem countP_openings {sh : Shell} {spot : Spot} {redirections : List Redirection}
    (h : (sh.fs.nodeAt? spot).isSome = true ∨
      ((sh.openAll redirections).2.fs.textAt? spot).isSome = true) :
    (openedFiles (sh.openings redirections)).countP (·.ends spot) =
      redirections.countP (sh.writesTo · spot) := by
  induction redirections generalizing sh with
  | nil => rfl
  | cons r rest ih =>
    have hmode : r.mode.openMode.isWrite = r.mode.isWrite := by
      cases r.mode <;> rfl
    -- A file that is not bound where its path leads bars the spot, and then no text stands there.
    have hfirst : (sh.openFile r.target r.mode.openMode).1.ends spot = sh.writesTo r spot := by
      rw [writesTo, ← hmode]
      rcases h with hnode | htext
      · exact FileSystem.ends_openFile hnode (sh.resolvePath r.target) r.mode.openMode
      · refine (sh.fs.ends_openFile_or_bars (sh.resolvePath r.target) r.mode.openMode spot
          ).resolve_right fun hbars => ?_
        rw [(bars_openAll hbars (r :: rest)).textAt?_eq_none] at htext
        exact absurd htext Bool.false_ne_true
    have hrest := @ih (sh.openFile r.target r.mode.openMode).2 <| h.imp
      (fun hnode => FileSystem.nodeAt?_openFile hnode (sh.resolvePath r.target) r.mode.openMode) id
    simp only [writesTo_openFile] at hrest
    rw [List.countP_cons, ← hrest, ← hfirst]
    exact List.countP_cons

/-- A release ends a text with as many newlines as there are files that end it. -/
theorem textAt?_closeFiles {files : List OpenFile}
    (hopen : ∀ file ∈ files, file.handle.isError = false → file.handle.closed = false)
    {fs : FileSystem} {spot : Spot} {body : String} (h : fs.textAt? spot = some body) :
    (Io.closeFiles files fs).2.textAt? spot =
      some (body ++ FileSystem.endings (files.countP (·.ends spot))) := by
  induction files generalizing fs body with
  | nil => simpa [Io.closeFiles, FileSystem.endings] using h
  | cons file rest ih =>
    have hrest := fun other hmem => hopen other (List.mem_cons_of_mem file hmem)
    rw [closeFiles_cons_snd, List.countP_cons]
    by_cases herror : file.handle.isError = true
    · have hends : file.ends spot = false := by
        have hmode : file.handle.mode = .failed := of_decide_eq_true herror
        rw [OpenFile.ends, hmode]
        rfl
      rw [if_pos herror, hends]
      exact ih hrest h
    · have hopened := hopen file List.mem_cons_self (Bool.eq_false_iff.2 herror)
      have hclose := FileSystem.textAt?_close hopened h
      rw [if_neg herror, ih hrest hclose]
      by_cases hends : file.ends spot = true
      · rw [if_pos hends, if_pos hends, FileSystem.endings, String.append_assoc]
      · rw [if_neg hends, if_neg hends, Nat.add_zero]

end Shell

/-- An act keeps the bodies of texts. -/
theorem FileAct.bodyAt?_after {fs : FileSystem} {spot : Spot} {body : String}
    (h : fs.bodyAt? spot = some body) (act : FileAct) :
    (act.after fs).bodyAt? spot = some body := by
  cases act with
  | get path => exact FileSystem.bodyAt?_get h path
  | program path => exact FileSystem.bodyAt?_program? h path
  | create path => exact FileSystem.bodyAt?_create h path
  | chmod path mode => exact FileSystem.bodyAt?_chmod h path mode
  | fetch entry => exact h

/-- Acts keep the bodies of texts. -/
theorem FileCall.Leads.bodyAt? {fs last : FileSystem} (h : Leads fs calls last)
    (hacts : ∀ call ∈ calls, call.isAct = true) {spot : Spot} {body : String}
    (hbody : fs.bodyAt? spot = some body) : last.bodyAt? spot = some body := by
  induction calls generalizing fs with
  | nil => rwa [show last = fs from Eq.symm h]
  | cons call calls ih =>
    obtain ⟨hact, hrest⟩ := List.forall_mem_cons.1 hacts
    obtain ⟨rfl, hlead⟩ := h
    refine ih hlead hrest ?_
    cases call with
    | did act sh => exact FileAct.bodyAt?_after hbody act
    | _ => exact absurd hact Bool.false_ne_true

end MountShell
