import MountShell.Program.Stock
import MountShell.Proofs.Environment
import MountShell.Proofs.FileSystem.Views
import MountShell.Proofs.NameMap
import MountShell.Proofs.Path.Normal
import MountShell.Proofs.Shell.Poll

/-!
# Which command a name stands for

A name stands for the command of the shell itself that is called so; failing that, for the program
of that name in the first directory of the search path that has one; failing that, for the program
of that name in the working directory (`Shell.Finds`).  The commands are found by listing every
directory of the search path; that comes to the same (`finds_iff_resolveCommand`).

Main statements: `find?_addPrograms` and `find?_addDirectories`, what listing directories finds,
seen name by name; `resolveCommand_cases`, where the command of any name comes from; and
`command_lookup`, what becomes of a line whose command is found, and that nothing becomes of one
whose command is not.
-/

namespace MountShell

/-- Only a directory has children. -/
theorem Entry.isDirectory_of_mem_children {entry : Entry} {name : String}
    (h : name ∈ entry.children) : entry.isDirectory = true := by
  unfold children at h
  unfold isDirectory
  cases hkind : entry.kind with
  | directory names => rfl
  | file content =>
    rw [hkind] at h
    exact absurd h List.not_mem_nil

/-- A name counts from the directory. -/
theorem Path.segmentsOf_resolveFrom (dir : String) {name : String} (h : IsSegment name) :
    segmentsOf (resolveFrom dir name) = segmentsOf (dir ++ "/" ++ name) := by
  have hrelative : ¬ isAbsolute name = true := by
    rw [isAbsolute_iff]
    rintro ⟨rest, hrest⟩
    exact h.2.2.2 (hrest ▸ List.mem_cons_self)
  rw [resolveFrom, if_neg hrelative, segmentsOf_resolve]

/-- The directory is there and has a program of that name. -/
def FileSystem.Offers (fs : FileSystem) (dir name program : String) : Prop :=
  (∃ entry, (fs.get dir).1 = .ok entry ∧ entry.isDirectory = true) ∧
    (fs.program? (dir ++ "/" ++ name)).1 = some program

namespace Shell

/-- The directories that are searched for programs, in order. -/
def searchPath (sh : Shell) : List String :=
  ((Text.split ':' ((sh.env.stored "PATH").getD "")).filter (· ≠ "")).map sh.resolvePath

/-- The program is that of the name in a directory of the search path or in the working directory,
and it lies on a mount from which programs may be run. -/
def MayRun (sh : Shell) (name program : String) : Prop :=
  ∃ dir place node, dir ∈ sh.searchPath ++ [sh.cwd] ∧
    sh.fs.locate (Path.resolveFrom dir name) = .ok place ∧ place.mount.flags.noExec = false ∧
    (sh.fs.node (Path.resolveFrom dir name)).1 = .ok node ∧ node.program? = some program

/-- The command that a name stands for. -/
inductive Finds (sh : Shell) (name : String) : Command → Prop
  /-- The shell has a command of that name. -/
  | builtin {command : Command} (own : NameMap.find? name Builtin.table = some command) :
      Finds sh name command
  /-- A directory of the search path has a program of that name, and none before it has one. -/
  | searched {before after : List String} {dir program : String}
      (notOwn : NameMap.find? name Builtin.table = none)
      (path : sh.searchPath = before ++ dir :: after)
      (first : ∀ earlier ∈ before, ∀ p, ¬ sh.fs.Offers earlier name p)
      (offers : sh.fs.Offers dir name program) :
      Finds sh name (.program program)
  /-- The working directory has a program of that name, and no directory of the search path has
  one. -/
  | direct {program : String}
      (notOwn : NameMap.find? name Builtin.table = none)
      (nowhere : ∀ dir ∈ sh.searchPath, ∀ p, ¬ sh.fs.Offers dir name p)
      (here : (sh.fs.program? (sh.cwd ++ "/" ++ name)).1 = some program) :
      Finds sh name (.program program)

/-! ### Listing directories -/

/-- The program that a directory lists under a name. -/
def listed? (fs : FileSystem) (name dir : String) : Option Command :=
  match (fs.get dir).1 with
  | .ok entry =>
    if name ∈ entry.children then
      (fs.program? (Path.resolveFrom dir name)).1.map Command.program
    else none
  | .error _ => none

variable {base fs : FileSystem}

/-- Among the names of a directory those that stand for programs are found, unless they stand for a
command already. -/
theorem find?_addPrograms (h : base.Viewed fs) (dir : String) (names : List String)
    (found : List (String × Command)) :
    base.Viewed (addPrograms dir names found fs).2 ∧
      ∀ name, NameMap.find? name (addPrograms dir names found fs).1 =
        (NameMap.find? name found).or
          (if name ∈ names then (base.program? (Path.resolveFrom dir name)).1.map Command.program
          else none) := by
  induction names generalizing found fs with
  | nil => exact ⟨h, fun name => (Option.or_none).symm⟩
  | cons first names ih =>
    rw [addPrograms]
    -- A name that stands for a command already is passed over; otherwise it is looked up, and added
    -- if it runs something.
    by_cases hfound : NameMap.contains first found = true
    · rw [if_pos hfound]
      obtain ⟨hview, hnames⟩ := ih h found
      refine ⟨hview, fun name => ?_⟩
      rw [hnames]
      by_cases heq : name = first
      · obtain ⟨command, hcommand⟩ := Option.isSome_iff_exists.1 hfound
        rw [heq, hcommand, Option.some_or, Option.some_or]
      · simp only [List.mem_cons, heq, false_or]
    · rw [if_neg hfound]
      have hnone : NameMap.find? first found = none := by
        simpa [NameMap.contains] using hfound
      have hprogram := h.program?_fst (Path.resolveFrom dir first)
      have hview := h.trans (FileSystem.viewed_program? fs (Path.resolveFrom dir first))
      rcases hresult : fs.program? (Path.resolveFrom dir first) with ⟨_ | program, later⟩
      · rw [hresult] at hprogram hview
        obtain ⟨hlast, hnames⟩ := ih hview found
        refine ⟨hlast, fun name => ?_⟩
        rw [hnames]
        by_cases heq : name = first
        · rw [heq, hnone, ← hprogram]
          simp
        · simp only [List.mem_cons, heq, false_or]
      · rw [hresult] at hprogram hview
        obtain ⟨hlast, hnames⟩ := ih hview (NameMap.insert first (.program program) found)
        refine ⟨hlast, fun name => ?_⟩
        rw [hnames, NameMap.find?_insert]
        by_cases heq : name = first
        · rw [if_pos heq.symm, heq, hnone, ← hprogram]
          simp
        · rw [if_neg (Ne.symm heq)]
          simp only [List.mem_cons, heq, false_or]

/-- A name that stands for no command yet gets the program of the first directory that lists one
under it. -/
theorem find?_addDirectories (h : base.Viewed fs) (cwd : String) (dirs : List String)
    (found : List (String × Command)) :
    base.Viewed (addDirectories cwd dirs found fs).2 ∧
      ∀ name, NameMap.find? name (addDirectories cwd dirs found fs).1 =
        (NameMap.find? name found).or
          ((dirs.map (Path.resolveFrom cwd)).findSome? (listed? base name)) := by
  induction dirs generalizing found fs with
  | nil => exact ⟨h, fun name => (Option.or_none).symm⟩
  | cons dir dirs ih =>
    rw [addDirectories]
    have hget := h.get_fst (Path.resolveFrom cwd dir)
    have hview := h.trans (FileSystem.viewed_get fs (Path.resolveFrom cwd dir))
    rcases hresult : fs.get (Path.resolveFrom cwd dir) with ⟨e | entry, later⟩
    · rw [hresult] at hget hview
      obtain ⟨hlast, hnames⟩ := ih hview found
      refine ⟨hlast, fun name => ?_⟩
      have hlisted : listed? base name (Path.resolveFrom cwd dir) = none := by
        rw [listed?, ← hget]
      rw [List.map_cons, List.findSome?_cons, hlisted]
      exact hnames name
    · rw [hresult] at hget hview
      obtain ⟨hadded, hown⟩ :=
        find?_addPrograms hview (Path.resolveFrom cwd dir) entry.children found
      obtain ⟨hlast, hnames⟩ := ih hadded
        (addPrograms (Path.resolveFrom cwd dir) entry.children found later).1
      refine ⟨hlast, fun name => ?_⟩
      have hlisted : listed? base name (Path.resolveFrom cwd dir) =
          if name ∈ entry.children then
            (base.program? (Path.resolveFrom (Path.resolveFrom cwd dir) name)).1.map Command.program
          else none := by
        rw [listed?, ← hget]
      refine (hnames name).trans ?_
      -- the first of the directories comes before those that follow in the search too
      rw [hown, ← hlisted, Option.or_assoc, List.map_cons, List.findSome?_cons]
      cases listed? base name (Path.resolveFrom cwd dir) <;> rfl

/-- A directory lists the program under a name just when it has a program of that name. -/
theorem listed?_eq_some_iff {name dir : String} (hname : Path.IsSegment name) {command : Command} :
    listed? fs name dir = some command ↔
      ∃ program, command = .program program ∧ fs.Offers dir name program := by
  have hpath : (fs.program? (Path.resolveFrom dir name)).1 =
      (fs.program? (dir ++ "/" ++ name)).1 :=
    FileSystem.program?_congr (Path.segmentsOf_resolveFrom dir hname)
  unfold listed? FileSystem.Offers
  rw [hpath]
  cases hget : (fs.get dir).1 with
  | error e => simp
  | ok entry =>
    simp only [Except.ok.injEq, exists_eq_left']
    constructor
    · intro h
      by_cases hmem : name ∈ entry.children
      · rw [if_pos hmem] at h
        obtain ⟨program, hprogram, rfl⟩ := Option.map_eq_some_iff.1 h
        exact ⟨program, rfl, Entry.isDirectory_of_mem_children hmem, hprogram⟩
      · rw [if_neg hmem] at h
        exact absurd h (by simp)
    · rintro ⟨program, rfl, hdirectory, hprogram⟩
      rw [if_pos (FileSystem.mem_children_of_program? hget hdirectory hname hprogram), hprogram]
      rfl

/-! ### The command of a name -/

variable {sh : Shell} {name : String}

/-- Where the command of a name comes from, and what else is done to find it. -/
theorem resolveCommand_cases (sh : Shell) (name : String) :
    (∃ fs, sh.fs.Viewed fs ∧ (sh.resolveCommand name).2 = { sh with fs }) ∧
      (sh.resolveCommand name).1 =
        (NameMap.find? name Builtin.table).or ((sh.searchPath.findSome? (listed? sh.fs name)).or
          ((sh.fs.program? (sh.resolvePath name)).1.map Command.program)) := by
  unfold resolveCommand
  cases hown : NameMap.find? name Builtin.table with
  | some command => exact ⟨⟨sh.fs, .refl sh.fs, rfl⟩, rfl⟩
  | none =>
    obtain ⟨hview, hfound⟩ := find?_addDirectories (.refl sh.fs) sh.cwd
      ((Text.split ':' ((sh.env.stored "PATH").getD "")).filter (· ≠ "")) Builtin.table
    have hfound : NameMap.find? name sh.commands.1 =
        sh.searchPath.findSome? (listed? sh.fs name) := by
      refine (hfound name).trans ?_
      rw [hown, Option.none_or]
      rfl
    have hview : sh.fs.Viewed sh.commands.2.fs := hview
    simp only
    rw [hfound]
    cases sh.searchPath.findSome? (listed? sh.fs name) with
    | some command => exact ⟨⟨_, hview, rfl⟩, rfl⟩
    | none =>
      refine ⟨⟨_, hview.trans (FileSystem.viewed_program? _ (sh.resolvePath name)), rfl⟩, ?_⟩
      exact congrArg (Option.map Command.program) (hview.program?_fst (sh.resolvePath name))

/-- The command that a name stands for is the one that is found. -/
theorem finds_iff_resolveCommand (hname : Path.IsSegment name) {command : Command} :
    sh.Finds name command ↔ (sh.resolveCommand name).1 = some command := by
  have hhere : (sh.fs.program? (sh.resolvePath name)).1 =
      (sh.fs.program? (sh.cwd ++ "/" ++ name)).1 :=
    FileSystem.program?_congr (Path.segmentsOf_resolveFrom sh.cwd hname)
  have hlisted : ∀ dir, listed? sh.fs name dir = none ↔ ∀ p, ¬ sh.fs.Offers dir name p := by
    intro dir
    rw [Option.eq_none_iff_forall_not_mem]
    refine ⟨fun h p hp => h _ ((listed?_eq_some_iff hname).2 ⟨p, rfl, hp⟩), fun h command hc => ?_⟩
    obtain ⟨p, -, hp⟩ := (listed?_eq_some_iff hname).1 hc
    exact h p hp
  -- The three ways to find a command are the three alternatives of the search, in this order.
  rw [(resolveCommand_cases sh name).2, hhere]
  constructor
  · rintro (own | ⟨notOwn, path, first, offers⟩ | ⟨notOwn, nowhere, here⟩)
    · rw [own, Option.some_or]
    · have hsome : sh.searchPath.findSome? (listed? sh.fs name) = some (.program _) :=
        List.findSome?_eq_some_iff.2 ⟨_, _, _, path, (listed?_eq_some_iff hname).2 ⟨_, rfl, offers⟩,
          fun earlier hmem => (hlisted earlier).2 (first earlier hmem)⟩
      rw [notOwn, hsome, Option.none_or, Option.some_or]
    · have hnone : sh.searchPath.findSome? (listed? sh.fs name) = none :=
        List.findSome?_eq_none_iff.2 fun dir hmem => (hlisted dir).2 (nowhere dir hmem)
      rw [notOwn, hnone, here, Option.none_or, Option.none_or]
      rfl
  · intro h
    cases hown : NameMap.find? name Builtin.table with
    | some own =>
      rw [hown, Option.some_or] at h
      exact .builtin (hown.trans h)
    | none =>
      rw [hown, Option.none_or] at h
      cases hsearch : sh.searchPath.findSome? (listed? sh.fs name) with
      | some found =>
        rw [hsearch, Option.some_or] at h
        obtain rfl := Option.some.inj h
        obtain ⟨before, dir, after, hpath, hfound, hfirst⟩ := List.findSome?_eq_some_iff.1 hsearch
        obtain ⟨program, rfl, hoffers⟩ := (listed?_eq_some_iff hname).1 hfound
        exact .searched hown hpath (fun earlier hmem => (hlisted earlier).1 (hfirst earlier hmem))
          hoffers
      | none =>
        rw [hsearch, Option.none_or] at h
        obtain ⟨program, hprogram, rfl⟩ := Option.map_eq_some_iff.1 h
        exact .direct hown
          (fun dir hmem => (hlisted dir).1 (List.findSome?_eq_none_iff.1 hsearch dir hmem)) hprogram

/-- A file that is no program hides none of that name in a later directory. -/
theorem Finds.of_no_program {before after : List String} {dir program : String}
    (notOwn : NameMap.find? name Builtin.table = none)
    (path : sh.searchPath = before ++ dir :: after)
    (hno : ∀ earlier ∈ before, ∀ node, (sh.fs.node (earlier ++ "/" ++ name)).1 = .ok node →
      node.program? = none)
    (offers : sh.fs.Offers dir name program) : sh.Finds name (.program program) := by
  refine .searched notOwn path (fun earlier hmem p hp => ?_) offers
  obtain ⟨place, node, -, -, hnode, hprogram⟩ := FileSystem.program?_eq_some_iff.1 hp.2
  rw [hno earlier hmem node hnode] at hprogram
  exact absurd hprogram (by simp)

/-- A program is found, whatever the name, only where programs may be run. -/
theorem mayRun_of_resolveCommand {program : String}
    (h : (sh.resolveCommand name).1 = some (.program program)) : sh.MayRun name program := by
  have hat : ∃ dir ∈ sh.searchPath ++ [sh.cwd],
      (sh.fs.program? (Path.resolveFrom dir name)).1 = some program := by
    rw [(resolveCommand_cases sh name).2] at h
    rcases Option.or_eq_some_iff.1 h with hown | ⟨-, h⟩
    · have htable := NameMap.mem_of_find? hown
      simp [Builtin.table] at htable
    rcases Option.or_eq_some_iff.1 h with hsearch | ⟨-, h⟩
    · obtain ⟨before, dir, after, hpath, hfound, -⟩ := List.findSome?_eq_some_iff.1 hsearch
      refine ⟨dir, by simp [hpath], ?_⟩
      unfold listed? at hfound
      cases hget : (sh.fs.get dir).1 with
      | error e =>
        rw [hget] at hfound
        exact absurd hfound (by simp)
      | ok entry =>
        rw [hget] at hfound
        by_cases hmem : name ∈ entry.children
        · simpa [hmem] using hfound
        · simp [hmem] at hfound
    · have hprogram : (sh.fs.program? (sh.resolvePath name)).1 = some program := by simpa using h
      exact ⟨sh.cwd, by simp, hprogram⟩
  obtain ⟨dir, hdir, hprogram⟩ := hat
  obtain ⟨place, node, hplace⟩ := FileSystem.program?_eq_some_iff.1 hprogram
  exact ⟨dir, place, node, hdir, hplace⟩

end Shell

/-! ### Lines -/

/-- A line whose command is not found leaves the shell `sh` and the timers as they were, but for the
status and the error line. -/
structure JobPoll.Missed {κ τ : Type} (p : JobPoll κ τ) (sh : Shell) (name : String)
    (timers : TimerQueue τ Waker) : Prop where
  code : p.progress = .ends (.ok 127)
  line : p.shell.host = sh.host.tell (.errorLine ("Command not found: " ++ name))
  /-- Every path shows what it showed. -/
  shown : ∀ path, (p.shell.fs.get path).1 = (sh.fs.get path).1
  /-- No node is made or changed; at most a remote volume has its tree now. -/
  viewed : sh.fs.Viewed p.shell.fs
  /-- Nothing is written to the store or to the disk. -/
  store : p.shell.fs.outside.store = sh.fs.outside.store
  disk : p.shell.fs.outside.disk = sh.fs.outside.disk
  sets : p.shell.fs.outside.sets = sh.fs.outside.sets
  status : p.shell.env.stored statusName = some "127"
  others : ∀ other, other ≠ statusName → p.shell.env.stored other = sh.env.stored other
  idle : p.shell.phase = .idle
  timers : p.timers = timers
  woken : p.woken = []

namespace Job

variable {κ τ : Type} [Zero τ] [Add τ] [LT τ] [DecidableLT τ]

/-- A line whose command is not found. -/
theorem missed_poll (programs : Programs κ τ) (id : Nat) {line : CommandLine} {name : String}
    {args : List String} (hargs : line.args = name :: args) {sh : Shell}
    (timers : TimerQueue τ Waker)
    (h : ({ sh with env := sh.env.pushScope line.exports }.resolveCommand name).1 = none) :
    (poll programs id (.accepted line) sh timers).Missed sh name timers ∧
      ∀ call ∈ pollCalls programs id (.accepted line) sh timers, call.looks = true := by
  obtain ⟨⟨fs, hview, hafter⟩, -⟩ :=
    Shell.resolveCommand_cases { sh with env := sh.env.pushScope line.exports } name
  have hresolve : { sh with env := sh.env.pushScope line.exports }.resolveCommand name =
      (none, { sh with env := sh.env.pushScope line.exports, fs }) := Prod.ext h hafter
  have hpoll : poll programs id (.accepted line) sh timers =
      { progress := .ends (.ok 127)
        shell := ({ sh with
            env := sh.env.pushScope line.exports
            fs
            host := sh.host.tell (.errorLine ("Command not found: " ++ name))
            }.popScope.leave).setStatus 127
        timers
        woken := [] } := by
    cases line
    cases hargs
    simp only [poll, commence, hresolve]
    rfl
  have hbuilding : line.building? sh = none := by
    rw [CommandLine.building?_cons hargs, hresolve]
  have hcalls : pollCalls programs id (.accepted line) sh timers = line.lookups sh := by
    rw [pollCalls, commenceCalls, CommandLine.preparations, hbuilding, hargs]
    simp only [hresolve, CommandLine.openings, List.append_nil]
  refine ⟨?_, fun call hcall => CommandLine.looks_of_mem_lookups (hcalls ▸ hcall)⟩
  rw [hpoll]
  -- looking the name up may have fetched a tree, but nothing else outside has changed
  obtain ⟨asked, hlike⟩ := hview.outside
  have hstore : fs.outside.store = sh.fs.outside.store := by rw [hlike]
  have hdisk : fs.outside.disk = sh.fs.outside.disk := by rw [hlike]
  have hsets : fs.outside.sets = sh.fs.outside.sets := by rw [hlike]
  refine ⟨rfl, rfl, fun path => hview.get_fst path, hview, hstore, hdisk, hsets, ?_,
    fun other hother => ?_, rfl, rfl, rfl⟩
  · exact Environment.stored_set_self _ _ _
  · refine (Environment.stored_set_of_ne _ hother _).trans ?_
    refine (Environment.stored_popScope_setAll sh.env line.exports [] other).trans ?_
    unfold Environment.valueAfter
    exact ite_self _

/-- A line whose command is found. -/
theorem poll_of_found (programs : Programs κ τ) (id : Nat) {line : CommandLine} {name : String}
    {args : List String} (hargs : line.args = name :: args) {sh : Shell}
    (timers : TimerQueue τ Waker) {command : Command}
    (h : ({ sh with env := sh.env.pushScope line.exports }.resolveCommand name).1 = some command) :
    ∃ fs, sh.fs.Viewed fs ∧ poll programs id (.accepted line) sh timers =
      runCommand programs id command name args line.redirections
        { sh with env := sh.env.pushScope line.exports, fs } timers := by
  obtain ⟨⟨fs, hview, hafter⟩, -⟩ :=
    Shell.resolveCommand_cases { sh with env := sh.env.pushScope line.exports } name
  have hresolve : { sh with env := sh.env.pushScope line.exports }.resolveCommand name =
      (some command, { sh with env := sh.env.pushScope line.exports, fs }) := Prod.ext h hafter
  refine ⟨fs, hview, ?_⟩
  cases line
  cases hargs
  simp only [poll, commence, hresolve]

/-- A line that names a command, polled for the first time, with its assignments in force.

If the name can be a segment, the line runs the command that the name stands for, which is one at
most: the shell's own; or the program of that name in the first directory of the search path that
has one; or the one in the working directory.  Files of that name that are no programs hide none in
a later directory.  If the name stands for nothing, the line ends with code 127 and one error line,
does nothing to the filesystem but look paths up, so that no redirection is opened, and changes
nothing but the status.

Whatever the name, a program that is run is one of that name, and it lies on a mount from which
programs may be run. -/
theorem command_lookup (programs : Programs κ τ) (id : Nat) (line : CommandLine) {name : String}
    {args : List String} (hargs : line.args = name :: args) (sh : Shell)
    (timers : TimerQueue τ Waker) :
    let begun : Shell := { sh with env := sh.env.pushScope line.exports }
    let result := poll programs id (.accepted line) sh timers
    let Runs (command : Command) := ∃ fs, sh.fs.Viewed fs ∧
      result = runCommand programs id command name args line.redirections { begun with fs } timers
    (Path.IsSegment name →
      (∀ command, begun.Finds name command →
        Runs command ∧ ∀ other, begun.Finds name other → other = command) ∧
      ((∀ command, ¬ begun.Finds name command) →
        result.Missed sh name timers ∧
          FileCall.Leads sh.fs (pollCalls programs id (.accepted line) sh timers) result.shell.fs ∧
          ∀ call ∈ pollCalls programs id (.accepted line) sh timers, call.looks = true) ∧
      (∀ before dir after program, NameMap.find? name Builtin.table = none →
        begun.searchPath = before ++ dir :: after →
        (∀ earlier ∈ before, ∀ node, (sh.fs.node (earlier ++ "/" ++ name)).1 = .ok node →
          node.program? = none) →
        sh.fs.Offers dir name program → begun.Finds name (.program program))) ∧
    ((∃ command, Runs command ∧
        ∀ program, command = .program program → begun.MayRun name program) ∨
      result.Missed sh name timers) := by
  intro begun result Runs
  have hruns : ∀ command, (begun.resolveCommand name).1 = some command → Runs command :=
    fun command h => poll_of_found programs id hargs timers h
  refine ⟨fun hname => ⟨fun command hfinds => ?_, fun hnothing => ?_, ?_⟩, ?_⟩
  · have hfound := (Shell.finds_iff_resolveCommand hname).1 hfinds
    refine ⟨hruns command hfound, fun other hother => ?_⟩
    have hother := (Shell.finds_iff_resolveCommand hname).1 hother
    exact Option.some.inj (hother.symm.trans hfound)
  · have hnone : (begun.resolveCommand name).1 = none :=
      Option.eq_none_iff_forall_not_mem.2 fun command hfound =>
        hnothing command ((Shell.finds_iff_resolveCommand hname).2 hfound)
    obtain ⟨hmissed, hlooks⟩ := missed_poll programs id hargs timers hnone
    exact ⟨hmissed, leads_poll_accepted programs id line sh timers, hlooks⟩
  · exact fun before dir after program notOwn path hno offers =>
      Shell.Finds.of_no_program notOwn path hno offers
  · cases hresolve : (begun.resolveCommand name).1 with
    | none => exact .inr (missed_poll programs id hargs timers hresolve).1
    | some command =>
      refine .inl ⟨command, hruns command hresolve, ?_⟩
      rintro program rfl
      exact Shell.mayRun_of_resolveCommand hresolve

/-- A shell that has a text called `run` in `/a`, a program of that name in `/w/b`, from where no
programs may be run, and one in `/c`. -/
def lookupShell : Shell where
  env := .ofList [("PWD", "/w")]
  fs := (FileSystem.mount {}
    { device := "none", mountPoint := "/", typeName := "jfs", options := "" }
    (.supplied (.dir [("a", .dir [("run", .text "run")]), ("c", .dir [("run", .program "late")]),
      ("w", .dir [("run", .program "here")])]))).mount
    { device := "none", mountPoint := "/w/b", typeName := "jfs", options := "noexec" }
    (.supplied (.dir [("run", .program "early")]))
  draws := .ofSeed 0

/-- With a search path for the line only, the first directory that has a program is the last; a name
that stands for nothing leaves its redirection alone. -/
theorem command_lookup_shadowed :
    let programs := Stock.programs []
    let line := (CommandLine.parse lookupShell.env "PATH=/a::b:../c run x" lookupShell.draws).1
    let missing := (CommandLine.parse lookupShell.env "PATH=/a nope > o" lookupShell.draws).1
    let begun : Shell := { lookupShell with env := lookupShell.env.pushScope line.exports }
    Path.IsSegment "run" ∧ line.args = ["run", "x"] ∧ begun.searchPath = ["/a", "/w/b", "/c"] ∧
      (∃ fs, lookupShell.fs.Viewed fs ∧
        poll programs 0 (.accepted line) lookupShell .empty =
          runCommand programs 0 (.program "late") "run" ["x"] [] { begun with fs } .empty) ∧
      Path.IsSegment "nope" ∧ missing.args = ["nope"] ∧ missing.redirections.length = 1 ∧
      (poll programs 0 (.accepted missing) lookupShell .empty).Missed lookupShell "nope" .empty ∧
      ∀ call ∈ pollCalls programs 0 (.accepted missing) lookupShell .empty, call.looks = true := by
  intro programs line missing begun
  have hrun : Path.IsSegment "run" := by decide +kernel
  have hnope : Path.IsSegment "nope" := by decide +kernel
  have hargs : line.args = ["run", "x"] := by decide +kernel
  have hmissing : missing.args = ["nope"] := by decide +kernel
  have hfinds : begun.Finds "run" (.program "late") :=
    (Shell.finds_iff_resolveCommand hrun).2 (by decide +kernel)
  have hnothing : ∀ command, ¬ Shell.Finds { lookupShell with
      env := lookupShell.env.pushScope missing.exports } "nope" command := by
    intro command hcommand
    have hfound := (Shell.finds_iff_resolveCommand hnope).1 hcommand
    have hnone : (Shell.resolveCommand { lookupShell with
      env := lookupShell.env.pushScope missing.exports } "nope").1 = none := by decide +kernel
    rw [hnone] at hfound
    exact absurd hfound (by simp)
  obtain ⟨hfound, -⟩ := command_lookup programs 0 line hargs lookupShell .empty
  obtain ⟨hlost, -⟩ := command_lookup programs 0 missing hmissing lookupShell .empty
  obtain ⟨hcalls, -, -⟩ := hfound hrun
  obtain ⟨-, hmissed, -⟩ := hlost hnope
  obtain ⟨hmissed, -, hlooks⟩ := hmissed hnothing
  have hredirections : line.redirections = [] := by decide +kernel
  refine ⟨hrun, hargs, by decide +kernel, ?_, hnope, hmissing, by decide +kernel, hmissed, hlooks⟩
  rw [← hredirections]
  exact (hcalls _ hfinds).1

end Job

end MountShell
