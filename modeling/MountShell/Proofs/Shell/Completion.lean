import MountShell.Proofs.FileSystem.Listing
import MountShell.Proofs.Shell.Lookup

/-!
# Completions of a line

The candidates for the first word of a line are the names of the commands that can be called by
their bare names (`Shell.Callable`).  Those for a later word are made of texts again: the directory
as it is written, and a child of it.  Such a text leads back to the child it was made of, whatever
the directory looks like, since both are taken from the same place (`segmentsOf_resolveFrom_child`).

Main statement: `completions_run`, which texts are candidates, and what is found at them.
-/

namespace MountShell

namespace Text

/-- A text starts with another just when its characters do. -/
theorem startsWith_iff (head s : String) :
    startsWith head s = true ↔ head.toList <+: s.toList := by
  unfold startsWith
  rw [Option.isSome_iff_exists]
  exact exists_congr fun rest => dropHead?_eq_some_iff.trans eq_comm

/-- Where a character occurs, it occurs for a last time. -/
theorem exists_last_of_mem {sep : Char} {cs : List Char} (h : sep ∈ cs) :
    ∃ before after, cs = before ++ sep :: after ∧ sep ∉ after := by
  obtain ⟨after, before, heq, hnot⟩ := List.eq_append_cons_of_mem (List.mem_reverse.2 h)
  refine ⟨before.reverse, after.reverse, ?_, fun hmem => hnot (List.mem_reverse.1 hmem)⟩
  have hback := congrArg List.reverse heq
  rw [List.reverse_reverse] at hback
  rw [hback]
  simp

theorem splitLast_eq_some_iff {s before after : String} {sep : Char} :
    splitLast sep s = some (before, after) ↔
      s = before ++ String.singleton sep ++ after ∧ sep ∉ after.toList := by
  have hchars : s = before ++ String.singleton sep ++ after ↔
      s.toList = before.toList ++ sep :: after.toList := by
    rw [← String.toList_inj]
    simp
  unfold splitLast
  rw [hchars, ← splitLastChars_eq_some_iff]
  cases splitLastChars sep s.toList with
  | none => simp
  | some pair => simp [Prod.ext_iff, ← String.toList_inj]

theorem splitLast_eq_none_iff {s : String} {sep : Char} :
    splitLast sep s = none ↔ sep ∉ s.toList := by
  unfold splitLast
  rw [Option.map_eq_none_iff, Option.eq_none_iff_forall_ne_some]
  constructor
  · intro h hmem
    obtain ⟨before, after, hs⟩ := exists_last_of_mem hmem
    exact h (before, after) (splitLastChars_eq_some_iff.2 hs)
  · rintro h ⟨before, after⟩ heq
    rw [(splitLastChars_eq_some_iff.1 heq).1] at h
    exact h (by simp)

/-- What is put before two texts does not change their order. -/
theorem bytes_append_lt (front : String) {s t : String} (h : bytes s < bytes t) :
    bytes (front ++ s) < bytes (front ++ t) := by
  rw [bytes_eq_flatMap, bytes_eq_flatMap] at h ⊢
  rw [String.toList_append, String.toList_append, List.flatMap_append, List.flatMap_append]
  exact List.append_left_lt h

end Text

namespace Path

/-- A slash behind a path changes nothing. -/
theorem segmentsOf_append_slash (path : String) : segmentsOf (path ++ "/") = segmentsOf path := by
  have h := segmentsOf_append path ""
  rw [String.append_empty] at h
  exact h

/-- What stands behind a slash counts from what stands before it, which may be nothing. -/
theorem exists_resolveFrom_append (cwd outer : String) :
    ∃ whole, ∀ more, resolveFrom cwd (outer ++ "/" ++ more) = resolve (whole ++ "/" ++ more) := by
  by_cases hempty : outer = ""
  · refine ⟨"", fun more => ?_⟩
    have habsolute : isAbsolute ("" ++ "/" ++ more) = true :=
      (isAbsolute_iff _).2 ⟨more.toList, by simp⟩
    rw [hempty, resolveFrom, if_pos habsolute]
  · obtain ⟨whole, -, hmore⟩ := exists_resolveFrom_eq cwd outer
    exact ⟨whole, fun more => hmore more hempty⟩

/-- A name behind a directory, which is the working directory or is written with a slash at its end,
is one more segment. -/
theorem segmentsOf_resolveFrom_child (cwd : String) {dir child : String}
    (hdir : dir = "" ∨ ∃ outer, dir = outer ++ "/") (hchild : IsSegment child) :
    segmentsOf (resolveFrom cwd (dir ++ child)) =
      segmentsOf (resolveFrom cwd (if dir = "" then "." else dir)) ++ [child] := by
  rcases hdir with rfl | ⟨outer, rfl⟩
  · have hhere : segmentsOf (resolveFrom cwd ".") = segmentsOf cwd := by
      have hrelative : isAbsolute "." = false := by decide
      rw [resolveFrom, hrelative, if_neg Bool.false_ne_true, segmentsOf_resolve, segmentsOf_append]
      rfl
    rw [if_pos rfl, hhere, String.empty_append, segmentsOf_resolveFrom cwd hchild,
      segmentsOf_join cwd hchild]
  · have hne : outer ++ "/" ≠ "" := fun heq => by
      have hchars := congrArg String.toList heq
      simp at hchars
    obtain ⟨whole, hwhole⟩ := exists_resolveFrom_append cwd outer
    have hdirectory := hwhole ""
    rw [String.append_empty, String.append_empty] at hdirectory
    rw [if_neg hne, hwhole, hdirectory, segmentsOf_resolve, segmentsOf_resolve,
      segmentsOf_join whole hchild, segmentsOf_append_slash]

end Path

/-- What a path shows is told by its segments. -/
theorem FileSystem.get_congr (fs : FileSystem) {path other : String}
    (h : Path.segmentsOf other = Path.segmentsOf path) : (fs.get other).1 = (fs.get path).1 := by
  rw [get_fst, get_fst, node_fst, node_fst, locate_congr rfl h, Path.resolve, Path.resolve, h]

/-- Looking something up takes no tree away. -/
theorem FileSystem.Rooted.get {fs : FileSystem} (h : fs.Rooted) (path : String) :
    (fs.get path).2.Rooted := by
  have hafter := FileSystemUse.forall_perform (u := { fs }) Volume.lasting_rooted h (.get path)
  rw [FileSystemUse.perform] at hafter
  exact hafter

namespace Shell

/-! ### Command names -/

/-- The name stands for a command of the shell itself, or for a program that a directory of the
search path lists. -/
inductive Callable (sh : Shell) (name : String) : Prop
  | builtin {command : Command} (own : NameMap.find? name Builtin.table = some command)
  | listed {dir program : String} {entry : Entry} (searched : dir ∈ sh.searchPath)
      (there : (sh.fs.get dir).1 = .ok entry) (child : name ∈ entry.children)
      (runs : (sh.fs.program? (Path.resolveFrom dir name)).1 = some program)

theorem ordered_addPrograms {found : List (String × Command)} (h : NameMap.Ordered found)
    (dir : String) (names : List String) (fs : FileSystem) :
    NameMap.Ordered (addPrograms dir names found fs).1 := by
  induction names generalizing found fs with
  | nil => exact h
  | cons name names ih =>
    rw [addPrograms]
    by_cases hfound : NameMap.contains name found = true
    · rw [if_pos hfound]
      exact ih h fs
    · rw [if_neg hfound]
      rcases fs.program? (Path.resolveFrom dir name) with ⟨_ | program, later⟩
      · exact ih h later
      · exact ih (h.insert name _) later

theorem ordered_addDirectories {found : List (String × Command)} (h : NameMap.Ordered found)
    (cwd : String) (dirs : List String) (fs : FileSystem) :
    NameMap.Ordered (addDirectories cwd dirs found fs).1 := by
  induction dirs generalizing found fs with
  | nil => exact h
  | cons dir dirs ih =>
    rw [addDirectories]
    rcases fs.get (Path.resolveFrom cwd dir) with ⟨e | entry, later⟩
    · exact ih h later
    · exact ih (ordered_addPrograms h _ entry.children later) _

variable {sh : Shell} {name line dir start : String}

/-- The commands are listed in the order of their names. -/
theorem ordered_commands (sh : Shell) : NameMap.Ordered sh.commands.1 := by
  have htable : NameMap.Ordered Builtin.table := by
    unfold NameMap.Ordered
    decide
  exact ordered_addDirectories htable sh.cwd _ sh.fs

/-- A directory has a command under a name if it lists the name, and there is a program there. -/
theorem exists_listed?_iff {fs : FileSystem} : (∃ command, listed? fs name dir = some command) ↔
    ∃ entry program, (fs.get dir).1 = .ok entry ∧ name ∈ entry.children ∧
      (fs.program? (Path.resolveFrom dir name)).1 = some program := by
  unfold listed?
  cases (fs.get dir).1 with
  | error e => simp
  | ok entry =>
    by_cases hchild : name ∈ entry.children
    · simp [hchild]
    · simp [hchild]

theorem callable_iff_exists : sh.Callable name ↔
    (∃ command, NameMap.find? name Builtin.table = some command) ∨
      ∃ dir ∈ sh.searchPath, ∃ command, listed? sh.fs name dir = some command := by
  constructor
  · rintro (hown | ⟨hdir, hget, hchild, hprogram⟩)
    · exact .inl ⟨_, hown⟩
    · exact .inr ⟨_, hdir, exists_listed?_iff.2 ⟨_, _, hget, hchild, hprogram⟩⟩
  · rintro (⟨command, hown⟩ | ⟨dir, hdir, hlisted⟩)
    · exact .builtin hown
    · obtain ⟨entry, program, hget, hchild, hprogram⟩ := exists_listed?_iff.1 hlisted
      exact .listed hdir hget hchild hprogram

/-- A name that can be a segment is called from the search path just when a directory there has a
program of that name. -/
theorem callable_iff_offers (hname : Path.IsSegment name) :
    sh.Callable name ↔ (∃ command, NameMap.find? name Builtin.table = some command) ∨
      ∃ dir ∈ sh.searchPath, ∃ program, sh.fs.Offers dir name program := by
  rw [callable_iff_exists]
  simp only [listed?_eq_some_iff hname, exists_comm (α := Command), exists_eq_left]

/-- The commands are those that can be called by their bare names. -/
theorem mem_names_commands_iff : name ∈ NameMap.names sh.commands.1 ↔ sh.Callable name := by
  have hfound : NameMap.find? name sh.commands.1 = (NameMap.find? name Builtin.table).or
      (sh.searchPath.findSome? (listed? sh.fs name)) :=
    (find?_addDirectories (.refl sh.fs) sh.cwd _ Builtin.table).2 name
  rw [← NameMap.contains_iff_mem_names, NameMap.contains, hfound, callable_iff_exists,
    Option.isSome_or, Bool.or_eq_true, Option.isSome_iff_exists, List.isSome_findSome?,
    List.any_eq_true]
  simp only [Option.isSome_iff_exists]

/-! ### The last word -/

/-- Behind the last space of the line stand a directory, which is empty or ends in the last slash of
the word, and the start of a name. -/
structure LastWord (line dir start : String) : Prop where
  behind : ∃ front, line = front ++ " " ++ (dir ++ start)
  word : ' ' ∉ (dir ++ start).toList
  closed : dir = "" ∨ ∃ outer, dir = outer ++ "/"
  name : '/' ∉ start.toList

/-- A line that is not one word has a last one. -/
theorem exists_lastWord (h : ' ' ∈ line.toList) : ∃ dir start, LastWord line dir start := by
  obtain ⟨front, word, hline, hspace⟩ := Text.exists_last_of_mem h
  by_cases hslash : '/' ∈ word
  · obtain ⟨outer, start, rfl, hstart⟩ := Text.exists_last_of_mem hslash
    refine ⟨String.ofList outer ++ "/", String.ofList start, ⟨String.ofList front, ?_⟩, ?_,
      .inr ⟨_, rfl⟩, ?_⟩
    · exact String.toList_inj.1 (by simp [hline])
    · simpa using hspace
    · simpa using hstart
  · refine ⟨"", String.ofList word, ⟨String.ofList front, ?_⟩, ?_, .inl rfl, ?_⟩
    · exact String.toList_inj.1 (by simp [hline])
    · simpa using hspace
    · simpa using hslash

/-- The candidates for a word behind others. -/
theorem completions_of_lastWord (h : LastWord (Text.trimStart line) dir start) :
    sh.completions line =
      match sh.getPath (if dir = "" then "." else dir) with
      | (.error _, sh) => ([], sh)
      | (.ok entry, sh) =>
        ((entry.children.filter fun name => Text.startsWith start name).map (dir ++ ·), sh) := by
  obtain ⟨⟨front, hline⟩, hspace, hclosed, hslash⟩ := h
  have hword : Text.splitLast ' ' (Text.trimStart line) = some (front, dir ++ start) :=
    Text.splitLast_eq_some_iff.2 ⟨hline, hspace⟩
  unfold completions
  simp only [hword]
  rcases hclosed with rfl | ⟨outer, rfl⟩
  · have hcut : Text.splitLast '/' start = none := Text.splitLast_eq_none_iff.2 hslash
    rw [String.empty_append]
    exact hcut ▸ rfl
  · have hcut : Text.splitLast '/' (outer ++ "/" ++ start) = some (outer, start) :=
      Text.splitLast_eq_some_iff.2 ⟨rfl, hslash⟩
    exact hcut ▸ rfl

/-- The candidates for a first word. -/
theorem completions_of_first (h : ' ' ∉ (Text.trimStart line).toList) :
    sh.completions line = ((NameMap.names sh.commands.1).filter fun name =>
      Text.startsWith (Text.trimStart line) name, sh.commands.2) := by
  unfold completions
  simp only [Text.splitLast_eq_none_iff.2 h]

/-! ### Candidates -/

theorem getPath_fst (sh : Shell) (path : String) :
    (sh.getPath path).1 = (sh.fs.get (sh.resolvePath path)).1.mapError .ofFsError := by
  unfold getPath
  rcases sh.fs.get (sh.resolvePath path) with ⟨e | entry, fs⟩ <;> rfl

theorem getPath_eq_ok_iff {path : String} {entry : Entry} {later : Shell} :
    sh.getPath path = (.ok entry, later) ↔
      ∃ fs, sh.fs.get (sh.resolvePath path) = (.ok entry, fs) ∧ later = { sh with fs } := by
  unfold getPath
  rcases sh.fs.get (sh.resolvePath path) with ⟨e | found, fs⟩ <;> simp [eq_comm]

/-- The candidates behind other words. -/
theorem mem_completions_iff (sh : Shell) (h : LastWord (Text.trimStart line) dir start)
    (candidate : String) :
    candidate ∈ (sh.completions line).1 ↔
      ∃ entry, (sh.getPath (if dir = "" then "." else dir)).1 = .ok entry ∧
        ∃ child ∈ entry.children, start.toList <+: child.toList ∧ candidate = dir ++ child := by
  rw [completions_of_lastWord h]
  rcases sh.getPath (if dir = "" then "." else dir) with ⟨e | entry, later⟩
  · simp
  · simp only [List.mem_map, List.mem_filter, Text.startsWith_iff, Except.ok.injEq,
      exists_eq_left', and_assoc]
    simp only [eq_comm]

theorem completions_snd (h : LastWord (Text.trimStart line) dir start) :
    (sh.completions line).2 = (sh.getPath (if dir = "" then "." else dir)).2 := by
  rw [completions_of_lastWord h]
  rcases sh.getPath (if dir = "" then "." else dir) with ⟨e | entry, later⟩ <;> rfl

/-- The candidates increase strictly, byte by byte. -/
theorem pairwise_completions (htabled : FileSystem.Tabled sh.fs.mounts) (line : String) :
    (sh.completions line).1.Pairwise fun a b => Text.bytes a < Text.bytes b := by
  by_cases hspace : ' ' ∈ (Text.trimStart line).toList
  · obtain ⟨dir, start, hword⟩ := exists_lastWord hspace
    rw [completions_of_lastWord hword]
    rcases hpath : sh.getPath (if dir = "" then "." else dir) with ⟨e | entry, later⟩
    · exact List.Pairwise.nil
    · obtain ⟨fs, hget, -⟩ := getPath_eq_ok_iff.1 hpath
      have hchildren := (htabled.pairwise_children hget).filter fun name =>
        Text.startsWith start name
      exact List.pairwise_map.2 (hchildren.imp fun hlt => Text.bytes_append_lt dir hlt)
  · rw [completions_of_first hspace]
    have hnames := (NameMap.ordered_iff_pairwise_names _).1 sh.ordered_commands
    exact (hnames.filter _).imp fun hlt => (Text.lt_iff_bytes_lt _ _).1 hlt

/-- At the path something is found, unless a mount lies right there whose tree cannot be fetched. -/
def Leads (sh : Shell) (path : String) : Prop :=
  (∃ entry, (sh.getPath path).1 = .ok entry) ∨
    ∃ e, (sh.getPath path).1 = .error (.ofFsError (.fetch e)) ∧
      ∃ m ∈ sh.fs.mounts, m.point = Path.segmentsOf (sh.resolvePath path) ∧
        (sh.fs.volume m.volume).isRemote = true ∧ (sh.fs.volume m.volume).root = none

/-- A child that is listed is found where its text leads to. -/
theorem leads_child (htabled : FileSystem.Tabled sh.fs.mounts)
    (hbelow : ∀ m ∈ sh.fs.mounts, m.volume < sh.fs.volumes.length) (hrooted : sh.fs.Rooted)
    {entry : Entry} {later : Shell}
    (hclosed : dir = "" ∨ ∃ outer, dir = outer ++ "/")
    (hpath : sh.getPath (if dir = "" then "." else dir) = (.ok entry, later)) {child : String}
    (hchild : Path.IsSegment child) (hlisted : child ∈ entry.children) (outside : Outside) :
    Leads { later with fs := { later.fs with outside } } (dir ++ child) := by
  obtain ⟨fs, hget, rfl⟩ := getPath_eq_ok_iff.1 hpath
  have hlater : fs.Rooted := by
    have hafter := hrooted.get (sh.resolvePath (if dir = "" then "." else dir))
    rwa [hget] at hafter
  obtain ⟨hfound, hpoint⟩ := htabled.mem_children_iff hbelow hlater hget
    (Entry.isDirectory_of_mem_children hlisted) hchild outside
  have hsegments := Path.segmentsOf_resolveFrom_child sh.cwd hclosed hchild
  have hsame := FileSystem.get_congr { fs with outside }
    (hsegments.trans (Path.segmentsOf_join _ hchild).symm)
  unfold Leads
  rw [getPath_fst]
  rcases hfound.1 hlisted with ⟨shown, hok⟩ | ⟨e, hfetch⟩
  · exact .inl ⟨shown, congrArg (Except.mapError ShellError.ofFsError) (hsame.trans hok)⟩
  · obtain ⟨m, hm, hat, hremote, hroot⟩ := hpoint e hfetch
    exact .inr ⟨e, congrArg (Except.mapError ShellError.ofFsError) (hsame.trans hfetch), m, hm,
      hat.trans hsegments.symm, hremote, hroot⟩

/-- Whatever is mounted and done before, the candidates for a line increase strictly, byte by byte.

For a line of one word they are the names that can be called bare and start with it; a name that can
be a segment is among these if the shell has a command of that name, or a directory of the search
path a program.  Any other line
ends in a directory, as it is written, and the start of a name: if the directory is one, the
candidates are the children of it that start so, with the directory as it is written before them,
and if it is none, there are no candidates.  At a candidate something is found, if its child is a
name that can be a segment, or a mount lies right there whose tree cannot be fetched. -/
theorem completions_run (entries : List FstabEntry) (devices : Devices) (o : Outside)
    (events : List FileSystemEvent) (hmounts : ∀ entry v, .mount entry v ∈ events → v.Rooted)
    (sh : Shell) (hfs : sh.fs = ((FileSystemUse.start entries devices o).run events).fs)
    (line : String) :
    let typed := Text.trimStart line
    let candidates := (sh.completions line).1
    let later := (sh.completions line).2
    (candidates.Pairwise fun a b => Text.bytes a < Text.bytes b) ∧
      (' ' ∉ typed.toList →
        ∀ name, (name ∈ candidates ↔ typed.toList <+: name.toList ∧ sh.Callable name) ∧
          (Path.IsSegment name → (sh.Callable name ↔
            (∃ command, NameMap.find? name Builtin.table = some command) ∨
              ∃ dir ∈ sh.searchPath, ∃ program, sh.fs.Offers dir name program))) ∧
      (' ' ∈ typed.toList → ∃ dir start, LastWord typed dir start) ∧
      ∀ dir start, LastWord typed dir start →
        let shown := (sh.getPath (if dir = "" then "." else dir)).1
        (∀ entry, shown = .ok entry → entry.isDirectory = true →
          ∀ candidate, candidate ∈ candidates ↔
            ∃ child ∈ entry.children, start.toList <+: child.toList ∧ candidate = dir ++ child) ∧
        ((¬∃ entry, shown = .ok entry ∧ entry.isDirectory = true) → candidates = []) ∧
        (∀ candidate ∈ candidates, (dir ++ start).toList <+: candidate.toList) ∧
        ∀ child, Path.IsSegment child → dir ++ child ∈ candidates → ∀ outside,
          Leads { later with fs := { later.fs with outside } } (dir ++ child) := by
  intro typed candidates later
  have htabled : FileSystem.Tabled sh.fs.mounts :=
    hfs ▸ FileSystemUse.tabled_run (FileSystemUse.tabled_start entries devices o) events
  have hwell := (FileSystemUse.wellMounted_start entries devices o).run events
  have hrooted : sh.fs.Rooted := by
    have hstart := FileSystemUse.forall_start Volume.lasting_rooted entries devices o
    rw [hfs]
    exact FileSystemUse.forall_run Volume.lasting_rooted hstart hmounts
  refine ⟨pairwise_completions htabled line, fun hfirst name => ⟨?_, callable_iff_offers⟩,
    exists_lastWord, fun dir start hword => ?_⟩
  · show name ∈ (sh.completions line).1 ↔ _
    rw [completions_of_first hfirst, List.mem_filter, mem_names_commands_iff, Text.startsWith_iff,
      and_comm]
  · have hmem := fun candidate => sh.mem_completions_iff hword candidate
    refine ⟨fun entry hentry _ candidate => ?_, fun hnone => ?_, fun candidate hcandidate => ?_,
      fun child hchild hcandidate outside => ?_⟩
    · rw [hmem, hentry]
      simp only [Except.ok.injEq, exists_eq_left']
    · refine List.eq_nil_iff_forall_not_mem.2 fun candidate hcandidate => hnone ?_
      obtain ⟨entry, hentry, child, hlisted, -⟩ := (hmem candidate).1 hcandidate
      exact ⟨entry, hentry, Entry.isDirectory_of_mem_children hlisted⟩
    · obtain ⟨-, -, child, -, hstart, rfl⟩ := (hmem candidate).1 hcandidate
      rw [String.toList_append, String.toList_append]
      exact (List.prefix_append_right_inj _).2 hstart
    · obtain ⟨entry, hentry, listed, hlisted, -, heq⟩ := (hmem _).1 hcandidate
      obtain rfl : child = listed := String.append_right_inj dir |>.1 heq
      have hlater : later = (sh.getPath (if dir = "" then "." else dir)).2 :=
        completions_snd hword
      rw [hlater]
      exact leads_child htabled (hfs ▸ hwell.below) hrooted hword.closed (Prod.ext hentry rfl)
        hchild hlisted outside

/-- A directory with a program, and one with scratch space over one of its files and a remote tree
beside it that cannot be fetched. -/
def halfReachable : List FileSystemEvent :=
  let point (path : String) : FstabEntry := { device := "d", mountPoint := path, typeName := "" }
  [.mount (point "/") (.supplied (.dir [("bin", .dir [("extra", .program "count")]),
      ("d", .dir [("m", .emptyFile), ("a", .emptyFile)])])),
    .mount (point "/d/m") .scratch, .mount (point "/d/r") (.remote "far")]

/-- A shell that works in the second of these directories and searches the first for programs. -/
def halfReachableShell : Shell where
  env := .ofList [("PATH", "../bin"), ("PWD", "/d")]
  fs := ((FileSystemUse.start [] {} {}).run halfReachable).fs
  draws := .ofSeed 0

/-- A first word is completed from the commands; a later one from a directory that is written with a
way up and more slashes than needed, and its candidates lead there. -/
theorem completions_run_half_reachable :
    (halfReachableShell.completions "\tex").1 = ["exit", "extra"] ∧
      halfReachableShell.Callable "extra" ∧
      (halfReachableShell.completions "ls ..//d/").1 = ["..//d/a", "..//d/m", "..//d/r"] ∧
      ∀ child ∈ ["a", "m", "r"], ∀ outside,
        let later := (halfReachableShell.completions "ls ..//d/").2
        Leads { later with fs := { later.fs with outside } } ("..//d/" ++ child) := by
  have hmounts : ∀ entry v, .mount entry v ∈ halfReachable → v.Rooted := by
    intro entry v hv
    simp only [halfReachable, List.mem_cons, List.not_mem_nil, or_false,
      FileSystemEvent.mount.injEq] at hv
    rcases hv with ⟨-, rfl⟩ | ⟨-, rfl⟩ | ⟨-, rfl⟩
    · exact Volume.rooted_of_root rfl
    · exact Volume.rooted_of_root rfl
    · exact Volume.rooted_remote "far"
  have hfirst : (halfReachableShell.completions "\tex").1 = ["exit", "extra"] := by
    decide +kernel
  have hword : (halfReachableShell.completions "ls ..//d/").1 =
      ["..//d/a", "..//d/m", "..//d/r"] := by
    decide +kernel
  obtain ⟨-, hnames, -⟩ :=
    completions_run [] {} {} halfReachable hmounts halfReachableShell rfl "\tex"
  obtain ⟨-, -, -, hlast⟩ :=
    completions_run [] {} {} halfReachable hmounts halfReachableShell rfl "ls ..//d/"
  have hlastWord : LastWord (Text.trimStart "ls ..//d/") "..//d/" "" :=
    ⟨⟨"ls", by decide⟩, by decide, .inr ⟨"..//d", by decide⟩, by decide⟩
  refine ⟨hfirst, ?_, hword, fun child hchild => ?_⟩
  · have hmem : "extra" ∈ (halfReachableShell.completions "\tex").1 := by
      rw [hfirst]
      decide
    exact ((hnames (by decide) "extra").1.1 hmem).2
  · have hmem : Path.IsSegment child ∧
        "..//d/" ++ child ∈ (halfReachableShell.completions "ls ..//d/").1 := by
      rw [hword]
      revert child
      decide
    exact (hlast _ _ hlastWord).2.2.2 child hmem.1 hmem.2

end Shell

end MountShell
