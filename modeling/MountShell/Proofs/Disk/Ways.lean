import MountShell.Disk

/-!
# Ways through the disk

The pieces of a path lead from one place of the disk to another, each to one below or above
(`Disk.Leads`).  The path of a name in a directory leads to the directory and takes one step more
(`leads_inside_iff`), and a file that is put into a directory closes no way that led to a directory
before (`Leads.put`).
-/

namespace MountShell

namespace DiskNode

/-! ### Putting a node into a directory -/

/-- No names lead nowhere. -/
theorem at?_nil (node : DiskNode) : node.at? [] = some node := by
  cases node <;> rfl

/-- Nothing lies below a file. -/
theorem at?_file_cons (body name : String) (names : List String) :
    (file body).at? (name :: names) = none :=
  rfl

/-- The first name leads to an entry, and the others from there. -/
theorem at?_directory_cons (entries : List (String × DiskNode)) (name : String)
    (names : List String) :
    (directory entries).at? (name :: names) =
      (NameMap.find? name entries).bind fun node => node.at? names := by
  rw [at?]
  cases NameMap.find? name entries <;> rfl

/-- Names are followed one part after the other. -/
theorem at?_append (node : DiskNode) (names more : List String) :
    node.at? (names ++ more) = (node.at? names).bind fun found => found.at? more := by
  induction names generalizing node with
  | nil => rw [List.nil_append, at?_nil, Option.bind_some]
  | cons name names ih =>
    cases node with
    | file body => rfl
    | directory entries =>
      rw [List.cons_append, at?_directory_cons, at?_directory_cons]
      cases NameMap.find? name entries with
      | none => rfl
      | some node => exact ih node

/-- The file is in its directory once it has been put there. -/
theorem at?_put {node : DiskNode} {place : List String} {entries : List (String × DiskNode)}
    (h : node.at? place = some (directory entries)) (name body : String) :
    (node.put (place ++ [name]) (file body)).at? place =
      some (directory (NameMap.insert name (file body) entries)) := by
  induction place generalizing node with
  | nil =>
    rw [at?_nil] at h
    obtain rfl : node = directory entries := Option.some.inj h
    rw [List.nil_append, put]
    cases hfind : NameMap.find? name entries with
    | none => exact at?_nil _
    | some old => cases old <;> exact at?_nil _
  | cons first place ih =>
    cases node with
    | file text => exact absurd h (by simp [at?_file_cons])
    | directory own =>
      rw [at?_directory_cons] at h
      cases hfind : NameMap.find? first own with
      | none => exact absurd h (by simp [hfind])
      | some below =>
        rw [hfind] at h
        have hbelow := ih h
        rw [List.cons_append, put, hfind, at?_directory_cons, NameMap.find?_insert, if_pos rfl]
        exact hbelow

/-- An insertion keeps the names. -/
theorem contains_insert {name other : String} (new : DiskNode)
    {entries : List (String × DiskNode)} (h : NameMap.contains other entries = true) :
    NameMap.contains other (NameMap.insert name new entries) = true := by
  rw [NameMap.contains, NameMap.find?_insert]
  by_cases heq : name = other
  · rw [if_pos heq]
    rfl
  · rw [if_neg heq]
    exact h

/-- A file that is put into a directory leaves every directory one, with all the names in it. -/
theorem at?_put_of_directory {node : DiskNode} {place other : List String} {name : String}
    {entries own : List (String × DiskNode)} (h : node.at? place = some (directory entries))
    (hname : ∀ inner, NameMap.find? name entries ≠ some (directory inner))
    (hother : node.at? other = some (directory own)) (body : String) :
    ∃ after, (node.put (place ++ [name]) (file body)).at? other = some (directory after) ∧
      ∀ key, NameMap.contains key own = true → NameMap.contains key after = true := by
  -- The induction goes down to the directory with the file; the other way follows it for a while,
  -- and then it is not touched.
  induction place generalizing node other with
  | nil =>
    rw [at?_nil] at h
    obtain rfl : node = directory entries := Option.some.inj h
    have hput : (directory entries).put [name] (file body) =
        directory (NameMap.insert name (file body) entries) := by
      rw [put]
      cases hfind : NameMap.find? name entries with
      | none => rfl
      | some old => cases old <;> rfl
    rw [List.nil_append, hput]
    cases other with
    | nil =>
      rw [at?_nil] at hother ⊢
      obtain rfl : entries = own := by simpa using hother
      exact ⟨_, rfl, fun key hkey => contains_insert _ hkey⟩
    | cons first rest =>
      rw [at?_directory_cons] at hother
      rw [at?_directory_cons, NameMap.find?_insert]
      by_cases heq : name = first
      · -- the way to the other directory would lead through a file
        subst heq
        cases hfind : NameMap.find? name entries with
        | none => exact absurd hother (by simp [hfind])
        | some old =>
          rw [hfind] at hother
          cases old with
          | directory inner => exact absurd hfind (hname inner)
          | file text =>
            cases rest with
            | nil => exact absurd hother (by simp [at?_nil])
            | cons => exact absurd hother (by simp [at?_file_cons])
      · rw [if_neg heq]
        exact ⟨own, hother, fun _ hkey => hkey⟩
  | cons first place ih =>
    cases node with
    | file text => exact absurd h (by simp [at?_file_cons])
    | directory above =>
      rw [at?_directory_cons] at h
      cases hfind : NameMap.find? first above with
      | none => exact absurd h (by simp [hfind])
      | some below =>
        rw [hfind] at h
        rw [List.cons_append, put, hfind]
        cases other with
        | nil =>
          rw [at?_nil] at hother ⊢
          obtain rfl : above = own := by simpa using hother
          exact ⟨_, rfl, fun key hkey => contains_insert _ hkey⟩
        | cons key rest =>
          rw [at?_directory_cons] at hother
          rw [at?_directory_cons, NameMap.find?_insert]
          by_cases heq : first = key
          · subst heq
            rw [hfind] at hother
            rw [if_pos rfl]
            exact ih h hother
          · rw [if_neg heq]
            exact ⟨own, hother, fun _ hkey => hkey⟩

end DiskNode

namespace Disk

/-! ### Ways through the disk -/

/-- The pieces of a path lead from one place to another. Of both the last name comes first. -/
def Leads (disk : Disk) (start pieces reached : List String) : Prop :=
  pieces.foldlM disk.walkStep start = .ok reached

/-- There is a directory with the given entries at the end of some names, the last of which comes
first. -/
def DirectoryAt (disk : Disk) (reached : List String) (entries : List (String × DiskNode)) : Prop :=
  disk.root.at? reached.reverse = some (.directory entries)

/-- No pieces lead nowhere. -/
theorem leads_nil (disk : Disk) (start reached : List String) :
    disk.Leads start [] reached ↔ reached = start := by
  rw [Leads, List.foldlM_nil]
  exact ⟨fun h => (Except.ok.inj h).symm, fun h => h ▸ rfl⟩

/-- The first piece is a step, and the others lead on. -/
theorem leads_cons (disk : Disk) (start reached : List String) (piece : String)
    (pieces : List String) :
    disk.Leads start (piece :: pieces) reached ↔
      ∃ next, disk.walkStep start piece = .ok next ∧ disk.Leads next pieces reached := by
  rw [Leads, List.foldlM_cons]
  cases hstep : disk.walkStep start piece with
  | error e =>
    refine ⟨fun h => absurd h (by simp [bind, Except.bind]), ?_⟩
    rintro ⟨next, hnext, -⟩
    exact absurd hnext (by simp)
  | ok next =>
    refine ⟨fun h => ⟨next, rfl, h⟩, ?_⟩
    rintro ⟨other, hother, h⟩
    obtain rfl := Except.ok.inj hother
    exact h

/-- Pieces lead on one part after the other. -/
theorem leads_append (disk : Disk) (start reached first second : List String) :
    disk.Leads start (first ++ second) reached ↔
      ∃ middle, disk.Leads start first middle ∧ disk.Leads middle second reached := by
  induction first generalizing start with
  | nil => simp [leads_nil]
  | cons piece first ih =>
    rw [List.cons_append, leads_cons]
    constructor
    · rintro ⟨next, hnext, h⟩
      obtain ⟨middle, hfirst, hsecond⟩ := (ih next).1 h
      exact ⟨middle, (leads_cons _ _ _ _ _).2 ⟨next, hnext, hfirst⟩, hsecond⟩
    · rintro ⟨middle, h, hsecond⟩
      obtain ⟨next, hnext, hfirst⟩ := (leads_cons _ _ _ _ _).1 h
      exact ⟨next, hnext, (ih next).2 ⟨middle, hfirst, hsecond⟩⟩

/-- A piece that is a name: not empty and neither `.` nor `..`. -/
def IsName (piece : String) : Prop :=
  ¬ (piece = "" ∨ piece = ".") ∧ piece ≠ ".."

/-- What one step along a path needs, and where it leads. -/
theorem walkStep_eq_ok_iff (disk : Disk) (reached next : List String) (piece : String) :
    disk.walkStep reached piece = .ok next ↔
      ∃ entries, disk.DirectoryAt reached entries ∧
        (((piece = "" ∨ piece = ".") ∧ next = reached) ∨
          (piece = ".." ∧ next = reached.tail) ∨
          (IsName piece ∧ piece.utf8ByteSize ≤ maxName ∧ NameMap.contains piece entries = true ∧
            next = piece :: reached)) := by
  unfold walkStep DirectoryAt
  cases hat : disk.root.at? reached.reverse with
  | none => simp
  | some node =>
    cases node with
    | file body => simp
    | directory entries =>
      simp only []
      -- The ways to read a piece exclude each other, so that in each case one disjunct is left.
      by_cases hskip : piece = "" ∨ piece = "."
      · rw [if_pos hskip]
        constructor
        · intro h
          exact ⟨entries, rfl, Or.inl ⟨hskip, (Except.ok.inj h).symm⟩⟩
        · rintro ⟨_, -, ⟨-, rfl⟩ | ⟨rfl, -⟩ | ⟨⟨hname, -⟩, -⟩⟩
          · rfl
          · exact absurd hskip (by decide)
          · exact absurd hskip hname
      rw [if_neg hskip]
      by_cases hup : piece = ".."
      · rw [if_pos hup]
        constructor
        · intro h
          exact ⟨entries, rfl, Or.inr (Or.inl ⟨hup, (Except.ok.inj h).symm⟩)⟩
        · rintro ⟨_, -, ⟨hblank, -⟩ | ⟨-, rfl⟩ | ⟨⟨-, hname⟩, -⟩⟩
          · exact absurd hblank hskip
          · rfl
          · exact absurd hup hname
      rw [if_neg hup]
      by_cases hlong : maxName < piece.utf8ByteSize
      · rw [if_pos hlong]
        refine ⟨fun h => absurd h (by simp), ?_⟩
        rintro ⟨_, -, ⟨hblank, -⟩ | ⟨hpiece, -⟩ | ⟨-, hshort, -⟩⟩
        · exact absurd hblank hskip
        · exact absurd hpiece hup
        · exact absurd hlong (Nat.not_lt.2 hshort)
      rw [if_neg hlong]
      have hshort : piece.utf8ByteSize ≤ maxName := Nat.not_lt.1 hlong
      by_cases hin : NameMap.contains piece entries = true
      · rw [if_pos hin]
        constructor
        · intro h
          have hnext : next = piece :: reached := (Except.ok.inj h).symm
          exact ⟨entries, rfl, Or.inr (Or.inr ⟨⟨hskip, hup⟩, hshort, hin, hnext⟩)⟩
        · rintro ⟨_, -, ⟨hblank, -⟩ | ⟨hpiece, -⟩ | ⟨-, -, -, rfl⟩⟩
          · exact absurd hblank hskip
          · exact absurd hpiece hup
          · rfl
      · rw [if_neg hin]
        refine ⟨fun h => absurd h (by simp), ?_⟩
        rintro ⟨own, hown, ⟨hblank, -⟩ | ⟨hpiece, -⟩ | ⟨-, -, hcontains, -⟩⟩
        · exact absurd hblank hskip
        · exact absurd hpiece hup
        · obtain rfl : entries = own := by simpa using hown
          exact absurd hcontains hin

/-- An empty piece leads nowhere else, but only out of a directory. -/
theorem leads_blank_iff (disk : Disk) (start reached : List String) :
    disk.Leads start [""] reached ↔
      reached = start ∧ ∃ entries, disk.DirectoryAt start entries := by
  rw [leads_cons]
  constructor
  · rintro ⟨next, hstep, hend⟩
    obtain rfl := (leads_nil _ _ _).1 hend
    obtain ⟨entries, hdir, ⟨-, rfl⟩ | ⟨hup, -⟩ | ⟨⟨hname, -⟩, -⟩⟩ :=
      (walkStep_eq_ok_iff _ _ _ _).1 hstep
    · exact ⟨rfl, entries, hdir⟩
    · exact absurd hup (by decide)
    · exact absurd (Or.inl rfl) hname
  · rintro ⟨rfl, entries, hdir⟩
    refine ⟨reached, (walkStep_eq_ok_iff _ _ _ _).2 ⟨entries, hdir, ?_⟩, (leads_nil _ _ _).2 rfl⟩
    exact Or.inl ⟨Or.inl rfl, rfl⟩

/-- A name leads to a node of that name in a directory. -/
theorem leads_name_iff (disk : Disk) {name : String} (hname : IsName name)
    (start reached : List String) :
    disk.Leads start [name] reached ↔
      ∃ entries, disk.DirectoryAt start entries ∧ name.utf8ByteSize ≤ maxName ∧
        NameMap.contains name entries = true ∧ reached = name :: start := by
  rw [leads_cons]
  constructor
  · rintro ⟨next, hstep, hend⟩
    obtain rfl := (leads_nil _ _ _).1 hend
    obtain ⟨entries, hdir, ⟨hblank, -⟩ | ⟨hup, -⟩ | ⟨-, hrest⟩⟩ :=
      (walkStep_eq_ok_iff _ _ _ _).1 hstep
    · exact absurd hblank hname.1
    · exact absurd hup hname.2
    · exact ⟨entries, hdir, hrest⟩
  · rintro ⟨entries, hdir, hrest⟩
    refine ⟨reached, (walkStep_eq_ok_iff _ _ _ _).2 ⟨entries, hdir, ?_⟩, (leads_nil _ _ _).2 rfl⟩
    exact Or.inr (Or.inr ⟨hname, hrest⟩)

/-! ### The path of a name in a directory -/

/-- A path ends with a slash if its last character is one. -/
theorem endsWith_slash_iff (dir : String) :
    dir.endsWith "/" = true ↔ ∃ front : List Char, front ++ ['/'] = dir.toList := by
  have hsuffix : dir.endsWith "/" = true ↔ "/".toList <:+ dir.toSlice.copy.toList :=
    String.Slice.endsWith_string_iff
  rw [hsuffix, String.copy_toSlice]
  rfl

/-- The pieces of the path are those of the directory, without an empty last one, and the name. -/
theorem split_inside {dir name : String} (hdir : dir ≠ "") (hname : '/' ∉ name.toList) :
    ∃ pieces, Text.split '/' (inside dir name) = pieces ++ [name] ∧
      (Text.split '/' dir = pieces ∨ Text.split '/' dir = pieces ++ [""]) := by
  unfold inside Text.split
  rw [if_neg hdir]
  have hlast : (Text.splitChars '/' name.toList).map String.ofList = [name] := by
    simp [Text.splitChars_of_not_mem hname]
  by_cases hslash : dir.endsWith "/" = true
  · rw [if_pos hslash]
    obtain ⟨front, hfront⟩ := (endsWith_slash_iff dir).1 hslash
    refine ⟨(Text.splitChars '/' front).map String.ofList, ?_, Or.inr ?_⟩
    · rw [String.toList_append, ← hfront, List.append_assoc, List.singleton_append,
        Text.splitChars_append_cons, List.map_append, hlast]
    · rw [← hfront, Text.splitChars_append_cons, List.map_append]
      rfl
  · rw [if_neg hslash]
    refine ⟨(Text.splitChars '/' dir.toList).map String.ofList, ?_, Or.inl rfl⟩
    have htext : (dir ++ "/" ++ name).toList = dir.toList ++ '/' :: name.toList := by simp
    rw [htext, Text.splitChars_append_cons, List.map_append, hlast]

/-- A path starts with a slash if its first character is one. -/
theorem startsWith_slash_iff (path : String) :
    Text.startsWith "/" path = true ↔ path.toList.head? = some '/' := by
  have htext : "/".toList = ['/'] := rfl
  rw [Text.startsWith, htext]
  cases path.toList with
  | nil => simp [Text.dropHead?]
  | cons c cs =>
    by_cases hc : '/' = c
    · simp [Text.dropHead?, ← hc]
    · simp [Text.dropHead?, hc, Ne.symm hc]

/-- The path of a file in a directory continues that of the directory. -/
theorem exists_toList_inside {dir : String} (hdir : dir ≠ "") (name : String) :
    ∃ more, (inside dir name).toList = dir.toList ++ more := by
  unfold inside
  rw [if_neg hdir]
  by_cases hslash : dir.endsWith "/" = true
  · exact ⟨name.toList, by simp [hslash]⟩
  · exact ⟨'/' :: name.toList, by simp [hslash]⟩

/-- Both are walked from the same place. -/
theorem origin_inside {dir : String} (hdir : dir ≠ "") (name : String) :
    origin (inside dir name) = origin dir := by
  obtain ⟨more, hmore⟩ := exists_toList_inside hdir name
  have hhead : (inside dir name).toList.head? = dir.toList.head? := by
    rw [hmore]
    cases hlist : dir.toList with
    | nil => exact absurd (String.toList_eq_nil_iff.1 hlist) hdir
    | cons c cs => rfl
  have hsame : Text.startsWith "/" (inside dir name) = Text.startsWith "/" dir := by
    rw [Bool.eq_iff_iff, startsWith_slash_iff, startsWith_slash_iff, hhead]
  rw [origin, origin, hsame]

/-- The directory at a path has the given entries; the empty path stands for the one where the shell
was started. -/
def LeadsInto (disk : Disk) (dir : String) (reached : List String)
    (entries : List (String × DiskNode)) : Prop :=
  disk.DirectoryAt reached entries ∧
    if dir = "" then reached = [startName]
    else disk.Leads (origin dir) (Text.split '/' dir) reached

/-- The path of a name in a directory leads into the directory first. -/
theorem leads_inside_iff (disk : Disk) (dir : String) {name : String} (hname : IsName name)
    (hslash : '/' ∉ name.toList) (reached : List String) :
    disk.Leads (origin (inside dir name)) (Text.split '/' (inside dir name)) reached ↔
      ∃ above entries, disk.LeadsInto dir above entries ∧ name.utf8ByteSize ≤ maxName ∧
        NameMap.contains name entries = true ∧ reached = name :: above := by
  by_cases hdir : dir = ""
  · subst hdir
    have hinside : inside "" name = name := rfl
    have hsplit : Text.split '/' name = [name] := by
      simp [Text.split, Text.splitChars_of_not_mem hslash]
    have horigin : origin name = [startName] := by
      have hnot : ¬ Text.startsWith "/" name = true := fun hstart =>
        hslash (List.mem_of_mem_head? ((startsWith_slash_iff name).1 hstart))
      rw [origin, if_neg hnot]
    rw [hinside, hsplit, horigin, leads_name_iff disk hname]
    constructor
    · rintro ⟨entries, hat, hrest⟩
      exact ⟨[startName], entries, ⟨hat, by rw [if_pos rfl]⟩, hrest⟩
    · rintro ⟨above, entries, ⟨hat, habove⟩, hrest⟩
      rw [if_pos rfl] at habove
      subst habove
      exact ⟨entries, hat, hrest⟩
  · obtain ⟨pieces, hsplit, hpieces⟩ := split_inside hdir hslash
    -- an empty last piece changes nothing, as the way goes on from a directory
    have hinto : ∀ above entries, disk.LeadsInto dir above entries ↔
        disk.DirectoryAt above entries ∧ disk.Leads (origin dir) pieces above := by
      intro above entries
      rw [LeadsInto, if_neg hdir]
      rcases hpieces with hpieces | hpieces
      · rw [hpieces]
      · rw [hpieces, leads_append]
        constructor
        · rintro ⟨hat, middle, hfirst, hblank⟩
          obtain ⟨rfl, -⟩ := (leads_blank_iff _ _ _).1 hblank
          exact ⟨hat, hfirst⟩
        · rintro ⟨hat, hfirst⟩
          exact ⟨hat, above, hfirst, (leads_blank_iff _ _ _).2 ⟨rfl, entries, hat⟩⟩
    rw [origin_inside hdir, hsplit, leads_append]
    constructor
    · rintro ⟨above, hfirst, hlast⟩
      obtain ⟨entries, hat, hrest⟩ := (leads_name_iff disk hname _ _).1 hlast
      exact ⟨above, entries, (hinto above entries).2 ⟨hat, hfirst⟩, hrest⟩
    · rintro ⟨above, entries, hint, hrest⟩
      obtain ⟨hat, hfirst⟩ := (hinto above entries).1 hint
      exact ⟨above, hfirst, (leads_name_iff disk hname _ _).2 ⟨entries, hat, hrest⟩⟩

/-! ### Ways after a file has been put somewhere -/

/-- A file that is put into a directory closes no way that led to a directory. -/
theorem Leads.put {disk : Disk} {above : List String} {name : String}
    {entries : List (String × DiskNode)} (hat : disk.DirectoryAt above entries)
    (hname : ∀ inner, NameMap.find? name entries ≠ some (.directory inner)) (body : String)
    {start pieces reached : List String} (h : disk.Leads start pieces reached) :
    ({ root := disk.root.put (above.reverse ++ [name]) (.file body) } : Disk).Leads
      start pieces reached := by
  induction pieces generalizing start with
  | nil => exact (leads_nil _ _ _).2 ((leads_nil _ _ _).1 h)
  | cons piece pieces ih =>
    obtain ⟨next, hstep, hrest⟩ := (leads_cons _ _ _ _ _).1 h
    obtain ⟨own, hown, hcases⟩ := (walkStep_eq_ok_iff _ _ _ _).1 hstep
    obtain ⟨after, hafter, hkeys⟩ := DiskNode.at?_put_of_directory hat hname hown body
    refine (leads_cons _ _ _ _ _).2 ⟨next, (walkStep_eq_ok_iff _ _ _ _).2 ?_, ih hrest⟩
    refine ⟨after, hafter, ?_⟩
    rcases hcases with hblank | hup | ⟨hpiece, hshort, hin, hnext⟩
    · exact Or.inl hblank
    · exact Or.inr (Or.inl hup)
    · exact Or.inr (Or.inr ⟨hpiece, hshort, hkeys piece hin, hnext⟩)

end Disk

end MountShell
