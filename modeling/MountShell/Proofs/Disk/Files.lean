import MountShell.Proofs.Disk.Ways

/-!
# Files in a directory of the disk

How a file in a directory is read and written by its name, and what becomes of a directory that is
to be made.

Main statements: `read_inside_of_write`, a file that has been written is read back;
`write_of_read_inside`, a file that can be read can be written anew; `makeDirectories_of_leadsInto`,
a directory that exists is made without a change; and `not_leadsInto_of_makeDirectories`, one that
could not be made is not there.
-/

namespace MountShell.Disk

/-! ### Faults of a path -/

theorem checkPath_eq_ok_iff (path : String) :
    checkPath path = .ok () ↔
      (∀ c ∈ path.toList, c.toNat ≠ 0) ∧ path.utf8ByteSize < maxPath ∧ path ≠ "" := by
  unfold checkPath
  by_cases hnul : path.toList.any fun c => c.toNat = 0
  · rw [if_pos hnul]
    refine ⟨fun h => absurd h (by simp), fun h => ?_⟩
    obtain ⟨c, hc, hzero⟩ := List.any_eq_true.1 hnul
    exact absurd (of_decide_eq_true hzero) (h.1 c hc)
  rw [if_neg hnul]
  have hall : ∀ c ∈ path.toList, c.toNat ≠ 0 := by
    intro c hc hzero
    exact hnul (List.any_eq_true.2 ⟨c, hc, decide_eq_true hzero⟩)
  by_cases hlong : maxPath ≤ path.utf8ByteSize
  · rw [if_pos hlong]
    exact ⟨fun h => absurd h (by simp), fun h => absurd hlong (Nat.not_le.2 h.2.1)⟩
  rw [if_neg hlong]
  by_cases hempty : path = ""
  · rw [if_pos hempty]
    exact ⟨fun h => absurd h (by simp), fun h => absurd hempty h.2.2⟩
  · rw [if_neg hempty]
    exact ⟨fun _ => ⟨hall, Nat.not_le.1 hlong, hempty⟩, fun _ => rfl⟩

/-- The path of a directory has no fault if that of a name in it has none. -/
theorem checkPath_of_inside {dir name : String} (hdir : dir ≠ "")
    (h : checkPath (inside dir name) = .ok ()) : checkPath dir = .ok () := by
  obtain ⟨hall, hshort, -⟩ := (checkPath_eq_ok_iff _).1 h
  obtain ⟨more, hmore⟩ := exists_toList_inside hdir name
  have htext : inside dir name = dir ++ String.ofList more := by
    rw [← String.toList_inj, hmore, String.toList_append, String.toList_ofList]
  refine (checkPath_eq_ok_iff dir).2 ⟨fun c hc => hall c ?_, ?_, hdir⟩
  · rw [hmore]
    exact List.mem_append_left _ hc
  · rw [htext, String.utf8ByteSize_append] at hshort
    omega

/-! ### Reading and writing -/

theorem locate_eq_ok_iff (disk : Disk) (path : String) (place : List String) :
    disk.locate path = .ok place ↔
      checkPath path = .ok () ∧
        ∃ reached, disk.Leads (origin path) (Text.split '/' path) reached ∧
          place = reached.reverse := by
  unfold locate Leads
  cases hcheck : checkPath path with
  | error e => simp [bind, Except.bind]
  | ok =>
    cases hwalk : (Text.split '/' path).foldlM disk.walkStep (origin path) with
    | error e => simp [bind, Except.bind]
    | ok reached => simp [bind, Except.bind, pure, Except.pure, eq_comm]

/-- The names that lead from the root to the directory at a path; the empty path stands for the one
where the shell was started. -/
def placeOf (disk : Disk) (dir : String) : Except HostError (List String) :=
  if dir = "" then .ok [startName] else disk.locate dir

theorem placeOf_eq_ok_iff {disk : Disk} {dir name : String}
    (hcheck : checkPath (inside dir name) = .ok ()) (place : List String)
    (entries : List (String × DiskNode)) :
    (disk.placeOf dir = .ok place ∧ disk.root.at? place = some (.directory entries)) ↔
      ∃ above, disk.LeadsInto dir above entries ∧ place = above.reverse := by
  unfold placeOf LeadsInto DirectoryAt
  by_cases hdir : dir = ""
  · simp only [if_pos hdir]
    constructor
    · rintro ⟨hplace, hat⟩
      obtain rfl : [startName] = place := Except.ok.inj hplace
      exact ⟨[startName], ⟨hat, rfl⟩, rfl⟩
    · rintro ⟨above, ⟨hat, rfl⟩, rfl⟩
      exact ⟨rfl, hat⟩
  · simp only [if_neg hdir]
    rw [locate_eq_ok_iff]
    constructor
    · rintro ⟨⟨-, reached, hleads, rfl⟩, hat⟩
      exact ⟨reached, ⟨hat, hleads⟩, rfl⟩
    · rintro ⟨above, ⟨hat, hleads⟩, rfl⟩
      exact ⟨⟨checkPath_of_inside hdir hcheck, above, hleads, rfl⟩, hat⟩

/-- Writes a file into the directory at a place. -/
def writeAt (disk : Disk) (place : List String) (name body : String) : Except HostError Disk :=
  match disk.root.at? place with
  | some (.directory entries) =>
    if maxName < name.utf8ByteSize then .error .nameTooLong
    else
      match NameMap.find? name entries with
      | some (.directory _) => .error .isDirectory
      | _ => .ok { root := disk.root.put (place ++ [name]) (.file body) }
  | _ => .error .notDirectory

theorem writeAt_eq_ok_iff (disk after : Disk) (place : List String) (name body : String) :
    disk.writeAt place name body = .ok after ↔
      ∃ entries, disk.root.at? place = some (.directory entries) ∧
        name.utf8ByteSize ≤ maxName ∧
        (∀ inner, NameMap.find? name entries ≠ some (.directory inner)) ∧
        after = { root := disk.root.put (place ++ [name]) (.file body) } := by
  unfold writeAt
  cases hat : disk.root.at? place with
  | none => simp
  | some node =>
    cases node with
    | file text => simp
    | directory entries =>
      simp only []
      by_cases hlong : maxName < name.utf8ByteSize
      · rw [if_pos hlong]
        refine ⟨fun h => absurd h (by simp), ?_⟩
        rintro ⟨_, -, hshort, -⟩
        exact absurd hlong (Nat.not_lt.2 hshort)
      rw [if_neg hlong]
      constructor
      · intro h
        refine ⟨entries, rfl, Nat.not_lt.1 hlong, ?_⟩
        cases hfind : NameMap.find? name entries with
        | none =>
          rw [hfind] at h
          exact ⟨by simp, (Except.ok.inj h).symm⟩
        | some old =>
          rw [hfind] at h
          cases old with
          | directory inner => exact absurd h (by simp)
          | file text => exact ⟨by simp, (Except.ok.inj h).symm⟩
      · rintro ⟨own, hown, -, hfree, rfl⟩
        obtain rfl : entries = own := by simpa using hown
        cases hfind : NameMap.find? name entries with
        | none => rfl
        | some old =>
          cases old with
          | directory inner => exact absurd hfind (hfree inner)
          | file text => rfl

/-- What it takes to write a file, and what becomes of the disk. -/
theorem write_eq_ok_iff (disk after : Disk) (dir name body : String) :
    disk.write dir name body = .ok after ↔
      checkPath (inside dir name) = .ok () ∧
        ∃ above entries, disk.LeadsInto dir above entries ∧ name.utf8ByteSize ≤ maxName ∧
          (∀ inner, NameMap.find? name entries ≠ some (.directory inner)) ∧
          after = { root := disk.root.put (above.reverse ++ [name]) (.file body) } := by
  have hwrite : disk.write dir name body = .ok after ↔
      checkPath (inside dir name) = .ok () ∧
        ∃ place, disk.placeOf dir = .ok place ∧ disk.writeAt place name body = .ok after := by
    unfold write writeAt placeOf
    cases checkPath (inside dir name) with
    | error e => simp [bind, Except.bind]
    | ok =>
      by_cases hdir : dir = ""
      · simp only [if_pos hdir, bind, Except.bind, Except.ok.injEq, true_and, exists_eq_left']
        exact Iff.rfl
      · cases disk.locate dir with
        | error e => simp [hdir, bind, Except.bind]
        | ok place =>
          simp only [if_neg hdir, bind, Except.bind, Except.ok.injEq, true_and, exists_eq_left']
          exact Iff.rfl
  rw [hwrite]
  constructor
  · rintro ⟨hcheck, place, hplace, hat⟩
    obtain ⟨entries, hentries, hrest⟩ := (writeAt_eq_ok_iff _ _ _ _ _).1 hat
    obtain ⟨above, hinto, rfl⟩ := (placeOf_eq_ok_iff hcheck place entries).1 ⟨hplace, hentries⟩
    exact ⟨hcheck, above, entries, hinto, hrest⟩
  · rintro ⟨hcheck, above, entries, hinto, hrest⟩
    obtain ⟨hplace, hentries⟩ := (placeOf_eq_ok_iff hcheck _ entries).2 ⟨above, hinto, rfl⟩
    exact ⟨hcheck, _, hplace, (writeAt_eq_ok_iff _ _ _ _ _).2 ⟨entries, hentries, hrest⟩⟩

/-- What it takes to read a file in a directory. -/
theorem read_inside_eq_ok_iff (disk : Disk) (dir body : String) {name : String}
    (hname : IsName name) (hslash : '/' ∉ name.toList) :
    disk.read (inside dir name) = .ok body ↔
      checkPath (inside dir name) = .ok () ∧
        ∃ above entries, disk.LeadsInto dir above entries ∧ name.utf8ByteSize ≤ maxName ∧
          NameMap.find? name entries = some (.file body) := by
  have hread : disk.read (inside dir name) = .ok body ↔
      ∃ place, disk.locate (inside dir name) = .ok place ∧
        disk.root.at? place = some (.file body) := by
    unfold read
    cases hlocate : disk.locate (inside dir name) with
    | error e => simp [bind, Except.bind]
    | ok place =>
      cases hat : disk.root.at? place with
      | none => simp [bind, Except.bind, hat]
      | some node => cases node <;> simp [bind, Except.bind, pure, Except.pure, hat]
  -- below a directory the name leads to what its entries have there
  have hchild : ∀ above entries, disk.DirectoryAt above entries →
      disk.root.at? (name :: above).reverse = NameMap.find? name entries := by
    intro above entries hat
    rw [List.reverse_cons, DiskNode.at?_append, hat]
    simp [DiskNode.at?_directory_cons, DiskNode.at?_nil]
  rw [hread]
  constructor
  · rintro ⟨place, hplace, hat⟩
    obtain ⟨hcheck, reached, hleads, rfl⟩ := (locate_eq_ok_iff _ _ _).1 hplace
    obtain ⟨above, entries, hinto, hshort, -, rfl⟩ :=
      (leads_inside_iff disk dir hname hslash reached).1 hleads
    exact ⟨hcheck, above, entries, hinto, hshort, (hchild above entries hinto.1).symm.trans hat⟩
  · rintro ⟨hcheck, above, entries, hinto, hshort, hfind⟩
    have hin : NameMap.contains name entries = true := by
      rw [NameMap.contains, hfind]
      rfl
    have hleads := (leads_inside_iff disk dir hname hslash (name :: above)).2
      ⟨above, entries, hinto, hshort, hin, rfl⟩
    refine ⟨(name :: above).reverse, (locate_eq_ok_iff _ _ _).2 ⟨hcheck, _, hleads, rfl⟩, ?_⟩
    rw [hchild above entries hinto.1, hfind]

/-- A path leads into one directory at most. -/
theorem LeadsInto.unique {disk : Disk} {dir : String} {above other : List String}
    {entries own : List (String × DiskNode)} (h : disk.LeadsInto dir above entries)
    (hother : disk.LeadsInto dir other own) : above = other ∧ entries = own := by
  obtain ⟨hat, hleads⟩ := h
  obtain ⟨hown, hwhere⟩ := hother
  have hplace : above = other := by
    by_cases hdir : dir = ""
    · rw [if_pos hdir] at hleads hwhere
      rw [hleads, hwhere]
    · rw [if_neg hdir] at hleads hwhere
      exact Except.ok.inj (hleads.symm.trans hwhere)
  subst hplace
  exact ⟨rfl, by simpa using hat.symm.trans hown⟩

/-- A file that has been written is the only thing that is new in its directory. -/
theorem leadsInto_of_write {disk after : Disk} {dir name body : String}
    (h : disk.write dir name body = .ok after) :
    ∃ above entries, disk.LeadsInto dir above entries ∧
      after.LeadsInto dir above (NameMap.insert name (.file body) entries) := by
  obtain ⟨-, above, entries, ⟨hat, hinto⟩, -, hfree, rfl⟩ := (write_eq_ok_iff _ _ _ _ _).1 h
  refine ⟨above, entries, ⟨hat, hinto⟩, DiskNode.at?_put hat name body, ?_⟩
  by_cases hdir : dir = ""
  · rw [if_pos hdir] at hinto ⊢
    exact hinto
  · rw [if_neg hdir] at hinto ⊢
    exact hinto.put hat hfree body

/-- What is read in a directory after a file has been written there. -/
theorem read_inside_of_write_iff {disk after : Disk} {dir name body : String}
    (h : disk.write dir name body = .ok after) {other : String} (hother : IsName other)
    (hslash : '/' ∉ other.toList) (text : String) :
    after.read (inside dir other) = .ok text ↔
      if name = other then body = text else disk.read (inside dir other) = .ok text := by
  obtain ⟨hcheck, -, -, -, hshort, -⟩ := (write_eq_ok_iff _ _ _ _ _).1 h
  obtain ⟨above, entries, hinto, hafter⟩ := leadsInto_of_write h
  rw [read_inside_eq_ok_iff _ _ _ hother hslash, read_inside_eq_ok_iff _ _ _ hother hslash]
  -- both paths lead into one directory, which has one entry more afterwards
  constructor
  · rintro ⟨hgood, _, own, hown, hsize, hfind⟩
    obtain ⟨-, rfl⟩ := hafter.unique hown
    rw [NameMap.find?_insert] at hfind
    by_cases heq : name = other
    · rw [if_pos heq] at hfind ⊢
      simpa using hfind
    · rw [if_neg heq] at hfind ⊢
      exact ⟨hgood, above, entries, hinto, hsize, hfind⟩
  · intro hread
    by_cases heq : name = other
    · rw [if_pos heq] at hread
      subst heq hread
      exact ⟨hcheck, above, _, hafter, hshort, by rw [NameMap.find?_insert, if_pos rfl]⟩
    · rw [if_neg heq] at hread
      obtain ⟨hgood, _, own, hown, hsize, hfind⟩ := hread
      obtain ⟨-, rfl⟩ := hinto.unique hown
      exact ⟨hgood, above, _, hafter, hsize, by rw [NameMap.find?_insert, if_neg heq, hfind]⟩

/-- A file that has been written is read back. -/
theorem read_inside_of_write {disk after : Disk} {dir name body : String} (hname : IsName name)
    (hslash : '/' ∉ name.toList) (h : disk.write dir name body = .ok after) :
    after.read (inside dir name) = .ok body := by
  rw [read_inside_of_write_iff h hname hslash, if_pos rfl]

/-- A file that can be read can be written anew. -/
theorem write_of_read_inside {disk : Disk} {dir name body : String} (hname : IsName name)
    (hslash : '/' ∉ name.toList) (h : disk.read (inside dir name) = .ok body) (new : String) :
    ∃ after, disk.write dir name new = .ok after := by
  obtain ⟨hcheck, above, entries, hinto, hshort, hfind⟩ :=
    (read_inside_eq_ok_iff _ _ _ hname hslash).1 h
  refine ⟨_, (write_eq_ok_iff _ _ _ _ _).2 ⟨hcheck, above, entries, hinto, hshort, ?_, rfl⟩⟩
  intro inner
  simp [hfind]

/-! ### Making a directory that is there -/

theorem isDirectory_iff (disk : Disk) (start pieces : List String) :
    disk.isDirectory start pieces = true ↔
      ∃ reached entries, disk.Leads start pieces reached ∧ disk.DirectoryAt reached entries := by
  unfold isDirectory Leads DirectoryAt
  cases pieces.foldlM disk.walkStep start with
  | error e => simp
  | ok reached =>
    cases hat : disk.root.at? reached.reverse with
    | none => simp [hat]
    | some node => cases node <;> simp [hat]

/-- Every place on the way to a directory is one. -/
theorem isDirectory_of_append {disk : Disk} {start first second : List String}
    (h : disk.isDirectory start (first ++ second) = true) :
    disk.isDirectory start first = true := by
  obtain ⟨reached, entries, hleads, hat⟩ := (isDirectory_iff _ _ _).1 h
  obtain ⟨middle, hfirst, hsecond⟩ := (leads_append _ _ _ _ _).1 hleads
  refine (isDirectory_iff _ _ _).2 ⟨middle, ?_⟩
  cases second with
  | nil =>
    obtain rfl := (leads_nil _ _ _).1 hsecond
    exact ⟨entries, hfirst, hat⟩
  | cons piece rest =>
    obtain ⟨next, hstep, -⟩ := (leads_cons _ _ _ _ _).1 hsecond
    obtain ⟨own, hown, -⟩ := (walkStep_eq_ok_iff _ _ _ _).1 hstep
    exact ⟨own, hfirst, hown⟩

/-- The pieces that stay in place may be left out. -/
theorem Leads.filter {disk : Disk} {start pieces reached : List String}
    (h : disk.Leads start pieces reached) :
    disk.Leads start (pieces.filter fun piece => piece ≠ "" ∧ piece ≠ ".") reached := by
  induction pieces generalizing start with
  | nil => exact h
  | cons piece pieces ih =>
    obtain ⟨next, hstep, hrest⟩ := (leads_cons _ _ _ _ _).1 h
    by_cases hskip : piece = "" ∨ piece = "."
    · obtain ⟨entries, -, ⟨-, rfl⟩ | ⟨rfl, -⟩ | ⟨⟨hname, -⟩, -⟩⟩ :=
        (walkStep_eq_ok_iff _ _ _ _).1 hstep
      · have hdrop : (piece :: pieces).filter (fun piece => piece ≠ "" ∧ piece ≠ ".") =
            pieces.filter fun piece => piece ≠ "" ∧ piece ≠ "." := by
          rcases hskip with rfl | rfl <;> simp
        rw [hdrop]
        exact ih hrest
      · exact absurd hskip (by decide)
      · exact absurd hskip hname
    · have hkeep : (piece :: pieces).filter (fun piece => piece ≠ "" ∧ piece ≠ ".") =
          piece :: pieces.filter fun piece => piece ≠ "" ∧ piece ≠ "." := by
        simp [not_or.1 hskip]
      rw [hkeep]
      exact (leads_cons _ _ _ _ _).2 ⟨next, hstep, ih hrest⟩

/-- A directory that is there cannot be made, but nothing is missing on the way to it. -/
theorem makeDirectory_of_isDirectory {disk : Disk} {start pieces : List String}
    (h : disk.isDirectory start pieces = true) :
    ∃ e, disk.makeDirectory start pieces = .error e ∧ e ≠ .noEntry := by
  obtain ⟨reached, -, hleads, -⟩ := (isDirectory_iff _ _ _).1 h
  unfold makeDirectory
  cases hdrop : pieces.reverse.dropWhile (· = "") with
  | nil => exact ⟨.entryExists, rfl, by decide⟩
  | cons name above =>
    have hne : name ≠ "" := by
      have hhead := List.head?_dropWhile_not (fun piece : String => decide (piece = ""))
        pieces.reverse
      simpa [hdrop] using hhead
    -- the name comes after those above it and before the empty pieces at the end
    have hpieces : pieces =
        above.reverse ++ name :: (pieces.reverse.takeWhile (· = "")).reverse := by
      have hwhole := List.takeWhile_append_dropWhile (p := fun piece : String =>
        decide (piece = "")) (l := pieces.reverse)
      rw [hdrop] at hwhole
      have hback := congrArg List.reverse hwhole
      simpa using hback.symm
    rw [hpieces] at hleads
    obtain ⟨middle, habove, hlast⟩ := (leads_append _ _ _ _ _).1 hleads
    obtain ⟨next, hstep, -⟩ := (leads_cons _ _ _ _ _).1 hlast
    obtain ⟨entries, hat, hcases⟩ := (walkStep_eq_ok_iff _ _ _ _).1 hstep
    unfold Leads at habove
    unfold DirectoryAt at hat
    simp only [habove, bind, Except.bind, hat]
    by_cases hdots : name = "." ∨ name = ".."
    · exact ⟨.entryExists, by rw [if_pos hdots], by decide⟩
    · rcases hcases with ⟨hblank | hdot, -⟩ | ⟨hup, -⟩ | ⟨-, hshort, hin, -⟩
      · exact absurd hblank hne
      · exact absurd (Or.inl hdot) hdots
      · exact absurd (Or.inr hup) hdots
      · refine ⟨.entryExists, ?_, by decide⟩
        rw [if_neg hdots, if_neg (Nat.not_lt.2 hshort), if_pos hin]

/-- A directory that is there is made without a change. -/
theorem makeDirectories_of_leadsInto {disk : Disk} {dir : String} {above : List String}
    {entries : List (String × DiskNode)} (hcheck : dir ≠ "" → checkPath dir = .ok ())
    (h : disk.LeadsInto dir above entries) : disk.makeDirectories dir = (.ok (), disk) := by
  unfold makeDirectories
  by_cases hdir : dir = ""
  · rw [if_pos hdir]
  · obtain ⟨hat, hleads⟩ := h
    rw [if_neg hdir] at hleads ⊢
    have his : disk.isDirectory (origin dir) (Text.split '/' dir) = true :=
      (isDirectory_iff _ _ _).2 ⟨above, entries, hleads, hat⟩
    obtain ⟨e, hmake, hne⟩ := makeDirectory_of_isDirectory his
    rw [hcheck hdir]
    simp only [makeBelow, hmake]
    cases e with
    | noEntry => exact absurd rfl hne
    | _ => simp [settle, his]

/-! ### Failing to make a directory -/

theorem settle_eq_error {disk after : Disk} {start pieces : List String}
    {made : Except HostError Disk} {e : HostError}
    (h : disk.settle start pieces made = (.error e, after)) :
    after = disk ∧ disk.isDirectory start pieces = false := by
  cases made with
  | ok done => exact absurd (congrArg Prod.fst h) (by simp [settle])
  | error reason =>
    by_cases his : disk.isDirectory start pieces = true
    · exact absurd (congrArg Prod.fst h) (by simp [settle, his])
    · exact ⟨(congrArg Prod.snd h).symm, Bool.eq_false_iff.2 his⟩

theorem not_isDirectory_of_makeBelow {disk after : Disk} {start pieces : List String}
    {makeAbove : Disk → Except HostError Unit × Disk} {e : HostError}
    (habove : ∀ e after, makeAbove disk = (.error e, after) →
      after.isDirectory start pieces = false)
    (h : disk.makeBelow start pieces makeAbove = (.error e, after)) :
    after.isDirectory start pieces = false := by
  have hsettle : ∀ (disk : Disk) (made : Except HostError Disk),
      disk.settle start pieces made = (.error e, after) →
      after.isDirectory start pieces = false := by
    intro disk made hmade
    obtain ⟨rfl, hnot⟩ := settle_eq_error hmade
    exact hnot
  unfold makeBelow at h
  split at h
  · cases hmade : makeAbove disk with
    | mk result between =>
      rw [hmade] at h
      cases result with
      | ok => exact hsettle between _ h
      | error reason =>
        obtain ⟨hreason, rfl⟩ := Prod.mk.inj h
        exact habove reason between hmade
  · exact hsettle disk _ h

theorem not_isDirectory_of_makeNames {disk after : Disk} {start names : List String}
    {e : HostError} (h : disk.makeNames start names = (.error e, after)) :
    after.isDirectory start names.reverse = false := by
  induction names generalizing after e with
  | nil => exact absurd (congrArg Prod.fst h) (by simp [makeNames])
  | cons name above ih =>
    rw [makeNames] at h
    refine not_isDirectory_of_makeBelow (fun reason between hbetween => ?_) h
    rw [List.reverse_cons]
    exact Bool.eq_false_iff.2 fun his =>
      absurd (isDirectory_of_append his) (Bool.eq_false_iff.1 (ih hbetween))

/-- A directory that could not be made is not there afterwards. -/
theorem not_leadsInto_of_makeDirectories {disk after : Disk} {dir : String} {e : HostError}
    (hcheck : dir ≠ "" → checkPath dir = .ok ())
    (h : disk.makeDirectories dir = (.error e, after)) (above : List String)
    (entries : List (String × DiskNode)) : ¬ after.LeadsInto dir above entries := by
  rintro ⟨hat, hleads⟩
  unfold makeDirectories at h
  by_cases hdir : dir = ""
  · rw [if_pos hdir] at h
    exact absurd (congrArg Prod.fst h) (by simp)
  · rw [if_neg hdir] at h hleads
    rw [hcheck hdir] at h
    have his : after.isDirectory (origin dir) (Text.split '/' dir) = true :=
      (isDirectory_iff _ _ _).2 ⟨above, entries, hleads, hat⟩
    have hnot := not_isDirectory_of_makeBelow (fun reason between hbetween => ?_) h
    · exact absurd his (Bool.eq_false_iff.1 hnot)
    · -- the names above are a part of the way to the directory
      have hnames := not_isDirectory_of_makeNames hbetween
      refine Bool.eq_false_iff.2 fun hwhole => absurd ?_ (Bool.eq_false_iff.1 hnames)
      obtain ⟨reached, own, hway, hown⟩ := (isDirectory_iff _ _ _).1 hwhole
      obtain ⟨last, hlast⟩ := List.dropLast_prefix
        ((Text.split '/' dir).filter fun piece => piece ≠ "" ∧ piece ≠ ".")
      have hfiltered := (isDirectory_iff _ _ _).2 ⟨reached, own, hway.filter, hown⟩
      rw [← hlast] at hfiltered
      rw [List.tail_reverse, List.reverse_reverse]
      exact isDirectory_of_append hfiltered

/-! ### Files in directories that are made for them -/

/-- Writes a file in a directory, which is made if it is missing. -/
def putFile (disk : Disk) (dir name body : String) : Except HostError Unit × Disk :=
  match disk.makeDirectories dir with
  | (.error e, disk) => (.error e, disk)
  | (.ok (), disk) =>
    match disk.write dir name body with
    | .ok disk => (.ok (), disk)
    | .error e => (.error e, disk)

theorem putFile_eq_ok_iff (disk after : Disk) (dir name body : String) :
    disk.putFile dir name body = (.ok (), after) ↔
      ∃ made, disk.makeDirectories dir = (.ok (), made) ∧ made.write dir name body = .ok after := by
  unfold putFile
  cases hmake : disk.makeDirectories dir with
  | mk result made =>
    cases result with
    | error e => simp
    | ok =>
      cases hwrite : made.write dir name body with
      | error e => simp [hwrite]
      | ok written => simp [hwrite]

theorem read_inside_of_putFile {disk after : Disk} {dir name body : String} (hname : IsName name)
    (hslash : '/' ∉ name.toList) (h : disk.putFile dir name body = (.ok (), after)) :
    after.read (inside dir name) = .ok body := by
  obtain ⟨made, -, hwrite⟩ := (putFile_eq_ok_iff _ _ _ _ _).1 h
  exact read_inside_of_write hname hslash hwrite

/-- A file that could not be written stays as it was, or missing. -/
theorem toOption_read_inside_of_putFile {disk after : Disk} {dir name body : String} {e : HostError}
    (hname : IsName name) (hslash : '/' ∉ name.toList)
    (h : disk.putFile dir name body = (.error e, after)) :
    (after.read (inside dir name)).toOption = (disk.read (inside dir name)).toOption := by
  -- a file that can be read can be written anew, before and after
  have hbefore : ∀ text, disk.read (inside dir name) ≠ .ok text := by
    intro text hread
    obtain ⟨hcheck, above, entries, hinto, -⟩ :=
      (read_inside_eq_ok_iff _ _ _ hname hslash).1 hread
    have hmake := makeDirectories_of_leadsInto (fun hdir => checkPath_of_inside hdir hcheck) hinto
    obtain ⟨written, hwrite⟩ := write_of_read_inside hname hslash hread body
    exact absurd (congrArg Prod.fst h) (by simp [putFile, hmake, hwrite])
  have hafter : ∀ text, after.read (inside dir name) ≠ .ok text := by
    intro text hread
    obtain ⟨hcheck, above, entries, hinto, -⟩ :=
      (read_inside_eq_ok_iff _ _ _ hname hslash).1 hread
    unfold putFile at h
    cases hmake : disk.makeDirectories dir with
    | mk result made =>
      rw [hmake] at h
      cases result with
      | error reason =>
        obtain rfl : made = after := congrArg Prod.snd h
        exact not_leadsInto_of_makeDirectories (fun hdir => checkPath_of_inside hdir hcheck)
          hmake above entries hinto
      | ok =>
        cases hwrite : made.write dir name body with
        | ok written => exact absurd (congrArg Prod.fst h) (by simp [hwrite])
        | error reason =>
          obtain rfl : made = after := by simpa [hwrite] using congrArg Prod.snd h
          obtain ⟨written, hagain⟩ := write_of_read_inside hname hslash hread body
          exact absurd (hwrite.symm.trans hagain) (by simp)
  cases hread : disk.read (inside dir name) with
  | ok text => exact absurd hread (hbefore text)
  | error reason =>
    cases hagain : after.read (inside dir name) with
    | ok text => exact absurd hagain (hafter text)
    | error other => rfl

end MountShell.Disk
