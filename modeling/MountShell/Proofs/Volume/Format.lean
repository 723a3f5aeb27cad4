import MountShell.Proofs.Json.Depth
import MountShell.Proofs.Volume.Snapshot

/-!
# The format of snapshots

The writer of snapshots has no limit and the reader has one: a text is refused when more than
`Json.maxDepth` of its brackets are open at once.  A directory takes two brackets, its own and that
of its children, and what lies in it stands inside both.

Main statement: `Snapshot.format_round_trip`, a snapshot is had back from the tree that it restores,
and from the text that is written for it just when the text is not too deep; and what is read from
any text at all is written in a text that is not.
-/

namespace MountShell.Snapshot

/-- The names in every directory are in order, each of them once, as in a tree. -/
inductive Sorted : Snapshot → Prop
  | file (w : Bool) (content : String) : Sorted (.file w content)
  | directory (w : Bool) {children : List (String × Snapshot)} :
      NameMap.Ordered children → (∀ pair ∈ children, Sorted pair.2) →
      Sorted (.directory w children)

theorem Fits.sorted {levels : Nat} {s : Snapshot} (h : s.Fits levels) : s.Sorted := by
  induction h with
  | file w content => exact .file w content
  | directory w hordered _ ih => exact .directory w hordered ih

theorem Fits.mono {levels more : Nat} {s : Snapshot} (h : s.Fits levels) (hle : levels ≤ more) :
    s.Fits more := by
  induction h generalizing more with
  | file w content => exact .file w content
  | directory w hordered _ ih =>
    obtain ⟨more, rfl⟩ := Nat.exists_eq_succ_of_ne_zero
      (Nat.ne_of_gt (Nat.lt_of_lt_of_le (Nat.zero_lt_succ _) hle))
    exact .directory w hordered fun pair hpair => ih pair hpair (Nat.le_of_succ_le_succ hle)

/-- A sorted snapshot fits into as many levels as it has. -/
theorem Sorted.exists_fits {s : Snapshot} (h : s.Sorted) : ∃ levels, s.Fits levels := by
  induction h with
  | file w content => exact ⟨0, .file w content⟩
  | @directory w children hordered _ ih =>
    have hall : ∀ pairs : List (String × Snapshot), (∀ pair ∈ pairs, ∃ levels, pair.2.Fits levels) →
        ∃ levels, ∀ pair ∈ pairs, pair.2.Fits levels := by
      intro pairs
      induction pairs with
      | nil => exact fun _ => ⟨0, fun _ hmem => absurd hmem List.not_mem_nil⟩
      | cons first rest ihrest =>
        intro hpairs
        obtain ⟨⟨here, hfirst⟩, hrest⟩ := List.forall_mem_cons.1 hpairs
        obtain ⟨below, hbelow⟩ := ihrest hrest
        refine ⟨max here below, List.forall_mem_cons.2 ⟨hfirst.mono (Nat.le_max_left _ _), ?_⟩⟩
        exact fun pair hpair => (hbelow pair hpair).mono (Nat.le_max_right _ _)
    obtain ⟨levels, hlevels⟩ := hall children ih
    exact ⟨levels + 1, .directory w hordered hlevels⟩

/-- The brackets of a sorted snapshot tell into how many levels it fits. -/
theorem Sorted.fits {s : Snapshot} (h : s.Sorted) {levels : Nat}
    (hplain : s.toJson.PlainWithin (2 * levels + 1)) : s.Fits levels := by
  induction h generalizing levels with
  | file w content => exact .file w content
  | @directory w children hordered _ ih =>
    rw [Snapshot.toJson, toJsonAll_eq_map] at hplain
    cases hplain with
    | object hfields =>
      have hchildren := hfields ("children", .object (children.map fun pair =>
        (pair.1, pair.2.toJson))) (by simp)
      generalize hbelow : 2 * levels = below at hchildren
      cases hchildren with
      | @object below _ hinner =>
        obtain ⟨levels, rfl⟩ : ∃ inner, levels = inner + 1 := ⟨levels - 1, by omega⟩
        obtain rfl : below = 2 * levels + 1 := by omega
        refine .directory w hordered fun pair hpair => ih pair hpair ?_
        exact hinner (pair.1, pair.2.toJson) (List.mem_map.2 ⟨pair, hpair, rfl⟩)

/-! ### The depth of what is written -/

theorem toList_write (s : Snapshot) : s.write.toList = s.toJson.write :=
  String.toList_ofList

/-- A sorted snapshot fits into `maxLevels` levels just when its text is not too deep. -/
theorem Sorted.fits_iff {s : Snapshot} (h : s.Sorted) :
    s.Fits maxLevels ↔ Json.nesting s.write.toList ≤ Json.maxDepth := by
  obtain ⟨levels, hlevels⟩ := h.exists_fits
  have hplain := hlevels.toJson
  have hdepth : Json.maxDepth = 2 * maxLevels + 1 := rfl
  rw [toList_write, Json.nesting_write hplain, ← hplain.iff_height_le, hdepth]
  exact ⟨Fits.toJson, h.fits⟩

/-- A sorted snapshot is read back if its text is not too deep. -/
theorem Sorted.read_write {s : Snapshot} (h : s.Sorted)
    (hdepth : Json.nesting s.write.toList ≤ Json.maxDepth) : read s.write = some s :=
  Snapshot.read_write (h.fits_iff.2 hdepth)

/-- A text that is too deep is refused for that. -/
theorem Sorted.read_write_tooDeep {s : Snapshot} (h : s.Sorted)
    (hdepth : Json.maxDepth < Json.nesting s.write.toList) :
    read s.write = none ∧ ∃ fault, Json.read s.write = .error fault ∧ fault.kind = .tooDeep := by
  obtain ⟨levels, hlevels⟩ := h.exists_fits
  rw [toList_write] at hdepth
  obtain ⟨fault, hfault, hkind⟩ := Json.read_compact_of_lt_nesting hlevels.toJson hdepth
  have hread : Json.read s.write = .error fault := hfault
  refine ⟨?_, fault, hread, hkind⟩
  unfold read
  rw [hread]

/-- Every snapshot is had back from the tree that it restores.  It is read back from the text that
is written for it if no more than `maxDepth` brackets of the text are open at once, and otherwise
the text is refused.  Whatever is read from a text, of either form and with anything beside the
fields of a node, is written in a text that it is read back from. -/
theorem format_round_trip (s : Snapshot) (text : String) :
    capture s.restore = some s ∧
    (s.Sorted → Json.nesting s.write.toList ≤ Json.maxDepth → read s.write = some s) ∧
    (s.Sorted → Json.maxDepth < Json.nesting s.write.toList →
      read s.write = none ∧
        ∃ fault, Json.read s.write = .error fault ∧ fault.kind = .tooDeep) ∧
    (read text = some s →
      s.Sorted ∧ Json.nesting s.write.toList ≤ Json.maxDepth ∧ read s.write = some s) := by
  refine ⟨capture_restore s, Sorted.read_write, Sorted.read_write_tooDeep, fun h => ?_⟩
  have hfits := fits_of_read h
  exact ⟨hfits.sorted, hfits.sorted.fits_iff.1 hfits, Snapshot.read_write hfits⟩

/-- A file inside `levels` directories, each of them the only child of the one around it. -/
def inside (name content : String) : Nat → Snapshot
  | 0 => .file true content
  | levels + 1 => .directory false [(name, inside name content levels)]

theorem fits_inside (name content : String) (levels : Nat) :
    (inside name content levels).Fits levels := by
  induction levels with
  | zero => exact .file true content
  | succ levels ih =>
    refine .directory false (List.pairwise_singleton _ _) fun pair hpair => ?_
    rw [List.mem_singleton.1 hpair]
    exact ih

/-- Each directory takes two brackets, the file in the innermost takes one. -/
theorem nesting_inside (name content : String) (levels : Nat) :
    Json.nesting (inside name content levels).write.toList = 2 * levels + 1 := by
  rw [toList_write, Json.nesting_write (fits_inside name content levels).toJson]
  induction levels with
  | zero => rfl
  | succ levels ih =>
    simp only [inside, Snapshot.toJson, toJsonAll, Json.height, Json.heightFields] at ih ⊢
    omega

/-- With 63 directories around it a file is read back, whatever is in it; one more directory is too
deep.  A text with lists, a number for a type, blanks and a repeated name is read as well, and what
it gives is read back. -/
theorem format_round_trip_limit :
    read (inside "a\n\"\x7d" "\x7b\\\t" 63).write = some (inside "a\n\"\x7d" "\x7b\\\t" 63) ∧
    read (inside "a\n\"\x7d" "\x7b\\\t" 64).write = none ∧
    ∃ s, read "[\"directory\", true, \x7b\"a\":[1,true,\"x\"], \"a\":[\"file\",true,\"y\"]\x7d]" =
      some s ∧
      read s.write = some s := by
  have hlimit := nesting_inside "a\n\"\x7d" "\x7b\\\t" 63
  have hdeep := nesting_inside "a\n\"\x7d" "\x7b\\\t" 64
  refine ⟨?_, ?_, ?_⟩
  · exact (format_round_trip _ "").2.1 (fits_inside _ _ _).sorted (hlimit ▸ by decide)
  · exact ((format_round_trip _ "").2.2.1 (fits_inside _ _ _).sorted (hdeep ▸ by decide)).1
  · have hread : (read
        "[\"directory\", true, \x7b\"a\":[1,true,\"x\"], \"a\":[\"file\",true,\"y\"]\x7d]").isSome =
        true := by decide +kernel
    obtain ⟨s, hs⟩ := Option.isSome_iff_exists.1 hread
    exact ⟨s, hs, ((format_round_trip s _).2.2.2 hs).2.2⟩

end MountShell.Snapshot
