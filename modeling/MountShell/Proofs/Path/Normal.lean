import Mathlib.Data.List.Basic
import MountShell.Proofs.Path

/-!
# Paths in normal form

Resolving a path gives its normal form: a slash, and behind it names with single slashes between
them, none of which leads up or stays in place (`IsNormal`).  What matters of a path for the names
that are put behind it is its segments alone (`segmentsOf_append`), and resolving keeps these, so
that the front of a path can be resolved first: a way up at the start of what follows takes back the
same segment, or is absorbed by the root, before and after.

Main statement: `resolve_normal_form`, resolving gives a normal form, changes nothing else, and lets
a path be taken in steps.
-/

namespace MountShell.Path

/-- A path in normal form. -/
structure IsNormal (path : String) : Prop where
  /-- It begins with a slash. -/
  absolute : isAbsolute path = true
  /-- It ends with one only if it is the root. -/
  closing : ∀ front, path = front ++ "/" → path = "/"
  /-- The pieces behind the first slash are names; the root has an empty one there. -/
  pieces : path ≠ "/" →
    ∀ piece ∈ (Text.split '/' path).tail, piece ≠ "" ∧ piece ≠ "." ∧ piece ≠ ".."

/-- A path is absolute just when it begins with a slash. -/
theorem isAbsolute_iff (path : String) :
    isAbsolute path = true ↔ ∃ rest, path.toList = '/' :: rest := by
  unfold isAbsolute Text.startsWith
  rw [Option.isSome_iff_exists]
  exact exists_congr fun rest => Text.dropHead?_eq_some_iff

theorem split_append_slash (a b : String) :
    Text.split '/' (a ++ "/" ++ b) = Text.split '/' a ++ Text.split '/' b := by
  have hchars : (a ++ "/" ++ b).toList = a.toList ++ '/' :: b.toList := by
    simp
  unfold Text.split
  rw [hchars, Text.splitChars_append_cons, List.map_append]

/-- What is put behind a path goes on from its segments. -/
theorem segmentsOf_append (a b : String) :
    segmentsOf (a ++ "/" ++ b) = (Text.split '/' b).foldl step (segmentsOf a) := by
  unfold segmentsOf normalize
  rw [split_append_slash, List.foldl_append]

/-- The front of a path can be resolved first. -/
theorem resolve_resolve_append (a b : String) :
    resolve (resolve a ++ "/" ++ b) = resolve (a ++ "/" ++ b) := by
  unfold resolve
  rw [segmentsOf_append, segmentsOf_append, ← resolve, segmentsOf_resolve]

/-- At the root there is no way up. -/
theorem resolve_up (a : String) : resolve ("../" ++ a) = resolve a := by
  have hjoin : "../" ++ a = ".." ++ "/" ++ a := by
    rw [String.append_assoc]
    rfl
  unfold resolve
  rw [hjoin, segmentsOf_append]
  rfl

/-! ### Normal forms -/

/-- A path made of segments is in normal form. -/
theorem isNormal_ofSegments {segments : List String} (h : ∀ s ∈ segments, IsSegment s) :
    IsNormal (ofSegments segments) where
  absolute := isAbsolute_ofSegments segments
  closing front hfront := by
    rcases List.eq_nil_or_concat' segments with rfl | ⟨init, last, rfl⟩
    · rfl
    · -- the text of the last segment is not empty and has no slash, so that it ends the path
      obtain ⟨hempty, -, -, hslash⟩ := h last (List.mem_append_right _ List.mem_cons_self)
      have hne : last.toList ≠ [] := fun hnil => hempty (String.toList_eq_nil_iff.1 hnil)
      have hends : (ofSegments (init ++ [last])).toList.getLast? = last.toList.getLast? := by
        rw [toList_ofSegments_concat, List.getLast?_append_of_ne_nil _ (List.cons_ne_nil _ _),
          List.getLast?_cons, List.getLast?_eq_some_getLast hne, Option.getD_some]
      have hfinal : (ofSegments (init ++ [last])).toList.getLast? = some '/' := by
        rw [hfront]
        simp
      exact absurd (List.mem_of_getLast? (hends.symm.trans hfinal)) hslash
  pieces hroot piece hpiece := by
    rw [split_ofSegments fun s hs => (h s hs).2.2.2, List.tail_cons] at hpiece
    rcases eq_or_ne segments [] with rfl | hne
    · exact absurd rfl hroot
    · rw [if_neg hne] at hpiece
      exact ⟨(h piece hpiece).1, (h piece hpiece).2.1, (h piece hpiece).2.2.1⟩

theorem isNormal_resolve (path : String) : IsNormal (resolve path) :=
  isNormal_ofSegments fun _ hs => isSegment_of_mem_segmentsOf hs

/-- A path in normal form is the text of its own pieces. -/
theorem IsNormal.resolve_eq {path : String} (h : IsNormal path) : resolve path = path := by
  by_cases hroot : path = "/"
  · subst hroot
    decide
  · obtain ⟨rest, hrest⟩ := (isAbsolute_iff path).1 h.absolute
    have hsplit : Text.split '/' path = "" :: (Text.splitChars '/' rest).map String.ofList := by
      unfold Text.split
      rw [hrest, Text.splitChars_cons_self]
      rfl
    have hnames : ∀ piece ∈ (Text.splitChars '/' rest).map String.ofList, IsSegment piece := by
      intro piece hpiece
      have hmem : piece ∈ (Text.split '/' path).tail := by rwa [hsplit]
      obtain ⟨hempty, hdot, hup⟩ := h.pieces hroot piece hmem
      exact ⟨hempty, hdot, hup, Text.not_mem_of_mem_split (List.mem_of_mem_tail hmem)⟩
    have hsegments : segmentsOf path = (Text.splitChars '/' rest).map String.ofList := by
      unfold segmentsOf normalize
      rw [hsplit]
      exact foldl_step_of_isSegment hnames []
    refine String.toList_inj.1 ?_
    rw [resolve, hsegments, toList_ofSegments, hrest, List.map_map]
    have hid : String.toList ∘ String.ofList = id := funext fun _ => String.toList_ofList
    rw [hid, List.map_id, Text.intercalate_splitChars]

/-- Resolving leaves the paths in normal form as they are, and no others. -/
theorem resolve_eq_self_iff (path : String) : resolve path = path ↔ IsNormal path :=
  ⟨fun h => h ▸ isNormal_resolve path, IsNormal.resolve_eq⟩

/-! ### Relative paths -/

/-- A relative path stands behind the working directory, an absolute one for itself. -/
theorem exists_resolveFrom_eq (cwd path : String) :
    ∃ whole, resolveFrom cwd path = resolve whole ∧
      ∀ more, path ≠ "" → resolveFrom cwd (path ++ "/" ++ more) =
        resolve (whole ++ "/" ++ more) := by
  have hsame : ∀ more, path ≠ "" → isAbsolute (path ++ "/" ++ more) = isAbsolute path := by
    intro more hne
    rw [Bool.eq_iff_iff, isAbsolute_iff, isAbsolute_iff]
    cases hchars : path.toList with
    | nil => exact absurd (String.toList_eq_nil_iff.1 hchars) hne
    | cons c cs => simp [hchars]
  by_cases habsolute : isAbsolute path = true
  · refine ⟨path, if_pos habsolute, fun more hne => ?_⟩
    exact if_pos ((hsame more hne).trans habsolute)
  · refine ⟨cwd ++ "/" ++ path, if_neg habsolute, fun more hne => ?_⟩
    rw [resolveFrom, hsame more hne, if_neg habsolute]
    simp only [String.append_assoc]

/-- Two relative steps are one along the joined path. -/
theorem resolveFrom_resolveFrom {p q : String} (cwd : String) (hp : p ≠ "")
    (hq : isAbsolute q = false) :
    resolveFrom (resolveFrom cwd p) q = resolveFrom cwd (p ++ "/" ++ q) := by
  obtain ⟨whole, hwhole, hmore⟩ := exists_resolveFrom_eq cwd p
  rw [hmore q hp, hwhole, resolveFrom, hq]
  exact resolve_resolve_append whole q

/-- Resolving a path gives a normal form.  It is the same if the front of the path is resolved
before; it changes nothing but what is not in normal form, so that doing it again changes nothing;
and it does not lead above the root.  So relative paths can be taken one after the other or, joined,
at once. -/
theorem resolve_normal_form :
    (∀ a b, resolve (a ++ "/" ++ b) = resolve (resolve a ++ "/" ++ b)) ∧
      (∀ path, IsNormal (resolve path)) ∧
      (∀ path, resolve path = path ↔ IsNormal path) ∧
      (∀ path, resolve (resolve path) = resolve path) ∧
      (∀ path, resolve ("../" ++ path) = resolve path) ∧
      ∀ cwd p q, p ≠ "" → isAbsolute q = false →
        resolveFrom (resolveFrom cwd p) q = resolveFrom cwd (p ++ "/" ++ q) := by
  refine ⟨fun a b => (resolve_resolve_append a b).symm, isNormal_resolve, resolve_eq_self_iff,
    fun path => (isNormal_resolve path).resolve_eq, resolve_up, ?_⟩
  exact fun cwd p q hp hq => resolveFrom_resolveFrom cwd hp hq

/-- The way up at the front of the second step takes back what the first step has led to, and is
absorbed by the root from then on. -/
theorem resolve_normal_form_up :
    "..//a/." ≠ "" ∧ isAbsolute "../../../b/" = false ∧
      resolveFrom "/home" "..//a/." = "/a" ∧ resolveFrom "/a" "../../../b/" = "/b" ∧
      resolveFrom "/home" ("..//a/." ++ "/" ++ "../../../b/") = "/b" := by
  have hfirst : resolveFrom "/home" "..//a/." = "/a" := by decide +kernel
  have hsecond : resolveFrom "/a" "../../../b/" = "/b" := by decide +kernel
  have hne : "..//a/." ≠ "" := by decide
  have hrelative : isAbsolute "../../../b/" = false := by decide
  obtain ⟨-, -, -, -, -, hsteps⟩ := resolve_normal_form
  refine ⟨hne, hrelative, hfirst, hsecond, ?_⟩
  rw [← hsteps "/home" "..//a/." "../../../b/" hne hrelative, hfirst, hsecond]

end MountShell.Path
