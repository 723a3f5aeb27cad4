import MountShell.Text.Split

/-!
# Paths

A path is a text whose pieces between slashes name a way through a tree. `Path.resolve` gives the
absolute path in normal form: empty pieces and `.` stand for nothing, and `..` takes back the piece
before it, staying at the root when there is none. Nothing has to exist for a path to be resolved.

Main definitions: `Path.normalize`, the list of segments that a list of pieces stands for;
`Path.ofSegments`, the path with given segments; `Path.resolve` and `Path.resolveFrom`;
`Path.IsSegment`, the texts that can name a child of a directory.

Main statements: the segments of a path can name children (`isSegment_of_mem_segmentsOf`), and a
path made of such segments has exactly these (`segmentsOf_ofSegments`).
-/

namespace MountShell.Path

/-- The segments after one more piece: an empty piece or `.` adds nothing, `..` removes the last
segment, anything else is a segment. -/
def step (segments : List String) (piece : String) : List String :=
  if piece = "" ∨ piece = "." then segments
  else if piece = ".." then segments.dropLast
  else segments ++ [piece]

/-- The segments that a list of pieces stands for, starting at the root. -/
def normalize (pieces : List String) : List String :=
  pieces.foldl step []

/-- The segments of the absolute path that a text stands for. -/
def segmentsOf (path : String) : List String :=
  normalize (Text.split '/' path)

/-- The absolute path with the given segments. -/
def ofSegments (segments : List String) : String :=
  "/" ++ "/".intercalate segments

/-- The absolute path that a text stands for. -/
def resolve (path : String) : String :=
  ofSegments (segmentsOf path)

/-- A text that can name a child: a piece of a path that is not empty and neither `.` nor `..`. -/
def IsSegment (name : String) : Prop :=
  name ≠ "" ∧ name ≠ "." ∧ name ≠ ".." ∧ '/' ∉ name.toList

instance (name : String) : Decidable (IsSegment name) :=
  inferInstanceAs (Decidable (_ ∧ _ ∧ _ ∧ _))

theorem step_of_isSegment (segments : List String) {piece : String} (h : IsSegment piece) :
    step segments piece = segments ++ [piece] := by
  obtain ⟨hempty, hdot, hup, -⟩ := h
  simp [step, hempty, hdot, hup]

theorem isSegment_of_mem_step {segments : List String} {piece : String}
    (hsegments : ∀ s ∈ segments, IsSegment s) (hpiece : '/' ∉ piece.toList) :
    ∀ s ∈ step segments piece, IsSegment s := by
  intro s hs
  unfold step at hs
  by_cases hskip : piece = "" ∨ piece = "."
  · rw [if_pos hskip] at hs
    exact hsegments s hs
  · rw [if_neg hskip] at hs
    by_cases hup : piece = ".."
    · rw [if_pos hup] at hs
      exact hsegments s (List.dropLast_sublist segments |>.subset hs)
    · rw [if_neg hup] at hs
      rcases List.mem_append.1 hs with hs | hs
      · exact hsegments s hs
      · obtain ⟨hempty, hdot⟩ := not_or.1 hskip
        rw [List.mem_singleton.1 hs]
        exact ⟨hempty, hdot, hup, hpiece⟩

theorem isSegment_of_mem_foldl_step {pieces : List String} (hpieces : ∀ p ∈ pieces, '/' ∉ p.toList)
    {segments : List String} (hsegments : ∀ s ∈ segments, IsSegment s) :
    ∀ s ∈ pieces.foldl step segments, IsSegment s := by
  induction pieces generalizing segments with
  | nil => exact hsegments
  | cons piece pieces ih =>
    have hpiece := hpieces piece List.mem_cons_self
    exact ih (fun p hp => hpieces p (List.mem_cons_of_mem _ hp))
      (isSegment_of_mem_step hsegments hpiece)

/-- The segments of a path can name children, so that none of them leads up or stays in place. -/
theorem isSegment_of_mem_segmentsOf {path name : String} (h : name ∈ segmentsOf path) :
    IsSegment name :=
  isSegment_of_mem_foldl_step (fun _ hp => Text.not_mem_of_mem_split hp)
    (fun _ hs => absurd hs List.not_mem_nil) name h

theorem foldl_step_of_isSegment {pieces : List String} (h : ∀ p ∈ pieces, IsSegment p)
    (segments : List String) : pieces.foldl step segments = segments ++ pieces := by
  induction pieces generalizing segments with
  | nil => exact (List.append_nil _).symm
  | cons piece pieces ih =>
    rw [List.foldl_cons, step_of_isSegment segments (h piece List.mem_cons_self),
      ih fun p hp => h p (List.mem_cons_of_mem _ hp), List.append_assoc, List.singleton_append]

theorem splitChars_intercalate {pieces : List (List Char)} (hne : pieces ≠ [])
    (h : ∀ p ∈ pieces, '/' ∉ p) : Text.splitChars '/' (['/'].intercalate pieces) = pieces := by
  induction pieces with
  | nil => exact absurd rfl hne
  | cons piece pieces ih =>
    have hpiece := Text.splitChars_of_not_mem (h piece List.mem_cons_self)
    cases pieces with
    | nil => rw [List.intercalate_singleton, hpiece]
    | cons next rest =>
      rw [List.intercalate_cons_cons, List.append_assoc, List.singleton_append,
        Text.splitChars_append_cons, hpiece,
        ih (List.cons_ne_nil _ _) fun p hp => h p (List.mem_cons_of_mem _ hp),
        List.singleton_append]

theorem toList_ofSegments (segments : List String) :
    (ofSegments segments).toList = '/' :: ['/'].intercalate (segments.map String.toList) := by
  simp [ofSegments]

/-- The pieces of a path with given segments are an empty one, before the first slash, and the
segments; the root has a second empty piece in their place. -/
theorem split_ofSegments {segments : List String} (h : ∀ s ∈ segments, '/' ∉ s.toList) :
    Text.split '/' (ofSegments segments) = "" :: if segments = [] then [""] else segments := by
  unfold Text.split
  rw [toList_ofSegments, Text.splitChars_cons_self]
  cases segments with
  | nil => rfl
  | cons first rest =>
    have hchars : ∀ p ∈ (first :: rest).map String.toList, '/' ∉ p := by
      intro p hp
      obtain ⟨s, hs, rfl⟩ := List.mem_map.1 hp
      exact h s hs
    have hne : (first :: rest).map String.toList ≠ [] := List.cons_ne_nil _ _
    have hback : ((first :: rest).map String.toList).map String.ofList = first :: rest := by
      simp
    rw [splitChars_intercalate hne hchars, List.map_cons, hback]
    rfl

/-- A path made of segments has exactly these. -/
theorem segmentsOf_ofSegments {segments : List String} (h : ∀ s ∈ segments, IsSegment s) :
    segmentsOf (ofSegments segments) = segments := by
  unfold segmentsOf normalize
  rw [split_ofSegments fun s hs => (h s hs).2.2.2]
  cases segments with
  | nil => rfl
  | cons first rest => exact foldl_step_of_isSegment h []

/-- Resolving a path does not change its segments. -/
theorem segmentsOf_resolve (path : String) : segmentsOf (resolve path) = segmentsOf path :=
  segmentsOf_ofSegments fun _ h => isSegment_of_mem_segmentsOf h

/-- A path that has been resolved stays as it is. -/
theorem resolve_resolve (path : String) : resolve (resolve path) = resolve path :=
  congrArg ofSegments (segmentsOf_resolve path)

/-- Is the path taken from the root, whatever the working directory? -/
def isAbsolute (path : String) : Bool :=
  Text.startsWith "/" path

/-- The absolute path that a text stands for in the working directory `cwd`. -/
def resolveFrom (cwd path : String) : String :=
  if isAbsolute path then resolve path else resolve (cwd ++ "/" ++ path)

/-- The path without trailing slashes. -/
def trimSlashes (path : String) : String :=
  let cs := path.toList
  String.ofList (cs.reverse.dropWhile (· = '/')).reverse

/-- The last piece of a path, without regard to trailing slashes; `/` if there is none. -/
def basename (path : String) : String :=
  let trimmed := trimSlashes path
  let last :=
    match Text.splitLast '/' trimmed with
    | some (_, name) => name
    | none => trimmed
  if last = "" then "/" else last

/-- The path of the parent and the name in it. The parent of a top-level name is `/`. -/
def splitParent (path : String) : String × String :=
  let trimmed := trimSlashes path
  match Text.splitLast '/' trimmed with
  | some (parent, name) => (if parent = "" then "/" else parent, name)
  | none => ("/", trimmed)

/-- The steps of a walk down a tree: the pieces of a path other than empty ones and `.`. A piece
`..` is a step like any other. -/
def walkSteps (path : String) : List String :=
  (Text.split '/' path).filter fun piece => piece ≠ "" ∧ piece ≠ "."

end MountShell.Path
