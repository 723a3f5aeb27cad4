import MountShell.Proofs.Tree.Update
import MountShell.Tree.Handle

/-!
# Changes through handles

When opening, writing and closing a file change the tree, and into what.

Main statements: `Tree.openFile_eq_some_iff`, an open that changes the tree creates a missing file;
`FileHandle.write_eq_ok_iff` and `FileHandle.ending?_eq_some_iff`, both change a writeable text
alone.
-/

namespace MountShell

namespace Tree

/-- An open changes the tree if the file is missing and can be created. The handle has the mode that
was asked for. -/
theorem openFile_eq_some_iff (root after : Node) (path : String) (mode : OpenMode)
    (h : FileHandle) :
    openFile root path mode = (h, some after) ↔
      h = .ofNode (Path.walkSteps path) path mode ∧
        (∃ missing, walk root path = .error (.notFound missing)) ∧
        create root path .emptyFile = .ok after := by
  unfold openFile
  cases hwalk : walk root path with
  | ok node => simp
  | error e =>
    cases e with
    | notFound missing =>
      cases hcreate : create root path .emptyFile with
      | error reason => simp
      | ok created => simp [eq_comm]
    | _ => simp

/-- The handle is one on the node at the path, unless opening fails. -/
theorem openFile_fst (root : Node) (path : String) (mode : OpenMode) :
    (openFile root path mode).1 = .ofNode (Path.walkSteps path) path mode ∨
      ∃ e, (openFile root path mode).1 = .failed path e := by
  unfold openFile
  cases walk root path with
  | ok node => exact Or.inl rfl
  | error e =>
    cases e with
    | notFound missing =>
      cases create root path .emptyFile with
      | ok created => exact Or.inl rfl
      | error reason => exact Or.inr ⟨_, rfl⟩
    | _ => exact Or.inr ⟨_, rfl⟩

end Tree

namespace FileHandle

/-- What is read through a handle is the content of a file of the tree. -/
theorem at?_of_content {h : FileHandle} {root : Node} {content : Content}
    (hcontent : h.content root = .ok content) :
    ∃ segments w, h.binding = .ok segments ∧ root.at? segments = some (.file w content) := by
  unfold FileHandle.content at hcontent
  cases hbinding : h.binding with
  | error e => exact absurd hcontent (by simp [hbinding])
  | ok segments =>
    rw [hbinding] at hcontent
    by_cases hclosed : h.closed = true
    · exact absurd hcontent (by simp [hclosed])
    simp only [if_neg hclosed] at hcontent
    cases hat : root.at? segments with
    | none => exact absurd hcontent (by simp [hat])
    | some node =>
      cases node with
      | directory w children => exact absurd hcontent (by simp [hat])
      | file w inner =>
        obtain rfl : inner = content := by simpa [hat] using hcontent
        exact ⟨segments, w, rfl, hat⟩

/-- A write succeeds on a writeable text, through a handle for writing that has not been closed. -/
theorem write_eq_ok_iff (h : FileHandle) (root after : Node) (data : String) :
    h.write root data = .ok after ↔
      ∃ segments body, h.binding = .ok segments ∧ h.closed = false ∧ h.mode.isWrite = true ∧
        root.at? segments = some (.file true (.text body)) ∧
        after =
          root.update (fun _ => .file true (.text (writeText h.mode body data))) segments := by
  unfold write
  cases hbinding : h.binding with
  | error e => simp
  | ok segments =>
    simp only []
    by_cases hclosed : h.closed = true
    · simp [hclosed]
    rw [if_neg hclosed]
    have hopen : h.closed = false := Bool.eq_false_iff.2 hclosed
    cases hmode : h.mode.isWrite with
    | false => simp
    | true =>
      simp only [Bool.not_true, Bool.false_eq_true, ↓reduceIte]
      constructor
      · intro hwrite
        cases hat : root.at? segments with
        | none => exact absurd hwrite (by simp [hat])
        | some node =>
          rw [hat] at hwrite
          match node, hwrite, hat with
          | .file true (.text body), hwrite, hat =>
            exact ⟨segments, body, rfl, hopen, trivial, hat, (Except.ok.inj hwrite).symm⟩
      · rintro ⟨other, body, hother, -, -, hat, rfl⟩
        obtain rfl : segments = other := Except.ok.inj hother
        rw [hat]
        rfl

/-- The tree that closing the handle gives, if closing changes it. -/
def ending? (h : FileHandle) (root : Node) : Option Node :=
  match h.binding with
  | .error _ => none
  | .ok segments =>
    match h.mode.isWrite, root.at? segments with
    | true, some (.file true (.text body)) =>
      some (root.update (fun _ => .file true (.text (body ++ "\n"))) segments)
    | _, _ => none

/-- A handle is closed unless it is closed already. -/
theorem close_eq (h : FileHandle) (root : Node) :
    h.close root =
      if h.closed then .error .handleClosed
      else .ok ({ h with closed := true }, h.ending? root) := by
  unfold close ending?
  by_cases hclosed : h.closed = true
  · rw [if_pos hclosed, if_pos hclosed]
  rw [if_neg hclosed, if_neg hclosed]
  cases hbinding : h.binding with
  | error e => rfl
  | ok segments =>
    simp only []
    cases h.mode.isWrite with
    | false => rfl
    | true =>
      cases root.at? segments with
      | none => rfl
      | some node =>
        cases node with
        | directory w children => rfl
        | file w content => cases w <;> cases content <;> rfl

/-- Closing a handle for writing ends a writeable text with a newline, and changes nothing else. -/
theorem ending?_eq_some_iff (h : FileHandle) (root after : Node) :
    h.ending? root = some after ↔
      ∃ segments body, h.binding = .ok segments ∧ h.mode.isWrite = true ∧
        root.at? segments = some (.file true (.text body)) ∧
        after = root.update (fun _ => .file true (.text (body ++ "\n"))) segments := by
  unfold ending?
  constructor
  · intro h
    split at h
    next => exact absurd h (by simp)
    next segments hbinding =>
      split at h
      next body hmode hat => exact ⟨segments, body, hbinding, hmode, hat, (Option.some.inj h).symm⟩
      next => exact absurd h (by simp)
  · rintro ⟨segments, body, hbinding, hmode, hat, rfl⟩
    simp only [hbinding, hmode, hat]

end FileHandle

end MountShell
