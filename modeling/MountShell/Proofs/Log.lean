import Mathlib.Data.List.Basic

/-!
# What a log says

A log is a list of marks, the latest last.  What holds after it is often that a mark of some kind
has been made, and since then none of another kind (`Since`).

Main statements: `since_concat` and `since_append`, what further marks make of this.
-/

namespace MountShell

variable {μ : Type}

/-- The log has a mark of some kind after which no mark stops what it says. -/
def Since (kind stop : μ → Prop) (past : List μ) : Prop :=
  ∃ before mark after, past = before ++ mark :: after ∧ kind mark ∧ ∀ other ∈ after, ¬stop other

variable {kind stop : μ → Prop} {past more : List μ}

theorem not_since_nil : ¬Since kind stop [] := by
  rintro ⟨before, mark, after, hnil, -⟩
  exact absurd hnil (by simp)

/-- The mark stands in what came last, or before that, and then what came last does not stop it. -/
theorem since_append :
    Since kind stop (past ++ more) ↔
      Since kind stop more ∨ ((∀ mark ∈ more, ¬stop mark) ∧ Since kind stop past) := by
  constructor
  · rintro ⟨before, mark, after, hsplit, hkind, hstop⟩
    rcases List.append_eq_append_iff.1 hsplit with ⟨between, rfl, hmore⟩ | ⟨between, hpast, hafter⟩
    · exact .inl ⟨between, mark, after, hmore, hkind, hstop⟩
    · rcases List.cons_eq_append_iff.1 hafter with ⟨rfl, rfl⟩ | ⟨rest, rfl, rfl⟩
      · exact .inl ⟨[], mark, after, rfl, hkind, hstop⟩
      · obtain ⟨hrest, hmore⟩ := List.forall_mem_append.1 hstop
        exact .inr ⟨hmore, before, mark, rest, hpast, hkind, hrest⟩
  · rintro (⟨before, mark, after, rfl, hkind, hstop⟩ |
      ⟨hmore, before, mark, after, rfl, hkind, hstop⟩)
    · exact ⟨past ++ before, mark, after, (List.append_assoc _ _ _).symm, hkind, hstop⟩
    · exact ⟨before, mark, after ++ more, by simp, hkind, List.forall_mem_append.2 ⟨hstop, hmore⟩⟩

theorem since_singleton {mark : μ} : Since kind stop [mark] ↔ kind mark := by
  constructor
  · rintro ⟨before, other, after, hsplit, hkind, -⟩
    have hmem : other ∈ [mark] := hsplit ▸ List.mem_append_right before List.mem_cons_self
    exact List.mem_singleton.1 hmem ▸ hkind
  · exact fun hkind => ⟨[], mark, [], rfl, hkind, fun _ hnil => absurd hnil List.not_mem_nil⟩

/-- One mark more. -/
theorem since_concat {mark : μ} :
    Since kind stop (past ++ [mark]) ↔ kind mark ∨ (¬stop mark ∧ Since kind stop past) := by
  rw [since_append, since_singleton, List.forall_mem_singleton]

/-- Marks of another kind leave what a log says, unless they stop it. -/
theorem since_append_of_forall (h : ∀ mark ∈ more, ¬kind mark ∧ ¬stop mark) :
    Since kind stop (past ++ more) ↔ Since kind stop past := by
  rw [since_append]
  refine ⟨fun hor => hor.elim (fun hmore => ?_) And.right,
    fun hpast => .inr ⟨fun mark hmark => (h mark hmark).2, hpast⟩⟩
  obtain ⟨before, mark, after, rfl, hkind, -⟩ := hmore
  exact absurd hkind (h mark (List.mem_append_right _ List.mem_cons_self)).1

end MountShell
