import MountShell.Proofs.Json.Takes

/-!
# The nesting of the values that are read

`Reader.Gives r P` says that whatever the reader `r` gives has the property `P`.  By it a value read
with `depth` brackets allowed never has more of them open at once (`gives_value`), and so no
document has more than `maxDepth` (`within_of_read`).
-/

namespace MountShell.Json

/-- No more than `depth` brackets of the value are open at once. -/
inductive Within : Nat → Json → Prop
  | null {depth : Nat} : Within depth .null
  | bool {depth : Nat} (value : Bool) : Within depth (.bool value)
  | number {depth : Nat} (value : Number) : Within depth (.number value)
  | text {depth : Nat} (value : String) : Within depth (.text value)
  | list {depth : Nat} {items : List Json} :
      (∀ item ∈ items, Within depth item) → Within (depth + 1) (.list items)
  | object {depth : Nat} {fields : List (String × Json)} :
      (∀ field ∈ fields, Within depth field.2) → Within (depth + 1) (.object fields)

namespace Reader

variable {α β σ : Type}

/-- Whatever the reader gives has the property `P`. -/
def Gives (r : Reader α) (P : α → Prop) : Prop :=
  ∀ (cursor after : Cursor) (x : α), r cursor = .ok (x, after) → P x

/-- A reader in two parts succeeds only if both do. -/
theorem bind_eq_ok {r : Reader α} {f : α → Reader β} {cursor after : Cursor} {y : β}
    (h : (r >>= f) cursor = .ok (y, after)) :
    ∃ x middle, r cursor = .ok (x, middle) ∧ f x middle = .ok (y, after) := by
  cases hr : r cursor with
  | error fault =>
    have herror : (r >>= f) cursor = .error fault := by
      show StateT.bind r f cursor = _
      unfold StateT.bind
      rw [hr]
      rfl
    rw [herror] at h
    exact absurd h (by simp)
  | ok pair =>
    obtain ⟨x, middle⟩ := pair
    rw [bind_of_ok hr] at h
    exact ⟨x, middle, rfl, h⟩

theorem gives_pure {P : α → Prop} {x : α} (h : P x) : Gives (pure x) P := by
  intro cursor after y hy
  have hy : (Except.ok (x, cursor) : Except _ _) = .ok (y, after) := hy
  obtain ⟨rfl, -⟩ := Prod.mk.inj (Except.ok.inj hy)
  exact h

theorem gives_failAfter (bytes : Nat) (kind : FaultKind) (P : α → Prop) :
    Gives (failAfter bytes kind) P := by
  intro cursor after x h
  simp [failAfter] at h

theorem gives_failNext (kind : FaultKind) (P : α → Prop) : Gives (failNext kind) P :=
  gives_failAfter 1 kind P

theorem Gives.bind {P : α → Prop} {Q : β → Prop} {r : Reader α} {f : α → Reader β}
    (hr : Gives r P) (hf : ∀ x, P x → Gives (f x) Q) : Gives (r >>= f) Q := by
  intro cursor after y h
  obtain ⟨x, middle, hx, hy⟩ := bind_eq_ok h
  exact hf x (hr cursor middle x hx) middle after y hy

/-- What the first part gives may not matter. -/
theorem gives_bind {Q : β → Prop} {r : Reader α} {f : α → Reader β} (hf : ∀ x, Gives (f x) Q) :
    Gives (r >>= f) Q :=
  have htrue : Gives r fun _ => True := fun _ _ _ _ => trivial
  htrue.bind fun x _ => hf x

theorem gives_ite {P : α → Prop} {c : Prop} [Decidable c] {r s : Reader α} (hr : Gives r P)
    (hs : Gives s P) : Gives (if c then r else s) P := by
  by_cases h : c
  · rwa [if_pos h]
  · rwa [if_neg h]

/-! ### Brackets -/

theorem gives_itemsUpTo {P : α → Prop} {item : Reader α} (h : Gives item P) (n : Nat)
    (first : Bool) : Gives (itemsUpTo item n first) fun xs => ∀ x ∈ xs, P x := by
  induction n generalizing first with
  | zero => exact gives_failNext _ _
  | succ n ih =>
    refine gives_bind fun more => gives_ite ?_ ?_
    · refine Gives.bind h fun x hx => Gives.bind (ih false) fun xs hxs => gives_pure ?_
      exact fun y hy => (List.mem_cons.1 hy).elim (fun heq => heq ▸ hx) fun hmem => hxs y hmem
    · exact gives_pure fun x hx => absurd hx List.not_mem_nil

theorem gives_elements {P : α → Prop} {item : Reader α} (h : Gives item P) :
    Gives (elements item) fun xs => ∀ x ∈ xs, P x :=
  gives_bind fun _ => gives_bind fun _ => Gives.bind (gives_itemsUpTo h _ true) fun _ hxs =>
    gives_bind fun _ => gives_pure hxs

/-- What every field keeps holds when all are read. -/
theorem gives_fieldsUpTo {P : σ → Prop} {field : σ → String → Reader σ}
    (h : ∀ state name, P state → Gives (field state name) P) (n : Nat) (first : Bool) {state : σ}
    (hstate : P state) : Gives (fieldsUpTo field n first state) P := by
  induction n generalizing first state with
  | zero => exact gives_failNext _ _
  | succ n ih =>
    refine gives_bind fun more => gives_ite ?_ (gives_pure hstate)
    exact gives_bind fun name => Gives.bind (h state name hstate) fun _ hnext => ih false hnext

theorem gives_object {P : Json → Prop} {inner : Reader Json} (h : Gives inner P) :
    Gives (object inner) fun fields => ∀ field ∈ fields, P field.2 := by
  have hfield : ∀ (fields : List (String × Json)) (name : String),
      (∀ field ∈ fields, P field.2) →
        Gives (do
          colon
          let field ← inner
          return fields ++ [(name, field)]) fun fields => ∀ field ∈ fields, P field.2 := by
    intro fields name hfields
    refine gives_bind fun _ => Gives.bind h fun value hvalue => gives_pure ?_
    intro field hmem
    rcases List.mem_append.1 hmem with hmem | hmem
    · exact hfields field hmem
    · rw [List.mem_singleton.1 hmem]
      exact hvalue
  have hnone : ∀ field ∈ ([] : List (String × Json)), P field.2 :=
    fun field hmem => absurd hmem List.not_mem_nil
  exact gives_bind fun _ => gives_bind fun _ =>
    Gives.bind (gives_fieldsUpTo hfield _ true hnone) fun _ hfields =>
      gives_bind fun _ => gives_pure hfields

/-! ### Values -/

/-- A value whose items and fields have at most `depth` brackets open has at most one more. -/
theorem gives_part_some {depth : Nat} {inner : Reader Json} (h : Gives inner (Within depth)) :
    Gives (part (some inner)) (Within (depth + 1)) := by
  refine gives_bind fun c => ?_
  cases c with
  | none => exact gives_failNext _ _
  | some c =>
    refine gives_ite (gives_bind fun _ => gives_bind fun _ => gives_pure .null) ?_
    refine gives_ite (gives_bind fun _ => gives_bind fun _ => gives_pure (.bool _)) ?_
    refine gives_ite (gives_bind fun _ => gives_bind fun _ => gives_pure (.bool _)) ?_
    refine gives_ite (gives_bind fun _ => gives_pure (.number _)) ?_
    refine gives_ite (gives_bind fun _ => gives_pure (.text _)) ?_
    refine gives_ite (Gives.bind (gives_elements h) fun _ hitems => gives_pure (.list hitems)) ?_
    refine gives_ite ?_ (gives_failNext _ _)
    exact Gives.bind (gives_object h) fun _ hfields => gives_pure (.object hfields)

theorem gives_part_none : Gives (part none) (Within 0) := by
  refine gives_bind fun c => ?_
  cases c with
  | none => exact gives_failNext _ _
  | some c =>
    refine gives_ite (gives_bind fun _ => gives_bind fun _ => gives_pure .null) ?_
    refine gives_ite (gives_bind fun _ => gives_bind fun _ => gives_pure (.bool _)) ?_
    refine gives_ite (gives_bind fun _ => gives_bind fun _ => gives_pure (.bool _)) ?_
    refine gives_ite (gives_bind fun _ => gives_pure (.number _)) ?_
    refine gives_ite (gives_bind fun _ => gives_pure (.text _)) ?_
    exact gives_ite (gives_failNext _ _) (gives_ite (gives_failNext _ _) (gives_failNext _ _))

theorem gives_value (depth : Nat) : Gives (value depth) (Within depth) := by
  induction depth with
  | zero => exact gives_part_none
  | succ depth ih => exact gives_part_some ih

end Reader

/-- No document has more than `maxDepth` brackets open at once. -/
theorem within_of_read {s : String} {j : Json} (h : read s = .ok j) : j.Within maxDepth := by
  have hwhole : Reader.Gives (Reader.whole (Reader.value maxDepth)) (Within maxDepth) := by
    refine Reader.Gives.bind (Reader.gives_value maxDepth) fun j hj => ?_
    refine Reader.gives_bind fun c => ?_
    cases c with
    | none => exact Reader.gives_pure hj
    | some c => exact Reader.gives_failNext _ _
  unfold read Reader.run at h
  split at h
  · rename_i value after hok
    obtain rfl : value = j := Except.ok.inj h
    exact hwhole _ _ _ hok
  · exact absurd h (by simp)

end MountShell.Json
