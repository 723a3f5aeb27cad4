import MountShell.NameMap

/-!
# Pairs of a name map

Which pairs an operation leaves in a map, said for properties of the values, and the maps that
`NameMap.ofList` gives back as they are.
-/

namespace MountShell.NameMap

variable {α : Type} {P : α → Prop}

theorem mem_of_find? {name : String} {value : α} {m : List (String × α)}
    (h : find? name m = some value) : (name, value) ∈ m := by
  induction m with
  | nil => exact absurd h (by simp [find?_nil])
  | cons pair rest ih =>
    obtain ⟨key, first⟩ := pair
    rw [find?_cons] at h
    by_cases hkey : key = name
    · rw [if_pos hkey] at h
      obtain rfl : first = value := Option.some.inj h
      rw [hkey]
      exact List.mem_cons_self
    · rw [if_neg hkey] at h
      exact List.mem_cons_of_mem _ (ih h)

/-- In a map that is in order the value of each pair is found under its name. -/
theorem Ordered.find?_of_mem {m : List (String × α)} (h : Ordered m) {name : String} {value : α}
    (hmem : (name, value) ∈ m) : find? name m = some value := by
  induction m with
  | nil => exact absurd hmem List.not_mem_nil
  | cons first rest ih =>
    obtain ⟨key, own⟩ := first
    obtain ⟨hfirst, hrest⟩ := List.pairwise_cons.1 h
    rw [find?_cons]
    rcases List.mem_cons.1 hmem with heq | hlater
    · obtain ⟨rfl, rfl⟩ := Prod.mk.inj heq
      exact if_pos rfl
    · have hlt : key < name := hfirst _ hlater
      have hne : key ≠ name := fun heq => String.lt_irrefl name (heq ▸ hlt)
      rw [if_neg hne, ih hrest hlater]

theorem forall_insert {name : String} {value : α} {m : List (String × α)}
    (hm : ∀ pair ∈ m, P pair.2) (hvalue : P value) : ∀ pair ∈ insert name value m, P pair.2 := by
  induction m with
  | nil =>
    intro pair hpair
    rw [List.mem_singleton.1 hpair]
    exact hvalue
  | cons first rest ih =>
    obtain ⟨key, old⟩ := first
    obtain ⟨hfirst, hrest⟩ := List.forall_mem_cons.1 hm
    unfold insert
    by_cases hkey : key = name
    · rw [if_pos hkey]
      exact List.forall_mem_cons.2 ⟨hvalue, hrest⟩
    · rw [if_neg hkey]
      by_cases hlt : name < key
      · rw [if_pos hlt]
        exact List.forall_mem_cons.2 ⟨hvalue, hm⟩
      · rw [if_neg hlt]
        exact List.forall_mem_cons.2 ⟨hfirst, ih hrest⟩

theorem forall_modify {name : String} {f : α → α} {m : List (String × α)}
    (hm : ∀ pair ∈ m, P pair.2) (hf : ∀ value, P value → P (f value)) :
    ∀ pair ∈ modify name f m, P pair.2 := by
  induction m with
  | nil => exact hm
  | cons first rest ih =>
    obtain ⟨key, old⟩ := first
    obtain ⟨hfirst, hrest⟩ := List.forall_mem_cons.1 hm
    unfold modify
    by_cases hkey : key = name
    · rw [if_pos hkey]
      exact List.forall_mem_cons.2 ⟨hf old hfirst, hrest⟩
    · rw [if_neg hkey]
      exact List.forall_mem_cons.2 ⟨hfirst, ih hrest⟩

theorem forall_ofList {pairs : List (String × α)} (h : ∀ pair ∈ pairs, P pair.2) :
    ∀ pair ∈ ofList pairs, P pair.2 := by
  have hkeep : ∀ (pairs m : List (String × α)), (∀ pair ∈ pairs, P pair.2) →
      (∀ pair ∈ m, P pair.2) →
      ∀ pair ∈ pairs.foldl (fun m pair => insert pair.1 pair.2 m) m, P pair.2 := by
    intro pairs
    induction pairs with
    | nil => exact fun _ _ hm => hm
    | cons first rest ih =>
      intro m hpairs hm
      obtain ⟨hfirst, hrest⟩ := List.forall_mem_cons.1 hpairs
      exact ih _ hrest (forall_insert hm hfirst)
  exact hkeep pairs [] h (fun _ hmem => absurd hmem List.not_mem_nil)

/-! ### What is collected from the values -/

section

variable {β : Type} (g : α → List β)

/-- A value that is replaced by one that gives the same leaves what is collected. -/
theorem flatMap_modify {name : String} {f : α → α} {m : List (String × α)} {value : α}
    (h : find? name m = some value) (hg : g (f value) = g value) :
    ((modify name f m).flatMap fun pair => g pair.2) = m.flatMap fun pair => g pair.2 := by
  induction m with
  | nil => rfl
  | cons first rest ih =>
    obtain ⟨key, own⟩ := first
    rw [find?_cons] at h
    by_cases hkey : key = name
    · rw [if_pos hkey] at h
      obtain rfl : own = value := Option.some.inj h
      rw [modify, if_pos hkey, List.flatMap_cons, List.flatMap_cons, hg]
    · rw [if_neg hkey] at h
      rw [modify, if_neg hkey, List.flatMap_cons, List.flatMap_cons, ih h]

/-- A new value that gives nothing leaves what is collected. -/
theorem flatMap_insert {name : String} {value : α} {m : List (String × α)}
    (h : find? name m = none) (hg : g value = []) :
    ((insert name value m).flatMap fun pair => g pair.2) = m.flatMap fun pair => g pair.2 := by
  induction m with
  | nil => rw [insert, List.flatMap_cons, hg, List.nil_append]
  | cons first rest ih =>
    obtain ⟨key, own⟩ := first
    rw [find?_cons] at h
    by_cases hkey : key = name
    · exact absurd h (by simp [hkey])
    · rw [if_neg hkey] at h
      rw [insert, if_neg hkey]
      by_cases hlt : name < key
      · rw [if_pos hlt, List.flatMap_cons, hg, List.nil_append]
      · rw [if_neg hlt, List.flatMap_cons, List.flatMap_cons, ih h]

end

/-! ### Maps that are made of themselves -/

/-- A name above all others goes to the end. -/
theorem insert_of_forall_lt {name : String} (value : α) {m : List (String × α)}
    (h : ∀ pair ∈ m, pair.1 < name) : insert name value m = m ++ [(name, value)] := by
  induction m with
  | nil => rfl
  | cons first rest ih =>
    obtain ⟨key, old⟩ := first
    obtain ⟨hfirst, hrest⟩ := List.forall_mem_cons.1 h
    have hne : key ≠ name := fun heq => String.lt_irrefl name (heq ▸ hfirst)
    have hnot : ¬ name < key := fun hlt => String.lt_irrefl name (String.lt_trans hlt hfirst)
    rw [insert, if_neg hne, if_neg hnot, ih hrest, List.cons_append]

/-- The map of pairs that are in order already is the list of them. -/
theorem Ordered.ofList_eq {m : List (String × α)} (h : Ordered m) : ofList m = m := by
  have hgrow : ∀ rest start : List (String × α), Ordered (start ++ rest) →
      rest.foldl (fun m pair => NameMap.insert pair.1 pair.2 m) start = start ++ rest := by
    intro rest
    induction rest with
    | nil => exact fun start _ => (List.append_nil start).symm
    | cons first rest ih =>
      intro start hordered
      obtain ⟨name, value⟩ := first
      have hlast : ∀ pair ∈ start, pair.1 < name := fun pair hpair =>
        (List.pairwise_append.1 hordered).2.2 pair hpair _ List.mem_cons_self
      have hsplit : start ++ (name, value) :: rest = (start ++ [(name, value)]) ++ rest := by
        simp
      rw [hsplit] at hordered ⊢
      rw [List.foldl_cons, insert_of_forall_lt value hlast]
      exact ih _ hordered
  exact hgrow m [] h

end MountShell.NameMap
