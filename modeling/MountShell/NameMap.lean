/-!
# Name maps

Finite maps from names to values, kept as lists of pairs in increasing order of the names, the order
of their code points. They hold the children of a directory, the variables of an environment and the
values of a store.

Main definitions: `NameMap.insert`, which keeps the order, `NameMap.find?` and `NameMap.erase`, and
`NameMap.Ordered`, the order as a property. `sortNames` puts names into that order without
repetitions.

Main statements: each operation changes what `NameMap.find?` finds under its own name and nothing
else (`find?_insert`, `find?_erase`, `find?_modify`), and none of them disturbs the order.
-/

namespace MountShell

/-! ### Names in order -/

/-- The names with `name` among them, in increasing order. -/
def insertName (name : String) : List String → List String
  | [] => [name]
  | first :: rest =>
    if name = first then first :: rest
    else if name < first then name :: first :: rest
    else first :: insertName name rest

/-- The given names in increasing order, each once. -/
def sortNames (names : List String) : List String :=
  names.foldr insertName []

/-- Inserting a name adds just this one. -/
theorem mem_insertName (name other : String) (names : List String) :
    other ∈ insertName name names ↔ other = name ∨ other ∈ names := by
  induction names with
  | nil => simp [insertName]
  | cons first rest ih =>
    unfold insertName
    by_cases heq : name = first
    · simp [heq]
    · rw [if_neg heq]
      by_cases hlt : name < first
      · simp [hlt]
      · rw [if_neg hlt, List.mem_cons, List.mem_cons, ih]
        exact or_left_comm

/-- Sorting keeps the names, if not their number. -/
theorem mem_sortNames (other : String) (names : List String) :
    other ∈ sortNames names ↔ other ∈ names := by
  induction names with
  | nil => rfl
  | cons name rest ih =>
    have hsort : sortNames (name :: rest) = insertName name (sortNames rest) := rfl
    rw [hsort, mem_insertName, ih, List.mem_cons]

/-- A name is inserted in its order, and not twice. -/
theorem pairwise_insertName (name : String) {names : List String}
    (h : names.Pairwise (· < ·)) : (insertName name names).Pairwise (· < ·) := by
  induction names with
  | nil => exact List.pairwise_singleton _ _
  | cons first rest ih =>
    obtain ⟨hfirst, hrest⟩ := List.pairwise_cons.1 h
    unfold insertName
    by_cases heq : name = first
    · rw [if_pos heq]
      exact h
    · rw [if_neg heq]
      by_cases hlt : name < first
      · rw [if_pos hlt]
        refine List.pairwise_cons.2 ⟨fun later hmem => ?_, h⟩
        rcases List.mem_cons.1 hmem with rfl | hmem
        · exact hlt
        · exact String.lt_trans hlt (hfirst later hmem)
      · rw [if_neg hlt]
        refine List.pairwise_cons.2 ⟨fun later hmem => ?_, ih hrest⟩
        rcases (mem_insertName name later rest).1 hmem with rfl | hmem
        · exact Decidable.byContradiction fun hge =>
            heq (String.le_antisymm (String.not_lt.1 hge) (String.not_lt.1 hlt))
        · exact hfirst later hmem

/-- Sorted names increase strictly. -/
theorem pairwise_sortNames (names : List String) : (sortNames names).Pairwise (· < ·) := by
  induction names with
  | nil => exact List.Pairwise.nil
  | cons name rest ih => exact pairwise_insertName name ih

/-! ### Maps -/

namespace NameMap

variable {α : Type}

/-- The value under `name`. -/
def find? (name : String) : List (String × α) → Option α
  | [] => none
  | (key, value) :: rest => if key = name then some value else find? name rest

/-- Is there a value under `name`? -/
def contains (name : String) (m : List (String × α)) : Bool :=
  (find? name m).isSome

/-- The map with `value` under `name`, in place of any earlier value. -/
def insert (name : String) (value : α) : List (String × α) → List (String × α)
  | [] => [(name, value)]
  | (key, old) :: rest =>
    if key = name then (name, value) :: rest
    else if name < key then (name, value) :: (key, old) :: rest
    else (key, old) :: insert name value rest

/-- The map without `name`. -/
def erase (name : String) (m : List (String × α)) : List (String × α) :=
  m.filter fun pair => pair.1 ≠ name

/-- The map with the value under `name`, if any, replaced by its image under `f`. -/
def modify (name : String) (f : α → α) : List (String × α) → List (String × α)
  | [] => []
  | (key, value) :: rest =>
    if key = name then (key, f value) :: rest else (key, value) :: modify name f rest

/-- The map of the given pairs; of two pairs with one name the later wins. -/
def ofList (pairs : List (String × α)) : List (String × α) :=
  pairs.foldl (fun m pair => insert pair.1 pair.2 m) []

/-- The names of a map, in increasing order. -/
def names (m : List (String × α)) : List String :=
  m.map Prod.fst

/-- The names increase strictly, so that no name occurs twice. -/
def Ordered (m : List (String × α)) : Prop :=
  m.Pairwise fun a b => a.1 < b.1

/-! ### Looking up after a change -/

/-- Nothing is found in an empty map. -/
theorem find?_nil (name : String) : find? name ([] : List (String × α)) = none :=
  rfl

/-- The first pair decides, and otherwise the rest. -/
theorem find?_cons (name key : String) (value : α) (rest : List (String × α)) :
    find? name ((key, value) :: rest) = if key = name then some value else find? name rest :=
  rfl

/-- After an insertion the new value is found under its name, and every other name as before. -/
theorem find?_insert (name other : String) (value : α) (m : List (String × α)) :
    find? other (insert name value m) = if name = other then some value else find? other m := by
  induction m with
  | nil => exact find?_cons other name value []
  | cons pair rest ih =>
    obtain ⟨key, old⟩ := pair
    unfold insert
    by_cases hkey : key = name
    · rw [if_pos hkey, find?_cons, find?_cons, hkey]
      by_cases h : name = other <;> simp [h]
    · rw [if_neg hkey]
      by_cases hlt : name < key
      · rw [if_pos hlt, find?_cons]
      · rw [if_neg hlt, find?_cons, find?_cons, ih]
        by_cases h : key = other
        · have hne : name ≠ other := fun hname => hkey (h.trans hname.symm)
          simp [h, hne]
        · simp [h]

/-- After a removal nothing is found under the name, and every other name as before. -/
theorem find?_erase (name other : String) (m : List (String × α)) :
    find? other (erase name m) = if name = other then none else find? other m := by
  induction m with
  | nil => simp [erase, find?_nil]
  | cons pair rest ih =>
    obtain ⟨key, value⟩ := pair
    by_cases hkey : key = name
    · have hskip : erase name ((key, value) :: rest) = erase name rest := by
        simp [erase, hkey]
      rw [hskip, ih, find?_cons, hkey]
      by_cases h : name = other <;> simp [h]
    · have hkeep : erase name ((key, value) :: rest) = (key, value) :: erase name rest := by
        simp [erase, hkey]
      rw [hkeep, find?_cons, find?_cons, ih]
      by_cases h : key = other
      · have hne : name ≠ other := fun hname => hkey (h.trans hname.symm)
        simp [h, hne]
      · simp [h]

/-- A modification changes what is found under its name only. -/
theorem find?_modify (name other : String) (f : α → α) (m : List (String × α)) :
    find? other (modify name f m) =
      if name = other then (find? other m).map f else find? other m := by
  induction m with
  | nil => simp [modify, find?_nil]
  | cons pair rest ih =>
    obtain ⟨key, value⟩ := pair
    unfold modify
    by_cases hkey : key = name
    · rw [if_pos hkey, find?_cons, find?_cons, hkey]
      by_cases h : name = other <;> simp [h]
    · rw [if_neg hkey, find?_cons, find?_cons, ih]
      by_cases h : key = other
      · have hne : name ≠ other := fun hname => hkey (h.trans hname.symm)
        simp [h, hne]
      · simp [h]

/-- Two modifications under one name are one. -/
theorem modify_modify (name : String) (f g : α → α) (m : List (String × α)) :
    modify name g (modify name f m) = modify name (g ∘ f) m := by
  induction m with
  | nil => rfl
  | cons pair rest ih =>
    obtain ⟨key, value⟩ := pair
    by_cases hkey : key = name
    · simp [modify, hkey]
    · simp [modify, hkey, ih]

/-- A modification that keeps the value changes nothing. -/
theorem modify_eq_self {name : String} {f : α → α} {m : List (String × α)} {value : α}
    (h : find? name m = some value) (hvalue : f value = value) : modify name f m = m := by
  induction m with
  | nil => rfl
  | cons pair rest ih =>
    obtain ⟨key, own⟩ := pair
    rw [find?_cons] at h
    by_cases hkey : key = name
    · obtain rfl : own = value := by simpa [hkey] using h
      simp [modify, hkey, hvalue]
    · simp only [hkey, if_false] at h
      simp [modify, hkey, ih h]

/-- A name has a value just when it is one of the names of the map. -/
theorem contains_iff_mem_names (name : String) (m : List (String × α)) :
    contains name m = true ↔ name ∈ names m := by
  induction m with
  | nil => simp [contains, find?_nil, names]
  | cons pair rest ih =>
    obtain ⟨key, value⟩ := pair
    by_cases h : key = name
    · simp [contains, find?_cons, names, h]
    · have hcons : contains name ((key, value) :: rest) = contains name rest := by
        simp [contains, find?_cons, h]
      rw [hcons, ih]
      simp [names, Ne.symm h]

/-! ### The order is kept -/

/-- A modification keeps the names. -/
theorem names_modify (name : String) (f : α → α) (m : List (String × α)) :
    names (modify name f m) = names m := by
  induction m with
  | nil => rfl
  | cons pair rest ih =>
    obtain ⟨key, value⟩ := pair
    unfold modify
    by_cases hkey : key = name
    · simp [hkey, names]
    · simp only [if_neg hkey, names, List.map_cons]
      exact congrArg (key :: ·) ih

/-- The names of a map with one more pair are its names with one more among them. -/
theorem names_insert (name : String) (value : α) (m : List (String × α)) :
    names (insert name value m) = insertName name (names m) := by
  induction m with
  | nil => rfl
  | cons pair rest ih =>
    obtain ⟨key, old⟩ := pair
    unfold insert names insertName
    simp only [List.map_cons]
    by_cases heq : name = key
    · rw [if_pos heq.symm, if_pos heq, List.map_cons, heq]
    · rw [if_neg (Ne.symm heq), if_neg heq]
      by_cases hlt : name < key
      · rw [if_pos hlt, if_pos hlt, List.map_cons, List.map_cons]
      · rw [if_neg hlt, if_neg hlt, List.map_cons]
        exact congrArg (key :: ·) ih

/-- A map is ordered just when its names increase strictly. -/
theorem ordered_iff_pairwise_names (m : List (String × α)) :
    Ordered m ↔ (names m).Pairwise (· < ·) :=
  List.pairwise_map.symm

/-- An insertion keeps the order, by the place where it puts the name. -/
theorem Ordered.insert {m : List (String × α)} (h : Ordered m) (name : String) (value : α) :
    Ordered (NameMap.insert name value m) := by
  rw [ordered_iff_pairwise_names, names_insert]
  exact pairwise_insertName name ((ordered_iff_pairwise_names m).1 h)

/-- So does a removal. -/
theorem Ordered.erase {m : List (String × α)} (h : Ordered m) (name : String) :
    Ordered (NameMap.erase name m) :=
  List.Pairwise.filter _ h

/-- So does a modification. -/
theorem Ordered.modify {m : List (String × α)} (h : Ordered m) (name : String) (f : α → α) :
    Ordered (NameMap.modify name f m) := by
  rw [ordered_iff_pairwise_names, names_modify]
  exact (ordered_iff_pairwise_names m).1 h

/-- A map made from a list is ordered, whatever the list is. -/
theorem ordered_ofList (pairs : List (String × α)) : Ordered (ofList pairs) := by
  have hkeep : ∀ (pairs m : List (String × α)), Ordered m →
      Ordered (pairs.foldl (fun m pair => NameMap.insert pair.1 pair.2 m) m) := by
    intro pairs
    induction pairs with
    | nil => exact fun _ h => h
    | cons pair rest ih => exact fun m h => ih _ (h.insert pair.1 pair.2)
  exact hkeep pairs [] List.Pairwise.nil

end NameMap

end MountShell
