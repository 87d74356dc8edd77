import Mathlib.Data.List.Nodup
import Mathlib.Data.List.Basic

/-!
# Type lists

The metafunctions over `type_list`, as functions on lists: two C++ types are the same type
exactly when their names are equal, so a type list is a list of names (or of the data a
specialization carries).  Each function keeps the shape of the fold or recursion it models, and
one lemma says which standard list function it is.
-/

namespace Memorial.Meta

variable {α : Type}

section Count

variable [DecidableEq α]

/-- `type_list_count`: a left fold over the matches. -/
def typeListCount (sought : α) (types : List α) : ℕ :=
  types.foldl (fun total type => total + if type = sought then 1 else 0) 0

/-- `type_list_contains_v`. -/
def typeListContains (sought : α) (types : List α) : Bool := typeListCount sought types != 0

/-- `type_list_is_unique`: every type occurs exactly once. -/
def typeListIsUnique (types : List α) : Bool :=
  types.all (fun type => typeListCount type types == 1)

/-- `find_type_index`: the first match, or `type_list_npos`. -/
def typeListIndex (sought : α) (types : List α) : ℕ :=
  (types.findIdx? (fun type => decide (sought = type))).getD (UInt64.size - 1)

theorem typeListIndex_of_mem {sought : α} {types : List α} (h : sought ∈ types) :
    ∃ hindex : typeListIndex sought types < types.length,
      types[typeListIndex sought types] = sought := by
  cases hfound : types.findIdx? (fun type => decide (sought = type)) with
  | none =>
    have hnone := List.findIdx?_eq_none_iff.mp hfound sought h
    exact absurd (decide_eq_false_iff_not.mp hnone) (fun hne => hne rfl)
  | some index =>
    obtain ⟨hindex, hmatch, -⟩ := List.findIdx?_eq_some_iff_getElem.mp hfound
    have hvalue : typeListIndex sought types = index := by rw [typeListIndex, hfound]; rfl
    simp only [hvalue]
    exact ⟨hindex, (of_decide_eq_true hmatch).symm⟩

/-- Listed types are told apart by their indices. -/
theorem eq_of_typeListIndex {a b : α} {types : List α} (ha : a ∈ types) (hb : b ∈ types)
    (h : typeListIndex a types = typeListIndex b types) : a = b := by
  obtain ⟨_, hat⟩ := typeListIndex_of_mem ha
  obtain ⟨_, hbt⟩ := typeListIndex_of_mem hb
  simp only [h] at hat
  exact hat.symm.trans hbt

theorem typeListCount_eq_count (sought : α) (types : List α) :
    typeListCount sought types = types.count sought := by
  have hfold : ∀ start, types.foldl
      (fun total type => total + if type = sought then 1 else 0) start
        = start + types.count sought := by
    induction types with
    | nil => intro start; rfl
    | cons type rest ih =>
      intro start
      rw [List.foldl_cons, ih, List.count_cons]
      simp only [beq_iff_eq]
      omega
  rw [typeListCount, hfold, Nat.zero_add]

theorem typeListContains_iff {sought : α} {types : List α} :
    typeListContains sought types = true ↔ sought ∈ types := by
  rw [typeListContains, typeListCount_eq_count, bne_iff_ne, ne_eq, List.count_eq_zero, not_not]

theorem typeListIsUnique_iff {types : List α} :
    typeListIsUnique types = true ↔ types.Nodup := by
  rw [typeListIsUnique, List.all_eq_true]
  simp only [beq_iff_eq, typeListCount_eq_count]
  constructor
  · intro h
    rw [List.nodup_iff_count_le_one]
    intro a
    by_cases ha : a ∈ types
    · exact Nat.le_of_eq (h a ha)
    · rw [List.count_eq_zero.mpr ha]
      exact Nat.zero_le 1
  · intro h a ha
    exact List.count_eq_one_of_mem h ha

/-- `unique_types`: of a repeated type the last occurrence stays. -/
def uniqueTypes : List α → List α
  | [] => []
  | first :: rest =>
    let tail := uniqueTypes rest
    if typeListContains first tail then tail else first :: tail

theorem mem_uniqueTypes {sought : α} {types : List α} :
    sought ∈ uniqueTypes types ↔ sought ∈ types := by
  induction types with
  | nil => rfl
  | cons first rest ih =>
    rw [uniqueTypes, List.mem_cons, ← ih]
    split
    · rename_i hfirst
      have hmem : first ∈ uniqueTypes rest := typeListContains_iff.mp hfirst
      constructor
      · intro hsought
        exact Or.inr hsought
      · intro hsought
        rcases hsought with rfl | hsought
        · exact hmem
        · exact hsought
    · exact List.mem_cons

theorem nodup_uniqueTypes (types : List α) : (uniqueTypes types).Nodup := by
  induction types with
  | nil => exact List.nodup_nil
  | cons first rest ih =>
    rw [uniqueTypes]
    split
    · exact ih
    · rename_i hfirst
      have hnot : first ∉ uniqueTypes rest := by
        intro hmem
        exact hfirst (typeListContains_iff.mpr hmem)
      exact List.nodup_cons.mpr ⟨hnot, ih⟩

end Count

/-- `type_list_filter`: the concatenation of one-element and empty lists. -/
def typeListFilter (predicate : α → Bool) (types : List α) : List α :=
  types.flatMap (fun type => if predicate type then [type] else [])

/-- `type_list_find_if`: the front of the filtered list; `none` is `type_list_not_found`. -/
def typeListFindIf (predicate : α → Bool) (types : List α) : Option α :=
  (typeListFilter predicate types).head?

theorem typeListFilter_eq_filter (predicate : α → Bool) (types : List α) :
    typeListFilter predicate types = types.filter predicate := by
  induction types with
  | nil => rfl
  | cons type rest ih =>
    rw [typeListFilter] at ih ⊢
    rw [List.flatMap_cons, ih, List.filter_cons]
    split <;> rfl

theorem typeListFindIf_eq_find? (predicate : α → Bool) (types : List α) :
    typeListFindIf predicate types = types.find? predicate := by
  rw [typeListFindIf, typeListFilter_eq_filter, List.head?_filter]

end Memorial.Meta
