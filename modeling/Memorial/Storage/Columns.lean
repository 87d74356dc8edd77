import Memorial.Library.Rollback
import Memorial.Runtime.Identity
import Memorial.Schema.GraphSchema
import Mathlib.Data.List.FinRange
import Mathlib.Data.List.Pairwise

/-!
# Row ids and property columns

What the node and edge stores have in common: a half-open range of ids, one per row, and one
vector per property, to which an append adds one value each.

* `Outcome` — how an append ends: with a result, or with an exception from a `push_back`;
* `IdRange` — the id checks `contains` and `checked_row`, and the list of the ids of the rows;
* `pushProperties` — the steps of `append_columns` over the property columns.
-/

namespace Memorial

open Library

/-- How a call that allocates ends.  `thrown` is an exception that leaves the call. -/
inductive Outcome (α : Type)
  | returned (result : Result α)
  | thrown

/-- The id a call returned, if it was accepted. -/
def Outcome.accepted {α : Type} : Outcome α → Option α
  | .returned (.ok value) => some value
  | _ => none

/-! ### Id ranges -/

/-- The rows of a store: the base of their ids and their number. -/
@[ext]
structure IdRange where
  base : ℕ
  size : ℕ

namespace IdRange

variable {Tag : Type} {width : ℕ}

def extent (ids : IdRange) : ℕ := ids.base + ids.size

/-- `contains`. -/
def contains (ids : IdRange) (id : StrongId Tag width) : Bool :=
  if !id.isValid then false
  else decide (ids.base ≤ id.toSize) && decide (id.toSize < ids.extent)

/-- `checked_row`. -/
def checkedRow (ids : IdRange) (id : StrongId Tag width) : Result ℕ :=
  if !id.isValid then .error { code := .invalidId }
  else if id.toSize < ids.base ∨ ids.extent ≤ id.toSize then .error { code := .idNotFound }
  else .ok (id.toSize - ids.base)

/-- The id of a row. -/
def rowId (ids : IdRange) (row : ℕ) : StrongId Tag width := .ofSize (ids.base + row)

/-- The ids of all rows, in row order. -/
def rowIds (ids : IdRange) : List (StrongId Tag width) := (List.range ids.size).map ids.rowId

/-- Every row has a valid id of its own: what the capacity check of `append` maintains. -/
def Fits (ids : IdRange) (width : ℕ) : Prop :=
  ids.size = 0 ∨ ids.extent ≤ StrongId.capacity width

theorem fits_empty (base width : ℕ) : IdRange.Fits ⟨base, 0⟩ width := Or.inl rfl

theorem Fits.lt_capacity {ids : IdRange} (h : ids.Fits width) {n : ℕ} (hbase : ids.base ≤ n)
    (hn : n < ids.extent) : n < StrongId.capacity width := by
  rw [extent] at hn
  rcases h with h | h
  · omega
  · rw [extent] at h
    omega

theorem contains_iff {ids : IdRange} (h : ids.Fits width) {id : StrongId Tag width} :
    ids.contains id = true ↔ ids.base ≤ id.toSize ∧ id.toSize < ids.extent := by
  rw [contains]
  split
  · rename_i hinvalid
    have hcap : ¬id.toSize < StrongId.capacity width := by
      rw [← StrongId.isValid_iff]
      simpa using hinvalid
    refine iff_of_false (by simp) ?_
    intro hbounds
    obtain ⟨hbase, hlt⟩ := hbounds
    exact hcap (h.lt_capacity hbase hlt)
  · simp

theorem isValid_of_contains {ids : IdRange} {id : StrongId Tag width}
    (h : ids.contains id = true) : id.isValid = true := by
  rw [contains] at h
  split at h
  · cases h
  · rename_i hvalid
    simpa using hvalid

theorem bounds_of_contains {ids : IdRange} {id : StrongId Tag width}
    (h : ids.contains id = true) : ids.base ≤ id.toSize ∧ id.toSize < ids.extent := by
  rw [contains, isValid_of_contains h] at h
  simpa using h

theorem checkedRow_of_contains {ids : IdRange} {id : StrongId Tag width}
    (h : ids.contains id = true) : ids.checkedRow id = .ok (id.toSize - ids.base) := by
  obtain ⟨hbase, hlt⟩ := bounds_of_contains h
  rw [checkedRow, isValid_of_contains h, if_neg (by simp), if_neg (by omega)]

theorem toSize_rowId {ids : IdRange} (h : ids.Fits width) {row : ℕ} (hrow : row < ids.size) :
    (ids.rowId row : StrongId Tag width).toSize = ids.base + row := by
  have hlt : ids.base + row < ids.extent := by
    rw [extent]
    omega
  exact StrongId.toSize_ofSize (h.lt_capacity (Nat.le_add_right _ _) hlt)

theorem contains_rowId {ids : IdRange} (h : ids.Fits width) {row : ℕ} (hrow : row < ids.size) :
    ids.contains (ids.rowId row : StrongId Tag width) = true := by
  rw [contains_iff h, toSize_rowId h hrow, extent]
  omega

/-- The id of the row an id names is that id. -/
theorem rowId_sub {ids : IdRange} {id : StrongId Tag width} (h : ids.contains id = true) :
    ids.rowId (id.toSize - ids.base) = id := by
  obtain ⟨hbase, -⟩ := bounds_of_contains h
  rw [rowId, Nat.add_sub_cancel' hbase, StrongId.ofSize_toSize]

theorem mem_rowIds {ids : IdRange} (h : ids.Fits width) {id : StrongId Tag width} :
    id ∈ ids.rowIds ↔ ids.contains id = true := by
  rw [rowIds, List.mem_map]
  constructor
  · intro hid
    obtain ⟨row, hrow, rfl⟩ := hid
    exact contains_rowId h (List.mem_range.mp hrow)
  · intro hid
    obtain ⟨hbase, hlt⟩ := bounds_of_contains hid
    rw [extent] at hlt
    exact ⟨id.toSize - ids.base, List.mem_range.mpr (by omega), rowId_sub hid⟩

theorem rowIds_pairwise {ids : IdRange} (h : ids.Fits width) :
    (ids.rowIds : List (StrongId Tag width)).Pairwise (fun a b => a.toSize < b.toSize) := by
  rw [rowIds, List.pairwise_map]
  refine List.Pairwise.imp_of_mem ?_ List.pairwise_lt_range
  intro a b ha hb hab
  rw [toSize_rowId h (List.mem_range.mp ha), toSize_rowId h (List.mem_range.mp hb)]
  omega

theorem nodup_rowIds {ids : IdRange} (h : ids.Fits width) :
    (ids.rowIds : List (StrongId Tag width)).Nodup :=
  (rowIds_pairwise h).imp (fun hlt heq => absurd hlt (by rw [heq]; exact lt_irrefl _))

@[simp]
theorem length_rowIds (ids : IdRange) : (ids.rowIds : List (StrongId Tag width)).length = ids.size := by
  rw [rowIds, List.length_map, List.length_range]

theorem rowIds_succ (base size : ℕ) :
    (rowIds ⟨base, size + 1⟩ : List (StrongId Tag width)) =
      rowIds ⟨base, size⟩ ++ [.ofSize (base + size)] := by
  simp only [rowIds, List.range_succ, List.map_append, List.map_cons, List.map_nil]
  rfl

/-- What is stored under an id that a store contains sits in the row of the id. -/
theorem vectorAt_of_contains {ids : IdRange} {id : StrongId Tag width} {α : Type}
    {values : List α} (h : ids.contains id = true) (hlength : values.length = ids.size) :
    ∃ value, values[id.toSize - ids.base]? = some value ∧
      vectorAt values (id.toSize - ids.base) = .ok value := by
  obtain ⟨hbase, hlt⟩ := bounds_of_contains h
  have hrow : id.toSize - ids.base < values.length := by
    rw [extent] at hlt
    omega
  have hread := List.getElem?_eq_getElem hrow
  exact ⟨_, hread, vectorAt_of_getElem? hread⟩

end IdRange

/-! ### Property columns -/

section PropertyColumns

variable {C : TypeSystem} {properties : List (PropertySpec C)}

/-- One level of `append_columns`: push onto one column, and pop it again on the way out of an
exception. -/
def pushProperty (values : PropertyValues properties) (index : Fin properties.length) :
    Undoable (PropertyColumns properties) where
  apply columns := Function.update columns index (columns index ++ [values index])
  undo columns := Function.update columns index (columns index).dropLast
  undo_apply columns := by simp

/-- `append_columns<0>` over the property columns. -/
def pushProperties (values : PropertyValues properties) :
    List (Undoable (PropertyColumns properties)) :=
  (List.finRange properties.length).map (pushProperty values)

@[simp]
theorem length_pushProperties (values : PropertyValues properties) :
    (pushProperties values).length = properties.length := by
  simp [pushProperties]

theorem applyAll_map_pushProperty (values : PropertyValues properties)
    {indices : List (Fin properties.length)} (hnodup : indices.Nodup)
    (columns : PropertyColumns properties) (index : Fin properties.length) :
    applyAll (indices.map (pushProperty values)) columns index =
      if index ∈ indices then columns index ++ [values index] else columns index := by
  induction indices generalizing columns with
  | nil => rfl
  | cons head rest ih =>
    obtain ⟨hhead, hrest⟩ := List.nodup_cons.mp hnodup
    have hstep : applyAll ((head :: rest).map (pushProperty values)) columns =
        applyAll (rest.map (pushProperty values))
          (Function.update columns head (columns head ++ [values head])) := rfl
    rw [hstep, ih hrest]
    by_cases hindex : index = head
    · subst hindex
      simp [hhead]
    · simp [hindex]

/-- Appending a row adds one value to every column. -/
theorem applyAll_pushProperties (values : PropertyValues properties)
    (columns : PropertyColumns properties) :
    applyAll (pushProperties values) columns = fun index => columns index ++ [values index] := by
  funext index
  rw [pushProperties, applyAll_map_pushProperty values (List.nodup_finRange _),
    if_pos (List.mem_finRange index)]

end PropertyColumns

end Memorial
