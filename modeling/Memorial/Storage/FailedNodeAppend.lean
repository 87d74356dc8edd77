import Memorial.Schema.JournalSchema
import Memorial.Storage.StoreRuns

/-!
# Node appends that fail

An append that fails takes back what it wrote, but not that it marked the indices stale, which it
does before the inner store checks the capacity and before any `push_back`.

* `SameObservations` — two stores that no public member tells apart;
* `append_invisible_iff` — **PROVED**: a failed append is invisible exactly if the worldline is
  refused, which is checked first, or the indices were stale anyway;
* `failedNodeAppends_invisible_iff` — **PROVED**: the same of every append of a run;
* `failedAppend_visible` — **PROVED**: a full store loses its indices.
-/

namespace Memorial

open Library

variable {C : TypeSystem} {node : NodeSpec C}

namespace DeltaNodeStore

/-- Every public member returns the same. -/
structure SameObservations (a b : DeltaNodeStore node) : Prop where
  size : a.size = b.size
  extent : a.extent = b.extent
  contains : ∀ id, a.contains id = b.contains id
  property : ∀ key id, a.property key id = b.property key id
  worldline : ∀ id, a.worldline id = b.worldline id
  valid : ∀ id, a.valid id = b.valid id
  transaction : ∀ id, a.transaction id = b.transaction id
  source : ∀ id, a.source id = b.source id
  indicesReady : a.indicesReady = b.indicesReady
  indexedCandidates : ∀ worldline validAt knownAt,
    a.indexedCandidates worldline validAt knownAt = b.indexedCandidates worldline validAt knownAt
  indexedPropertyCandidates : ∀ (Value : Type) (key : PropertyKey node.properties) (value : Value)
    (predicate : PropertyValue node.properties key.index → Value → Bool),
    a.indexedPropertyCandidates key value predicate =
      b.indexedPropertyCandidates key value predicate
  estimatePropertyCandidates : ∀ (Value : Type) (key : PropertyKey node.properties)
    (value : Value) (predicate : PropertyValue node.properties key.index → Value → Bool),
    a.estimatePropertyCandidates key value predicate =
      b.estimatePropertyCandidates key value predicate

theorem SameObservations.refl (store : DeltaNodeStore node) : SameObservations store store := by
  constructor <;> intros <;> rfl

/-- The append returns an error or throws. -/
def Fails (store : DeltaNodeStore node) (row : RowMetadata)
    (values : PropertyValues node.properties) (fault : Option ℕ) : Prop :=
  (store.append row values fault).2.accepted = none

/-- The capacity check or one of the `push_back`s fails. -/
def FailsLate (store : DeltaNodeStore node) (fault : Option ℕ) : Prop :=
  store.extent ≥ StrongId.capacity 32 ∨ interrupts fault 0 (4 + node.properties.length) = true

/-- The metadata columns come first, and then the property columns. -/
theorem interrupts_append (fault : Option ℕ) (first count more : ℕ) :
    interrupts fault first (count + more) =
      (interrupts fault first count || interrupts fault (first + count) more) := by
  cases fault with
  | none => rfl
  | some position =>
    simp only [interrupts, ← Bool.decide_or, decide_eq_decide]
    omega

theorem append_of_refused {store : DeltaNodeStore node} {row : RowMetadata}
    (h : row.worldline.isValid = false) (values : PropertyValues node.properties)
    (fault : Option ℕ) : (store.append row values fault).1 = store := by
  rw [append_eq, if_pos h]

/-- A late failure takes back what was written, and leaves the indices stale. -/
theorem append_of_failsLate {store : DeltaNodeStore node} {row : RowMetadata} {fault : Option ℕ}
    (hworldline : row.worldline.isValid = true) (hlate : store.FailsLate fault)
    (values : PropertyValues node.properties) :
    (store.append row values fault).1 = store.stale ∧ store.Fails row values fault := by
  rw [FailsLate, interrupts_append, Bool.or_eq_true, Nat.zero_add] at hlate
  rw [Fails, append_eq, if_neg (by simp [hworldline])]
  by_cases hmetadata : interrupts fault 0 4 = true
  · rw [if_pos hmetadata]
    exact ⟨rfl, rfl⟩
  · rw [if_neg hmetadata]
    by_cases hcapacity : store.extent ≥ StrongId.capacity 32
    · rw [if_pos hcapacity]
      exact ⟨rfl, rfl⟩
    · rw [if_neg hcapacity, if_pos (by tauto)]
      exact ⟨rfl, rfl⟩

theorem not_fails_of_not_failsLate {store : DeltaNodeStore node} {row : RowMetadata}
    {fault : Option ℕ} (hworldline : row.worldline.isValid = true)
    (hlate : ¬store.FailsLate fault) (values : PropertyValues node.properties) :
    ¬store.Fails row values fault := by
  rw [FailsLate, interrupts_append, Bool.or_eq_true, Nat.zero_add] at hlate
  push Not at hlate
  obtain ⟨hcapacity, hmetadata, hcolumns⟩ := hlate
  rw [Fails, append_eq, if_neg (by simp [hworldline]), if_neg hmetadata,
    if_neg (Nat.not_le.mpr hcapacity), if_neg hcolumns]
  exact nofun

/-- **A failed append is invisible exactly if it is refused first or the indices were stale.** -/
theorem append_invisible_iff (store : DeltaNodeStore node) (row : RowMetadata)
    (values : PropertyValues node.properties) (fault : Option ℕ) :
    (store.Fails row values fault → SameObservations (store.append row values fault).1 store) ↔
      ¬(row.worldline.isValid = true ∧ store.indicesReady = true ∧ store.FailsLate fault) := by
  cases hworldline : row.worldline.isValid with
  | false =>
    refine iff_of_true (fun _ => ?_) (fun h => Bool.false_ne_true h.1)
    rw [append_of_refused hworldline]
    exact .refl store
  | true =>
    by_cases hlate : store.FailsLate fault
    · obtain ⟨happend, hfails⟩ := append_of_failsLate hworldline hlate values
      rw [happend]
      cases hready : store.indicesReady with
      | true =>
        refine iff_of_false (fun h => ?_) (fun h => h ⟨rfl, rfl, hlate⟩)
        have hstale := (h hfails).indicesReady
        rw [hready] at hstale
        exact Bool.false_ne_true hstale
      | false =>
        have hstale : store.stale = store := by rw [stale, ← hready]
        refine iff_of_true (fun _ => ?_) (fun h => Bool.false_ne_true h.2.1)
        rw [hstale]
        exact .refl store
    · refine iff_of_true (fun hfails => ?_) (fun h => hlate h.2.2)
      exact absurd hfails (not_fails_of_not_failsLate hworldline hlate values)

/-! ### Runs -/

/-- The call is not an append that fails, or it leaves every public member as it was. -/
def FailureInvisible (store : DeltaNodeStore node) : Call node → Prop
  | .append row values fault =>
    store.Fails row values fault → SameObservations (store.append row values fault).1 store
  | .buildIndices => True

/-- The call is not an append that fails late in a store whose indices are ready. -/
def KeepsIndices (store : DeltaNodeStore node) : Call node → Prop
  | .append row _ fault =>
    ¬(row.worldline.isValid = true ∧ store.indicesReady = true ∧ store.FailsLate fault)
  | .buildIndices => True

/-- **The failed appends of a run are invisible exactly if none fails late while the indices are
ready.** -/
theorem failedNodeAppends_invisible_iff (idBase : ℕ) (calls : List (Call node)) :
    (∀ before call after, calls = before ++ call :: after →
      (run step (empty idBase) before).FailureInvisible call) ↔
      Meets step KeepsIndices (empty idBase) calls := by
  have hcall : ∀ (store : DeltaNodeStore node) call,
      store.FailureInvisible call ↔ store.KeepsIndices call := by
    intro store call
    cases call with
    | append row values fault => exact append_invisible_iff store row values fault
    | buildIndices => exact Iff.rfl
  simp only [hcall]
  exact (meets_iff_split step KeepsIndices (empty idBase) calls).symm

/-- The metadata of a row that is appended to a full store. -/
def surplusRow : RowMetadata where
  worldline := ⟨1⟩
  valid := ⟨0, 1, by decide⟩
  transaction := ⟨0, 1, by decide⟩
  source := .ofObservation (.singleton 115) (List.cons_ne_nil _ _)

/-- **A failed append is visible**: in the empty delta of a branch whose parent holds every id, the
indices are lost to an append that is refused for want of ids. -/
theorem failedAppend_visible :
    ¬∀ (idBase : ℕ) (calls : List (Call Journal.thoughtNode)),
      ∀ before call after, calls = before ++ call :: after →
        (run step (empty idBase) before).FailureInvisible call := by
  intro h
  have hinvisible := h (StrongId.capacity 32)
    [.buildIndices, .append surplusRow (Journal.thoughtValues 3 .nan) none] [.buildIndices] _ [] rfl
  have hready := (hinvisible rfl).indicesReady
  exact absurd hready (by decide)

end DeltaNodeStore

end Memorial
