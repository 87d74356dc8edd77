import Memorial.Query.Reference

/-!
# When a query fails

Every stage of the executor has error returns of its own.  On a reachable snapshot only those of
the three selectors are ever taken.

* `Selector`, `Expression.selectors` — the selectors of a pipeline, in its order;
* `selectorError_eq` — the error of a pipeline is that of its last selector that differs;
* `FailsBySelectors`, `failsBySelectors` — **PROVED**: when a query fails, with which error, and
  that no other stage and no projection adds one.
-/

namespace Memorial.Query

open Library Session

variable {C : TypeSystem} {S : GraphSchema C}

/-! ### The selectors of a pipeline -/

/-- `active_at`, `known_at` or `in_worldline`, with its value. -/
inductive Selector
  | activeAt (value : Timestamp)
  | knownAt (value : Timestamp)
  | inWorldline (value : WorldlineId)

/-- The value is not that of the snapshot. -/
def Selector.differs (graph : Snapshot S) : Selector → Bool
  | .activeAt value => decide (value ≠ graph.validAt)
  | .knownAt value => decide (value ≠ graph.knownAt)
  | .inWorldline value => decide (value ≠ graph.worldline)

/-- What the selector answers where it differs. -/
def Selector.error : Selector → GraphError
  | .activeAt _ => activeAtMismatch
  | .knownAt _ => knownAtMismatch
  | .inWorldline _ => worldlineMismatch

/-- The stage as a selector, if it is one. -/
def Operation.selector? {current next : S.Tag} : Operation S current next → Option Selector
  | .activeAt value => some (.activeAt value)
  | .knownAt value => some (.knownAt value)
  | .inWorldline value => some (.inWorldline value)
  | _ => none

/-- The selectors of a pipeline, from its first stage to its last. -/
def Expression.selectors : {tag : S.Tag} → Expression S tag → List Selector
  | _, .source _ => []
  | _, .pipeline previous operation => previous.selectors ++ operation.selector?.toList

/-- The last selector of a pipeline that differs from the snapshot. -/
def Expression.lastDiffering (graph : Snapshot S) {tag : S.Tag} (expression : Expression S tag) :
    Option Selector :=
  (expression.selectors.filter (Selector.differs graph)).getLast?

theorem mismatch_of_selector {graph : Snapshot S} {current next : S.Tag}
    {operation : Operation S current next} {selector : Selector}
    (h : operation.selector? = some selector) :
    operation.mismatch graph = if selector.differs graph then some selector.error else none := by
  cases operation with
  | activeAt value =>
    obtain rfl := Option.some.inj h
    simp only [Operation.mismatch, Selector.differs, Selector.error, decide_eq_true_eq]
  | knownAt value =>
    obtain rfl := Option.some.inj h
    simp only [Operation.mismatch, Selector.differs, Selector.error, decide_eq_true_eq]
  | inWorldline value =>
    obtain rfl := Option.some.inj h
    simp only [Operation.mismatch, Selector.differs, Selector.error, decide_eq_true_eq]
  | _ => cases h

theorem mismatch_of_not_selector {graph : Snapshot S} {current next : S.Tag}
    {operation : Operation S current next} (h : operation.selector? = none) :
    operation.mismatch graph = none := by
  cases operation with
  | activeAt value => cases h
  | knownAt value => cases h
  | inWorldline value => cases h
  | _ => rfl

/-- **The error of a pipeline is that of its last selector that differs.**  By induction on the
pipeline. -/
theorem selectorError_eq (graph : Snapshot S) {tag : S.Tag} (expression : Expression S tag) :
    selectorError graph expression = (expression.lastDiffering graph).map Selector.error := by
  induction expression with
  | source tag => rfl
  | pipeline previous operation ih =>
    rw [selectorError, ih, Expression.lastDiffering, Expression.lastDiffering,
      Expression.selectors]
    cases hselector : operation.selector? with
    | none =>
      rw [mismatch_of_not_selector hselector, Option.toList_none, List.append_nil]
      rfl
    | some selector =>
      rw [mismatch_of_selector hselector, Option.toList_some, List.filter_append]
      by_cases hdiffers : selector.differs graph = true
      · rw [if_pos hdiffers, List.filter_cons_of_pos hdiffers, List.filter_nil,
          List.getLast?_concat]
        rfl
      · rw [if_neg hdiffers, List.filter_cons_of_neg hdiffers, List.filter_nil, List.append_nil]
        rfl

theorem exists_lastDiffering_iff (graph : Snapshot S) {tag : S.Tag}
    (expression : Expression S tag) :
    (∃ selector, expression.lastDiffering graph = some selector) ↔
      ∃ selector ∈ expression.selectors, selector.differs graph = true := by
  rw [Expression.lastDiffering]
  constructor
  · intro hlast
    obtain ⟨selector, hselector⟩ := hlast
    obtain ⟨hmem, hdiffers⟩ := List.mem_filter.mp (List.mem_of_getLast? hselector)
    exact ⟨selector, hmem, hdiffers⟩
  · intro hdiffering
    obtain ⟨selector, hmem, hdiffers⟩ := hdiffering
    have hne := List.ne_nil_of_mem (List.mem_filter.mpr ⟨hmem, hdiffers⟩)
    exact ⟨_, List.getLast?_eq_some_getLast hne⟩

theorem lastDiffering_eq {graph : Snapshot S} {tag : S.Tag} {expression : Expression S tag}
    {before after : List Selector} {selector : Selector}
    (hselectors : expression.selectors = before ++ selector :: after)
    (hdiffers : selector.differs graph = true)
    (hafter : ∀ later ∈ after, ¬later.differs graph = true) :
    expression.lastDiffering graph = some selector := by
  have hlater : after.filter (Selector.differs graph) = [] := List.filter_eq_nil_iff.mpr hafter
  rw [Expression.lastDiffering, hselectors, List.filter_append, List.filter_cons_of_pos hdiffers,
    hlater, List.getLast?_concat]

/-! ### The condition -/

/-- When a query fails on a snapshot, and what can make it fail. -/
structure FailsBySelectors (graph : Snapshot S) (query : TypedQuery S) : Prop where
  fails_iff : (∃ error, execute graph query = .error error) ↔
    ∃ selector ∈ query.expression.selectors, selector.differs graph = true
  last : ∀ before selector after, query.expression.selectors = before ++ selector :: after →
    selector.differs graph = true → (∀ later ∈ after, ¬later.differs graph = true) →
      execute graph query = .error selector.error
  stages : ∀ (current next : S.Tag) (previous : Expression S current)
    (operation : Operation S current next), operation.selector? = none →
      ∀ ids, evaluate graph previous = .ok ids →
        ∃ result, evaluate graph (.pipeline previous operation) = .ok result
  projection : ∀ ids, evaluate graph query.expression = .ok ids →
    ∃ result, execute graph query = .ok result

/-- A pipeline that evaluates has no selector that differs. -/
theorem selectorError_of_evaluate {graph : Snapshot S} (h : graph.WellFormed) {tag : S.Tag}
    {expression : Expression S tag} {ids : List NodeId}
    (hids : evaluate graph expression = .ok ids) : selectorError graph expression = none := by
  rw [evaluate_eq h] at hids
  cases herror : selectorError graph expression with
  | none => rfl
  | some error =>
    rw [herror] at hids
    cases hids

/-- A query fails exactly if some selector differs. -/
theorem execute_fails_iff {graph : Snapshot S} (h : graph.WellFormed) (query : TypedQuery S) :
    (∃ error, execute graph query = .error error) ↔
      ∃ selector ∈ query.expression.selectors, selector.differs graph = true := by
  rw [← exists_lastDiffering_iff, execute_eq h, selectorError_eq]
  cases hlast : query.expression.lastDiffering graph with
  | none =>
    refine iff_of_false ?_ ?_
    · intro hfails
      obtain ⟨error, herror⟩ := hfails
      cases herror
    · intro hsome
      obtain ⟨selector, hselector⟩ := hsome
      cases hselector
  | some selector => exact iff_of_true ⟨selector.error, rfl⟩ ⟨selector, rfl⟩

/-- **The exact failure condition of query execution**, on every reachable snapshot. -/
theorem failsBySelectors {graph : Snapshot S} (hgraph : Reachable graph) (query : TypedQuery S) :
    FailsBySelectors graph query := by
  have h := wellFormed_of_reachable hgraph
  refine ⟨execute_fails_iff h query, ?_, ?_, ?_⟩
  · intro before selector after hselectors hdiffers hafter
    rw [execute_eq h, selectorError_eq, lastDiffering_eq hselectors hdiffers hafter]
    rfl
  · intro current next previous operation hselector ids hids
    rw [evaluate_eq h, selectorError, mismatch_of_not_selector hselector,
      selectorError_of_evaluate h hids]
    exact ⟨_, rfl⟩
  · intro ids hids
    rw [execute_eq h, selectorError_of_evaluate h hids]
    exact ⟨_, rfl⟩

/-- At the branch of the journal session, where the worldline of the query may differ. -/
theorem failsBySelectors_branchGraph :
    FailsBySelectors Journal.branchGraph (recalledQuery ⟨3⟩) :=
  failsBySelectors Journal.reachable_branchGraph (recalledQuery ⟨3⟩)

end Memorial.Query
