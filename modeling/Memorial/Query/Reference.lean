import Memorial.Query.Scan
import Memorial.Storage.Session

/-!
# The executor refines a plain interpreter

The interpreter reads rows and edges and nothing else: no index, histogram or degree statistic.
It sorts with merge sort.  When the keys that a query ranks by are totally ordered, the executor
returns what the interpreter returns.

* `TotallyOrdered`, `RanksOrdered` — the condition on the keys of `top_k` stages;
* `reference` — the interpreter;
* `execute_eq_reference` — **PROVED**: whatever `execute` returns is the interpreter's result.
-/

namespace Memorial.Query

open Library Session

variable {C : TypeSystem} {S : GraphSchema C}

/-- The operators `<` and `>` of a type are those of a linear order. -/
def TotallyOrdered (C : TypeSystem) (type : C.ValueType) : Prop :=
  ∃ order : LinearOrder (C.carrier type), ∀ a b : C.carrier type,
    (C.lessThan a b = true ↔ order.lt a b) ∧ (C.greaterThan a b = true ↔ order.lt b a)

/-- The type of the key that a `top_k` stage ranks by. -/
def TopK.rankType {tag : S.Tag} (ranking : TopK tag) : C.ValueType :=
  ((GraphSchema.node tag).properties.get ranking.key.index).valueType

/-- A `top_k` stage ranks by a totally ordered type. -/
def Operation.RanksOrdered {current next : S.Tag} : Operation S current next → Prop
  | .topK ranking => TotallyOrdered C ranking.rankType
  | _ => True

/-- Every `top_k` stage of a pipeline ranks by a totally ordered type. -/
def Expression.RanksOrdered : {tag : S.Tag} → Expression S tag → Prop
  | _, .source _ => True
  | _, .pipeline previous operation => previous.RanksOrdered ∧ operation.RanksOrdered

/-- The stable sort of the interpreter. -/
def mergeSortBy {α : Type} (less : α → α → Bool) (l : List α) : List α :=
  l.mergeSort (fun a b => !less b a)

/-- The interpreter. -/
def reference (graph : Snapshot S) (query : TypedQuery S) :
    ExecutionResult query.current query.projection :=
  scanQuery mergeSortBy graph query

/-! ### The two sorts agree -/

/-- Ranking by a totally ordered type is a strict weak ordering, in both directions. -/
theorem strictWeakOrdering_rankedBefore {type : C.ValueType} (h : TotallyOrdered C type)
    (direction : SortDirection) :
    StrictWeakOrdering (@rankedBefore C type direction) := by
  obtain ⟨order, horder⟩ := h
  cases direction with
  | ascending =>
    refine @StrictWeakOrdering.of_key _ _ order Prod.snd _ ?_
    intro left right
    rw [Bool.eq_iff_iff, decide_eq_true_iff]
    exact (horder left.2 right.2).1
  | descending =>
    refine @StrictWeakOrdering.of_key _ _ (@OrderDual.instLinearOrder _ order) Prod.snd _
      ?_
    intro left right
    rw [Bool.eq_iff_iff, decide_eq_true_iff]
    exact (horder left.2 right.2).2

theorem operation_scan_mergeSortBy {graph : Snapshot S} {current next : S.Tag}
    {operation : Operation S current next} (h : operation.RanksOrdered) (ids : List NodeId) :
    operation.scan stableSort graph ids = operation.scan mergeSortBy graph ids := by
  cases operation with
  | topK ranking =>
    have hsort := stableSort_eq_mergeSort
      (strictWeakOrdering_rankedBefore h ranking.direction)
      (ids.filterMap (withStored graph _ ranking.key))
    exact congrArg (fun ranked => (ranked.take ranking.count).map Prod.fst) hsort
  | _ => rfl

theorem scan_mergeSortBy {graph : Snapshot S} {tag : S.Tag} {expression : Expression S tag}
    (h : expression.RanksOrdered) :
    scan stableSort graph expression = scan mergeSortBy graph expression := by
  induction expression with
  | source tag => rfl
  | pipeline previous operation ih =>
    obtain ⟨hprevious, hoperation⟩ := h
    rw [scan, scan, ih hprevious, operation_scan_mergeSortBy hoperation]

/-! ### The refinement -/

/-- **The executor refines the interpreter.**  On a reachable snapshot, for a query that the DSL
or the optimizer builds, whose `top_k` keys are totally ordered: what `execute` returns does not
depend on the indices, the estimates, the threshold or the candidate set it keeps. -/
theorem execute_eq_reference {graph : Snapshot S} (hgraph : Reachable graph)
    (query : TypedQuery S) (hranks : query.expression.RanksOrdered)
    {result : ExecutionResult query.current query.projection}
    (h : execute graph query = .ok result) : result = reference graph query := by
  rw [execute_eq (wellFormed_of_reachable hgraph)] at h
  cases herror : selectorError graph query.expression with
  | some error =>
    rw [herror] at h
    cases h
  | none =>
    rw [herror, scanQuery, scan_mergeSortBy hranks] at h
    exact (Except.ok.inj h).symm

/-! ### A query of the journal -/

/-- Ranks are totally ordered. -/
theorem totallyOrdered_int32 :
    TotallyOrdered Journal.journalTypes Journal.JournalValue.int32 := by
  refine ⟨LinearOrder.lift' Int32.toInt (fun _ _ => Int32.toInt_inj.mp), ?_⟩
  intro a b
  exact ⟨decide_eq_true_iff.trans Int.cast_lt, decide_eq_true_iff.trans Int.cast_lt⟩

theorem ranksOrdered_recalledQuery (worldline : WorldlineId) :
    (recalledQuery worldline).expression.RanksOrdered := by
  have htraversed : (((((True ∧ True) ∧ True) ∧ True) ∧ True) : Prop) := by simp
  exact ⟨⟨⟨⟨htraversed, totallyOrdered_int32⟩, trivial⟩, trivial⟩, trivial⟩

/-- At the branch of the journal session, whose worldline the query names. -/
theorem execute_eq_reference_branchGraph :
    ∃ result, execute Journal.branchGraph (recalledQuery Journal.counterfactual) = .ok result ∧
      result = reference Journal.branchGraph (recalledQuery Journal.counterfactual) := by
  have hgraph := Journal.reachable_branchGraph
  have hok := execute_eq (wellFormed_of_reachable hgraph) (recalledQuery Journal.counterfactual)
  exact ⟨_, hok, execute_eq_reference hgraph _ (ranksOrdered_recalledQuery _) hok⟩

end Memorial.Query
