import Memorial.Query.BranchQueries
import Memorial.Query.Explain

/-!
# What the estimates of a plan are worth

A plan estimates the rows behind a traversal from the number of visible rows of the source kind.  A
query with one traversal cannot have more rows than there are edges, and the estimate counts every
edge unless a level has more sources than rows are visible.

* `length_scan_le` — **PROVED**: with one traversal there is at most one row for each edge;
* `estimate_bounds_rows` — **PROVED**: the estimate of a plan bounds its rows;
* `estimate_castDefined` — **PROVED**: the cast behind the estimate is defined.
-/

namespace Memorial.Query

open Library Snapshot

variable {C : TypeSystem} {S : GraphSchema C}

section Rows

variable {graph : Snapshot S}

/-- A stage that follows no edges yields no more rows than it gets. -/
theorem length_operation_scan_le {current next : S.Tag} {operation : Operation S current next}
    (hedges : operation.edges = []) (ids : List NodeId) :
    (operation.scan stableSort graph ids).length ≤ ids.length := by
  cases operation with
  | activeAt value => exact le_rfl
  | knownAt value => exact le_rfl
  | inWorldline value => exact le_rfl
  | where_ predicate => exact List.length_filter_le _ _
  | fusedWhere predicates => exact List.length_filter_le _ _
  | traverse edge => cases hedges
  | project keys => exact le_rfl
  | topK ranking =>
    rw [Operation.scan, List.length_map, List.length_take, (stableSort_perm _ _).length_eq]
    exact (min_le_right _ _).trans (List.length_filterMap_le _ _)
  | limit count => exact List.length_take_le' _ _

/-- And no row twice. -/
theorem nodup_operation_scan {current next : S.Tag} {operation : Operation S current next}
    (hedges : operation.edges = []) {ids : List NodeId} (hids : ids.Nodup) :
    (operation.scan stableSort graph ids).Nodup := by
  cases operation with
  | activeAt value => exact hids
  | knownAt value => exact hids
  | inWorldline value => exact hids
  | where_ predicate => exact hids.filter _
  | fusedWhere predicates => exact hids.filter _
  | traverse edge => cases hedges
  | project keys => exact hids
  | topK ranking =>
    have hranked : (ids.filterMap (withStored graph current ranking.key)).Pairwise
        (fun a b => a.1 ≠ b.1) := by
      rw [List.pairwise_filterMap]
      refine hids.imp ?_
      intro a b hne entry hentry entry' hentry'
      rw [mem_of_withStored hentry, mem_of_withStored hentry']
      exact hne
    have hsorted := ((stableSort_perm (rankedBefore ranking.direction) _).pairwise_iff
      (fun hne => Ne.symm hne)).mpr hranked
    exact List.pairwise_map.mpr (hsorted.sublist (List.take_sublist _ _))
  | limit count => exact hids.sublist (List.take_sublist _ _)

/-- Before the first traversal no row occurs twice. -/
theorem nodup_scan (h : graph.WellFormed) {tag : S.Tag} {expression : Expression S tag}
    (hedges : expression.edges = []) : (scan stableSort graph expression).Nodup := by
  induction expression with
  | source tag =>
    have hlt := (h.rowIds_pairwise tag).filter (graph.visible tag)
    refine hlt.imp ?_
    intro a b hlt heq
    rw [heq] at hlt
    exact lt_irrefl _ hlt
  | pipeline previous operation ih =>
    obtain ⟨hprevious, hoperation⟩ := List.append_eq_nil_iff.mp hedges
    exact nodup_operation_scan hoperation (ih hprevious)

/-- **With one traversal there is at most one row for each edge.** -/
theorem length_scan_le (h : graph.WellFormed) {tag : S.Tag} {expression : Expression S tag}
    {edge : S.Edge} (hedges : expression.edges = [edge]) :
    (scan stableSort graph expression).length ≤ (graph.storedEdges edge).length := by
  induction expression with
  | source tag => cases hedges
  | pipeline previous operation ih =>
    rw [Expression.edges] at hedges
    cases hoperation : operation.edges with
    | nil =>
      rw [hoperation, List.append_nil] at hedges
      exact (length_operation_scan_le hoperation _).trans (ih hedges)
    | cons followed rest =>
      cases operation with
      | traverse other =>
        obtain ⟨hprevious, hother⟩ :=
          List.append_inj' (hedges.trans (List.nil_append [edge]).symm) rfl
        obtain rfl := List.singleton_inj.mp hother
        have hfiled : ∀ (id : NodeId) (e : StoredEdge), decide (e.near .outgoing = id ∧
            graph.visible (farTag .outgoing other) (e.far .outgoing)) = true → e.source = id :=
          fun id e he => (of_decide_eq_true he).1
        have hcount := length_flatMap_filter_le StoredEdge.source hfiled (nodup_scan h hprevious)
          (graph.storedEdges other)
        rw [List.length_flatMap] at hcount
        rw [scan, Operation.scan]
        simp only [List.length_flatMap, List.length_map]
        exact hcount
      | _ => cases hoperation

theorem size_scanRows_le {tag : S.Tag} (ids : List NodeId)
    (projection : Option (List (GraphSchema.Key tag))) :
    (scanRows graph tag ids projection).size ≤ ids.length := by
  cases projection with
  | none => exact le_rfl
  | some keys => exact List.length_filterMap_le _ _

/-- The estimate of a pipeline that follows no edges, or one kind once. -/
theorem estimateCardinality_of_edges (ceil : C.arithmetic.Double → C.arithmetic.Double)
    (sources : ℕ) {tag : S.Tag} (expression : Expression S tag) :
    (expression.edges = [] → estimateCardinality ceil graph sources expression = ⟨sources, 0⟩) ∧
      ∀ edge, expression.edges = [edge] →
        (estimateCardinality ceil graph sources expression).traversal =
          graph.estimateTraversalCardinality ceil edge sources := by
  induction expression with
  | source tag => exact ⟨fun _ => rfl, fun _ hedges => by cases hedges⟩
  | pipeline previous operation ih =>
    obtain ⟨hnone, hone⟩ := ih
    cases operation with
    | traverse other =>
      refine ⟨fun hedges => ?_, fun edge hedges => ?_⟩
      · exact absurd hedges (by simp [Expression.edges, Operation.edges])
      · obtain ⟨hprevious, hother⟩ :=
          List.append_inj' (hedges.trans (List.nil_append [edge]).symm) rfl
        obtain rfl := List.singleton_inj.mp hother
        rw [estimateCardinality, hnone hprevious]
    | _ =>
      exact ⟨fun hedges => hnone ((List.append_nil _).symm.trans hedges),
        fun edge hedges => hone edge ((List.append_nil _).symm.trans hedges)⟩

end Rows

/-! ### The estimate of a plan -/

section Plans

variable {P : ProgramTypes} {T : GraphSchema (cppTypes P)} {graph : Snapshot T}

/-- **The estimate of a plan bounds its rows.**  For a query with one traversal, whatever its other
stages, there are no more rows than the plan estimates behind the traversal, if no level of the
snapshot has more sources of its edges than rows of the source kind are visible, and the extent of
the edge kind times one more than the number of levels stays below 2^53. -/
theorem estimate_bounds_rows (hgraph : Session.Reachable graph) {query : TypedQuery T}
    {edge : T.Edge} (hedges : query.expression.edges = [edge]) {plan : QueryPlan}
    (hplan : explain Floating.ceil graph query = .ok plan)
    (hsources : ∀ level ∈ graph.levels,
      (level.data.edges edge).degreeStatistics.sourceCount ≤ plan.estimatedCardinality)
    (hsmall : graph.edgeExtent edge * (graph.levels.length + 1) < 2 ^ 53) :
    plan.actualCardinality ≤ plan.estimatedTraversalCardinality := by
  have h := Session.wellFormed_of_reachable hgraph
  rw [explain_eq _ h] at hplan
  cases hresult : execute graph query with
  | error error =>
    rw [hresult] at hplan
    cases hplan
  | ok result =>
    rw [hresult] at hplan
    obtain rfl := Except.ok.inj hplan
    have hrows : ExecutionResult.size result ≤ (graph.storedEdges edge).length := by
      rw [← scanQuery_of_execute h hresult, scanQuery]
      exact (size_scanRows_le _ _).trans (length_scan_le h hedges)
    have hestimate := length_storedEdges_le_estimate hgraph (h.length_visibleIds_le _) hsources
      hsmall
    show ExecutionResult.size result ≤ (estimateCardinality _ _ _ query.expression).traversal
    rw [(estimateCardinality_of_edges Floating.ceil _ query.expression).2 edge hedges]
    exact hrows.trans hestimate

/-- **The cast behind the first estimate is defined**, for every edge kind and the rows of any node
kind: `estimate_traversal_cardinality` casts a number below 2^64. -/
theorem estimate_castDefined (hgraph : Session.Reachable graph) (edge : T.Edge) {tag : T.Tag}
    {sources : List NodeId} (hsources : graph.sourceCandidates tag = .ok sources) :
    (castDefined P.values (.arithmetic (.integral false .bits64))
      (graph.scaledDegree Floating.ceil edge sources.length)).isSome = true := by
  have h := Session.wellFormed_of_reachable hgraph
  rw [h.sourceCandidates_eq] at hsources
  rw [← Except.ok.inj hsources]
  exact isSome_castDefined_scaledDegree hgraph edge (h.length_visibleIds_le tag)

end Plans

/-! ### The plan for two experiences -/

section Episode

open Domain

/-- The plan of that query. -/
def followingPlan : QueryPlan := planOf Floating.ceil episodeGraph followingQuery 2 1

theorem explain_followingQuery :
    explain Floating.ceil episodeGraph followingQuery = .ok followingPlan := by
  rw [explain_eq _ (Session.wellFormed_of_reachable reachable_episodeGraph), execute_followingQuery]
  rfl

theorem edges_followingQuery : followingQuery.expression.edges = [temporalNext] := rfl

theorem levels_episodeGraph : episodeGraph.levels.length = 1 := rfl

theorem edgeExtent_episodeGraph : episodeGraph.edgeExtent temporalNext = 1 := rfl

theorem sourceCount_episodeGraph : ∀ level ∈ episodeGraph.levels,
    (level.data.edges temporalNext).degreeStatistics.sourceCount = 1 := by
  intro level hlevel
  rw [List.mem_singleton.mp hlevel]
  rfl

theorem estimatedCardinality_followingPlan : followingPlan.estimatedCardinality = 2 := rfl

theorem estimate_bounds_rows_episodeGraph :
    followingPlan.actualCardinality ≤ followingPlan.estimatedTraversalCardinality := by
  apply estimate_bounds_rows reachable_episodeGraph edges_followingQuery explain_followingQuery
  · intro level hlevel
    rw [sourceCount_episodeGraph level hlevel, estimatedCardinality_followingPlan]
    omega
  · rw [levels_episodeGraph, edgeExtent_episodeGraph]
    norm_num

/-- The rows that the query starts from. -/
def episodeSources : List NodeId := [⟨0⟩, ⟨1⟩]

theorem sourceCandidates_episodeGraph :
    episodeGraph.sourceCandidates experience = .ok episodeSources := rfl

theorem estimate_castDefined_episodeGraph :
    (castDefined domainProgram.values (.arithmetic (.integral false .bits64))
      (episodeGraph.scaledDegree Floating.ceil temporalNext episodeSources.length)).isSome = true :=
  estimate_castDefined reachable_episodeGraph temporalNext sourceCandidates_episodeGraph

end Episode

end Memorial.Query
