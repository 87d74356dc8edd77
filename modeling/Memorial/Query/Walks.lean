import Memorial.Library.Lexicographic
import Memorial.Query.Scan
import Memorial.Storage.ReadAgreement

/-!
# The rows of a query are walks

A query that neither ranks nor cuts its rows has a meaning that no order of evaluation enters: a
walk starts at a row of the source kind and follows one edge for each traversal, every node on it
is visible, and the predicates of the query hold where it passes them.  Each matching walk is one
row of the result.

* `Walk`, `Expression.Matches` — walks, and which of them match a pipeline, by public reads only;
* `walks` — their enumeration, by start and then by the edges followed;
* `scan_eq_walks`, `mem_walks`, `walks_sorted` — **PROVED**: it is what the scan computes, it is
  complete, and it is in lexicographic order;
* `rows_are_walks` — **PROVED**: a reachable snapshot answers with exactly the matching walks, each
  once, in that order.
-/

namespace Memorial.Query

open Library Snapshot

variable {C : TypeSystem} {S : GraphSchema C}

/-! ### Walks -/

/-- An edge that was followed, and where it led. -/
structure Hop where
  edge : EdgeId
  target : NodeId

structure Walk where
  start : NodeId
  hops : List Hop

namespace Walk

def last (walk : Walk) : NodeId := (walk.hops.getLast?.map Hop.target).getD walk.start

def extend (walk : Walk) (hop : Hop) : Walk := { walk with hops := walk.hops ++ [hop] }

/-- What walks are ordered by: the start, then the edges. -/
def key (walk : Walk) : List ℕ :=
  walk.start.toSize :: walk.hops.map (fun hop => hop.edge.toSize)

@[simp]
theorem last_extend (walk : Walk) (hop : Hop) : (walk.extend hop).last = hop.target := by
  simp [last, extend]

@[simp]
theorem key_extend (walk : Walk) (hop : Hop) :
    (walk.extend hop).key = walk.key ++ [hop.edge.toSize] := by
  simp [key, extend]

end Walk

/-- A stage that orders its input by a property, or cuts it off. -/
def Operation.ranks {current next : S.Tag} : Operation S current next → Bool
  | .topK _ => true
  | .limit _ => true
  | _ => false

/-- No stage of the pipeline ranks. -/
def Expression.Unranked : {tag : S.Tag} → Expression S tag → Prop
  | _, .source _ => True
  | _, .pipeline previous operation => operation.ranks = false ∧ previous.Unranked

/-- The predicate holds of what `property` reads at the node. -/
def Comparison.HoldsAt (graph : Snapshot S) {tag : S.Tag} (predicate : Comparison tag)
    (id : NodeId) : Prop :=
  graph.propertySatisfies tag predicate.key predicate.value predicate.holds id = true

/-- The walk matches the pipeline. -/
def Expression.Matches (graph : Snapshot S) : {tag : S.Tag} → Expression S tag → Walk → Prop
  | _, .source tag, walk => walk.hops = [] ∧ graph.contains tag walk.start = .ok true
  | _, .pipeline previous operation, walk =>
    match operation with
    | .where_ predicate => previous.Matches graph walk ∧ predicate.HoldsAt graph walk.last
    | .fusedWhere predicates =>
      previous.Matches graph walk ∧ ∀ predicate ∈ predicates, predicate.HoldsAt graph walk.last
    | .traverse edge =>
      ∃ before hop, walk = before.extend hop ∧ previous.Matches graph before ∧
        graph.StoresEdge edge hop.edge before.last hop.target ∧
        graph.contains (GraphSchema.target edge) hop.target = .ok true
    | _ => previous.Matches graph walk

/-! ### The enumeration -/

/-- The walks one stage makes of the walks before it. -/
def Operation.walks (graph : Snapshot S) {current next : S.Tag}
    (operation : Operation S current next) (input : List Walk) : List Walk :=
  match operation with
  | .where_ predicate => input.filter (fun walk => predicate.selects graph walk.last)
  | .fusedWhere predicates =>
    input.filter
      (fun walk => predicates.all (fun predicate => predicate.selects graph walk.last))
  | .traverse edge =>
    input.flatMap (fun walk =>
      (graph.incidentEdges .outgoing edge walk.last).map (fun e => walk.extend ⟨e.id, e.target⟩))
  | _ => input

def walks (graph : Snapshot S) : {tag : S.Tag} → Expression S tag → List Walk
  | _, .source tag => (graph.visibleIds tag).map (fun id => ⟨id, []⟩)
  | _, .pipeline previous operation => operation.walks graph (walks graph previous)

section Enumeration

variable {graph : Snapshot S}

/-- **The scan leads to the ends of the walks.**  By induction on the pipeline. -/
theorem scan_eq_walks (sort : SortFunction) {tag : S.Tag} (expression : Expression S tag)
    (hunranked : expression.Unranked) :
    scan sort graph expression = (walks graph expression).map Walk.last := by
  induction expression with
  | source tag =>
    rw [scan, walks, List.map_map]
    exact (List.map_id _).symm
  | pipeline previous operation ih =>
    have hprevious := ih hunranked.2
    rw [scan, hprevious, walks]
    cases operation with
    | activeAt value => rfl
    | knownAt value => rfl
    | inWorldline value => rfl
    | where_ predicate => exact List.filter_map
    | fusedWhere predicates => exact List.filter_map
    | traverse edge =>
      simp only [Operation.scan, Operation.walks, List.flatMap_map, List.map_flatMap, List.map_map]
      congr
      funext walk
      apply List.map_congr_left
      intro e _
      exact (Walk.last_extend walk ⟨e.id, e.target⟩).symm
    | project keys => rfl
    | topK ranking => exact absurd hunranked.1 (by simp [Operation.ranks])
    | limit count => exact absurd hunranked.1 (by simp [Operation.ranks])

/-- Walks end at visible nodes. -/
theorem visible_of_mem_walks (h : graph.WellFormed) {tag : S.Tag} {expression : Expression S tag}
    (hunranked : expression.Unranked) {walk : Walk} (hwalk : walk ∈ walks graph expression) :
    graph.visible tag walk.last = true := by
  apply visible_of_mem_scan h expression
  rw [scan_eq_walks stableSort expression hunranked]
  exact List.mem_map_of_mem hwalk

theorem selects_iff (h : graph.WellFormed) {tag : S.Tag} (predicate : Comparison tag) {id : NodeId}
    (hid : graph.visible tag id = true) :
    predicate.selects graph id = true ↔ predicate.HoldsAt graph id := by
  rw [Comparison.selects, Comparison.HoldsAt, h.satisfies_eq hid]

/-- The edges that a traversal follows, by public reads. -/
theorem mem_incidentEdges_iff (h : graph.WellFormed) {edge : S.Edge} {source : NodeId}
    {e : StoredEdge} :
    e ∈ graph.incidentEdges .outgoing edge source ↔
      e.source = source ∧ graph.StoresEdge edge e.id source e.target ∧
        graph.contains (GraphSchema.target edge) e.target = .ok true := by
  rw [incidentEdges, List.mem_filter, decide_eq_true_eq, h.contains_iff]
  constructor
  · intro hedge
    obtain ⟨he, hnear, hfar⟩ := hedge
    have hsource : e.source = source := hnear
    refine ⟨hsource, h.storesEdge_iff.mpr ?_, hfar⟩
    rw [← hsource]
    exact he
  · intro hedge
    obtain ⟨hsource, he, hfar⟩ := hedge
    have he := h.storesEdge_iff.mp he
    rw [← hsource] at he
    exact ⟨he, hsource, hfar⟩

/-- **The enumeration is complete.**  By induction on the pipeline. -/
theorem mem_walks (h : graph.WellFormed) {tag : S.Tag} (expression : Expression S tag)
    (hunranked : expression.Unranked) (walk : Walk) :
    walk ∈ walks graph expression ↔ expression.Matches graph walk := by
  induction expression generalizing walk with
  | source tag =>
    rw [walks, List.mem_map, Expression.Matches]
    constructor
    · intro hwalk
      obtain ⟨id, hid, rfl⟩ := hwalk
      exact ⟨rfl, h.contains_iff.mpr (h.mem_visibleIds.mp hid)⟩
    · intro hwalk
      obtain ⟨hhops, hstart⟩ := hwalk
      refine ⟨walk.start, h.mem_visibleIds.mpr (h.contains_iff.mp hstart), ?_⟩
      rw [← hhops]
  | pipeline previous operation ih =>
    have ih := ih hunranked.2
    rw [walks]
    cases operation with
    | activeAt value => exact ih walk
    | knownAt value => exact ih walk
    | inWorldline value => exact ih walk
    | where_ predicate =>
      rw [Operation.walks, List.mem_filter, Expression.Matches, ← ih]
      exact and_congr_right fun hwalk =>
        selects_iff h predicate (visible_of_mem_walks h hunranked.2 hwalk)
    | fusedWhere predicates =>
      rw [Operation.walks, List.mem_filter, Expression.Matches, ← ih, List.all_eq_true]
      exact and_congr_right fun hwalk => forall₂_congr fun predicate _ =>
        selects_iff h predicate (visible_of_mem_walks h hunranked.2 hwalk)
    | traverse edge =>
      rw [Operation.walks, List.mem_flatMap, Expression.Matches]
      constructor
      · intro hwalk
        obtain ⟨before, hbefore, hwalk⟩ := hwalk
        obtain ⟨e, he, rfl⟩ := List.mem_map.mp hwalk
        obtain ⟨-, hstored, htarget⟩ := (mem_incidentEdges_iff h).mp he
        exact ⟨before, ⟨e.id, e.target⟩, rfl, (ih before).mp hbefore, hstored, htarget⟩
      · intro hwalk
        obtain ⟨before, hop, rfl, hbefore, hstored, htarget⟩ := hwalk
        refine ⟨before, (ih before).mpr hbefore, List.mem_map.mpr ?_⟩
        exact ⟨⟨hop.edge, before.last, hop.target⟩,
          (mem_incidentEdges_iff h).mpr ⟨rfl, hstored, htarget⟩, rfl⟩
    | project keys => exact ih walk
    | topK ranking => exact absurd hunranked.1 (by simp [Operation.ranks])
    | limit count => exact absurd hunranked.1 (by simp [Operation.ranks])

/-- The number of traversals of a pipeline. -/
def Expression.hops : {tag : S.Tag} → Expression S tag → ℕ
  | _, .source _ => 0
  | _, .pipeline previous (.traverse _) => previous.hops + 1
  | _, .pipeline previous _ => previous.hops

/-- All walks of a pipeline are equally long. -/
theorem length_key {tag : S.Tag} (expression : Expression S tag) :
    ∀ walk ∈ walks graph expression, walk.key.length = expression.hops + 1 := by
  induction expression with
  | source tag =>
    intro walk hwalk
    obtain ⟨id, -, rfl⟩ := List.mem_map.mp hwalk
    rfl
  | pipeline previous operation ih =>
    cases operation with
    | activeAt value => exact ih
    | knownAt value => exact ih
    | inWorldline value => exact ih
    | where_ predicate => exact fun walk hwalk => ih walk (List.mem_of_mem_filter hwalk)
    | fusedWhere predicates => exact fun walk hwalk => ih walk (List.mem_of_mem_filter hwalk)
    | traverse edge =>
      intro walk hwalk
      obtain ⟨before, hbefore, hwalk⟩ := List.mem_flatMap.mp hwalk
      obtain ⟨e, -, rfl⟩ := List.mem_map.mp hwalk
      rw [Walk.key_extend, List.length_append, ih before hbefore]
      rfl
    | project keys => exact ih
    | topK ranking => exact ih
    | limit count => exact ih

/-- **The enumeration is sorted.**  The source ascends, filters keep the order, and a traversal
extends every walk by edges that ascend. -/
theorem walks_sorted (h : graph.WellFormed) {tag : S.Tag} (expression : Expression S tag) :
    (walks graph expression).Pairwise (fun a b => a.key < b.key) := by
  induction expression with
  | source tag =>
    rw [walks, List.pairwise_map]
    refine ((h.rowIds_pairwise tag).filter _).imp ?_
    intro a b hlt
    exact List.cons_lt_cons_iff.mpr (Or.inl hlt)
  | pipeline previous operation ih =>
    cases operation with
    | activeAt value => exact ih
    | knownAt value => exact ih
    | inWorldline value => exact ih
    | where_ predicate => exact ih.filter _
    | fusedWhere predicates => exact ih.filter _
    | traverse edge =>
      refine pairwise_flatMap_extend (length_key previous) ih ?_ ?_
      · intro before _ walk hwalk
        obtain ⟨e, -, rfl⟩ := List.mem_map.mp hwalk
        rw [Walk.key_extend]
        exact List.prefix_append _ _
      · intro before _
        rw [List.pairwise_map]
        refine ((h.storedEdges_pairwise edge).filter _).imp ?_
        intro a b hlt
        rw [Walk.key_extend, Walk.key_extend]
        exact List.append_left_lt (List.cons_lt_cons_iff.mpr (Or.inl hlt))
    | project keys => exact ih
    | topK ranking => exact ih
    | limit count => exact ih

end Enumeration

/-! ### The rows of a query -/

/-- **The rows of a query are its matching walks.**  On a reachable snapshot, a query that neither
ranks nor cuts its rows answers, if it answers, with the ends of the walks that match it, or with
their projections: one row for each walk, ordered by start and then by the edges followed. -/
theorem rows_are_walks {graph : Snapshot S} (hgraph : Session.Reachable graph)
    (query : TypedQuery S) (hunranked : query.expression.Unranked)
    {result : ExecutionResult query.current query.projection}
    (hresult : execute graph query = .ok result) :
    ∃ found : List Walk,
      present graph query.current (found.map Walk.last) query.projection = .ok result ∧
        found.Pairwise (fun a b => a.key < b.key) ∧
        ∀ walk, walk ∈ found ↔ query.expression.Matches graph walk := by
  have h := Session.wellFormed_of_reachable hgraph
  refine ⟨walks graph query.expression, ?_, walks_sorted h _, mem_walks h _ hunranked⟩
  rw [execute_eq h] at hresult
  have hrows : scanQuery stableSort graph query = result := by
    cases herror : selectorError graph query.expression with
    | none =>
      rw [herror] at hresult
      exact Except.ok.inj hresult
    | some error =>
      rw [herror] at hresult
      cases hresult
  rw [← scan_eq_walks stableSort query.expression hunranked,
    present_eq h (visible_of_mem_scan h query.expression)]
  exact congrArg Except.ok hrows

/-- The ranks of what the higher thoughts recall. -/
def followedQuery : TypedQuery Journal.journalSchema :=
  TypedQuery.from Journal.thought
    |>.where_ (rankIs .greaterEqual 2) nofun
    |>.traverse Journal.recalls rfl rfl
    |>.project [Journal.rank] (List.cons_ne_nil _ _) rfl

def followedRows : List (ProjectedRow Journal.thought [Journal.rank]) :=
  [⟨⟨1⟩, ((1 : Int32), ())⟩, ⟨⟨2⟩, ((2 : Int32), ())⟩, ⟨⟨0⟩, ((3 : Int32), ())⟩]

theorem unranked_followedQuery : followedQuery.expression.Unranked := ⟨rfl, rfl, rfl, trivial⟩

/-- On the branch of the journal session, where thought 0 leads to two of the three rows. -/
theorem rows_are_walks_branchGraph :
    ∃ found : List Walk,
      present Journal.branchGraph Journal.thought (found.map Walk.last) (some [Journal.rank]) =
        .ok followedRows ∧
        found.Pairwise (fun a b => a.key < b.key) ∧
        ∀ walk, walk ∈ found ↔ followedQuery.expression.Matches Journal.branchGraph walk :=
  rows_are_walks Journal.reachable_branchGraph followedQuery unranked_followedQuery
    (by with_unfolding_all rfl)

end Memorial.Query
