import Memorial.Query.Walks
import Memorial.Storage.Ancestry

/-!
# Queries on branches

What a query answers on a branch, against what it answers on a snapshot that the branch builds on.
The walks of the older snapshot are the walks of the branch that stay below its extents, so a query
that neither ranks nor cuts keeps all of its rows, in their order; and a query of any kind keeps its
answer if nothing that it reads was added.

* `Expression.Within` — a walk that only meets rows and edges of the older snapshot;
* `matches_iff_within` — **PROVED**: those that match are the walks of the older snapshot;
* `older_rows_kept` — **PROVED**: the rows of the older snapshot stay, in their order;
* `older_answer_kept` — **PROVED**: nothing added, nothing changed, whatever the stages.
-/

namespace Memorial.Query

open Library Snapshot

variable {C : TypeSystem} {S : GraphSchema C}

/-! ### Walks of the older snapshot -/

/-- The walk starts at a row and follows edges below the extents of the older snapshot. -/
def Expression.Within (old : Snapshot S) : {tag : S.Tag} → Expression S tag → Walk → Prop
  | _, .source tag, walk => walk.start.toSize < old.nodeExtent tag
  | _, .pipeline previous operation, walk =>
    match operation with
    | .traverse edge =>
      ∃ before hop, walk = before.extend hop ∧ previous.Within old before ∧
        hop.edge.toSize < old.edgeExtent edge
    | _ => previous.Within old walk

theorem Walk.extend_inj {before before' : Walk} {hop hop' : Hop}
    (h : before.extend hop = before'.extend hop') : before = before' ∧ hop = hop' := by
  cases before
  cases before'
  obtain ⟨hstart, hhops⟩ := Walk.mk.inj h
  obtain ⟨hinit, hlast⟩ := List.append_inj' hhops rfl
  exact ⟨Walk.mk.injEq _ _ _ _ ▸ ⟨hstart, hinit⟩, List.cons.inj hlast |>.1⟩

/-- A walk that matches ends at a visible node. -/
theorem visible_of_matches {graph : Snapshot S} (h : graph.WellFormed) {tag : S.Tag}
    {expression : Expression S tag} {walk : Walk} (hmatches : expression.Matches graph walk) :
    graph.visible tag walk.last = true := by
  induction expression with
  | source tag =>
    obtain ⟨hhops, hstart⟩ := hmatches
    rw [Walk.last, hhops]
    exact h.contains_iff.mp hstart
  | pipeline previous operation ih =>
    cases operation with
    | activeAt value => exact ih hmatches
    | knownAt value => exact ih hmatches
    | inWorldline value => exact ih hmatches
    | where_ predicate => exact ih hmatches.1
    | fusedWhere predicates => exact ih hmatches.1
    | traverse edge =>
      obtain ⟨before, hop, rfl, -, -, htarget⟩ := hmatches
      rw [Walk.last_extend]
      exact h.contains_iff.mp htarget
    | project keys => exact ih hmatches
    | topK ranking => exact ih hmatches
    | limit count => exact ih hmatches

section Shared

variable {graph old : Snapshot S}

theorem holdsAt_iff (h : graph.Shares old) {tag : S.Tag} (predicate : Comparison tag) {id : NodeId}
    (hid : id.toSize < old.nodeExtent tag) :
    predicate.HoldsAt old id ↔ predicate.HoldsAt graph id := by
  rw [Comparison.HoldsAt, Comparison.HoldsAt, propertySatisfies, propertySatisfies,
    h.property tag predicate.key id hid]

/-- **The walks of the older snapshot are those that stay within it.**  By induction on the
pipeline: what the older snapshot stores and sees is what the newer one stores and sees below its
extents, and an edge below them ends below them. -/
theorem matches_iff_within (h : graph.Shares old) (hgraph : graph.WellFormed)
    (hold : old.WellFormed) {tag : S.Tag} (expression : Expression S tag) (walk : Walk) :
    expression.Matches old walk ↔ expression.Matches graph walk ∧ expression.Within old walk := by
  induction expression generalizing walk with
  | source tag =>
    rw [Expression.Matches, Expression.Matches, Expression.Within, and_assoc]
    refine and_congr_right fun _ => ?_
    constructor
    · intro hstart
      have hlt := hold.lt_of_visible (hold.contains_iff.mp hstart)
      exact ⟨(h.contains_eq hgraph hold hlt).trans hstart, hlt⟩
    · intro hstart
      obtain ⟨hstart, hlt⟩ := hstart
      exact (h.contains_eq hgraph hold hlt).symm.trans hstart
  | @pipeline current next previous operation ih =>
    have hfiltered : ∀ {good good' : Prop},
        (∀ {id : NodeId}, walk.last = id → id.toSize < old.nodeExtent current → (good ↔ good')) →
        (previous.Matches old walk ∧ good ↔
          (previous.Matches graph walk ∧ good') ∧ previous.Within old walk) := by
      intro good good' hgood
      rw [and_right_comm, ← ih walk]
      refine and_congr_right fun hmatches => ?_
      exact hgood rfl (hold.lt_of_visible (visible_of_matches hold hmatches))
    cases operation with
    | activeAt value => exact ih walk
    | knownAt value => exact ih walk
    | inWorldline value => exact ih walk
    | where_ predicate =>
      refine hfiltered ?_
      rintro id rfl hlt
      exact holdsAt_iff h predicate hlt
    | fusedWhere predicates =>
      refine hfiltered ?_
      rintro id rfl hlt
      exact forall₂_congr fun predicate _ => holdsAt_iff h predicate hlt
    | traverse edge =>
      constructor
      · intro hmatches
        obtain ⟨before, hop, rfl, hbefore, hstored, htarget⟩ := hmatches
        obtain ⟨hbefore, hwithin⟩ := (ih before).mp hbefore
        obtain ⟨hstored, hlt⟩ := (h.storesEdge_iff hgraph hold).mp hstored
        have hend := hold.lt_of_visible (hold.contains_iff.mp htarget)
        exact ⟨⟨before, hop, rfl, hbefore, hstored, (h.contains_eq hgraph hold hend).trans htarget⟩,
          before, hop, rfl, hwithin, hlt⟩
      · intro hmatches
        obtain ⟨⟨before, hop, rfl, hbefore, hstored, htarget⟩, before', hop', heq, hwithin, hlt⟩ :=
          hmatches
        obtain ⟨rfl, rfl⟩ := Walk.extend_inj heq
        have hstored := (h.storesEdge_iff hgraph hold).mpr ⟨hstored, hlt⟩
        have hend := (hold.endpoints_lt (hold.storesEdge_iff.mp hstored)).2
        exact ⟨before, hop, rfl, (ih before).mpr ⟨hbefore, hwithin⟩, hstored,
          (h.contains_eq hgraph hold hend).symm.trans htarget⟩
    | project keys => exact ih walk
    | topK ranking => exact ih walk
    | limit count => exact ih walk

/-- The walks of the older snapshot are among those of the newer one, in their order. -/
theorem walks_sublist (h : graph.Shares old) (hgraph : graph.WellFormed) (hold : old.WellFormed)
    {tag : S.Tag} (expression : Expression S tag) (hunranked : expression.Unranked) :
    (walks old expression).Sublist (walks graph expression) := by
  refine sublist_of_subset (r := fun a b => a.key < b.key) (fun a => List.lt_irrefl a.key)
    (fun _ _ _ => List.lt_trans) (walks_sorted hold expression) (walks_sorted hgraph expression) ?_
  intro walk hwalk
  have hmatches := (mem_walks hold expression hunranked walk).mp hwalk
  exact (mem_walks hgraph expression hunranked walk).mpr
    ((matches_iff_within h hgraph hold expression walk).mp hmatches).1

end Shared

/-! ### Rows of the older snapshot -/

/-- The rows of the first result are rows of the second, in their order. -/
def ExecutionResult.IsSublist {tag : S.Tag} :
    {projection : Option (List (GraphSchema.Key tag))} → ExecutionResult tag projection →
      ExecutionResult tag projection → Prop
  | none, before, after => List.Sublist before after
  | some _, before, after => List.Sublist before after

/-- The edge kind that a stage follows. -/
def Operation.edges {current next : S.Tag} : Operation S current next → List S.Edge
  | .traverse edge => [edge]
  | _ => []

/-- The edge kinds that a pipeline follows. -/
def Expression.edges : {tag : S.Tag} → Expression S tag → List S.Edge
  | _, .source _ => []
  | _, .pipeline previous operation => previous.edges ++ operation.edges

section Shared

variable {graph old : Snapshot S}

theorem storedRow_eq (h : graph.Shares old) (hgraph : graph.WellFormed) (hold : old.WellFormed)
    {tag : S.Tag} (keys : List (GraphSchema.Key tag)) {id : NodeId}
    (hid : old.visible tag id = true) :
    storedRow graph tag keys id = storedRow old tag keys id := by
  have hprojection : storedProjection graph tag id keys = storedProjection old tag id keys := by
    induction keys with
    | nil => rfl
    | cons key rest ih =>
      rw [storedProjection, storedProjection, h.storedValue?_eq hgraph hold hid key, ih]
  rw [storedRow, storedRow, hprojection]

theorem scanRows_eq (h : graph.Shares old) (hgraph : graph.WellFormed) (hold : old.WellFormed)
    {tag : S.Tag} {ids : List NodeId} (hids : ∀ id ∈ ids, old.visible tag id = true)
    (projection : Option (List (GraphSchema.Key tag))) :
    scanRows graph tag ids projection = scanRows old tag ids projection := by
  cases projection with
  | none => rfl
  | some keys =>
    apply List.filterMap_congr
    intro id hid
    exact storedRow_eq h hgraph hold keys (hids id hid)

theorem scanRows_sublist {tag : S.Tag} {ids ids' : List NodeId} (h : ids.Sublist ids')
    (projection : Option (List (GraphSchema.Key tag))) :
    (scanRows graph tag ids projection).IsSublist (scanRows graph tag ids' projection) := by
  cases projection with
  | none => exact h
  | some keys => exact h.filterMap _

/-- The result of a query that succeeds is its scan. -/
theorem scanQuery_of_execute (h : graph.WellFormed) {query : TypedQuery S}
    {result : ExecutionResult query.current query.projection}
    (hresult : execute graph query = .ok result) : scanQuery stableSort graph query = result := by
  rw [execute_eq h] at hresult
  cases herror : selectorError graph query.expression with
  | none =>
    rw [herror] at hresult
    exact Except.ok.inj hresult
  | some error =>
    rw [herror] at hresult
    cases hresult

end Shared

/-- **The rows of the older snapshot stay.**  Where a reachable snapshot and one that its chain goes
through both answer a query that neither ranks nor cuts, the newer answer has all the rows of the
older one, in the same order and with the same values, and the walks of the older answer are those
of the newer one that stay within the older snapshot. -/
theorem older_rows_kept {graph old : Snapshot S} (hgraph : Session.Reachable graph)
    (hextends : graph.Extends old) (query : TypedQuery S)
    (hunranked : query.expression.Unranked)
    {before after : ExecutionResult query.current query.projection}
    (hbefore : execute old query = .ok before) (hafter : execute graph query = .ok after) :
    before.IsSublist after ∧
      ∀ walk, query.expression.Matches old walk ↔
        query.expression.Matches graph walk ∧ query.expression.Within old walk := by
  have hwf := Session.wellFormed_of_reachable hgraph
  obtain ⟨hold, hshares⟩ := hextends.shares hwf
  refine ⟨?_, matches_iff_within hshares hwf hold query.expression⟩
  rw [← scanQuery_of_execute hold hbefore, ← scanQuery_of_execute hwf hafter, scanQuery, scanQuery,
    ← scanRows_eq hshares hwf hold (visible_of_mem_scan hold query.expression)]
  apply scanRows_sublist
  rw [scan_eq_walks stableSort _ hunranked, scan_eq_walks stableSort _ hunranked]
  exact (walks_sublist hshares hwf hold query.expression hunranked).map Walk.last

/-- On the journal session, whose root answers with the first of the three rows of its branch. -/
theorem older_rows_kept_branchGraph :
    (followedRows.take 1).Sublist followedRows ∧
      ∀ walk, followedQuery.expression.Matches Journal.rootGraph walk ↔
        followedQuery.expression.Matches Journal.branchGraph walk ∧
          followedQuery.expression.Within Journal.rootGraph walk :=
  older_rows_kept Journal.reachable_branchGraph (.branch (.refl _)) followedQuery
    unranked_followedQuery (by with_unfolding_all rfl) (by with_unfolding_all rfl)

/-! ### Nothing added -/

section Untouched

variable {graph old : Snapshot S}

/-- The edges at a node of the older snapshot, if none of the kind were added. -/
theorem incidentEdges_of_untouched (h : graph.Shares old) (hold : old.WellFormed) {edge : S.Edge}
    (hextent : graph.edgeExtent edge = old.edgeExtent edge) (source : NodeId) :
    graph.incidentEdges .outgoing edge source = old.incidentEdges .outgoing edge source := by
  have hgrown := h.edges edge
  rw [hextent] at hgrown
  rw [incidentEdges, incidentEdges, hgrown.eq]
  apply List.filter_congr
  intro e he
  have hend := (hold.endpoints_lt he).2
  have hvisible : graph.visible (farTag .outgoing edge) (e.far .outgoing) =
      old.visible (farTag .outgoing edge) (e.far .outgoing) := h.visible _ _ hend
  rw [hvisible]

/-- A stage whose edges were not added to does the same on rows of the older snapshot. -/
theorem operation_scan_eq (h : graph.Shares old) (hgraph : graph.WellFormed)
    (hold : old.WellFormed) {current next : S.Tag} (operation : Operation S current next)
    {ids : List NodeId} (hids : ∀ id ∈ ids, old.visible current id = true)
    (hedges : ∀ edge ∈ operation.edges, graph.edgeExtent edge = old.edgeExtent edge) :
    operation.scan stableSort graph ids = operation.scan stableSort old ids := by
  have hselects : ∀ predicate : Comparison current, ∀ id ∈ ids,
      predicate.selects graph id = predicate.selects old id := by
    intro predicate id hid
    rw [Comparison.selects, Comparison.selects, satisfies, satisfies,
      h.storedValue?_eq hgraph hold (hids id hid)]
  cases operation with
  | activeAt value => rfl
  | knownAt value => rfl
  | inWorldline value => rfl
  | where_ predicate => exact List.filter_congr (hselects predicate)
  | fusedWhere predicates =>
    apply List.filter_congr
    intro id hid
    apply List.all_congr rfl
    intro predicate
    exact hselects predicate id hid
  | traverse edge =>
    have hextent := hedges edge (List.mem_singleton.mpr rfl)
    simp only [Operation.scan, incidentEdges_of_untouched h hold hextent]
  | project keys => rfl
  | topK ranking =>
    have hstored : ids.filterMap (withStored graph current ranking.key) =
        ids.filterMap (withStored old current ranking.key) := by
      apply List.filterMap_congr
      intro id hid
      rw [withStored, withStored, h.storedValue?_eq hgraph hold (hids id hid)]
    rw [Operation.scan, Operation.scan, hstored]
  | limit count => rfl

theorem scan_eq_of_untouched (h : graph.Shares old) (hgraph : graph.WellFormed)
    (hold : old.WellFormed) {tag : S.Tag} (expression : Expression S tag)
    (hsource : graph.nodeExtent expression.sourceTag = old.nodeExtent expression.sourceTag)
    (hedges : ∀ edge ∈ expression.edges, graph.edgeExtent edge = old.edgeExtent edge) :
    scan stableSort graph expression = scan stableSort old expression := by
  induction expression with
  | source tag =>
    have hgrown := h.rows tag
    rw [show graph.nodeExtent tag = old.nodeExtent tag from hsource] at hgrown
    exact hgrown.eq
  | pipeline previous operation ih =>
    have hprevious := ih hsource fun edge hedge => hedges edge (List.mem_append_left _ hedge)
    rw [scan, scan, hprevious]
    exact operation_scan_eq h hgraph hold operation (visible_of_mem_scan hold previous)
      fun edge hedge => hedges edge (List.mem_append_right _ hedge)

end Untouched

/-- **What a query does not read cannot change its answer.**  If a reachable snapshot has no more
rows of the source kind and no more edges of the kinds that the query follows than a snapshot its
chain goes through, the two answer alike, with any stages, whatever rows and edges of other kinds
were added in between. -/
theorem older_answer_kept {graph old : Snapshot S} (hgraph : Session.Reachable graph)
    (hextends : graph.Extends old) (query : TypedQuery S)
    (hsource : graph.nodeExtent query.expression.sourceTag =
      old.nodeExtent query.expression.sourceTag)
    (hedges : ∀ edge ∈ query.expression.edges, graph.edgeExtent edge = old.edgeExtent edge)
    {before after : ExecutionResult query.current query.projection}
    (hbefore : execute old query = .ok before) (hafter : execute graph query = .ok after) :
    before = after := by
  have hwf := Session.wellFormed_of_reachable hgraph
  obtain ⟨hold, hshares⟩ := hextends.shares hwf
  rw [← scanQuery_of_execute hold hbefore, ← scanQuery_of_execute hwf hafter, scanQuery, scanQuery,
    scan_eq_of_untouched hshares hwf hold query.expression hsource hedges]
  exact (scanRows_eq hshares hwf hold (visible_of_mem_scan hold query.expression) _).symm

end Memorial.Query

/-! ### A branch with a relation only -/

namespace Memorial.Journal

open Library Query Session DeltaStore

/-- A branch that only relates the thoughts of its root anew. -/
def relatedGraph : Snapshot journalSchema :=
  .branch ⟨⟨2⟩, counterfactual, 15, 35,
    (run applyCall rootGraph.makeBranchDelta [writeRecall ⟨1⟩ ⟨0⟩]).buildIndices⟩ rootGraph

def relatedCalls : List (Call journalSchema) :=
  [.newDelta] ++ rootWrites.map (.write 0) ++ [.publish 0 ⟨1⟩ actual 15 35, .makeBranchDelta 0,
    .write 1 (writeRecall ⟨1⟩ ⟨0⟩), .publishBranch 0 1 ⟨2⟩ counterfactual 15 35]

theorem graphs_relatedCalls :
    (run step initial relatedCalls).graphs = [rootGraph, relatedGraph] := rfl

theorem reachable_relatedGraph : Reachable relatedGraph :=
  reachable_of_mem graphs_relatedCalls (by simp)

/-- The two highest-ranked thoughts. -/
def highestQuery : TypedQuery journalSchema :=
  TypedQuery.from thought
    |>.topK ⟨2, rank, .descending, Nat.two_pos, two_lt_size⟩ nofun
    |>.project [rank] (by simp) rfl

def highestRows : List (ProjectedRow thought [rank]) :=
  [⟨⟨0⟩, ((3 : Int32), ())⟩, ⟨⟨1⟩, ((1 : Int32), ())⟩]

theorem execute_highestQuery : execute rootGraph highestQuery = .ok highestRows := by
  with_unfolding_all rfl

/-- The branch answers a query that follows no relation as its root does. -/
theorem older_answer_kept_relatedGraph : ∃ after, execute relatedGraph highestQuery = .ok after ∧
    highestRows = after :=
  ⟨highestRows, by with_unfolding_all rfl,
    older_answer_kept reachable_relatedGraph (.branch (.refl rootGraph)) highestQuery rfl
      (fun _ hedge => absurd hedge List.not_mem_nil) execute_highestQuery
      (by with_unfolding_all rfl)⟩

end Memorial.Journal
