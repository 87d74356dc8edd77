import Memorial.Library.RankedPrefix
import Memorial.Query.Reference
import Memorial.Storage.HistoryReads

/-!
# Queries over a history

A query means something for a history, without a snapshot: a list of ids that starts with all
visible rows and goes through the stages, each of which looks at what was written.  Executing the
query on a snapshot whose session recorded that history is the same, if every ranking has values
that its comparator orders; on values where it does not, sorting is undefined.

* `History.stage`, `History.select`, `History.refusal`, `History.answerTo` — the meaning of a query;
* `History.Rankable` — the comparators of its rankings are strict weak orderings on what they rank;
* `HoldsHistory.scan_eq` — **PROVED**: the scan of a snapshot is that of its history;
* `HoldsHistory.execute_eq` — **PROVED**: and so is the execution, with its error;
* `sessions_answer_as_archives` — **PROVED**: for every run of a session, every read and every query
  on what it publishes is answered by what the run recorded.
-/

namespace Memorial

open Library Query Session

variable {C : TypeSystem} {S : GraphSchema C}

/-! ### The meaning of a query -/

namespace History

/-- A comparison holds of the value that was written. -/
def selects (history : History S) {tag : S.Tag} (predicate : Comparison tag) (id : NodeId) : Bool :=
  (history.value? tag predicate.key id).any
    (fun written => predicate.holds written predicate.value)

/-- A visible id with the value that was written. -/
def withWritten (history : History S) (tag : S.Tag) (key : GraphSchema.Key tag) (id : NodeId) :
    Option (NodeId × GraphSchema.Value tag key) :=
  (history.value? tag key id).map (fun value => (id, value))

/-- One stage. -/
def stage (history : History S) {current next : S.Tag} (operation : Operation S current next)
    (ids : List NodeId) : List NodeId :=
  match operation with
  | .activeAt _ => ids
  | .knownAt _ => ids
  | .inWorldline _ => ids
  | .where_ predicate => ids.filter (history.selects predicate)
  | .fusedWhere predicates =>
    ids.filter (fun id => predicates.all (fun predicate => history.selects predicate id))
  | .traverse edge =>
    ids.flatMap (fun id =>
      (history.incident .outgoing edge id).map AdjacencyStore.AcceptedEdge.target)
  | .project _ => ids
  | .topK ranking =>
    ((mergeSortBy (rankedBefore ranking.direction)
      (ids.filterMap (history.withWritten _ ranking.key))).take ranking.count).map Prod.fst
  | .limit count => ids.take count

/-- A pipeline. -/
def select (history : History S) : {tag : S.Tag} → Expression S tag → List NodeId
  | _, .source tag => history.visibleIds tag
  | _, .pipeline previous operation => history.stage operation (history.select previous)

/-- A stage ranks values that its comparator orders. -/
def RanksOrderly (history : History S) {current next : S.Tag} (operation : Operation S current next)
    (ids : List NodeId) : Prop :=
  match operation with
  | .topK ranking =>
    StrictWeakOrderingOn (rankedBefore ranking.direction)
      (ids.filterMap (history.withWritten _ ranking.key))
  | _ => True

/-- Every ranking of a pipeline does. -/
def Rankable (history : History S) : {tag : S.Tag} → Expression S tag → Prop
  | _, .source _ => True
  | _, .pipeline previous operation =>
    history.Rankable previous ∧ history.RanksOrderly operation (history.select previous)

/-- Totally ordered keys can be ranked, whatever was written. -/
theorem rankable_of_ranksOrdered (history : History S) {tag : S.Tag}
    {expression : Expression S tag} (h : expression.RanksOrdered) :
    history.Rankable expression := by
  induction expression with
  | source tag => trivial
  | pipeline previous operation ih =>
    obtain ⟨hprevious, hoperation⟩ := h
    refine ⟨ih hprevious, ?_⟩
    cases operation with
    | topK ranking => exact (strictWeakOrdering_rankedBefore hoperation ranking.direction).on _
    | _ => trivial

/-- The error of the last selector that names other coordinates than those of the last entry. -/
def refusal (history : History S) : {tag : S.Tag} → Expression S tag → Option GraphError
  | _, .source _ => none
  | _, .pipeline previous operation =>
    match operation with
    | .activeAt value =>
      if value ≠ history.last.validAt then some activeAtMismatch else history.refusal previous
    | .knownAt value =>
      if value ≠ history.last.knownAt then some knownAtMismatch else history.refusal previous
    | .inWorldline value =>
      if value ≠ history.last.worldline then some worldlineMismatch else history.refusal previous
    | _ => history.refusal previous

/-- The values that were written under some keys. -/
def written (history : History S) (tag : S.Tag) (id : NodeId) :
    (keys : List (GraphSchema.Key tag)) → Option (ProjectedValues tag keys)
  | [] => some ()
  | key :: rest => do
    let first ← history.value? tag key id
    let remaining ← history.written tag id rest
    return (first, remaining)

/-- The ids, or their rows. -/
def rowsOf (history : History S) (tag : S.Tag) (ids : List NodeId) :
    (projection : Option (List (GraphSchema.Key tag))) → ExecutionResult tag projection
  | none => ids
  | some keys =>
    ids.filterMap (fun id => (history.written tag id keys).map (fun values => { id, values }))

/-- What a query means. -/
def answerTo (history : History S) (query : TypedQuery S) :
    Result (ExecutionResult query.current query.projection) :=
  match history.refusal query.expression with
  | some error => .error error
  | none => .ok (history.rowsOf query.current (history.select query.expression) query.projection)

end History

/-! ### Execution computes it -/

namespace HoldsHistory

variable {graph : Snapshot S} {history : History S}

theorem selects_eq (h : HoldsHistory graph history) (hgraph : graph.WellFormed) {tag : S.Tag}
    (predicate : Comparison tag) {id : NodeId} (hid : graph.visible tag id = true) :
    predicate.selects graph id = history.selects predicate id := by
  rw [Comparison.selects, Snapshot.satisfies, h.storedValue?_eq hgraph hid]
  rfl

/-- A stage of the scan looks at what was written: its ids are visible. -/
theorem stage_eq (h : HoldsHistory graph history) (hgraph : graph.WellFormed)
    {current next : S.Tag} {operation : Operation S current next} {ids : List NodeId}
    (hids : ∀ id ∈ ids, graph.visible current id = true)
    (hranks : history.RanksOrderly operation ids) :
    operation.scan stableSort graph ids = history.stage operation ids := by
  cases operation with
  | where_ predicate =>
    refine List.filter_congr ?_
    intro id hid
    exact h.selects_eq hgraph predicate (hids id hid)
  | fusedWhere predicates =>
    refine List.filter_congr ?_
    intro id hid
    refine List.all_congr rfl ?_
    intro predicate
    exact h.selects_eq hgraph predicate (hids id hid)
  | traverse edge =>
    simp only [Operation.scan, History.stage, h.incidentEdges_eq hgraph, List.map_map]
    rfl
  | topK ranking =>
    have hranked : ids.filterMap (withStored graph _ ranking.key) =
        ids.filterMap (history.withWritten _ ranking.key) := by
      refine List.filterMap_congr ?_
      intro id hid
      rw [withStored, History.withWritten, h.storedValue?_eq hgraph (hids id hid)]
    have hsorted : stableSort (rankedBefore ranking.direction)
        (ids.filterMap (history.withWritten _ ranking.key)) =
        mergeSortBy (rankedBefore ranking.direction)
          (ids.filterMap (history.withWritten _ ranking.key)) :=
      StrictWeakOrderingOn.stableSort_eq_mergeSort hranks
    simp only [Operation.scan, History.stage, hranked, hsorted]
  | _ => rfl

/-- **The scan of a snapshot is that of its history.**  By induction on the pipeline. -/
theorem scan_eq (h : HoldsHistory graph history) (hgraph : graph.WellFormed) {tag : S.Tag}
    {expression : Expression S tag} (hranks : history.Rankable expression) :
    scan stableSort graph expression = history.select expression := by
  induction expression with
  | source tag => exact h.visibleIds_eq hgraph tag
  | pipeline previous operation ih =>
    obtain ⟨hprevious, hoperation⟩ := hranks
    have hvisible := visible_of_mem_scan hgraph previous
    rw [scan, ih hprevious, History.select]
    rw [ih hprevious] at hvisible
    exact h.stage_eq hgraph hvisible hoperation

theorem selectorError_eq (h : HoldsHistory graph history) {tag : S.Tag}
    (expression : Expression S tag) :
    selectorError graph expression = history.refusal expression := by
  have hvalidAt : graph.validAt = history.last.validAt := h.last.validAt
  have hknownAt : graph.knownAt = history.last.knownAt := h.last.knownAt
  have hworldline : graph.worldline = history.last.worldline := h.last.worldline
  induction expression with
  | source tag => rfl
  | pipeline previous operation ih =>
    rw [selectorError, ih]
    cases operation with
    | activeAt value =>
      rw [Operation.mismatch, History.refusal, hvalidAt]
      split <;> rfl
    | knownAt value =>
      rw [Operation.mismatch, History.refusal, hknownAt]
      split <;> rfl
    | inWorldline value =>
      rw [Operation.mismatch, History.refusal, hworldline]
      split <;> rfl
    | _ => rfl

theorem storedProjection_eq (h : HoldsHistory graph history) (hgraph : graph.WellFormed)
    {tag : S.Tag} {id : NodeId} (hid : graph.visible tag id = true)
    (keys : List (GraphSchema.Key tag)) :
    storedProjection graph tag id keys = history.written tag id keys := by
  induction keys with
  | nil => rfl
  | cons key rest ih => rw [storedProjection, h.storedValue?_eq hgraph hid, ih, History.written]

theorem scanRows_eq (h : HoldsHistory graph history) (hgraph : graph.WellFormed) {tag : S.Tag}
    {ids : List NodeId} (hids : ∀ id ∈ ids, graph.visible tag id = true)
    (projection : Option (List (GraphSchema.Key tag))) :
    scanRows graph tag ids projection = history.rowsOf tag ids projection := by
  cases projection with
  | none => rfl
  | some keys =>
    refine List.filterMap_congr ?_
    intro id hid
    rw [storedRow, h.storedProjection_eq hgraph (hids id hid)]

/-- **A query executes on a snapshot to what it means for the history.** -/
theorem execute_eq (h : HoldsHistory graph history) (hgraph : graph.WellFormed)
    {query : TypedQuery S} (hranks : history.Rankable query.expression) :
    execute graph query = history.answerTo query := by
  have hvisible := visible_of_mem_scan hgraph query.expression
  rw [Query.execute_eq hgraph, h.selectorError_eq, scanQuery, h.scanRows_eq hgraph hvisible,
    h.scan_eq hgraph hranks, History.answerTo]
  cases history.refusal query.expression <;> rfl

/-- A snapshot and its parents read as the history and those it was put on top of. -/
theorem readsAs_chain (h : HoldsHistory graph history) (hgraph : graph.WellFormed) :
    List.Forall₂ ReadsAs graph.chain history.chain := by
  refine forall₂_imp_of_mem h.chain ?_
  intro other hother earlier _ hholds
  exact hholds.readsAs (hgraph.of_mem_chain hother)

/-- They estimate traversals alike as well, where the degrees are exact. -/
theorem estimatesAs_chain (h : HoldsHistory graph history)
    (hexact : ∀ level ∈ graph.levels, level.ExactDegrees)
    (ceil : C.arithmetic.Double → C.arithmetic.Double) :
    List.Forall₂ (EstimatesAs ceil) graph.chain history.chain := by
  refine forall₂_imp_of_mem h.chain ?_
  intro other hother earlier _ hholds
  refine hholds.estimatesAs ?_ ceil
  intro level hlevel
  exact hexact level (Snapshot.mem_levels_of_mem_chain hother hlevel)

end HoldsHistory

/-- **Sessions answer as archives do.**  For every run of a session, the snapshots it publishes
stand one by one for the histories that the accepted writes and publications of the run record.
Every read on a snapshot or a parent of it is answered by its history, with its error, and so is
every query whose rankings have values that their comparators order.  In a run where no edge append
throws after it created the entry of a source that had none, the history also gives the estimates of
traversals. -/
theorem sessions_answer_as_archives (ceil : C.arithmetic.Double → C.arithmetic.Double)
    (calls : List (Call S)) :
    List.Forall₂
      (fun graph history => List.Forall₂ ReadsAs graph.chain history.chain ∧
        ∀ query : TypedQuery S, history.Rankable query.expression →
          execute graph query = history.answerTo query)
      (run step initial calls).graphs
      (run Archive.record .empty (records calls)).histories ∧
    (Meets step (WritesOnly DeltaStore.LeavesNoEntry) initial calls →
      List.Forall₂ (fun graph history => List.Forall₂ (EstimatesAs ceil) graph.chain history.chain)
        (run step initial calls).graphs
        (run Archive.record .empty (records calls)).histories) := by
  have hrun := Refines.refines_run calls
  constructor
  · refine forall₂_imp_of_mem hrun.histories ?_
    intro graph hgraph history _ hholds
    have hwellFormed := hrun.wellFormed.graphs graph hgraph
    refine ⟨hholds.readsAs_chain hwellFormed, ?_⟩
    intro query hranks
    exact hholds.execute_eq hwellFormed hranks
  · intro hcalls
    refine forall₂_imp_of_mem hrun.histories ?_
    intro graph hgraph history _ hholds
    exact hholds.estimatesAs_chain (Snapshot.exactDegrees_of_run hcalls hgraph) ceil

/-- At the branch of the journal session, with a query that ranks. -/
theorem sessions_answer_as_archives_branchGraph :
    ∃ history, (run Archive.record .empty (records Journal.journalCalls)).histories[1]? =
        some history ∧
      execute Journal.branchGraph (recalledQuery Journal.counterfactual) =
        history.answerTo (recalledQuery Journal.counterfactual) ∧
      List.Forall₂ (EstimatesAs Journal.Floating.ceil) Journal.branchGraph.chain history.chain := by
  obtain ⟨hreads, hestimates⟩ :=
    sessions_answer_as_archives Journal.Floating.ceil Journal.journalCalls
  have hgraph : (run step initial Journal.journalCalls).graphs[1]? = some Journal.branchGraph := rfl
  obtain ⟨history, hhistory, -, hanswers⟩ := exists_of_forall₂ hreads hgraph
  obtain ⟨same, hsame, hestimate⟩ :=
    exists_of_forall₂ (hestimates Journal.leavesNoEntry_journalCalls) hgraph
  obtain rfl := Option.some.inj (hhistory.symm.trans hsame)
  refine ⟨history, hhistory, hanswers _ ?_, hestimate⟩
  exact history.rankable_of_ranksOrdered (ranksOrdered_recalledQuery Journal.counterfactual)

end Memorial
