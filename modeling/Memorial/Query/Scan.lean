import Memorial.Query.Executor
import Memorial.Storage.SnapshotReads

/-!
# Query execution as a scan

What a pipeline computes, without indices, estimates or error plumbing: a selector refuses the
whole query or does nothing, and every other stage is a function on lists of ids that reads the
stored rows.  On a well-formed snapshot the executor is this scan.

* `selectorError` — the error of the last selector that does not match the snapshot;
* `scan` — the list semantics, with the sorting algorithm of `top_k` left open;
* `pruneByIndex_eq`, `applyIndexCandidates_eq` — **PROVED**: pruning drops nothing a filter
  keeps, and keeps order and multiplicity;
* `visible_of_mem_scan` — **PROVED**: every id that flows through a pipeline is visible;
* `evaluate_eq`, `execute_eq` — **PROVED**: the executor is the scan.
-/

namespace Memorial.Query

open Library Snapshot

variable {C : TypeSystem} {S : GraphSchema C}

/-! ### Selectors -/

/-- The error a selector raises on a snapshot it does not match. -/
def Operation.mismatch (graph : Snapshot S) {current next : S.Tag} :
    Operation S current next → Option GraphError
  | .activeAt value => if value ≠ graph.validAt then some activeAtMismatch else none
  | .knownAt value => if value ≠ graph.knownAt then some knownAtMismatch else none
  | .inWorldline value => if value ≠ graph.worldline then some worldlineMismatch else none
  | _ => none

/-- The error of the last selector of a pipeline that does not match. -/
def selectorError (graph : Snapshot S) : {tag : S.Tag} → Expression S tag → Option GraphError
  | _, .source _ => none
  | _, .pipeline previous operation =>
    (operation.mismatch graph).or (selectorError graph previous)

/-- A value, unless there is an error. -/
def answer {α : Type} (error : Option GraphError) (value : α) : Result α :=
  match error with
  | none => .ok value
  | some error => .error error

/-- A step that succeeds continues an answer. -/
theorem answer_bind {α β : Type} {error : Option GraphError} {value : α} {f : α → Result β}
    {value' : β} (h : f value = .ok value') :
    (answer error value >>= f) = answer error value' := by
  cases error with
  | none => exact h
  | some error => rfl

/-- A selector in front of an answer. -/
theorem answer_or {α : Type} {refused : Prop} [Decidable refused] (error : GraphError)
    (inner : Option GraphError) (value : α) :
    (if refused then .error error else answer inner value) =
      answer ((if refused then some error else none).or inner) value := by
  split <;> rfl

/-! ### The list semantics -/

/-- A sorting algorithm for a strict comparator. -/
abbrev SortFunction := {α : Type} → (α → α → Bool) → List α → List α

/-- A comparison holds of the value stored for an id. -/
def Comparison.selects (graph : Snapshot S) {tag : S.Tag} (predicate : Comparison tag)
    (id : NodeId) : Bool :=
  graph.satisfies tag predicate.key predicate.value predicate.holds id

/-- An id with the value stored for it. -/
def withStored (graph : Snapshot S) (tag : S.Tag) (key : GraphSchema.Key tag) (id : NodeId) :
    Option (NodeId × GraphSchema.Value tag key) :=
  (graph.storedValue? tag key id).map (fun value => (id, value))

/-- One stage, on the ids of its input. -/
def Operation.scan (sort : SortFunction) (graph : Snapshot S) {current next : S.Tag}
    (operation : Operation S current next) (ids : List NodeId) : List NodeId :=
  match operation with
  | .activeAt _ => ids
  | .knownAt _ => ids
  | .inWorldline _ => ids
  | .where_ predicate => ids.filter (predicate.selects graph)
  | .fusedWhere predicates =>
    ids.filter (fun id => predicates.all (fun predicate => predicate.selects graph id))
  | .traverse edge =>
    ids.flatMap (fun id => (graph.incidentEdges .outgoing edge id).map StoredEdge.target)
  | .project _ => ids
  | .topK ranking =>
    ((sort (rankedBefore ranking.direction)
      (ids.filterMap (withStored graph _ ranking.key))).take ranking.count).map Prod.fst
  | .limit count => ids.take count

/-- A pipeline: every visible id in ascending order, through the stages. -/
def scan (sort : SortFunction) (graph : Snapshot S) :
    {tag : S.Tag} → Expression S tag → List NodeId
  | _, .source tag => graph.visibleIds tag
  | _, .pipeline previous operation => operation.scan sort graph (scan sort graph previous)

/-! ### What flows through a pipeline is visible -/

section Visible

variable {graph : Snapshot S}

theorem visible_of_mem_incidentEdges {edge : S.Edge} {source : NodeId} {e : StoredEdge}
    (he : e ∈ graph.incidentEdges .outgoing edge source) :
    graph.visible (GraphSchema.target edge) e.target = true :=
  (of_decide_eq_true (List.mem_filter.mp he).2).2

theorem mem_of_withStored {tag : S.Tag} {key : GraphSchema.Key tag} {id : NodeId}
    {entry : NodeId × GraphSchema.Value tag key}
    (h : withStored graph tag key id = some entry) : entry.1 = id := by
  obtain ⟨value, -, rfl⟩ := Option.map_eq_some_iff.mp h
  rfl

/-- A stage leads from visible ids to visible ids. -/
theorem visible_of_mem_operation_scan {current next : S.Tag} (operation : Operation S current next)
    {ids : List NodeId} (hids : ∀ id ∈ ids, graph.visible current id = true) :
    ∀ id ∈ operation.scan stableSort graph ids, graph.visible next id = true := by
  intro id hid
  cases operation with
  | activeAt value => exact hids id hid
  | knownAt value => exact hids id hid
  | inWorldline value => exact hids id hid
  | where_ predicate => exact hids id (List.mem_of_mem_filter hid)
  | fusedWhere predicates => exact hids id (List.mem_of_mem_filter hid)
  | traverse edge =>
    obtain ⟨source, -, hid⟩ := List.mem_flatMap.mp hid
    obtain ⟨e, he, rfl⟩ := List.mem_map.mp hid
    exact visible_of_mem_incidentEdges he
  | project keys => exact hids id hid
  | topK ranking =>
    obtain ⟨entry, hentry, rfl⟩ := List.mem_map.mp hid
    have hentry := mem_stableSort.mp (List.mem_of_mem_take hentry)
    obtain ⟨source, hsource, hstored⟩ := List.mem_filterMap.mp hentry
    rw [mem_of_withStored hstored]
    exact hids source hsource
  | limit count => exact hids id (List.mem_of_mem_take hid)

/-- **Every id that flows through a pipeline is visible.**  By induction on the pipeline. -/
theorem visible_of_mem_scan (h : graph.WellFormed) {tag : S.Tag} (expression : Expression S tag) :
    ∀ id ∈ scan stableSort graph expression, graph.visible tag id = true := by
  induction expression with
  | source tag => exact fun id hid => h.mem_visibleIds.mp hid
  | pipeline previous operation ih => exact visible_of_mem_operation_scan operation ih

/-! ### Filters -/

theorem matchesPredicate_eq (h : graph.WellFormed) {tag : S.Tag} (predicate : Comparison tag)
    {id : NodeId} (hid : graph.visible tag id = true) :
    matchesPredicate graph predicate id = .ok (predicate.selects graph id) := by
  obtain ⟨value, hstored, hproperty⟩ := h.property_eq hid predicate.key
  rw [matchesPredicate, hproperty, Comparison.selects, satisfies, hstored]
  rfl

theorem matchesAll_eq (h : graph.WellFormed) {tag : S.Tag} (predicates : List (Comparison tag))
    {id : NodeId} (hid : graph.visible tag id = true) :
    matchesAll graph predicates id =
      .ok (predicates.all (fun predicate => predicate.selects graph id)) := by
  induction predicates with
  | nil => rfl
  | cons predicate rest ih =>
    rw [matchesAll, matchesPredicate_eq h predicate hid, ok_bind, ih, List.all_cons]
    cases predicate.selects graph id <;> rfl

/-- **Pruning by an index is a filter that drops nothing the predicate selects.**  Which estimate
the histograms gave, whether it passed the threshold and which of the two lists was shorter only
decide the filter. -/
theorem pruneByIndex_eq (h : graph.WellFormed) {tag : S.Tag} (predicate : Comparison tag)
    {ids : List NodeId} (hids : ∀ id ∈ ids, graph.visible tag id = true) :
    ∃ keep : NodeId → Bool, pruneByIndex graph predicate ids = .ok (ids.filter keep) ∧
      ∀ id ∈ ids, predicate.selects graph id = true → keep id = true := by
  -- whatever makes the filter keep its input, that is a filter too
  have hall : ∃ keep : NodeId → Bool, (Except.ok ids : Result _) = .ok (ids.filter keep) ∧
      ∀ id ∈ ids, predicate.selects graph id = true → keep id = true := by
    refine ⟨fun _ => true, ?_, fun _ _ _ => rfl⟩
    rw [List.filter_true]
  obtain ⟨estimate, hestimate⟩ := h.estimatePropertyCandidates_isOk tag predicate.key
    predicate.value predicate.holds
  rw [pruneByIndex, hestimate, ok_bind, h.propertyCandidates_eq, ok_bind]
  by_cases hindex : shouldUsePropertyIndex C.arithmetic estimate ids.length = true
  · rw [if_pos hindex, retainSmallerCandidateSet]
    split
    · exact hall
    · refine ⟨_, rfl, ?_⟩
      intro id hid hselected
      apply decide_eq_true
      exact List.mem_filter.mpr ⟨h.mem_visibleIds.mpr (hids id hid), hselected⟩
  · rw [if_neg hindex]
    exact hall

/-- Pruning by the predicates of a fused filter, one after the other. -/
theorem applyIndexCandidates_eq (h : graph.WellFormed) {tag : S.Tag}
    (predicates : List (Comparison tag)) {ids : List NodeId}
    (hids : ∀ id ∈ ids, graph.visible tag id = true) :
    ∃ keep : NodeId → Bool, applyIndexCandidates graph predicates ids = .ok (ids.filter keep) ∧
      ∀ id ∈ ids, predicates.all (fun predicate => predicate.selects graph id) = true →
        keep id = true := by
  induction predicates generalizing ids with
  | nil => exact ⟨fun _ => true, by simp [applyIndexCandidates], fun _ _ _ => rfl⟩
  | cons predicate rest ih =>
    obtain ⟨first, hfirst, hkeepFirst⟩ := pruneByIndex_eq h predicate hids
    obtain ⟨later, hlater, hkeepLater⟩ :=
      ih (fun id (hid : id ∈ ids.filter first) => hids id (List.mem_of_mem_filter hid))
    refine ⟨fun id => later id && first id, ?_, ?_⟩
    · rw [applyIndexCandidates, hfirst, ok_bind, hlater, List.filter_filter]
    · intro id hid hselected
      obtain ⟨hpredicate, hrest⟩ := Bool.and_eq_true_iff.mp (List.all_cons ▸ hselected)
      have hid' : id ∈ ids.filter first :=
        List.mem_filter.mpr ⟨hid, hkeepFirst id hid hpredicate⟩
      exact Bool.and_eq_true_iff.mpr ⟨hkeepLater id hid' hrest, hkeepFirst id hid hpredicate⟩

/-- Filtering what such a pruning keeps is filtering everything. -/
theorem filter_filter_of_imp {ids : List NodeId} {keep selected : NodeId → Bool}
    (h : ∀ id ∈ ids, selected id = true → keep id = true) :
    (ids.filter keep).filter selected = ids.filter selected := by
  rw [List.filter_filter]
  apply List.filter_congr
  intro id hid
  cases hselected : selected id with
  | true => rw [h id hid hselected, Bool.and_self]
  | false => rfl

theorem where_eq (h : graph.WellFormed) {tag : S.Tag} (predicate : Comparison tag)
    {ids : List NodeId} (hids : ∀ id ∈ ids, graph.visible tag id = true) :
    (do
      let input ← pruneByIndex graph predicate ids
      filterLoop (matchesPredicate graph predicate) input) =
      .ok (ids.filter (predicate.selects graph)) := by
  obtain ⟨keep, hprune, hkeep⟩ := pruneByIndex_eq h predicate hids
  rw [hprune, ok_bind, filterLoop_eq_ok (p := predicate.selects graph), filter_filter_of_imp hkeep]
  intro id hid
  exact matchesPredicate_eq h predicate (hids id (List.mem_of_mem_filter hid))

theorem fusedWhere_eq (h : graph.WellFormed) {tag : S.Tag} (predicates : List (Comparison tag))
    {ids : List NodeId} (hids : ∀ id ∈ ids, graph.visible tag id = true) :
    (do
      let input ← applyIndexCandidates graph predicates ids
      filterLoop (matchesAll graph predicates) input) =
      .ok (ids.filter
        (fun id => predicates.all (fun predicate => predicate.selects graph id))) := by
  obtain ⟨keep, hprune, hkeep⟩ := applyIndexCandidates_eq h predicates hids
  rw [hprune, ok_bind, filterLoop_eq_ok
    (p := fun id => predicates.all (fun predicate => predicate.selects graph id)),
    filter_filter_of_imp hkeep]
  intro id hid
  exact matchesAll_eq h predicates (hids id (List.mem_of_mem_filter hid))

/-! ### The other stages -/

theorem rank_eq (h : graph.WellFormed) {tag : S.Tag} (ranking : TopK tag) {ids : List NodeId}
    (hids : ∀ id ∈ ids, graph.visible tag id = true) :
    rank graph ranking ids = .ok ((Operation.topK ranking).scan stableSort graph ids) := by
  have hranked : ∀ id ∈ ids, ∃ entry, withStored graph tag ranking.key id = some entry ∧
      (do
        let property ← graph.property tag ranking.key id
        return (id, property)) = Except.ok entry := by
    intro id hid
    obtain ⟨value, hstored, hproperty⟩ := h.property_eq (hids id hid) ranking.key
    refine ⟨(id, value), ?_, ?_⟩
    · rw [withStored, hstored]
      rfl
    · rw [hproperty]
      rfl
  rw [rank, mapLoop_eq_filterMap hranked, ok_bind]
  rfl

theorem traverse_eq (h : graph.WellFormed) {edge : S.Edge} {ids : List NodeId}
    (hids : ∀ id ∈ ids, graph.visible (GraphSchema.source edge) id = true) :
    flatMapLoop
      (fun source => do
        let edges ← graph.outgoing edge source
        mapLoop (graph.edgeTarget edge) edges) ids =
      .ok ((Operation.traverse edge).scan stableSort graph ids) := by
  apply flatMapLoop_eq_ok
  intro source hsource
  have hedges : graph.outgoing edge source =
      .ok ((graph.incidentEdges .outgoing edge source).map StoredEdge.id) :=
    h.incident_eq (hids source hsource)
  rw [hedges, ok_bind, mapLoop_map]
  apply mapLoop_eq_ok
  intro e he
  exact h.edgeTarget_eq (List.mem_of_mem_filter he)

theorem limit_eq (ids : List NodeId) (count : ℕ) :
    (if ids.length > count then ids.take count else ids) = ids.take count := by
  split
  · rfl
  · rename_i hshort
    exact (List.take_of_length_le (not_lt.mp hshort)).symm

end Visible

/-! ### The executor is the scan -/

/-- **A pipeline evaluates to its scan**, or to the error of its last mismatching selector.  By
induction on the pipeline; that its ids are visible carries every stage. -/
theorem evaluate_eq {graph : Snapshot S} (h : graph.WellFormed) {tag : S.Tag}
    (expression : Expression S tag) :
    evaluate graph expression =
      answer (selectorError graph expression) (scan stableSort graph expression) := by
  induction expression with
  | source tag => exact h.sourceCandidates_eq tag
  | pipeline previous operation ih =>
    have hvisible := visible_of_mem_scan h previous
    cases operation with
    | activeAt value =>
      rw [evaluate, ih]
      exact answer_or _ _ _
    | knownAt value =>
      rw [evaluate, ih]
      exact answer_or _ _ _
    | inWorldline value =>
      rw [evaluate, ih]
      exact answer_or _ _ _
    | where_ predicate =>
      rw [evaluate, ih]
      exact answer_bind (where_eq h predicate hvisible)
    | fusedWhere predicates =>
      rw [evaluate, ih]
      exact answer_bind (fusedWhere_eq h predicates hvisible)
    | traverse edge =>
      rw [evaluate, ih]
      exact answer_bind (traverse_eq h hvisible)
    | project keys =>
      rw [evaluate, ih]
      rfl
    | topK ranking =>
      rw [evaluate, ih]
      exact answer_bind (rank_eq h ranking hvisible)
    | limit count =>
      rw [evaluate, ih]
      exact answer_bind (congrArg Except.ok (limit_eq _ count))

/-! ### Rows -/

/-- The stored values of the projected keys. -/
def storedProjection (graph : Snapshot S) (tag : S.Tag) (id : NodeId) :
    (keys : List (GraphSchema.Key tag)) → Option (ProjectedValues tag keys)
  | [] => some ()
  | key :: rest => do
    let first ← graph.storedValue? tag key id
    let remaining ← storedProjection graph tag id rest
    return (first, remaining)

/-- The row of an id. -/
def storedRow (graph : Snapshot S) (tag : S.Tag) (keys : List (GraphSchema.Key tag))
    (id : NodeId) : Option (ProjectedRow tag keys) :=
  (storedProjection graph tag id keys).map (fun values => { id, values })

/-- The ids, or their rows. -/
def scanRows (graph : Snapshot S) (tag : S.Tag) (ids : List NodeId) :
    (projection : Option (List (GraphSchema.Key tag))) → ExecutionResult tag projection
  | none => ids
  | some keys => ids.filterMap (storedRow graph tag keys)

/-- The result of a query whose selectors match. -/
def scanQuery (sort : SortFunction) (graph : Snapshot S) (query : TypedQuery S) :
    ExecutionResult query.current query.projection :=
  scanRows graph query.current (scan sort graph query.expression) query.projection

theorem readProjection_eq {graph : Snapshot S} (h : graph.WellFormed) {tag : S.Tag} {id : NodeId}
    (hid : graph.visible tag id = true) (keys : List (GraphSchema.Key tag)) :
    ∃ values, storedProjection graph tag id keys = some values ∧
      readProjection graph tag id keys = .ok values := by
  induction keys with
  | nil => exact ⟨(), rfl, rfl⟩
  | cons key rest ih =>
    obtain ⟨first, hstored, hproperty⟩ := h.property_eq hid key
    obtain ⟨remaining, hrest, hread⟩ := ih
    refine ⟨(first, remaining), ?_, ?_⟩
    · rw [storedProjection, hstored, hrest]
      rfl
    · rw [readProjection, hproperty, ok_bind, hread]
      rfl

theorem present_eq {graph : Snapshot S} (h : graph.WellFormed) {tag : S.Tag} {ids : List NodeId}
    (hids : ∀ id ∈ ids, graph.visible tag id = true)
    (projection : Option (List (GraphSchema.Key tag))) :
    present graph tag ids projection = .ok (scanRows graph tag ids projection) := by
  cases projection with
  | none => rfl
  | some keys =>
    apply mapLoop_eq_filterMap
    intro id hid
    obtain ⟨values, hstored, hread⟩ := readProjection_eq h (hids id hid) keys
    refine ⟨{ id, values }, ?_, ?_⟩
    · rw [storedRow, hstored]
      rfl
    · rw [hread]
      rfl

/-- **A query executes to its scan**, or to the error of its last mismatching selector. -/
theorem execute_eq {graph : Snapshot S} (h : graph.WellFormed) (query : TypedQuery S) :
    execute graph query =
      answer (selectorError graph query.expression) (scanQuery stableSort graph query) := by
  rw [execute, evaluate_eq h]
  exact answer_bind (present_eq h (visible_of_mem_scan h query.expression) query.projection)

end Memorial.Query
