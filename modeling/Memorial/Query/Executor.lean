import Memorial.Query.Ast
import Memorial.Storage.Snapshot

/-!
# Query execution

`execute`: a pipeline evaluated from its source to its last stage, over one snapshot.  A selector
is checked before the stages in front of it are evaluated; a filter first prunes its input with
an index when the estimate promises enough.

* `evaluate` — the ids a pipeline leads to;
* `pruneByIndex` — the index step of a filter;
* `materialize`, `execute` — the rows of a query.
-/

namespace Memorial.Query

open Library

variable {C : TypeSystem} {S : GraphSchema C}

/-! ### Comparisons -/

/-- `compare(left, right, Operator{})`. -/
def compare {left right : C.ValueType} (operator : ComparisonOp) (a : C.carrier left)
    (b : C.carrier right) : Bool :=
  match operator with
  | .greaterThan => C.greaterThan a b
  | .greaterEqual => C.greaterEqual a b
  | .lessThan => C.lessThan a b
  | .lessEqual => C.lessEqual a b
  | .equalTo => C.equalTo a b

/-- A comparison applied to a stored value: `comparison_predicate<Operator>` at the operand. -/
def Comparison.holds {tag : S.Tag} (predicate : Comparison tag)
    (stored : GraphSchema.Value tag predicate.key) (value : C.carrier predicate.valueType) :
    Bool :=
  compare predicate.operator stored value

/-- `matches_predicate`. -/
def matchesPredicate (graph : Snapshot S) {tag : S.Tag} (predicate : Comparison tag)
    (id : NodeId) : Result Bool := do
  let property ← graph.property tag predicate.key id
  return predicate.holds property predicate.value

/-- `matches_all`. -/
def matchesAll (graph : Snapshot S) {tag : S.Tag} : List (Comparison tag) → NodeId → Result Bool
  | [], _ => .ok true
  | predicate :: rest, id => do
    let matched ← matchesPredicate graph predicate id
    if !matched then return matched
    else matchesAll graph rest id

/-! ### Index candidates -/

/-- `retain_smaller_candidate_set`. -/
def retainSmallerCandidateSet (input indexed : List NodeId) : List NodeId :=
  if indexed.length ≥ input.length then input
  else input.filter (fun id => decide (id ∈ indexed))

/-- `should_use_property_index`. -/
def shouldUsePropertyIndex (D : DoubleArithmetic) (estimate inputSize : ℕ) : Bool :=
  D.lessThan (D.ofSize estimate) (D.mul (D.ofSize inputSize) D.fourFifths)

/-- The index step of a filter, which `where` and `apply_index_candidates` both take: estimate,
and prune the input when the estimate is low enough. -/
def pruneByIndex (graph : Snapshot S) {tag : S.Tag} (predicate : Comparison tag)
    (input : List NodeId) : Result (List NodeId) := do
  let estimate ←
    graph.estimatePropertyCandidates tag predicate.key predicate.value predicate.holds
  if shouldUsePropertyIndex C.arithmetic estimate input.length then
    let indexed ← graph.propertyCandidates tag predicate.key predicate.value predicate.holds
    return retainSmallerCandidateSet input indexed
  else return input

/-- `apply_index_candidates`. -/
def applyIndexCandidates (graph : Snapshot S) {tag : S.Tag} :
    List (Comparison tag) → List NodeId → Result (List NodeId)
  | [], input => .ok input
  | predicate :: rest, input => do
    let input ← pruneByIndex graph predicate input
    applyIndexCandidates graph rest input

/-! ### Ranking -/

/-- The comparator `top_k` passes to `std::stable_sort`. -/
def rankedBefore {type : C.ValueType} (direction : SortDirection)
    (left right : NodeId × C.carrier type) : Bool :=
  match direction with
  | .ascending => C.lessThan left.2 right.2
  | .descending => C.greaterThan left.2 right.2

/-- The body of `evaluate(top_k)` after its input.  `std::stable_sort` is only defined for a strict
weak ordering, where every stable sort is the one used here. -/
def rank (graph : Snapshot S) {tag : S.Tag} (ranking : TopK tag) (input : List NodeId) :
    Result (List NodeId) := do
  let ranked ← mapLoop
    (fun id => do
      let property ← graph.property tag ranking.key id
      return (id, property))
    input
  let sorted := stableSort (rankedBefore ranking.direction) ranked
  return (sorted.take ranking.count).map Prod.fst

/-! ### Evaluation -/

def activeAtMismatch : GraphError :=
  { code := .conflict, detail := "query active_at does not match the supplied snapshot" }

def knownAtMismatch : GraphError :=
  { code := .conflict, detail := "query known_at does not match the supplied snapshot" }

def worldlineMismatch : GraphError :=
  { code := .worldlineMismatch, detail := "query worldline does not match the supplied snapshot" }

/-- `evaluate`, with one case for each stage.  A traversal also reserves room for as many ids as
`estimate_traversal_cardinality` promises; a reservation that throws, or whose estimate is out of
range, is not modelled. -/
def evaluate (graph : Snapshot S) : {tag : S.Tag} → Expression S tag → Result (List NodeId)
  | _, .source tag => graph.sourceCandidates tag
  | _, .pipeline previous operation =>
    match operation with
    | .activeAt value =>
      if value ≠ graph.validAt then .error activeAtMismatch else evaluate graph previous
    | .knownAt value =>
      if value ≠ graph.knownAt then .error knownAtMismatch else evaluate graph previous
    | .inWorldline value =>
      if value ≠ graph.worldline then .error worldlineMismatch else evaluate graph previous
    | .where_ predicate => do
      let input ← evaluate graph previous
      let input ← pruneByIndex graph predicate input
      filterLoop (matchesPredicate graph predicate) input
    | .fusedWhere predicates => do
      let input ← evaluate graph previous
      let input ← applyIndexCandidates graph predicates input
      filterLoop (matchesAll graph predicates) input
    | .traverse edge => do
      let input ← evaluate graph previous
      flatMapLoop
        (fun source => do
          let edges ← graph.outgoing edge source
          mapLoop (graph.edgeTarget edge) edges)
        input
    | .project _ => evaluate graph previous
    | .topK ranking => do
      let input ← evaluate graph previous
      rank graph ranking input
    | .limit count => do
      let input ← evaluate graph previous
      return if input.length > count then input.take count else input

/-! ### Rows -/

/-- The tuple of the values of the projected keys. -/
def ProjectedValues (tag : S.Tag) : List (GraphSchema.Key tag) → Type
  | [] => Unit
  | key :: rest => GraphSchema.Value tag key × ProjectedValues tag rest

/-- `projected_row<Node, Projection>`. -/
structure ProjectedRow (tag : S.Tag) (keys : List (GraphSchema.Key tag)) where
  id : NodeId
  values : ProjectedValues tag keys

/-- `execution_result_t`: ids without a projection, rows with one. -/
def ExecutionResult (tag : S.Tag) : Option (List (GraphSchema.Key tag)) → Type
  | none => List NodeId
  | some keys => List (ProjectedRow tag keys)

/-- `read_projection`. -/
def readProjection (graph : Snapshot S) (tag : S.Tag) (id : NodeId) :
    (keys : List (GraphSchema.Key tag)) → Result (ProjectedValues tag keys)
  | [] => .ok ()
  | key :: rest => do
    let first ← graph.property tag key id
    let remaining ← readProjection graph tag id rest
    return (first, remaining)

/-- `materialize`. -/
def materialize (graph : Snapshot S) (tag : S.Tag) (keys : List (GraphSchema.Key tag))
    (ids : List NodeId) : Result (List (ProjectedRow tag keys)) :=
  mapLoop
    (fun id => do
      let values ← readProjection graph tag id keys
      return { id, values })
    ids

/-- The ids as the result of a query. -/
def present (graph : Snapshot S) (tag : S.Tag) (ids : List NodeId) :
    (projection : Option (List (GraphSchema.Key tag))) → Result (ExecutionResult tag projection)
  | none => .ok ids
  | some keys => materialize graph tag keys ids

/-- `execute`. -/
def execute (graph : Snapshot S) (query : TypedQuery S) :
    Result (ExecutionResult query.current query.projection) := do
  let ids ← evaluate graph query.expression
  present graph query.current ids query.projection

end Memorial.Query
