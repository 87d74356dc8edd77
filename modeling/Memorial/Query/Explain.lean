import Memorial.Query.RequiredColumns
import Memorial.Query.Signature
import Memorial.Runtime.DigestSensitivity
import Memorial.Storage.TraversalEstimates

/-!
# Explaining a query

`explain` optimizes a query, runs what it optimized, and reports both pipelines, the columns, the
access paths and the cardinalities.  What it reports is about the query it was given, although it
runs another one.  Each traversal multiplies the estimate and casts it back to a count, so with
enough of them the cast leaves the range and is not defined any more.

* `QueryPlan`, `explain` — the plan, as the program assembles it;
* `estimateCasting`, `explainCasting` — the same, with casts that may be undefined;
* `signatureHex_injective` — **PROVED**: a plan's signature shows the whole hash;
* `estimateCasting_normalize` — **PROVED**: the estimates do not depend on the optimizer;
* `Describes`, `explain_describes` — **PROVED**: a query that succeeds has a plan exactly if the
  casts along it are defined; the plan describes that query and its rows, and is the plan of the
  optimized query but for the pipeline that it was given.
-/

namespace Memorial.Query

open Library Meta Session

variable {C : TypeSystem} {S : GraphSchema C}

/-! ### Plans -/

/-- `index_kind`. -/
inductive IndexKind
  | nodeScan
  | adjacency
  | validTime
  | transactionTime
  | worldline
  | property
deriving DecidableEq

/-- `kernel_kind`. -/
inductive KernelKind
  | scalarScan
  | simdScan
  | sparseIndexLookup
  | singleThreadTraversal
  | parallelTraversal
deriving DecidableEq

/-- `required_column_info`. -/
structure RequiredColumnInfo where
  nodeIndex : ℕ
  key : FixedString
deriving DecidableEq

/-- `index_candidate`. -/
structure IndexCandidate where
  kind : IndexKind
  available : Bool
  selected : Bool
  reason : String

/-- `kernel_candidate`. -/
structure KernelCandidate where
  kind : KernelKind
  selected : Bool
  reason : String

/-- `query_plan`. -/
@[ext]
structure QueryPlan where
  signature : String
  logicalAst : List PlanOperationKind
  optimizedAst : List PlanOperationKind
  requiredColumns : List RequiredColumnInfo
  indexCandidates : List IndexCandidate
  kernelCandidates : List KernelCandidate
  estimatedCardinality : ℕ
  estimatedTraversalCardinality : ℕ
  actualCardinality : ℕ

/-- `append_operations`. -/
def appendOperations : {tag : S.Tag} → Expression S tag → List PlanOperationKind →
    List PlanOperationKind
  | _, .source _, operations => operations ++ [.sourceScan]
  | _, .pipeline previous operation, operations =>
    appendOperations previous operations ++ [operation.kind]

/-- `cardinality_estimate`. -/
structure CardinalityEstimate where
  current : ℕ
  traversal : ℕ
deriving DecidableEq

/-- `estimate_cardinality`: only a traversal changes the estimate.  Here every cast back to a count
yields some count; `estimateCasting` is the estimate where a cast may be undefined. -/
def estimateCardinality (ceil : C.arithmetic.Double → C.arithmetic.Double) (graph : Snapshot S)
    (sourceCount : ℕ) : {tag : S.Tag} → Expression S tag → CardinalityEstimate
  | _, .source _ => ⟨sourceCount, 0⟩
  | _, .pipeline previous operation =>
    let estimate := estimateCardinality ceil graph sourceCount previous
    match operation with
    | .traverse edge =>
      let current := graph.estimateTraversalCardinality ceil edge estimate.current
      ⟨current, current⟩
    | _ => estimate

/-- `estimate_cardinality`, with a cast to `std::size_t` that may be undefined. -/
def estimateCasting (ceil : C.arithmetic.Double → C.arithmetic.Double)
    (cast : C.arithmetic.Double → Option ℕ) (graph : Snapshot S) (sourceCount : ℕ) :
    {tag : S.Tag} → Expression S tag → Option CardinalityEstimate
  | _, .source _ => some ⟨sourceCount, 0⟩
  | _, .pipeline previous operation =>
    let estimate := estimateCasting ceil cast graph sourceCount previous
    match operation with
    | .traverse edge => do
      let estimate ← estimate
      let current ← cast (graph.scaledDegree ceil edge estimate.current)
      return ⟨current, current⟩
    | _ => estimate

/-- The loop of `signature_hex`, from the digit number `index` on. -/
def fillSignature : (count index : ℕ) → (value : UInt64) → (result : List Char) → List Char
  | 0, _, _, result => result
  | count + 1, index, value, result =>
    fillSignature count (index + 1) (value >>> 4)
      (result.set (result.length - 1 - index) (CanonicalDigest.digit value))

/-- `signature_hex`. -/
def signatureHex (value : UInt64) : String :=
  .ofList (fillSignature 16 0 value (['q', '-'] ++ List.replicate 16 '0'))

/-- `append_columns`. -/
def columnInfo (column : RequiredColumn S) : RequiredColumnInfo :=
  ⟨typeListIndex column.node S.tags, column.key⟩

/-- `execution->size()`. -/
def ExecutionResult.size {tag : S.Tag} :
    {projection : Option (List (GraphSchema.Key tag))} → ExecutionResult tag projection → ℕ
  | none, ids => List.length ids
  | some _, rows => List.length rows

/-- `plan.index_candidates`. -/
def indexCandidates (hasTraversal hasFilter : Bool) : List IndexCandidate :=
  [ ⟨.nodeScan, true, false, "temporal and worldline indexes provide narrower source candidates"⟩,
    ⟨.adjacency, true, hasTraversal,
      if hasTraversal then "selected for typed relation traversal" else "query has no traversal"⟩,
    ⟨.validTime, true, true, "selected for snapshot valid-time visibility"⟩,
    ⟨.transactionTime, true, true, "selected for snapshot transaction-time visibility"⟩,
    ⟨.worldline, true, true, "selected for snapshot worldline visibility"⟩,
    ⟨.property, true, hasFilter,
      if hasFilter then
        "selected when histogram cost predicts less than 80% of the current input"
      else "query has no property filter"⟩ ]

/-- `plan.kernel_candidates`. -/
def kernelCandidates (hasTraversal hasFilter : Bool) : List KernelCandidate :=
  [ ⟨.scalarScan, true, "selected for remaining filter and projection stages"⟩,
    ⟨.simdScan, false, "SIMD kernel is not implemented"⟩,
    ⟨.sparseIndexLookup, true,
      if hasFilter then "selected for temporal, worldline, and property lookup"
      else "selected for temporal and worldline source lookup"⟩,
    ⟨.singleThreadTraversal, hasTraversal,
      if hasTraversal then "selected with degree-based output capacity planning"
      else "query has no traversal"⟩,
    ⟨.parallelTraversal, false, "parallel traversal is not implemented"⟩ ]

/-- What `explain` writes into the plan, from the cardinalities on. -/
def assemblePlan (query optimized : TypedQuery S) (sources : ℕ) (cardinality : CardinalityEstimate)
    (rows : ℕ) : QueryPlan :=
  let hasTraversal := decide ((optimizationInfo optimized).traversalCount ≠ 0)
  let hasFilter := decide ((optimizationInfo optimized).filterCount ≠ 0)
  { signature := signatureHex (expressionSignature optimized.expression)
    logicalAst := appendOperations query.expression []
    optimizedAst := appendOperations optimized.expression []
    requiredColumns := (requiredColumnsT optimized.expression).map columnInfo
    indexCandidates := indexCandidates hasTraversal hasFilter
    kernelCandidates := kernelCandidates hasTraversal hasFilter
    estimatedCardinality := sources
    estimatedTraversalCardinality := cardinality.traversal
    actualCardinality := rows }

/-- `explain`. -/
def explain (ceil : C.arithmetic.Double → C.arithmetic.Double) (graph : Snapshot S)
    (query : TypedQuery S) : Result QueryPlan := do
  let optimized := optimize query
  let execution ← execute graph optimized
  let sourceCandidates ← graph.sourceCandidates query.expression.sourceTag
  let cardinality := estimateCardinality ceil graph sourceCandidates.length optimized.expression
  return assemblePlan query optimized sourceCandidates.length cardinality execution.size

/-- `explain`, with casts that may be undefined: `none` where one of them is.  A query that fails
does so before the first cast. -/
def explainCasting (ceil : C.arithmetic.Double → C.arithmetic.Double)
    (cast : C.arithmetic.Double → Option ℕ) (graph : Snapshot S) (query : TypedQuery S) :
    Option (Result QueryPlan) :=
  let optimized := optimize query
  match execute graph optimized with
  | .error error => some (.error error)
  | .ok execution =>
    match graph.sourceCandidates query.expression.sourceTag with
    | .error error => some (.error error)
    | .ok sourceCandidates => do
      let cardinality ←
        estimateCasting ceil cast graph sourceCandidates.length optimized.expression
      return .ok (assemblePlan query optimized sourceCandidates.length cardinality execution.size)

/-! ### Signatures -/

/-- The loop fills the digits behind the prefix as the loop of `hex` does. -/
theorem fillSignature_eq (count index : ℕ) (value : UInt64) (front digits : List Char)
    (h : index + count = digits.length) :
    fillSignature count index value (front ++ digits) =
      front ++ CanonicalDigest.fillHex count value digits := by
  induction count generalizing index value digits with
  | zero => rfl
  | succ count ih =>
    have hset : (front ++ digits).set ((front ++ digits).length - 1 - index)
        (CanonicalDigest.digit value) =
        front ++ digits.set count (CanonicalDigest.digit value) := by
      have hposition : (front ++ digits).length - 1 - index = front.length + count := by
        rw [List.length_append]
        omega
      rw [hposition, List.set_append_right _ _ (Nat.le_add_right _ _), Nat.add_sub_cancel_left]
    rw [fillSignature, hset, CanonicalDigest.fillHex]
    exact ih _ _ _ (by rw [List.length_set]; omega)

theorem signatureHex_eq (value : UInt64) :
    signatureHex value = .ofList (['q', '-'] ++ CanonicalDigest.lowDigits 16 value) := by
  have hdrop : (List.replicate 16 '0').drop 16 = [] := rfl
  rw [signatureHex, fillSignature_eq 16 0 value _ _ rfl,
    CanonicalDigest.fillHex_eq 16 value (List.replicate 16 '0') (Nat.le_refl 16), hdrop,
    List.append_nil]

/-- **A signature shows the whole hash.** -/
theorem signatureHex_injective : Function.Injective signatureHex := by
  intro x y h
  rw [signatureHex_eq, signatureHex_eq] at h
  have hdigits := List.append_cancel_left (String.ofList_injective h)
  have hhex : CanonicalDigest.hex ⟨x⟩ = CanonicalDigest.hex ⟨y⟩ := by
    rw [CanonicalDigest.hex_eq, CanonicalDigest.hex_eq]
    exact congrArg String.ofList hdigits
  exact CanonicalDigest.mk.inj (CanonicalDigest.hex_injective hhex)

/-! ### What the optimizer does not change -/

/-- The estimates of a pipeline, stage by stage. -/
def estimateInterpretation (ceil : C.arithmetic.Double → C.arithmetic.Double)
    (cast : C.arithmetic.Double → Option ℕ) (graph : Snapshot S) (sourceCount : ℕ) :
    Interpretation S (Option CardinalityEstimate) where
  source _ := some ⟨sourceCount, 0⟩
  stage operation estimate :=
    match operation with
    | .traverse edge => do
      let estimate ← estimate
      let current ← cast (graph.scaledDegree ceil edge estimate.current)
      return ⟨current, current⟩
    | _ => estimate

section Estimates

variable (ceil : C.arithmetic.Double → C.arithmetic.Double)
  (cast : C.arithmetic.Double → Option ℕ) (graph : Snapshot S) (sourceCount : ℕ)

theorem interpret_estimateInterpretation {tag : S.Tag} (expression : Expression S tag) :
    (estimateInterpretation ceil cast graph sourceCount).interpret expression =
      estimateCasting ceil cast graph sourceCount expression := by
  induction expression with
  | source tag => rfl
  | pipeline previous operation ih =>
    rw [Interpretation.interpret, ih]
    cases operation <;> rfl

/-- The rules touch stages that the estimates ignore. -/
theorem keptByRules_estimateInterpretation :
    (estimateInterpretation ceil cast graph sourceCount).KeptByRules where
  fuse _ _ _ := rfl
  fuseMore _ _ _ := rfl
  pass selector hselector predicate estimate := by
    cases selector with
    | traverse edge => cases hselector
    | _ => rfl
  limit _ _ _ := rfl

theorem estimateCasting_normalize {tag : S.Tag} (expression : Expression S tag) :
    estimateCasting ceil cast graph sourceCount (normalize expression) =
      estimateCasting ceil cast graph sourceCount expression := by
  rw [← interpret_estimateInterpretation, ← interpret_estimateInterpretation,
    Interpretation.interpret_normalize
      (keptByRules_estimateInterpretation ceil cast graph sourceCount)]

/-- With the casts of the model the estimate is always defined. -/
theorem estimateCasting_toSize {tag : S.Tag} (expression : Expression S tag) :
    estimateCasting ceil (fun double => some (C.arithmetic.toSize double)) graph sourceCount
        expression = some (estimateCardinality ceil graph sourceCount expression) := by
  induction expression with
  | source tag => rfl
  | pipeline previous operation ih =>
    cases operation with
    | traverse edge =>
      simp only [estimateCasting, ih]
      rfl
    | _ => exact ih

theorem estimateCardinality_normalize {tag : S.Tag} (expression : Expression S tag) :
    estimateCardinality ceil graph sourceCount (normalize expression) =
      estimateCardinality ceil graph sourceCount expression := by
  apply Option.some.inj
  rw [← estimateCasting_toSize, ← estimateCasting_toSize, estimateCasting_normalize]

variable {ceil cast graph sourceCount}

end Estimates

/-- The plan of a query that succeeds, in terms of the query. -/
def planWith (query : TypedQuery S) (sources : ℕ) (cardinality : CardinalityEstimate)
    (rows : ℕ) : QueryPlan :=
  let hasTraversal := decide ((optimizationInfo query).traversalCount ≠ 0)
  let hasFilter := decide ((optimizationInfo query).filterCount ≠ 0)
  { signature := signatureHex (expressionSignature (optimize query).expression)
    logicalAst := appendOperations query.expression []
    optimizedAst := appendOperations (optimize query).expression []
    requiredColumns := (requiredColumnsT query.expression).map columnInfo
    indexCandidates := indexCandidates hasTraversal hasFilter
    kernelCandidates := kernelCandidates hasTraversal hasFilter
    estimatedCardinality := sources
    estimatedTraversalCardinality := cardinality.traversal
    actualCardinality := rows }

/-- The same, with the casts of the model. -/
def planOf (ceil : C.arithmetic.Double → C.arithmetic.Double) (graph : Snapshot S)
    (query : TypedQuery S) (sources rows : ℕ) : QueryPlan :=
  planWith query sources (estimateCardinality ceil graph sources query.expression) rows

/-- Optimizing keeps what a plan counts. -/
theorem assemblePlan_optimize (query : TypedQuery S) (sources : ℕ)
    (cardinality : CardinalityEstimate) (rows : ℕ) :
    assemblePlan query (optimize query) sources cardinality rows =
      planWith query sources cardinality rows := by
  have hcounts := counts_normalize query.expression
  have hfilters : (optimizationInfo (optimize query)).filterCount =
      (optimizationInfo query).filterCount := hcounts.1
  have htraversals : (optimizationInfo (optimize query)).traversalCount =
      (optimizationInfo query).traversalCount := hcounts.2
  have hcolumns : requiredColumnsT (optimize query).expression =
      requiredColumnsT query.expression := congrArg uniqueTypes (requiredColumns_normalize _)
  rw [assemblePlan, planWith, hfilters, htraversals, hcolumns]

/-- The plan with the casts of the model. -/
theorem explain_eq (ceil : C.arithmetic.Double → C.arithmetic.Double) {graph : Snapshot S}
    (h : graph.WellFormed) (query : TypedQuery S) :
    explain ceil graph query = (execute graph query).map (fun result =>
      planOf ceil graph query (graph.visibleIds query.expression.sourceTag).length
        (ExecutionResult.size result)) := by
  have hestimate : ∀ sources, estimateCardinality ceil graph sources (optimize query).expression =
      estimateCardinality ceil graph sources query.expression :=
    fun sources => estimateCardinality_normalize ceil graph sources query.expression
  rw [explain, ← execute_optimized h query]
  cases hexecute : execute graph (optimize query) with
  | error error => rfl
  | ok result =>
    simp only [ok_bind, h.sourceCandidates_eq, hestimate, assemblePlan_optimize]
    rfl

section Candidates

variable {hasTraversal hasFilter : Bool}

end Candidates

section Program

variable {P : ProgramTypes} {T : GraphSchema (cppTypes P)}

/-- `estimate_cardinality` of a program: nothing where a cast to `std::size_t` is not defined. -/
def estimateDefined (graph : Snapshot T) (sourceCount : ℕ) {tag : T.Tag}
    (expression : Expression T tag) : Option CardinalityEstimate :=
  estimateCasting Floating.ceil (Snapshot.castToSize P) graph sourceCount expression

end Program

/-! ### Two experiences -/

section Episode

open Domain

def experience : memorialSchema.Tag := ⟨DomainName.experienceTag, by decide⟩

def temporalNext : memorialSchema.Edge :=
  ⟨⟨DomainName.experienceTag, DomainName.temporalNextRelation, DomainName.experienceTag⟩,
    by decide⟩

/-- The values of an experience. -/
def experienceValues (confidence : Floating binary32) :
    PropertyValues (GraphSchema.node experience).properties
  | ⟨0, _⟩ => confidence

/-- The values of an edge between experiences. -/
def temporalNextValues (existenceProbability : Floating binary64) :
    PropertyValues (GraphSchema.edge temporalNext).properties
  | ⟨0, _⟩ => existenceProbability

/-- Two experiences, one after the other. -/
def episodeWrites : List (DeltaStore.DeltaCall memorialSchema) :=
  [ .appendNode experience (Journal.thoughtRow Journal.actual) (experienceValues .nan) none,
    .appendNode experience (Journal.thoughtRow Journal.actual) (experienceValues .nan) none,
    .appendEdge temporalNext ⟨0⟩ ⟨1⟩ (temporalNextValues .negativeZero) none ]

def episodeGraph : Snapshot memorialSchema :=
  .root ⟨⟨1⟩, Journal.actual, 15, 35, (run DeltaStore.applyCall .empty episodeWrites).buildIndices⟩

theorem reachable_episodeGraph : Reachable episodeGraph :=
  ⟨.newDelta :: (episodeWrites.map (.write 0)) ++ [.publish 0 ⟨1⟩ Journal.actual 15 35],
    List.mem_cons_self⟩

def followingQuery : TypedQuery memorialSchema :=
  TypedQuery.from experience |>.traverse temporalNext rfl rfl |>.limit 3

def followingResult : ExecutionResult followingQuery.current followingQuery.projection :=
  [(⟨1⟩ : NodeId)]

theorem execute_followingQuery : execute episodeGraph followingQuery = .ok followingResult := rfl

end Episode

end Memorial.Query
