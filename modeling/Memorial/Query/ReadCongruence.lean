import Memorial.Query.Explain
import Memorial.Storage.ContentAgreement

/-!
# A query sees what the reads return

Whatever two snapshots are, a query answers alike on both when the reads of the kinds it names do:
the kind it starts from, and the edge kinds it follows with the kinds they end in.

* `Expression.StaysIn`, `TypedQuery.StaysIn` — the kinds of a query are in a part of the schema;
* `evaluate_congr`, `execute_of_sameReadsOn` — **PROVED**: agreeing reads, equal answers and errors;
* `staysIn_normalize` — **PROVED**: the optimizer adds no kind and drops none;
* `SameEstimatesOn`, `explainCasting_of_sameReadsOn` — **PROVED**: with equal estimates of
  traversals, equal plans.
-/

namespace Memorial.Query

open Library

variable {C : TypeSystem} {S : GraphSchema C}

/-! ### The kinds of a query -/

/-- An edge kind that a stage follows is in the part. -/
def Operation.StaysIn (part : SchemaPart S) {current next : S.Tag} :
    Operation S current next → Prop
  | .traverse edge => part.edges edge = true
  | _ => True

/-- The source kind and the edge kinds of a pipeline are in the part. -/
def Expression.StaysIn (part : SchemaPart S) : {tag : S.Tag} → Expression S tag → Prop
  | _, .source tag => part.nodes tag = true
  | _, .pipeline previous operation => previous.StaysIn part ∧ operation.StaysIn part

def TypedQuery.StaysIn (part : SchemaPart S) (query : TypedQuery S) : Prop :=
  query.expression.StaysIn part

section StaysIn

variable {part : SchemaPart S}

/-- So is the kind that the pipeline is at. -/
theorem Expression.StaysIn.nodes {tag : S.Tag} {expression : Expression S tag}
    (h : expression.StaysIn part) : part.nodes tag = true := by
  induction expression with
  | source tag => exact h
  | pipeline previous operation ih =>
    obtain ⟨hprevious, hoperation⟩ := h
    cases operation with
    | traverse edge => exact part.target edge hoperation
    | _ => exact ih hprevious

theorem Expression.StaysIn.sourceTag {tag : S.Tag} {expression : Expression S tag}
    (h : expression.StaysIn part) : part.nodes expression.sourceTag = true := by
  induction expression with
  | source tag => exact h
  | pipeline previous operation ih => exact ih h.1

/-- Every query stays in the whole schema. -/
theorem staysIn_whole {tag : S.Tag} (expression : Expression S tag) :
    expression.StaysIn .whole := by
  induction expression with
  | source tag => rfl
  | pipeline previous operation ih =>
    refine ⟨ih, ?_⟩
    cases operation with
    | traverse edge => rfl
    | _ => trivial

/-- The kinds of a pipeline, stage by stage. -/
def partInterpretation (part : SchemaPart S) : Interpretation S Prop where
  source tag := part.nodes tag = true
  stage operation value := value ∧ operation.StaysIn part

theorem interpret_partInterpretation {tag : S.Tag} (expression : Expression S tag) :
    (partInterpretation part).interpret expression = expression.StaysIn part := by
  induction expression with
  | source tag => rfl
  | pipeline previous operation ih =>
    rw [Interpretation.interpret, ih]
    rfl

/-- No rule touches a traversal. -/
theorem keptByRules_partInterpretation : (partInterpretation part).KeptByRules where
  fuse _ _ _ := by simp [partInterpretation, Operation.StaysIn]
  fuseMore _ _ _ := by simp [partInterpretation, Operation.StaysIn]
  pass selector hselector predicate value := by
    cases selector with
    | traverse edge => cases hselector
    | _ => rfl
  limit _ _ _ := by simp [partInterpretation, Operation.StaysIn]

/-- **Normalizing a pipeline keeps its kinds.** -/
theorem staysIn_normalize {tag : S.Tag} (expression : Expression S tag) :
    (normalize expression).StaysIn part ↔ expression.StaysIn part := by
  rw [← interpret_partInterpretation, ← interpret_partInterpretation,
    Interpretation.interpret_normalize keptByRules_partInterpretation]

end StaysIn

/-! ### Equal answers -/

section Congruence

variable {part : SchemaPart S} {a b : Snapshot S} {tag : S.Tag}

theorem matchesPredicate_congr (h : a.SameReadsOn part b) (htag : part.nodes tag = true)
    (predicate : Comparison tag) : matchesPredicate a predicate = matchesPredicate b predicate := by
  funext id
  rw [matchesPredicate, matchesPredicate, h.property tag htag]

theorem matchesAll_congr (h : a.SameReadsOn part b) (htag : part.nodes tag = true)
    (predicates : List (Comparison tag)) : matchesAll a predicates = matchesAll b predicates := by
  funext id
  induction predicates with
  | nil => rfl
  | cons predicate rest ih => rw [matchesAll, matchesAll, matchesPredicate_congr h htag, ih]

theorem pruneByIndex_congr (h : a.SameReadsOn part b) (htag : part.nodes tag = true)
    (predicate : Comparison tag) (input : List NodeId) :
    pruneByIndex a predicate input = pruneByIndex b predicate input := by
  rw [pruneByIndex, pruneByIndex, h.estimatePropertyCandidates tag htag,
    h.propertyCandidates tag htag]

theorem applyIndexCandidates_congr (h : a.SameReadsOn part b) (htag : part.nodes tag = true)
    (predicates : List (Comparison tag)) (input : List NodeId) :
    applyIndexCandidates a predicates input = applyIndexCandidates b predicates input := by
  induction predicates generalizing input with
  | nil => rfl
  | cons predicate rest ih => simp only [applyIndexCandidates, pruneByIndex_congr h htag, ih]

theorem rank_congr (h : a.SameReadsOn part b) (htag : part.nodes tag = true) (ranking : TopK tag)
    (input : List NodeId) : rank a ranking input = rank b ranking input := by
  rw [rank, rank, h.property tag htag]

/-- **A pipeline evaluates alike where the reads of its kinds do.**  By induction on the pipeline.
-/
theorem evaluate_congr (h : a.SameReadsOn part b) {expression : Expression S tag}
    (hstays : expression.StaysIn part) : evaluate a expression = evaluate b expression := by
  induction expression with
  | source tag => exact h.sourceCandidates tag hstays
  | pipeline previous operation ih =>
    obtain ⟨hprevious, hoperation⟩ := hstays
    have htag := hprevious.nodes
    have hinput := ih hprevious
    cases operation with
    | activeAt value => rw [evaluate, evaluate, h.validAt, hinput]
    | knownAt value => rw [evaluate, evaluate, h.knownAt, hinput]
    | inWorldline value => rw [evaluate, evaluate, h.worldline, hinput]
    | where_ predicate =>
      simp only [evaluate, hinput, pruneByIndex_congr h htag, matchesPredicate_congr h htag]
    | fusedWhere predicates =>
      simp only [evaluate, hinput, applyIndexCandidates_congr h htag, matchesAll_congr h htag]
    | traverse edge =>
      rw [evaluate, evaluate, hinput, h.outgoing edge hoperation, h.edgeTarget edge hoperation]
    | project keys => rw [evaluate, evaluate, hinput]
    | topK ranking => simp only [evaluate, hinput, rank_congr h htag]
    | limit count => rw [evaluate, evaluate, hinput]

theorem readProjection_congr (h : a.SameReadsOn part b) (htag : part.nodes tag = true)
    (id : NodeId) (keys : List (GraphSchema.Key tag)) :
    readProjection a tag id keys = readProjection b tag id keys := by
  induction keys with
  | nil => rfl
  | cons key rest ih => rw [readProjection, readProjection, h.property tag htag, ih]

theorem materialize_congr (h : a.SameReadsOn part b) (htag : part.nodes tag = true)
    (keys : List (GraphSchema.Key tag)) (ids : List NodeId) :
    materialize a tag keys ids = materialize b tag keys ids := by
  have hread : readProjection a tag = readProjection b tag := by
    funext id keys
    exact readProjection_congr h htag id keys
  rw [materialize, materialize, hread]

/-- **And so does a query.** -/
theorem execute_of_sameReadsOn (h : a.SameReadsOn part b) {query : TypedQuery S}
    (hstays : query.StaysIn part) : execute a query = execute b query := by
  have htag : part.nodes query.current = true := Expression.StaysIn.nodes hstays
  have hpresent : ∀ ids, present a query.current ids query.projection =
      present b query.current ids query.projection := by
    intro ids
    cases query.projection with
    | none => rfl
    | some keys => exact materialize_congr h htag keys ids
  simp only [execute, evaluate_congr h hstays, hpresent]

end Congruence

/-! ### Equal plans -/

/-- For the edge kinds of the part, `estimate_traversal_cardinality` returns the same, and casts the
same number to do so. -/
structure SameEstimatesOn (ceil : C.arithmetic.Double → C.arithmetic.Double) (part : SchemaPart S)
    (a b : Snapshot S) : Prop where
  traversal : ∀ edge, part.edges edge = true →
    a.estimateTraversalCardinality ceil edge = b.estimateTraversalCardinality ceil edge
  scaledDegree : ∀ edge, part.edges edge = true →
    a.scaledDegree ceil edge = b.scaledDegree ceil edge

section Plans

variable {part : SchemaPart S} {a b : Snapshot S}
  {ceil : C.arithmetic.Double → C.arithmetic.Double}

/-- Equal degrees give equal estimates. -/
theorem SameEstimatesOn.of_degrees (ceil : C.arithmetic.Double → C.arithmetic.Double)
    (h : ∀ edge, part.edges edge = true →
      a.relationAverageDegree edge = b.relationAverageDegree edge) :
    SameEstimatesOn ceil part a b where
  traversal edge hedge := by
    funext count
    rw [Snapshot.estimateTraversalCardinality, Snapshot.estimateTraversalCardinality,
      Snapshot.scaledDegree, Snapshot.scaledDegree, h edge hedge]
  scaledDegree edge hedge := by
    funext count
    rw [Snapshot.scaledDegree, Snapshot.scaledDegree, h edge hedge]

theorem estimateCasting_congr (h : SameEstimatesOn ceil part a b)
    (cast : C.arithmetic.Double → Option ℕ) (sourceCount : ℕ) {tag : S.Tag}
    {expression : Expression S tag} (hstays : expression.StaysIn part) :
    estimateCasting ceil cast a sourceCount expression =
      estimateCasting ceil cast b sourceCount expression := by
  induction expression with
  | source tag => rfl
  | pipeline previous operation ih =>
    obtain ⟨hprevious, hoperation⟩ := hstays
    cases operation with
    | traverse edge =>
      simp only [estimateCasting, ih hprevious, h.scaledDegree edge hoperation]
    | _ => exact ih hprevious

/-- **Agreeing reads and equal estimates give equal plans.** -/
theorem explainCasting_of_sameReadsOn (h : a.SameReadsOn part b)
    (hestimates : SameEstimatesOn ceil part a b) (cast : C.arithmetic.Double → Option ℕ)
    {query : TypedQuery S} (hstays : query.StaysIn part) :
    explainCasting ceil cast a query = explainCasting ceil cast b query := by
  have hoptimized : (optimize query).StaysIn part := (staysIn_normalize query.expression).mpr hstays
  have hsource := h.sourceCandidates _ (Expression.StaysIn.sourceTag hstays)
  have hestimate : ∀ count, estimateCasting ceil cast a count (optimize query).expression =
      estimateCasting ceil cast b count (optimize query).expression :=
    fun count => estimateCasting_congr hestimates cast count hoptimized
  simp only [explainCasting, execute_of_sameReadsOn h hoptimized, hsource, hestimate]

end Plans

end Memorial.Query
