import Memorial.Query.Scan
import Memorial.Storage.Session

/-!
# The query optimizer

`optimize` rebuilds a pipeline stage by stage: a limit merges into a limit, a filter fuses with
the filter in front of it and moves below any run of selectors.

* `appendWhere`, `appendOptimizer`, `normalize`, `optimize` — the rewriter;
* `Interpretation.interpret_normalize` — **PROVED**: rewriting keeps whatever is computed stage by
  stage and kept by each of the three rules;
* `selectorError_normalize`, `scan_normalize` — **PROVED**: rewriting changes neither the error
  of a pipeline nor its ids;
* `execute_optimize` — **PROVED**: an optimized query executes as the original.
-/

namespace Memorial.Query

open Library Session

variable {C : TypeSystem} {S : GraphSchema C}

/-- `append_optimizer<Previous, where_expr<Predicate>>`: fuse with a filter, move below a
selector, or append. -/
def appendWhere : {tag : S.Tag} → Expression S tag → Comparison tag → Expression S tag
  | _, .source tag, predicate => .pipeline (.source tag) (.where_ predicate)
  | _, .pipeline previous operation, predicate =>
    match operation with
    | .where_ first => .pipeline previous (.fusedWhere [first, predicate])
    | .fusedWhere existing => .pipeline previous (.fusedWhere (existing ++ [predicate]))
    | .activeAt value => .pipeline (appendWhere previous predicate) (.activeAt value)
    | .knownAt value => .pipeline (appendWhere previous predicate) (.knownAt value)
    | .inWorldline value => .pipeline (appendWhere previous predicate) (.inWorldline value)
    | operation => .pipeline (.pipeline previous operation) (.where_ predicate)

/-- `append_optimizer<Previous, limit_expr>`: the smaller of two limits, or append. -/
def appendLimit : {tag : S.Tag} → Expression S tag → ℕ → Expression S tag
  | _, .source tag, count => .pipeline (.source tag) (.limit count)
  | _, .pipeline previous operation, count =>
    match operation with
    | .limit first => .pipeline previous (.limit (min first count))
    | operation => .pipeline (.pipeline previous operation) (.limit count)

/-- `append_optimizer`. -/
def appendOptimizer {current next : S.Tag} (previous : Expression S current)
    (operation : Operation S current next) : Expression S next :=
  match operation with
  | .where_ predicate => appendWhere previous predicate
  | .limit count => appendLimit previous count
  | operation => .pipeline previous operation

/-- `normalize`. -/
def normalize : {tag : S.Tag} → Expression S tag → Expression S tag
  | _, .source tag => .source tag
  | _, .pipeline previous operation => appendOptimizer (normalize previous) operation

/-- `optimize`. -/
def optimize (query : TypedQuery S) : TypedQuery S :=
  { query with expression := normalize query.expression }

/-! ### What rewriting keeps -/

/-- `is_selector`. -/
def Operation.isSelector {current next : S.Tag} : Operation S current next → Bool
  | .activeAt _ => true
  | .knownAt _ => true
  | .inWorldline _ => true
  | _ => false

/-- What is computed of a pipeline from its source on, stage by stage. -/
structure Interpretation (S : GraphSchema C) (α : Type) where
  source : S.Tag → α
  stage : {current next : S.Tag} → Operation S current next → α → α

namespace Interpretation

variable {α : Type}

def interpret (I : Interpretation S α) : {tag : S.Tag} → Expression S tag → α
  | _, .source tag => I.source tag
  | _, .pipeline previous operation => I.stage operation (I.interpret previous)

/-- The rules of the optimizer as equations: filters fuse, a filter passes a selector, and of two
limits the smaller one counts. -/
structure KeptByRules (I : Interpretation S α) : Prop where
  fuse : ∀ {tag : S.Tag} (first predicate : Comparison tag) (value : α),
    I.stage (.fusedWhere [first, predicate]) value =
      I.stage (.where_ predicate) (I.stage (.where_ first) value)
  fuseMore : ∀ {tag : S.Tag} (existing : List (Comparison tag)) (predicate : Comparison tag)
    (value : α), I.stage (.fusedWhere (existing ++ [predicate])) value =
      I.stage (.where_ predicate) (I.stage (.fusedWhere existing) value)
  pass : ∀ {current next tag : S.Tag} (selector : Operation S current next),
    selector.isSelector = true → ∀ (predicate : Comparison tag) (value : α),
      I.stage selector (I.stage (.where_ predicate) value) =
        I.stage (.where_ predicate) (I.stage selector value)
  limit : ∀ {tag : S.Tag} (first count : ℕ) (value : α),
    I.stage (.limit (min first count) : Operation S tag tag) value =
      I.stage (.limit count : Operation S tag tag)
        (I.stage (.limit first : Operation S tag tag) value)

variable {I : Interpretation S α}

theorem interpret_appendWhere (h : I.KeptByRules) {tag : S.Tag} (expression : Expression S tag)
    (predicate : Comparison tag) :
    I.interpret (appendWhere expression predicate) =
      I.stage (.where_ predicate) (I.interpret expression) := by
  induction expression with
  | source tag => rfl
  | pipeline previous operation ih =>
    cases operation with
    | where_ first => exact h.fuse first predicate _
    | fusedWhere existing => exact h.fuseMore existing predicate _
    | activeAt value =>
      rw [appendWhere, interpret, ih]
      exact h.pass (.activeAt value) rfl predicate _
    | knownAt value =>
      rw [appendWhere, interpret, ih]
      exact h.pass (.knownAt value) rfl predicate _
    | inWorldline value =>
      rw [appendWhere, interpret, ih]
      exact h.pass (.inWorldline value) rfl predicate _
    | _ => rfl

theorem interpret_appendLimit (h : I.KeptByRules) {tag : S.Tag} (expression : Expression S tag)
    (count : ℕ) :
    I.interpret (appendLimit expression count) =
      I.stage (.limit count : Operation S tag tag) (I.interpret expression) := by
  cases expression with
  | source tag => rfl
  | pipeline previous operation =>
    cases operation with
    | limit first => exact h.limit first count _
    | _ => rfl

theorem interpret_appendOptimizer (h : I.KeptByRules) {current next : S.Tag}
    (previous : Expression S current) (operation : Operation S current next) :
    I.interpret (appendOptimizer previous operation) =
      I.stage operation (I.interpret previous) := by
  cases operation with
  | where_ predicate => exact interpret_appendWhere h previous predicate
  | limit count => exact interpret_appendLimit h previous count
  | _ => rfl

/-- **Normalizing keeps whatever its rules keep.**  By induction on the pipeline. -/
theorem interpret_normalize (h : I.KeptByRules) {tag : S.Tag} (expression : Expression S tag) :
    I.interpret (normalize expression) = I.interpret expression := by
  induction expression with
  | source tag => rfl
  | pipeline previous operation ih =>
    rw [normalize, interpret_appendOptimizer h, ih, interpret]

end Interpretation

/-! ### Rewriting keeps the error -/

/-- The error of a pipeline, stage by stage. -/
def selectorInterpretation (graph : Snapshot S) : Interpretation S (Option GraphError) where
  source _ := none
  stage operation error := (operation.mismatch graph).or error

theorem interpret_selectorInterpretation (graph : Snapshot S) {tag : S.Tag}
    (expression : Expression S tag) :
    (selectorInterpretation graph).interpret expression = selectorError graph expression := by
  induction expression with
  | source tag => rfl
  | pipeline previous operation ih =>
    rw [Interpretation.interpret, ih]
    rfl

/-- A filter and a limit raise no error, so they may move. -/
theorem keptByRules_selectorInterpretation (graph : Snapshot S) :
    (selectorInterpretation graph).KeptByRules where
  fuse _ _ _ := rfl
  fuseMore _ _ _ := rfl
  pass _ _ _ _ := rfl
  limit _ _ _ := rfl

theorem selectorError_normalize (graph : Snapshot S) {tag : S.Tag}
    (expression : Expression S tag) :
    selectorError graph (normalize expression) = selectorError graph expression := by
  rw [← interpret_selectorInterpretation, ← interpret_selectorInterpretation,
    Interpretation.interpret_normalize (keptByRules_selectorInterpretation graph)]

/-! ### Rewriting keeps the ids -/

/-- The ids of a pipeline, stage by stage. -/
def scanInterpretation (sort : SortFunction) (graph : Snapshot S) :
    Interpretation S (List NodeId) where
  source := graph.visibleIds
  stage operation ids := operation.scan sort graph ids

theorem interpret_scanInterpretation (sort : SortFunction) (graph : Snapshot S) {tag : S.Tag}
    (expression : Expression S tag) :
    (scanInterpretation sort graph).interpret expression = scan sort graph expression := by
  induction expression with
  | source tag => rfl
  | pipeline previous operation ih =>
    rw [Interpretation.interpret, ih]
    rfl

/-- Filtering twice is filtering by both, and a selector changes no list. -/
theorem keptByRules_scanInterpretation (sort : SortFunction) (graph : Snapshot S) :
    (scanInterpretation sort graph).KeptByRules where
  fuse first predicate ids := by
    simp only [scanInterpretation, Operation.scan, List.filter_filter]
    exact List.filter_congr fun id _ => by simp [Bool.and_comm]
  fuseMore existing predicate ids := by
    simp only [scanInterpretation, Operation.scan, List.filter_filter]
    exact List.filter_congr fun id _ => by simp [Bool.and_comm]
  pass selector hselector predicate ids := by
    cases selector with
    | activeAt value => rfl
    | knownAt value => rfl
    | inWorldline value => rfl
    | _ => cases hselector
  limit first count ids := by
    simp only [scanInterpretation, Operation.scan, List.take_take, min_comm]

theorem scan_normalize (sort : SortFunction) (graph : Snapshot S) {tag : S.Tag}
    (expression : Expression S tag) :
    scan sort graph (normalize expression) = scan sort graph expression := by
  rw [← interpret_scanInterpretation, ← interpret_scanInterpretation,
    Interpretation.interpret_normalize (keptByRules_scanInterpretation sort graph)]

/-! ### Soundness -/

/-- On a well-formed snapshot an optimized query executes as the original. -/
theorem execute_optimized {graph : Snapshot S} (h : graph.WellFormed) (query : TypedQuery S) :
    execute graph (optimize query) = execute graph query := by
  have herror : selectorError graph (optimize query).expression =
      selectorError graph query.expression := selectorError_normalize graph query.expression
  have hscan : scanQuery stableSort graph (optimize query) = scanQuery stableSort graph query :=
    congrArg (fun ids => scanRows graph query.current ids query.projection)
      (scan_normalize stableSort graph query.expression)
  have hanswer : answer (selectorError graph (optimize query).expression)
      (scanQuery stableSort graph (optimize query)) =
      answer (selectorError graph query.expression) (scanQuery stableSort graph query) :=
    congrArg₂ answer herror hscan
  exact (execute_eq h (optimize query)).trans (hanswer.trans (execute_eq h query).symm)

/-- **Optimizer soundness.**  On every reachable snapshot an optimized query executes as the
original: the same rows in the same order, or the same error. -/
theorem execute_optimize {graph : Snapshot S} (hgraph : Reachable graph) (query : TypedQuery S) :
    execute graph (optimize query) = execute graph query :=
  execute_optimized (wellFormed_of_reachable hgraph) query

/-- At the branch of the journal session: two filters meet across a selector, and two limits. -/
theorem execute_optimize_branchGraph :
    execute Journal.branchGraph (optimize (recalledQuery Journal.counterfactual)) =
      execute Journal.branchGraph (recalledQuery Journal.counterfactual) :=
  execute_optimize Journal.reachable_branchGraph _

example (worldline : WorldlineId) :
    ∃ ranking keys, (optimize (recalledQuery worldline)).expression =
      .pipeline (.pipeline (.pipeline (.pipeline (.pipeline (.pipeline (.source Journal.thought)
        (.fusedWhere [rankIs .greaterThan 1, rankIs .lessThan 4])) (.inWorldline worldline))
        (.traverse Journal.recalls)) (.topK ranking)) (.limit 3)) (.project keys) :=
  ⟨_, _, rfl⟩

end Memorial.Query
