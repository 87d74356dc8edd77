import Memorial.Query.FailureCondition
import Memorial.Query.Optimizer

/-!
# The normal form of the optimizer

The rules of `append_optimizer` look at one stage of what was rewritten so far, and none of them
takes a fused filter as the stage to append.  Fused filters stand in a query only where an earlier
`optimize` put them, with a normal form in front of them, and that is why rewriting again finds
nothing to do.

* `NormalForm` — no filter right after a selector or a filter, and no limit right after a limit;
* `Rebuilt` — the queries of the DSL with `optimize` at any point in between;
* `normalForm_normalize`, `normalize_of_normalForm` — **PROVED**: rewriting reaches the normal form,
  and keeps one as it is;
* `segments`, `mergeLimits`, `segments_normalize` — **PROVED**: what stands between the other stages
  stays as it was, but for limits that merge;
* `expressionMetrics` — depth and counts, of which only the depth changes;
* `optimizedForm` — **PROVED**: all of this for every such query.
-/

namespace Memorial.Query

variable {C : TypeSystem} {S : GraphSchema C}

/-! ### The normal form -/

/-- A `where` or a fused filter. -/
def Operation.isFilter {current next : S.Tag} : Operation S current next → Bool
  | .where_ _ => true
  | .fusedWhere _ => true
  | _ => false

def Operation.isLimit {current next : S.Tag} : Operation S current next → Bool
  | .limit _ => true
  | _ => false

/-- The last stage of a pipeline is of a kind. -/
def Expression.endsWith (kind : {current next : S.Tag} → Operation S current next → Bool) :
    {tag : S.Tag} → Expression S tag → Bool
  | _, .source _ => false
  | _, .pipeline _ operation => kind operation

/-- No filter comes right after a selector or a filter, and no limit right after a limit. -/
def NormalForm : {tag : S.Tag} → Expression S tag → Prop
  | _, .source _ => True
  | _, .pipeline previous operation =>
    NormalForm previous ∧
      (operation.isFilter = true →
        previous.endsWith Operation.isSelector = false ∧
          previous.endsWith Operation.isFilter = false) ∧
      (operation.isLimit = true → previous.endsWith Operation.isLimit = false)

/-- Every fused filter has predicates, and ends a normal form. -/
def FusedInPlace : {tag : S.Tag} → Expression S tag → Prop
  | _, .source _ => True
  | _, .pipeline previous operation =>
    FusedInPlace previous ∧
      match operation with
      | .fusedWhere predicates =>
        predicates ≠ [] ∧ NormalForm (.pipeline previous (.fusedWhere predicates))
      | _ => True

/-! ### Rewriting reaches it -/

/-- A filter that is appended by the rules leaves the pipeline in normal form. -/
theorem normalForm_appendWhere {tag : S.Tag} (expression : Expression S tag)
    (predicate : Comparison tag) (hnormal : NormalForm expression)
    (hfused : FusedInPlace expression) :
    NormalForm (appendWhere expression predicate) ∧
      FusedInPlace (appendWhere expression predicate) := by
  induction expression with
  | source tag => exact ⟨⟨trivial, fun _ => ⟨rfl, rfl⟩, nofun⟩, trivial, trivial⟩
  | pipeline previous operation ih =>
    obtain ⟨hprevious, hfilter, hlimit⟩ := hnormal
    cases operation with
    | where_ first =>
      have hplace : NormalForm (.pipeline previous (.fusedWhere [first, predicate])) :=
        ⟨hprevious, hfilter, nofun⟩
      exact ⟨hplace, hfused.1, List.cons_ne_nil _ _, hplace⟩
    | fusedWhere existing =>
      have hplace : NormalForm (.pipeline previous (.fusedWhere (existing ++ [predicate]))) :=
        ⟨hprevious, hfilter, nofun⟩
      exact ⟨hplace, hfused.1, by simp, hplace⟩
    | activeAt value =>
      obtain ⟨hpushed, hin⟩ := ih predicate hprevious hfused.1
      exact ⟨⟨hpushed, nofun, nofun⟩, hin, trivial⟩
    | knownAt value =>
      obtain ⟨hpushed, hin⟩ := ih predicate hprevious hfused.1
      exact ⟨⟨hpushed, nofun, nofun⟩, hin, trivial⟩
    | inWorldline value =>
      obtain ⟨hpushed, hin⟩ := ih predicate hprevious hfused.1
      exact ⟨⟨hpushed, nofun, nofun⟩, hin, trivial⟩
    | traverse edge =>
      exact ⟨⟨⟨hprevious, hfilter, hlimit⟩, fun _ => ⟨rfl, rfl⟩, nofun⟩, hfused, trivial⟩
    | project keys =>
      exact ⟨⟨⟨hprevious, hfilter, hlimit⟩, fun _ => ⟨rfl, rfl⟩, nofun⟩, hfused, trivial⟩
    | topK ranking =>
      exact ⟨⟨⟨hprevious, hfilter, hlimit⟩, fun _ => ⟨rfl, rfl⟩, nofun⟩, hfused, trivial⟩
    | limit count =>
      exact ⟨⟨⟨hprevious, hfilter, hlimit⟩, fun _ => ⟨rfl, rfl⟩, nofun⟩, hfused, trivial⟩

/-- And so does a limit. -/
theorem normalForm_appendLimit {tag : S.Tag} (expression : Expression S tag) (count : ℕ)
    (hnormal : NormalForm expression) (hfused : FusedInPlace expression) :
    NormalForm (appendLimit expression count) ∧ FusedInPlace (appendLimit expression count) := by
  cases expression with
  | source tag => exact ⟨⟨trivial, nofun, fun _ => rfl⟩, trivial, trivial⟩
  | pipeline previous operation =>
    cases operation with
    | limit first => exact ⟨⟨hnormal.1, nofun, hnormal.2.2⟩, hfused.1, trivial⟩
    | _ => exact ⟨⟨hnormal, nofun, fun _ => rfl⟩, hfused, trivial⟩

/-! ### Rewriting keeps it -/

/-- A filter that may stand where it is is appended as it is. -/
theorem appendWhere_of_normalForm {tag : S.Tag} {expression : Expression S tag}
    (hselector : expression.endsWith Operation.isSelector = false)
    (hfilter : expression.endsWith Operation.isFilter = false) (predicate : Comparison tag) :
    appendWhere expression predicate = .pipeline expression (.where_ predicate) := by
  cases expression with
  | source tag => rfl
  | pipeline previous operation =>
    cases operation with
    | where_ first => cases hfilter
    | fusedWhere existing => cases hfilter
    | activeAt value => cases hselector
    | knownAt value => cases hselector
    | inWorldline value => cases hselector
    | _ => rfl

theorem appendLimit_of_normalForm {tag : S.Tag} {expression : Expression S tag}
    (hlimit : expression.endsWith Operation.isLimit = false) (count : ℕ) :
    appendLimit expression count = .pipeline expression (.limit count) := by
  cases expression with
  | source tag => rfl
  | pipeline previous operation =>
    cases operation with
    | limit first => cases hlimit
    | _ => rfl

/-- **A normal form is left as it is**, operands included. -/
theorem normalize_of_normalForm {tag : S.Tag} {expression : Expression S tag}
    (h : NormalForm expression) : normalize expression = expression := by
  induction expression with
  | source tag => rfl
  | pipeline previous operation ih =>
    obtain ⟨hprevious, hfilter, hlimit⟩ := h
    rw [normalize, ih hprevious]
    cases operation with
    | where_ predicate =>
      exact appendWhere_of_normalForm (hfilter rfl).1 (hfilter rfl).2 predicate
    | limit count => exact appendLimit_of_normalForm (hlimit rfl) count
    | _ => rfl

/-- **Rewriting reaches the normal form.**  By induction on the pipeline; a fused filter is met only
where the pipeline up to it is in normal form already. -/
theorem normalForm_normalize {tag : S.Tag} {expression : Expression S tag}
    (h : FusedInPlace expression) :
    NormalForm (normalize expression) ∧ FusedInPlace (normalize expression) := by
  induction expression with
  | source tag => exact ⟨trivial, trivial⟩
  | pipeline previous operation ih =>
    obtain ⟨hnormal, hfused⟩ := ih h.1
    cases operation with
    | where_ predicate => exact normalForm_appendWhere _ predicate hnormal hfused
    | limit count => exact normalForm_appendLimit _ count hnormal hfused
    | fusedWhere predicates =>
      obtain ⟨hprevious, hne, hplace⟩ := h
      rw [normalize_of_normalForm hplace]
      exact ⟨hplace, hprevious, hne, hplace⟩
    | _ => exact ⟨⟨hnormal, nofun, nofun⟩, hfused, trivial⟩

/-! ### What stands between the other stages -/

/-- The predicates of a filter, with their node kind; other stages have none. -/
def Operation.predicates {current next : S.Tag} :
    Operation S current next → List ((tag : S.Tag) × Comparison tag)
  | .where_ predicate => [⟨_, predicate⟩]
  | .fusedWhere predicates => predicates.map (fun predicate => ⟨_, predicate⟩)
  | _ => []

/-- A stage other than a filter or a selector. -/
abbrev Separator (S : GraphSchema C) :=
  (current : S.Tag) × (next : S.Tag) × Operation S current next

/-- A source or a separator, and the filters and selectors up to the next separator. -/
structure Segment (S : GraphSchema C) where
  separator : Option (Separator S)
  predicates : List ((tag : S.Tag) × Comparison tag)
  selectors : List Selector

namespace Segment

/-- The segment with the predicates and the selector of one more stage. -/
def extend (segment : Segment S) {current next : S.Tag} (operation : Operation S current next) :
    Segment S :=
  { segment with
    predicates := segment.predicates ++ operation.predicates
    selectors := segment.selectors ++ operation.selector?.toList }

/-- The segment that starts at a separator. -/
def start {current next : S.Tag} (operation : Operation S current next) : Segment S :=
  ⟨some ⟨current, next, operation⟩, [], []⟩

/-- The count of the limit that the segment starts at. -/
def limit? (segment : Segment S) : Option ℕ :=
  match segment.separator with
  | some ⟨_, _, .limit count⟩ => some count
  | _ => none

/-- The same, of a segment that has nothing but the limit. -/
def bareLimit? (segment : Segment S) : Option ℕ :=
  if segment.predicates = [] ∧ segment.selectors = [] then segment.limit? else none

/-- The segment with a limit no larger than the one in front of it. -/
def capLimit (segment : Segment S) (first : ℕ) : Segment S :=
  { segment with
    separator := segment.separator.map fun separator =>
      match separator with
      | ⟨tag, _, .limit count⟩ => ⟨tag, tag, .limit (min first count)⟩
      | separator => separator }

end Segment

/-- The segments of a pipeline, the last one first. -/
def segmentInterpretation (S : GraphSchema C) : Interpretation S (List (Segment S)) where
  source _ := [⟨none, [], []⟩]
  stage operation segments :=
    if operation.isFilter || operation.isSelector then
      segments.modifyHead (fun segment => segment.extend operation)
    else .start operation :: segments

def Expression.segments {tag : S.Tag} (expression : Expression S tag) : List (Segment S) :=
  (segmentInterpretation S).interpret expression

/-- A segment in front of the later ones: a limit right after a limit takes its place. -/
def addSegment (segment : Segment S) (earlier : List (Segment S)) : List (Segment S) :=
  match earlier with
  | [] => [segment]
  | last :: rest =>
    match segment.limit?, last.bareLimit? with
    | some _, some first => segment.capLimit first :: rest
    | _, _ => segment :: last :: rest

/-- The segments of a pipeline with limits that follow one another merged. -/
def mergeLimits (segments : List (Segment S)) : List (Segment S) := segments.foldr addSegment []

/-- The merged segments, stage by stage. -/
def mergedInterpretation (S : GraphSchema C) : Interpretation S (List (Segment S)) where
  source _ := [⟨none, [], []⟩]
  stage operation segments :=
    if operation.isFilter || operation.isSelector then
      segments.modifyHead (fun segment => segment.extend operation)
    else addSegment (.start operation) segments

theorem addSegment_extend {current next : S.Tag} (operation : Operation S current next)
    (segment : Segment S) (earlier : List (Segment S)) :
    addSegment (segment.extend operation) earlier =
      (addSegment segment earlier).modifyHead (fun segment => segment.extend operation) := by
  cases earlier with
  | nil => rfl
  | cons last rest =>
    have hlimit : (segment.extend operation).limit? = segment.limit? := rfl
    rw [addSegment, addSegment, hlimit]
    cases segment.limit? <;> cases last.bareLimit? <;> rfl

theorem mergeLimits_extend {current next : S.Tag} (operation : Operation S current next)
    (segments : List (Segment S)) :
    mergeLimits (segments.modifyHead (fun segment => segment.extend operation)) =
      (mergeLimits segments).modifyHead (fun segment => segment.extend operation) := by
  cases segments with
  | nil => rfl
  | cons segment rest => exact addSegment_extend operation segment (mergeLimits rest)

theorem interpret_mergedInterpretation {tag : S.Tag} (expression : Expression S tag) :
    (mergedInterpretation S).interpret expression = mergeLimits expression.segments := by
  induction expression with
  | source tag => rfl
  | pipeline previous operation ih =>
    have hsegments : (Expression.pipeline previous operation).segments =
        (segmentInterpretation S).stage operation previous.segments := rfl
    rw [Interpretation.interpret, ih, hsegments]
    simp only [mergedInterpretation, segmentInterpretation]
    split
    · exact (mergeLimits_extend operation _).symm
    · rfl

/-- Two stages that extend a segment in turn. -/
theorem modifyHead_extend {a b c d : S.Tag} (first : Operation S a b) (second : Operation S c d)
    (segments : List (Segment S)) :
    (segments.modifyHead (fun segment => segment.extend first)).modifyHead
        (fun segment => segment.extend second) =
      segments.modifyHead (fun segment =>
        { segment with
          predicates := segment.predicates ++ (first.predicates ++ second.predicates)
          selectors := segment.selectors ++ (first.selector?.toList ++ second.selector?.toList) }) := by
  rw [List.modifyHead_modifyHead]
  congr 1
  funext segment
  simp only [Function.comp_apply, Segment.extend, List.append_assoc]

/-- The rules move predicates and selectors past each other, and cap a limit by the one before. -/
theorem keptByRules_mergedInterpretation : (mergedInterpretation S).KeptByRules where
  fuse first predicate segments := by
    simp only [mergedInterpretation, Operation.isFilter, Bool.true_or, if_true, modifyHead_extend]
    rfl
  fuseMore existing predicate segments := by
    simp only [mergedInterpretation, Operation.isFilter, Bool.true_or, if_true, modifyHead_extend]
    simp only [Segment.extend, Operation.predicates, List.map_append, List.map_cons, List.map_nil]
    rfl
  pass selector hselector predicate segments := by
    have hpredicates : selector.predicates = [] := by
      cases selector <;> first | rfl | cases hselector
    have hnone : (Operation.where_ predicate).selector? = none := rfl
    simp only [mergedInterpretation, hselector, Operation.isFilter, Bool.or_true, Bool.true_or,
      if_true, modifyHead_extend, hpredicates, hnone, Option.toList_none, List.nil_append,
      List.append_nil]
  limit {tag} first count segments := by
    have hstart : ∀ n, (Segment.start (.limit n : Operation S tag tag)).bareLimit? = some n :=
      fun n => if_pos ⟨rfl, rfl⟩
    have hlimit : ∀ n, (Segment.start (.limit n : Operation S tag tag)).limit? = some n :=
      fun _ => rfl
    have hcap : ∀ n m, (Segment.start (.limit n : Operation S tag tag)).capLimit m =
        .start (.limit (min m n)) := fun _ _ => rfl
    simp only [mergedInterpretation, Operation.isFilter, Operation.isSelector, Bool.or_self,
      Bool.false_eq_true, if_false]
    cases segments with
    | nil => simp only [addSegment, hlimit, hstart, hcap]
    | cons last rest =>
      cases hlast : last.bareLimit? with
      | none => simp only [addSegment, hlimit, hstart, hcap, hlast]
      | some n => simp only [addSegment, hlimit, hstart, hcap, hlast, min_assoc]

/-- A filter with predicates, or a selector, leaves something after the separator. -/
theorem bareLimit?_extend {current next : S.Tag} {operation : Operation S current next}
    (h : operation.predicates ≠ [] ∨ operation.selector? ≠ none) (segment : Segment S) :
    (segment.extend operation).bareLimit? = none := by
  refine if_neg fun hbare => ?_
  obtain ⟨hpredicates, hselectors⟩ := hbare
  rcases h with h | h
  · exact h (List.append_eq_nil_iff.mp hpredicates).2
  · have hnil := (List.append_eq_nil_iff.mp hselectors).2
    cases hselector : operation.selector? with
    | none => exact h hselector
    | some selector =>
      rw [hselector] at hnil
      cases hnil

theorem bareLimit?_of_modifyHead {current next : S.Tag} {operation : Operation S current next}
    (hleaves : operation.predicates ≠ [] ∨ operation.selector? ≠ none)
    {segments rest : List (Segment S)} {last : Segment S}
    (h : segments.modifyHead (fun segment => segment.extend operation) = last :: rest) :
    last.bareLimit? = none := by
  cases segments with
  | nil => cases h
  | cons segment earlier =>
    obtain ⟨rfl, -⟩ := List.cons_eq_cons.mp h
    exact bareLimit?_extend hleaves segment

/-- Only a pipeline that ends with a limit ends with a bare limit. -/
theorem bareLimit?_eq_none {tag : S.Tag} {expression : Expression S tag}
    (hfused : FusedInPlace expression) (hlimit : expression.endsWith Operation.isLimit = false)
    {last : Segment S} {rest : List (Segment S)} (h : expression.segments = last :: rest) :
    last.bareLimit? = none := by
  cases expression with
  | source tag =>
    obtain ⟨rfl, -⟩ := List.cons_eq_cons.mp h
    rfl
  | pipeline previous operation =>
    have hsegments : (Expression.pipeline previous operation).segments =
        (segmentInterpretation S).stage operation previous.segments := rfl
    rw [hsegments] at h
    cases operation with
    | where_ predicate =>
      refine bareLimit?_of_modifyHead (Or.inl ?_) h
      exact List.cons_ne_nil _ _
    | fusedWhere predicates =>
      refine bareLimit?_of_modifyHead (Or.inl ?_) h
      simpa [Operation.predicates] using hfused.2.1
    | activeAt value =>
      refine bareLimit?_of_modifyHead (Or.inr ?_) h
      exact Option.some_ne_none _
    | knownAt value =>
      refine bareLimit?_of_modifyHead (Or.inr ?_) h
      exact Option.some_ne_none _
    | inWorldline value =>
      refine bareLimit?_of_modifyHead (Or.inr ?_) h
      exact Option.some_ne_none _
    | limit count => cases hlimit
    | _ =>
      obtain ⟨rfl, -⟩ := List.cons_eq_cons.mp h
      rfl

/-- Where no limit follows a limit there is nothing to merge. -/
theorem mergeLimits_of_normalForm {tag : S.Tag} {expression : Expression S tag}
    (hnormal : NormalForm expression) (hfused : FusedInPlace expression) :
    mergeLimits expression.segments = expression.segments := by
  rw [← interpret_mergedInterpretation]
  induction expression with
  | source tag => rfl
  | pipeline previous operation ih =>
    have hsegments : (Expression.pipeline previous operation).segments =
        (segmentInterpretation S).stage operation previous.segments := rfl
    rw [Interpretation.interpret, ih hnormal.1 hfused.1, hsegments]
    simp only [mergedInterpretation, segmentInterpretation]
    split
    · rfl
    · cases hprevious : previous.segments with
      | nil => rfl
      | cons last rest =>
        rw [addSegment]
        cases hlimit : operation.isLimit with
        | true =>
          rw [bareLimit?_eq_none hfused.1 (hnormal.2.2 hlimit) hprevious]
          cases (Segment.start operation).limit? <;> rfl
        | false =>
          have hnone : (Segment.start operation).limit? = none := by
            cases operation <;> first | rfl | cases hlimit
          rw [hnone]

/-- **Rewriting keeps what stands between the other stages**, but for limits that follow one
another, which it merges. -/
theorem segments_normalize {tag : S.Tag} {expression : Expression S tag}
    (h : FusedInPlace expression) :
    (normalize expression).segments = mergeLimits expression.segments := by
  obtain ⟨hnormal, hfused⟩ := normalForm_normalize h
  rw [← mergeLimits_of_normalForm hnormal hfused, ← interpret_mergedInterpretation,
    ← interpret_mergedInterpretation,
    Interpretation.interpret_normalize keptByRules_mergedInterpretation]

/-! ### Selectors and counts -/

/-- The selectors of a pipeline, stage by stage. -/
def selectorsInterpretation (S : GraphSchema C) : Interpretation S (List Selector) where
  source _ := []
  stage operation selectors := selectors ++ operation.selector?.toList

theorem interpret_selectorsInterpretation {tag : S.Tag} (expression : Expression S tag) :
    (selectorsInterpretation S).interpret expression = expression.selectors := by
  induction expression with
  | source tag => rfl
  | pipeline previous operation ih =>
    rw [Interpretation.interpret, ih]
    rfl

theorem keptByRules_selectorsInterpretation : (selectorsInterpretation S).KeptByRules where
  fuse _ _ selectors := by simp only [selectorsInterpretation, Operation.selector?]; simp
  fuseMore _ _ selectors := by simp only [selectorsInterpretation, Operation.selector?]; simp
  pass _ _ _ selectors := by simp only [selectorsInterpretation, Operation.selector?]; simp
  limit _ _ selectors := by simp only [selectorsInterpretation, Operation.selector?]; simp

theorem selectors_normalize {tag : S.Tag} (expression : Expression S tag) :
    (normalize expression).selectors = expression.selectors := by
  rw [← interpret_selectorsInterpretation, ← interpret_selectorsInterpretation,
    Interpretation.interpret_normalize keptByRules_selectorsInterpretation]

/-- `expression_metrics`. -/
structure ExpressionMetrics where
  depth : ℕ
  filters : ℕ
  traversals : ℕ

/-- `expression_metrics<Expression>`: every stage adds to the depth. -/
def expressionMetrics : {tag : S.Tag} → Expression S tag → ExpressionMetrics
  | _, .source _ => { depth := 1, filters := 0, traversals := 0 }
  | _, .pipeline previous operation =>
    let { depth, filters, traversals } := expressionMetrics previous
    match operation with
    | .where_ _ => { depth := depth + 1, filters := filters + 1, traversals }
    | .fusedWhere predicates =>
      { depth := depth + 1, filters := filters + predicates.length, traversals }
    | .traverse _ => { depth := depth + 1, filters, traversals := traversals + 1 }
    | _ => { depth := depth + 1, filters, traversals }

/-- The members of `optimization_info` that are numbers. -/
structure OptimizationInfo where
  depth : ℕ
  filterCount : ℕ
  traversalCount : ℕ

/-- `optimization_info<QueryType>`. -/
def optimizationInfo (query : TypedQuery S) : OptimizationInfo :=
  let { depth, filters, traversals } := expressionMetrics query.expression
  { depth, filterCount := filters, traversalCount := traversals }

/-- The filters and the traversals of a pipeline, stage by stage. -/
def countsInterpretation (S : GraphSchema C) : Interpretation S (ℕ × ℕ) where
  source _ := (0, 0)
  stage operation counts :=
    match operation with
    | .where_ _ => (counts.1 + 1, counts.2)
    | .fusedWhere predicates => (counts.1 + predicates.length, counts.2)
    | .traverse _ => (counts.1, counts.2 + 1)
    | _ => counts

theorem interpret_countsInterpretation {tag : S.Tag} (expression : Expression S tag) :
    (countsInterpretation S).interpret expression =
      ((expressionMetrics expression).filters, (expressionMetrics expression).traversals) := by
  induction expression with
  | source tag => rfl
  | pipeline previous operation ih =>
    rw [Interpretation.interpret, ih]
    cases operation <;> rfl

theorem keptByRules_countsInterpretation : (countsInterpretation S).KeptByRules where
  fuse _ _ _ := rfl
  fuseMore existing predicate counts := by
    simp only [countsInterpretation, List.length_append, List.length_singleton, Nat.add_assoc]
  pass selector hselector _ _ := by cases selector <;> first | rfl | cases hselector
  limit _ _ _ := rfl

theorem counts_normalize {tag : S.Tag} (expression : Expression S tag) :
    (expressionMetrics (normalize expression)).filters = (expressionMetrics expression).filters ∧
      (expressionMetrics (normalize expression)).traversals =
        (expressionMetrics expression).traversals := by
  have hcounts := Interpretation.interpret_normalize keptByRules_countsInterpretation expression
  rw [interpret_countsInterpretation, interpret_countsInterpretation] at hcounts
  exact Prod.mk.inj hcounts

/-! ### Depth -/

theorem depth_pipeline {current next : S.Tag} (previous : Expression S current)
    (operation : Operation S current next) :
    (expressionMetrics (.pipeline previous operation)).depth =
      (expressionMetrics previous).depth + 1 := by
  cases operation <;> rfl

theorem depth_appendWhere_le {tag : S.Tag} (expression : Expression S tag)
    (predicate : Comparison tag) :
    (expressionMetrics (appendWhere expression predicate)).depth ≤
      (expressionMetrics expression).depth + 1 := by
  induction expression with
  | source tag => exact Nat.le_refl _
  | pipeline previous operation ih =>
    cases operation <;> simp only [appendWhere, depth_pipeline, Nat.add_le_add_iff_right] <;>
      first | exact ih predicate | omega

theorem depth_appendLimit_le {tag : S.Tag} (expression : Expression S tag) (count : ℕ) :
    (expressionMetrics (appendLimit expression count)).depth ≤
      (expressionMetrics expression).depth + 1 := by
  cases expression with
  | source tag => exact Nat.le_refl _
  | pipeline previous operation =>
    cases operation <;> simp only [appendLimit, depth_pipeline] <;> omega

theorem depth_normalize_le {tag : S.Tag} (expression : Expression S tag) :
    (expressionMetrics (normalize expression)).depth ≤ (expressionMetrics expression).depth := by
  induction expression with
  | source tag => exact Nat.le_refl _
  | pipeline previous operation ih =>
    have happend : (expressionMetrics (appendOptimizer (normalize previous) operation)).depth ≤
        (expressionMetrics (normalize previous)).depth + 1 := by
      cases operation with
      | where_ predicate => exact depth_appendWhere_le _ predicate
      | limit count => exact depth_appendLimit_le _ count
      | _ => exact (depth_pipeline _ _).le
    rw [normalize, depth_pipeline]
    omega

/-! ### The queries of the DSL -/

namespace TypedQuery

/-- The queries that the stages of the DSL build, with `optimize` at any point. -/
inductive Rebuilt : TypedQuery S → Prop
  | from (tag : S.Tag) : Rebuilt (.from tag)
  | optimize {query : TypedQuery S} (h : Rebuilt query) : Rebuilt (optimize query)
  | activeAt {query : TypedQuery S} (h : Rebuilt query) (value : Timestamp) :
      Rebuilt (query.activeAt value)
  | knownAt {query : TypedQuery S} (h : Rebuilt query) (value : Timestamp) :
      Rebuilt (query.knownAt value)
  | inWorldline {query : TypedQuery S} (h : Rebuilt query) (value : WorldlineId) :
      Rebuilt (query.inWorldline value)
  | where_ {query : TypedQuery S} (h : Rebuilt query) (predicate : Comparison query.current)
      (available : query.HasProperty predicate.key) : Rebuilt (query.where_ predicate available)
  | topK {query : TypedQuery S} (h : Rebuilt query) (ranking : TopK query.current)
      (available : query.HasProperty ranking.key) : Rebuilt (query.topK ranking available)
  | limit {query : TypedQuery S} (h : Rebuilt query) (count : ℕ) : Rebuilt (query.limit count)
  | traverse {query : TypedQuery S} (h : Rebuilt query) (edge : S.Edge)
      (hcurrent : query.current = GraphSchema.source edge)
      (unprojected : query.projection = none) : Rebuilt (query.traverse edge hcurrent unprojected)
  | project {query : TypedQuery S} (h : Rebuilt query)
      (keys : List (GraphSchema.Key query.current)) (nonempty : keys ≠ [])
      (unprojected : query.projection = none) : Rebuilt (query.project keys nonempty unprojected)

/-- **Every stage keeps fused filters in place**: the DSL appends none, and `optimize` appends them
to a normal form. -/
theorem Rebuilt.fusedInPlace {query : TypedQuery S} (h : Rebuilt query) :
    FusedInPlace query.expression := by
  induction h with
  | «from» tag => exact trivial
  | optimize _ ih => exact (normalForm_normalize ih).2
  | @traverse query _ edge hcurrent _ ih =>
    obtain ⟨current, projection, expression⟩ := query
    obtain rfl : current = GraphSchema.source edge := hcurrent
    exact ⟨ih, trivial⟩
  | _ => exact ⟨by assumption, trivial⟩

end TypedQuery

/-- What `optimize` makes of a query. -/
structure OptimizedForm (query : TypedQuery S) : Prop where
  normalForm : NormalForm (optimize query).expression
  again : optimize (optimize query) = optimize query
  segments : (optimize query).expression.segments = mergeLimits query.expression.segments
  selectors : (optimize query).expression.selectors = query.expression.selectors
  filterCount : (optimizationInfo (optimize query)).filterCount =
    (optimizationInfo query).filterCount
  traversalCount : (optimizationInfo (optimize query)).traversalCount =
    (optimizationInfo query).traversalCount
  depth : (optimizationInfo (optimize query)).depth ≤ (optimizationInfo query).depth

/-- **Optimized queries are in normal form**, with the predicates, selectors and counts that they
had, and no deeper. -/
theorem optimizedForm {query : TypedQuery S} (h : query.Rebuilt) : OptimizedForm query := by
  have hfused := h.fusedInPlace
  obtain ⟨hnormal, -⟩ := normalForm_normalize hfused
  obtain ⟨hfilters, htraversals⟩ := counts_normalize query.expression
  refine ⟨hnormal, ?_, segments_normalize hfused, selectors_normalize _, hfilters, htraversals,
    depth_normalize_le _⟩
  exact congrArg (fun expression => { query with expression }) (normalize_of_normalForm hnormal)

/-- A query that is extended after it was optimized: a third filter meets a fused one. -/
def refinedQuery : TypedQuery Journal.journalSchema :=
  optimize (TypedQuery.from Journal.thought
    |>.activeAt 15
    |>.where_ (rankIs .greaterEqual 1) nofun
    |>.where_ (rankIs .lessEqual 4) nofun)
    |>.where_ (rankIs .equalTo 2) nofun

theorem optimizedForm_refinedQuery : OptimizedForm refinedQuery :=
  optimizedForm (.where_ (.optimize (.where_ (.where_ (.activeAt (.from _) _) _ _) _ _)) _ _)

example : (optimize refinedQuery).expression =
    .pipeline (.pipeline (.source Journal.thought)
      (.fusedWhere [rankIs .greaterEqual 1, rankIs .lessEqual 4, rankIs .equalTo 2]))
      (.activeAt 15) := rfl

end Memorial.Query
