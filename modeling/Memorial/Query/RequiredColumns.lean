import Memorial.Query.Optimizer
import Memorial.Storage.ColumnAgreement

/-!
# Required columns

The optimizer computes the property columns a query reads from the type of its expression, with a
node kind of its own that it tracks across traversals.  The executor reads the columns, by another
recursion.

* `optimizerNodeTag`, `requiredColumns`, `requiredColumnsT` — the list;
* `Operation.columnsRead`, `requiredColumns_pipeline` — what one stage adds to it;
* `scan_congr`, `execute_congr` — **PROVED**: on snapshots that agree on the list a query executes
  alike;
* `requiredColumns_normalize` — **PROVED**: the optimizer keeps the list;
* `requiredColumnsSuffice` — **PROVED**: all of it, for every query of the DSL.
-/

namespace Memorial.Query

open Library Meta Session

variable {C : TypeSystem} {S : GraphSchema C}

/-! ### The list -/

/-- `required_column<Node, Key>`. -/
structure RequiredColumn (S : GraphSchema C) where
  node : S.Tag
  key : FixedString
deriving DecidableEq

/-- `optimizer_node_tag`: the node kind of the source, or of the target of the last traversal. -/
def optimizerNodeTag : {tag : S.Tag} → Expression S tag → S.Tag
  | _, .source tag => tag
  | _, .pipeline previous operation =>
    match operation with
    | .traverse edge => GraphSchema.target edge
    | _ => optimizerNodeTag previous

/-- `detail::required_columns`. -/
def requiredColumns : {tag : S.Tag} → Expression S tag → List (RequiredColumn S)
  | _, .source _ => []
  | _, .pipeline previous operation =>
    match operation with
    | .where_ predicate =>
      requiredColumns previous ++ [⟨optimizerNodeTag previous, predicate.key.key⟩]
    | .fusedWhere predicates =>
      requiredColumns previous ++
        predicates.map (fun predicate => ⟨optimizerNodeTag previous, predicate.key.key⟩)
    | .project keys =>
      requiredColumns previous ++ keys.map (fun key => ⟨optimizerNodeTag previous, key.key⟩)
    | .topK ranking => requiredColumns previous ++ [⟨optimizerNodeTag previous, ranking.key.key⟩]
    | _ => requiredColumns previous

/-- `required_columns_t`. -/
def requiredColumnsT {tag : S.Tag} (expression : Expression S tag) : List (RequiredColumn S) :=
  uniqueTypes (requiredColumns expression)

/-- A key of a node kind is on a list of columns. -/
def Listed (columns : List (RequiredColumn S)) (tag : S.Tag) (key : GraphSchema.Key tag) : Prop :=
  ⟨tag, key.key⟩ ∈ columns

/-! ### What a stage adds -/

/-- The node kind the optimizer tracks is that of the pipeline. -/
theorem optimizerNodeTag_eq {tag : S.Tag} (expression : Expression S tag) :
    optimizerNodeTag expression = tag := by
  induction expression with
  | source tag => rfl
  | pipeline previous operation ih =>
    cases operation with
    | traverse edge => rfl
    | _ => exact ih

/-- The columns a stage reads, on the node kind it starts from. -/
def Operation.columnsRead {current next : S.Tag} :
    Operation S current next → List (RequiredColumn S)
  | .where_ predicate => [⟨current, predicate.key.key⟩]
  | .fusedWhere predicates => predicates.map (fun predicate => ⟨current, predicate.key.key⟩)
  | .project keys => keys.map (fun key => ⟨current, key.key⟩)
  | .topK ranking => [⟨current, ranking.key.key⟩]
  | _ => []

theorem requiredColumns_pipeline {current next : S.Tag} (previous : Expression S current)
    (operation : Operation S current next) :
    requiredColumns (.pipeline previous operation) =
      requiredColumns previous ++ operation.columnsRead := by
  cases operation with
  | where_ predicate => rw [requiredColumns, optimizerNodeTag_eq, Operation.columnsRead]
  | fusedWhere predicates => rw [requiredColumns, optimizerNodeTag_eq, Operation.columnsRead]
  | project keys => rw [requiredColumns, optimizerNodeTag_eq, Operation.columnsRead]
  | topK ranking => rw [requiredColumns, optimizerNodeTag_eq, Operation.columnsRead]
  | _ => exact (List.append_nil _).symm

/-! ### The optimizer keeps the list -/

/-- The columns of a pipeline, stage by stage. -/
def columnsInterpretation : Interpretation S (List (RequiredColumn S)) where
  source _ := []
  stage operation columns := columns ++ operation.columnsRead

theorem interpret_columnsInterpretation {tag : S.Tag} (expression : Expression S tag) :
    columnsInterpretation.interpret expression = requiredColumns expression := by
  induction expression with
  | source tag => rfl
  | pipeline previous operation ih =>
    rw [Interpretation.interpret, ih, requiredColumns_pipeline]
    rfl

/-- A selector and a limit read no columns, so a filter may pass the one and the other may merge. -/
theorem keptByRules_columnsInterpretation :
    (columnsInterpretation : Interpretation S (List (RequiredColumn S))).KeptByRules where
  fuse first predicate columns := by
    simp [columnsInterpretation, Operation.columnsRead]
  fuseMore existing predicate columns := by
    simp [columnsInterpretation, Operation.columnsRead]
  pass selector hselector predicate columns := by
    have hnone : selector.columnsRead = [] := by
      cases selector with
      | activeAt value => rfl
      | knownAt value => rfl
      | inWorldline value => rfl
      | _ => cases hselector
    simp [columnsInterpretation, hnone]
  limit first count columns := by
    simp [columnsInterpretation, Operation.columnsRead]

/-- **Normalizing a pipeline keeps its columns**, in their order. -/
theorem requiredColumns_normalize {tag : S.Tag} (expression : Expression S tag) :
    requiredColumns (normalize expression) = requiredColumns expression := by
  rw [← interpret_columnsInterpretation, ← interpret_columnsInterpretation,
    Interpretation.interpret_normalize keptByRules_columnsInterpretation]

/-! ### Snapshots that agree on the list -/

section Agree

variable {columns : List (RequiredColumn S)} {a b : Snapshot S}

theorem selectorError_congr (h : a.AgreesOn (Listed columns) b) {tag : S.Tag}
    (expression : Expression S tag) : selectorError a expression = selectorError b expression := by
  induction expression with
  | source tag => rfl
  | pipeline previous operation ih =>
    have hmismatch : operation.mismatch a = operation.mismatch b := by
      cases operation with
      | activeAt value => rw [Operation.mismatch, Operation.mismatch, h.validAt_eq]
      | knownAt value => rw [Operation.mismatch, Operation.mismatch, h.knownAt_eq]
      | inWorldline value => rw [Operation.mismatch, Operation.mismatch, h.worldline_eq]
      | _ => rfl
    rw [selectorError, selectorError, hmismatch, ih]

theorem selects_congr (h : a.AgreesOn (Listed columns) b) {tag : S.Tag}
    {predicate : Comparison tag} (hlisted : Listed columns tag predicate.key) (id : NodeId) :
    predicate.selects a id = predicate.selects b id := by
  rw [Comparison.selects, Comparison.selects, Snapshot.satisfies, Snapshot.satisfies,
    h.storedValue?_eq hlisted id]

/-- **A stage whose columns are on the list** leads from the same ids to the same ids. -/
theorem operation_scan_congr (h : a.AgreesOn (Listed columns) b) (ha : a.WellFormed)
    (hb : b.WellFormed) (sort : SortFunction) {current next : S.Tag}
    (operation : Operation S current next) (hread : operation.columnsRead ⊆ columns)
    (ids : List NodeId) : operation.scan sort a ids = operation.scan sort b ids := by
  cases operation with
  | where_ predicate =>
    have hlisted : Listed columns current predicate.key := hread List.mem_cons_self
    exact List.filter_congr fun id _ => selects_congr h hlisted id
  | fusedWhere predicates =>
    apply List.filter_congr
    intro id _
    have hselects : ∀ predicate ∈ predicates, predicate.selects a id = predicate.selects b id := by
      intro predicate hpredicate
      have hlisted : Listed columns current predicate.key :=
        hread (List.mem_map.mpr ⟨predicate, hpredicate, rfl⟩)
      exact selects_congr h hlisted id
    rw [Bool.eq_iff_iff, List.all_eq_true, List.all_eq_true]
    exact forall₂_congr fun predicate hpredicate => by rw [hselects predicate hpredicate]
  | traverse edge => simp only [Operation.scan, h.incidentEdges_eq ha hb]
  | topK ranking =>
    have hlisted : Listed columns current ranking.key := hread List.mem_cons_self
    have hstored : withStored a current ranking.key = withStored b current ranking.key := by
      funext id
      rw [withStored, withStored, h.storedValue?_eq hlisted id]
    rw [Operation.scan, Operation.scan, hstored]
  | _ => rfl

/-- **A pipeline whose columns are on the list** scans alike.  By induction on the pipeline. -/
theorem scan_congr (h : a.AgreesOn (Listed columns) b) (ha : a.WellFormed) (hb : b.WellFormed)
    (sort : SortFunction) {tag : S.Tag} (expression : Expression S tag)
    (hread : requiredColumns expression ⊆ columns) :
    scan sort a expression = scan sort b expression := by
  induction expression with
  | source tag => exact h.visibleIds_eq ha hb tag
  | pipeline previous operation ih =>
    rw [requiredColumns_pipeline, List.append_subset] at hread
    obtain ⟨hprevious, hoperation⟩ := hread
    rw [scan, scan, ih hprevious, operation_scan_congr h ha hb sort operation hoperation]

theorem storedProjection_congr (h : a.AgreesOn (Listed columns) b) {tag : S.Tag} (id : NodeId)
    {keys : List (GraphSchema.Key tag)} (hkeys : ∀ key ∈ keys, Listed columns tag key) :
    storedProjection a tag id keys = storedProjection b tag id keys := by
  induction keys with
  | nil => rfl
  | cons key rest ih =>
    obtain ⟨hkey, hrest⟩ := List.forall_mem_cons.mp hkeys
    rw [storedProjection, storedProjection, h.storedValue?_eq hkey id, ih hrest]

theorem scanRows_congr (h : a.AgreesOn (Listed columns) b) {tag : S.Tag} (ids : List NodeId)
    {projection : Option (List (GraphSchema.Key tag))}
    (hprojection : ∀ keys, projection = some keys → ∀ key ∈ keys, Listed columns tag key) :
    scanRows a tag ids projection = scanRows b tag ids projection := by
  cases projection with
  | none => rfl
  | some keys =>
    have hrow : storedRow a tag keys = storedRow b tag keys := by
      funext id
      rw [storedRow, storedRow, storedProjection_congr h id (hprojection keys rfl)]
    rw [scanRows, scanRows, hrow]

/-- **A query whose columns are on the list executes alike**, errors included. -/
theorem execute_congr (h : a.AgreesOn (Listed columns) b) (ha : a.WellFormed) (hb : b.WellFormed)
    (query : TypedQuery S) (hread : requiredColumns query.expression ⊆ columns)
    (hprojection : ∀ keys, query.projection = some keys →
      ∀ key ∈ keys, Listed columns query.current key) :
    execute a query = execute b query := by
  rw [execute_eq ha, execute_eq hb, selectorError_congr h, scanQuery, scanQuery,
    scan_congr h ha hb stableSort query.expression hread, scanRows_congr h _ hprojection]

end Agree

/-! ### Queries of the DSL -/

/-- The projected keys of a query are among the columns of its expression. -/
def TypedQuery.ProjectsListed (query : TypedQuery S) : Prop :=
  ∀ keys, query.projection = some keys →
    ∀ key ∈ keys, Listed (requiredColumns query.expression) query.current key

/-- A stage that keeps the projection keeps the columns in front of it. -/
theorem TypedQuery.ProjectsListed.pipe {query : TypedQuery S} (h : query.ProjectsListed)
    (operation : Operation S query.current query.current) :
    (query.pipe operation).ProjectsListed := by
  intro keys hkeys key hkey
  have hprevious := h keys hkeys key hkey
  show _ ∈ requiredColumns (.pipeline query.expression operation)
  rw [requiredColumns_pipeline]
  exact List.mem_append_left _ hprevious

/-- The projection of a query comes from a stage of it. -/
theorem TypedQuery.Built.projectsListed {query : TypedQuery S} (h : query.Built) :
    query.ProjectsListed := by
  induction h with
  | «from» tag =>
    intro keys hkeys
    cases hkeys
  | activeAt _ value ih => exact ih.pipe (.activeAt value)
  | knownAt _ value ih => exact ih.pipe (.knownAt value)
  | inWorldline _ value ih => exact ih.pipe (.inWorldline value)
  | where_ _ predicate available ih => exact ih.pipe (.where_ predicate)
  | topK _ ranking available ih => exact ih.pipe (.topK ranking)
  | limit _ count ih => exact ih.pipe (.limit count)
  | traverse _ edge hcurrent unprojected ih =>
    intro keys hkeys
    cases hkeys
  | @project query _ projected nonempty unprojected ih =>
    intro keys hkeys key hkey
    obtain rfl := Option.some.inj hkeys
    show _ ∈ requiredColumns (.pipeline query.expression (.project projected))
    rw [requiredColumns_pipeline]
    exact List.mem_append_right _ (List.mem_map.mpr ⟨key, hkey, rfl⟩)

/-- What the list of a query promises. -/
structure RequiredColumnsSuffice (query : TypedQuery S) : Prop where
  nodup : (requiredColumnsT query.expression).Nodup
  optimize_eq : requiredColumnsT (optimize query).expression = requiredColumnsT query.expression
  execute_eq : ∀ a b : Snapshot S, Reachable a → Reachable b →
    a.AgreesOn (Listed (requiredColumnsT query.expression)) b →
      execute a query = execute b query
  execute_optimize_eq : ∀ a b : Snapshot S, Reachable a → Reachable b →
    a.AgreesOn (Listed (requiredColumnsT query.expression)) b →
      execute a (optimize query) = execute b (optimize query)

/-- **Required columns suffice**, for a query and for its optimized form. -/
theorem requiredColumnsSuffice {query : TypedQuery S} (hquery : query.Built) :
    RequiredColumnsSuffice query := by
  have hexecute : ∀ a b : Snapshot S, Reachable a → Reachable b →
      a.AgreesOn (Listed (requiredColumnsT query.expression)) b →
        execute a query = execute b query := by
    intro a b ha hb h
    refine execute_congr h (wellFormed_of_reachable ha) (wellFormed_of_reachable hb) query ?_ ?_
    · intro column hcolumn
      exact mem_uniqueTypes.mpr hcolumn
    · intro keys hkeys key hkey
      exact mem_uniqueTypes.mpr (hquery.projectsListed keys hkeys key hkey)
  refine ⟨nodup_uniqueTypes _, ?_, hexecute, ?_⟩
  · exact congrArg uniqueTypes (requiredColumns_normalize query.expression)
  · intro a b ha hb h
    rw [execute_optimize ha, execute_optimize hb]
    exact hexecute a b ha hb h

end Memorial.Query

/-! ### Two snapshots -/

namespace Memorial.Journal

open Library Query Session DeltaStore

/-- Two thoughts of some confidence, and a relation between them. -/
def confidentWrites (confidence : Floating) : List (DeltaCall journalSchema) :=
  [.appendNode thought (thoughtRow actual) (thoughtValues 3 confidence) none,
    .appendNode thought (thoughtRow actual) (thoughtValues 1 confidence) none,
    writeRecall ⟨0⟩ ⟨1⟩]

def confidentGraph (confidence : Floating) : Snapshot journalSchema :=
  .root ⟨⟨1⟩, actual, 15, 35, (run applyCall .empty (confidentWrites confidence)).buildIndices⟩

def confidentCalls (confidence : Floating) : List (Call journalSchema) :=
  [.newDelta] ++ (confidentWrites confidence).map (.write 0) ++ [.publish 0 ⟨1⟩ actual 15 35]

theorem graphs_confidentCalls (confidence : Floating) :
    (run step initial (confidentCalls confidence)).graphs = [confidentGraph confidence] := rfl

theorem reachable_confidentGraph (confidence : Floating) :
    Reachable (confidentGraph confidence) :=
  reachable_of_mem (graphs_confidentCalls confidence) (by simp)

/-- The journal has one node kind. -/
theorem forall_tag {p : journalSchema.Tag → Prop} (h : p thought) : ∀ tag, p tag := by
  intro tag
  have hmem := GraphSchema.hasNode_iff.mp tag.2
  have htag : tag = thought := Subtype.ext (List.mem_singleton.mp hmem)
  rw [htag]
  exact h

/-- The journal has one edge kind. -/
theorem forall_edge {p : journalSchema.Edge → Prop} (h : p recalls) : ∀ edge, p edge := by
  intro edge
  have hmem := GraphSchema.hasEdge_iff.mp edge.2
  have hedge : edge = recalls := Subtype.ext (List.mem_singleton.mp hmem)
  rw [hedge]
  exact h

theorem built_recalledQuery (worldline : WorldlineId) : (recalledQuery worldline).Built :=
  .project (.limit (.limit (.topK (.traverse (.where_ (.inWorldline (.where_ (.from thought)
    _ _) worldline) _ _) recalls rfl rfl) _ _) 5) 3) _ _ _

theorem requiredColumnsT_recalledQuery (worldline : WorldlineId) :
    requiredColumnsT (recalledQuery worldline).expression = [⟨thought, rankKey⟩] := rfl

/-- Graphs that differ in the confidence of their thoughts agree on the columns of a query that
does not read it. -/
theorem agreesOn_confidentGraph (first second : Floating) :
    (confidentGraph first).AgreesOn
      (Listed (requiredColumnsT (recalledQuery actual).expression)) (confidentGraph second) := by
  refine .root ⟨rfl, rfl, rfl, forall_tag rfl, forall_tag rfl, forall_tag rfl, forall_tag rfl,
    forall_tag ?_, forall_edge rfl⟩
  intro key hlisted
  rw [Listed, requiredColumnsT_recalledQuery, List.mem_singleton, RequiredColumn.mk.injEq]
    at hlisted
  obtain rfl : key = rank := PropertyKey.ext_key hlisted.2
  rfl

/-- A query that reads ranks only, on two graphs that store different confidences. -/
theorem requiredColumnsSuffice_confidentGraph :
    (confidentGraph .nan).storedValue? thought confidence ⟨0⟩ = some .nan ∧
      (confidentGraph (.number 1)).storedValue? thought confidence ⟨0⟩ = some (.number 1) ∧
      execute (confidentGraph .nan) (recalledQuery actual) =
        execute (confidentGraph (.number 1)) (recalledQuery actual) :=
  ⟨rfl, rfl, (requiredColumnsSuffice (built_recalledQuery actual)).execute_eq _ _
    (reachable_confidentGraph .nan) (reachable_confidentGraph (.number 1))
    (agreesOn_confidentGraph .nan (.number 1))⟩

end Memorial.Journal
