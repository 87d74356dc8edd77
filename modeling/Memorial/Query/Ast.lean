import Memorial.Runtime.Identity
import Memorial.Schema.JournalSchema

/-!
# Queries

The query AST and the DSL that builds it.  C++ keeps the node kind a pipeline has reached in the
type of the expression; here it is the index of an inductive family, so that an ill-typed
pipeline cannot be built.

* `Comparison`, `Operation`, `Expression` — predicates, stages and pipelines;
* `TypedQuery` — an expression with its current node kind and projection;
* `TypedQuery.from`, `TypedQuery.pipe` — the DSL, whose static assertions are hypotheses.
-/

namespace Memorial.Query

variable {C : TypeSystem} {S : GraphSchema C}

/-- `sort_direction`. -/
inductive SortDirection
  | ascending
  | descending
deriving DecidableEq

/-- The operator tags `greater_than_op`, ..., `equal_to_op`. -/
inductive ComparisonOp
  | greaterThan
  | greaterEqual
  | lessThan
  | lessEqual
  | equalTo
deriving DecidableEq

/-- `comparison_expr<property_ref<Key>, Operator, Value>`, on a node kind that has the key. -/
structure Comparison (tag : S.Tag) where
  key : GraphSchema.Key tag
  operator : ComparisonOp
  valueType : C.ValueType
  value : C.carrier valueType

/-- `top_k_expr<Count, order_expr<Key>>`; the count is a `std::size_t`. -/
structure TopK (tag : S.Tag) where
  count : ℕ
  key : GraphSchema.Key tag
  direction : SortDirection
  count_pos : 0 < count
  count_lt : count < UInt64.size

/-- A stage that leads from a list of ids of one node kind to a list of ids of another. -/
inductive Operation (S : GraphSchema C) : S.Tag → S.Tag → Type
  | activeAt {tag : S.Tag} (value : Timestamp) : Operation S tag tag
  | knownAt {tag : S.Tag} (value : Timestamp) : Operation S tag tag
  | inWorldline {tag : S.Tag} (value : WorldlineId) : Operation S tag tag
  | where_ {tag : S.Tag} (predicate : Comparison tag) : Operation S tag tag
  | fusedWhere {tag : S.Tag} (predicates : List (Comparison tag)) : Operation S tag tag
  | traverse (edge : S.Edge) :
      Operation S (GraphSchema.source edge) (GraphSchema.target edge)
  | project {tag : S.Tag} (keys : List (GraphSchema.Key tag)) : Operation S tag tag
  | topK {tag : S.Tag} (ranking : TopK tag) : Operation S tag tag
  | limit {tag : S.Tag} (count : ℕ) : Operation S tag tag

/-- `source_expr<Node>` and `pipeline_expr<Previous, Operation>`; the index is
`expression_node_tag_t`. -/
inductive Expression (S : GraphSchema C) : S.Tag → Type
  | source (tag : S.Tag) : Expression S tag
  | pipeline {current next : S.Tag} (previous : Expression S current)
      (operation : Operation S current next) : Expression S next

/-- `source_node_tag`: the node kind a pipeline starts from. -/
def Expression.sourceTag : {tag : S.Tag} → Expression S tag → S.Tag
  | _, .source tag => tag
  | _, .pipeline previous _ => previous.sourceTag

/-- `typed_query<Schema, Current, Projection, Expression>`; `none` is the projection `void`. -/
structure TypedQuery (S : GraphSchema C) where
  current : S.Tag
  projection : Option (List (GraphSchema.Key current))
  expression : Expression S current

namespace TypedQuery

/-- `from<Schema, Node>()`. -/
def «from» (tag : S.Tag) : TypedQuery S := ⟨tag, none, .source tag⟩

/-- `query_has_property_v`: the key is one of the projection, if there is one. -/
def HasProperty (query : TypedQuery S) (key : GraphSchema.Key query.current) : Prop :=
  ∀ keys, query.projection = some keys → key ∈ keys

/-- The pipe of a stage that keeps the node kind and the projection. -/
def pipe (query : TypedQuery S) (operation : Operation S query.current query.current) :
    TypedQuery S :=
  { query with expression := .pipeline query.expression operation }

/-- `query | active_at(value)`. -/
def activeAt (query : TypedQuery S) (value : Timestamp) : TypedQuery S :=
  query.pipe (.activeAt value)

/-- `query | known_at(value)`. -/
def knownAt (query : TypedQuery S) (value : Timestamp) : TypedQuery S :=
  query.pipe (.knownAt value)

/-- `query | in_worldline(value)`. -/
def inWorldline (query : TypedQuery S) (value : WorldlineId) : TypedQuery S :=
  query.pipe (.inWorldline value)

/-- `query | where(predicate)`. -/
def where_ (query : TypedQuery S) (predicate : Comparison query.current)
    (_available : query.HasProperty predicate.key) : TypedQuery S :=
  query.pipe (.where_ predicate)

/-- `query | top_k<Count>(order)`. -/
def topK (query : TypedQuery S) (ranking : TopK query.current)
    (_available : query.HasProperty ranking.key) : TypedQuery S :=
  query.pipe (.topK ranking)

/-- `query | limit(count)`. -/
def limit (query : TypedQuery S) (count : ℕ) : TypedQuery S := query.pipe (.limit count)

/-- `query | traverse<Relation, Target>()`, before any projection. -/
def traverse (query : TypedQuery S) (edge : S.Edge)
    (hcurrent : query.current = GraphSchema.source edge)
    (_unprojected : query.projection = none) : TypedQuery S :=
  ⟨GraphSchema.target edge, none, .pipeline (hcurrent ▸ query.expression) (.traverse edge)⟩

/-- `query | project<Keys...>()`, at least one key and at most one projection. -/
def project (query : TypedQuery S) (keys : List (GraphSchema.Key query.current))
    (_nonempty : keys ≠ []) (_unprojected : query.projection = none) : TypedQuery S :=
  ⟨query.current, some keys, .pipeline query.expression (.project keys)⟩

/-- The queries the DSL builds. -/
inductive Built : TypedQuery S → Prop
  | from (tag : S.Tag) : Built (.from tag)
  | activeAt {query : TypedQuery S} (h : Built query) (value : Timestamp) :
      Built (query.activeAt value)
  | knownAt {query : TypedQuery S} (h : Built query) (value : Timestamp) :
      Built (query.knownAt value)
  | inWorldline {query : TypedQuery S} (h : Built query) (value : WorldlineId) :
      Built (query.inWorldline value)
  | where_ {query : TypedQuery S} (h : Built query) (predicate : Comparison query.current)
      (available : query.HasProperty predicate.key) : Built (query.where_ predicate available)
  | topK {query : TypedQuery S} (h : Built query) (ranking : TopK query.current)
      (available : query.HasProperty ranking.key) : Built (query.topK ranking available)
  | limit {query : TypedQuery S} (h : Built query) (count : ℕ) : Built (query.limit count)
  | traverse {query : TypedQuery S} (h : Built query) (edge : S.Edge)
      (hcurrent : query.current = GraphSchema.source edge)
      (unprojected : query.projection = none) : Built (query.traverse edge hcurrent unprojected)
  | project {query : TypedQuery S} (h : Built query) (keys : List (GraphSchema.Key query.current))
      (nonempty : keys ≠ []) (unprojected : query.projection = none) :
      Built (query.project keys nonempty unprojected)

end TypedQuery

/-! ### A query -/

/-- A comparison with the rank of a thought. -/
def rankIs (operator : ComparisonOp) (value : Int32) : Comparison Journal.thought :=
  ⟨Journal.rank, operator, Journal.JournalValue.int32, value⟩

theorem two_lt_size : 2 < UInt64.size := by decide

/-- The two highest-ranked thoughts that thoughts of a middling rank recall, with their ranks. -/
def recalledQuery (worldline : WorldlineId) : TypedQuery Journal.journalSchema :=
  TypedQuery.from Journal.thought
    |>.where_ (rankIs .greaterThan 1) nofun
    |>.inWorldline worldline
    |>.where_ (rankIs .lessThan 4) nofun
    |>.traverse Journal.recalls rfl rfl
    |>.topK ⟨2, Journal.rank, .descending, by decide, two_lt_size⟩ nofun
    |>.limit 5
    |>.limit 3
    |>.project [Journal.rank] (by simp) rfl

end Memorial.Query
