import Memorial.Storage.DeltaStore

/-!
# Snapshots

`snapshot`: a published delta with its generation, worldline and coordinates, and the parent it
branches from.  Every read looks at the local level first and falls through to the parent.

* `Level` — what one publication adds; `Snapshot` — a chain of levels, a root first published
  alone; `Snapshot.chain` — the snapshots in it;
* `publish`, `makeBranchDelta`, `publishBranch` — the two entry points and the delta that ties
  them together;
* `checkVisibility`, `contains`, `sourceCandidates`, `propertyCandidates`,
  `estimatePropertyCandidates`, `property`, `outgoing`, `incoming`, `edgeTarget` — the reads.
-/

namespace Memorial

open Library

variable {C : TypeSystem} {S : GraphSchema C}

/-- The members of a snapshot other than its parent. -/
structure Level (S : GraphSchema C) where
  generation : GenerationId
  worldline : WorldlineId
  validAt : Timestamp
  knownAt : Timestamp
  data : DeltaStore S

/-- `snapshot<Schema>`: a level, and the parent unless it is null. -/
inductive Snapshot (S : GraphSchema C)
  | root (level : Level S)
  | branch (level : Level S) (parent : Snapshot S)

/-- The second half of `check_visibility`, for an id of the level's own rows. -/
def Level.checkRow (level : Level S) (tag : S.Tag) (id : NodeId) : Result Unit := do
  let nodes := level.data.nodes tag
  let rowWorldline ← nodes.worldline id
  if rowWorldline ≠ level.worldline then
    .error { code := .worldlineMismatch, detail := "node belongs to another worldline" }
  else
    let valid ← nodes.valid id
    let transaction ← nodes.transaction id
    if !valid.contains level.validAt || !transaction.contains level.knownAt then
      .error { code := .idNotFound, detail := "node is not active in this snapshot" }
    else .ok ()

namespace Snapshot

/-- The snapshot and, in turn, those that `parent` points to. -/
def chain : Snapshot S → List (Snapshot S)
  | .root level => [.root level]
  | .branch level parent => .branch level parent :: parent.chain

/-- The topmost level. -/
def level : Snapshot S → Level S
  | .root level => level
  | .branch level _ => level

def generation (graph : Snapshot S) : GenerationId := graph.level.generation

def worldline (graph : Snapshot S) : WorldlineId := graph.level.worldline

def validAt (graph : Snapshot S) : Timestamp := graph.level.validAt

def knownAt (graph : Snapshot S) : Timestamp := graph.level.knownAt

def nodeExtent (graph : Snapshot S) (tag : S.Tag) : ℕ := graph.level.data.nodeExtent tag

def edgeExtent (graph : Snapshot S) (edge : S.Edge) : ℕ := graph.level.data.edgeExtent edge

/-! ### Publication -/

/-- `publish`. -/
def publish (generation : GenerationId) (worldline : WorldlineId) (validAt knownAt : Timestamp)
    (delta : DeltaStore S) : Result (Snapshot S) :=
  if !generation.isValid then
    .error { code := .invalidId, detail := "snapshot generation ID must be valid" }
  else if !worldline.isValid then
    .error { code := .invalidId, detail := "snapshot worldline ID must be valid" }
  else .ok (.root { generation, worldline, validAt, knownAt, data := delta.buildIndices })

/-- `make_branch_delta`. -/
def makeBranchDelta (graph : Snapshot S) : DeltaStore S :=
  .branchFrom graph.nodeExtent graph.edgeExtent

/-- `node_bases_match`. -/
def nodeBasesMatch (graph : Snapshot S) (delta : DeltaStore S) : Bool :=
  S.tags.all (fun tag => (delta.nodes tag).idBase == graph.nodeExtent tag)

/-- `edge_bases_match`. -/
def edgeBasesMatch (graph : Snapshot S) (delta : DeltaStore S) : Bool :=
  S.signatures.all (fun edge => (delta.edges edge).idBase == graph.edgeExtent edge)

/-- `branch_bases_match`. -/
def branchBasesMatch (graph : Snapshot S) (delta : DeltaStore S) : Bool :=
  graph.nodeBasesMatch delta && graph.edgeBasesMatch delta

/-- The error of a delta whose bases are not the extents of the parent. -/
def notBasedOnParent : GraphError :=
  { code := .conflict, detail := "branch delta was not based on the parent snapshot" }

/-- `publish_branch`. -/
def publishBranch (parent : Snapshot S) (generation : GenerationId) (worldline : WorldlineId)
    (validAt knownAt : Timestamp) (delta : DeltaStore S) : Result (Snapshot S) :=
  if !generation.isValid || !worldline.isValid then .error { code := .invalidId }
  else if worldline = parent.worldline then
    .error { code := .conflict, detail := "branch must use a distinct worldline ID" }
  else if !parent.branchBasesMatch delta then .error notBasedOnParent
  else
    .ok (.branch { generation, worldline, validAt, knownAt, data := delta.buildIndices } parent)

/-! ### Reading nodes -/

/-- `check_visibility`. -/
def checkVisibility : Snapshot S → (tag : S.Tag) → NodeId → Result Unit
  | .root level, tag, id =>
    if !(level.data.nodes tag).contains id then .error { code := .idNotFound }
    else level.checkRow tag id
  | .branch level parent, tag, id =>
    if !(level.data.nodes tag).contains id then parent.checkVisibility tag id
    else level.checkRow tag id

/-- `contains`. -/
def contains (graph : Snapshot S) (tag : S.Tag) (id : NodeId) : Result Bool :=
  match graph.checkVisibility tag id with
  | .error error =>
    if error.code = .idNotFound ∨ error.code = .worldlineMismatch then .ok false
    else .error error
  | .ok () => .ok true

/-- `source_candidates`. -/
def sourceCandidates : Snapshot S → (tag : S.Tag) → Result (List NodeId)
  | .root level, tag =>
    (level.data.nodes tag).indexedCandidates level.worldline level.validAt level.knownAt
  | .branch level parent, tag => do
    let inherited ← parent.sourceCandidates tag
    let own ←
      (level.data.nodes tag).indexedCandidates level.worldline level.validAt level.knownAt
    return inherited ++ own

/-- `property_candidates`. -/
def propertyCandidates {Value : Type} : Snapshot S → (tag : S.Tag) →
    (key : GraphSchema.Key tag) → (value : Value) →
    (predicate : GraphSchema.Value tag key → Value → Bool) → Result (List NodeId)
  | .root level, tag, key, value, predicate => do
    let own ← (level.data.nodes tag).indexedPropertyCandidates key value predicate
    filterLoop ((Snapshot.root level).contains tag) own
  | .branch level parent, tag, key, value, predicate => do
    let inherited ← parent.propertyCandidates tag key value predicate
    let own ← (level.data.nodes tag).indexedPropertyCandidates key value predicate
    let visible ← filterLoop ((Snapshot.branch level parent).contains tag) own
    return inherited ++ visible

/-- `estimate_property_candidates`. -/
def estimatePropertyCandidates {Value : Type} : Snapshot S → (tag : S.Tag) →
    (key : GraphSchema.Key tag) → (value : Value) →
    (predicate : GraphSchema.Value tag key → Value → Bool) → Result ℕ
  | .root level, tag, key, value, predicate => do
    let own ← (level.data.nodes tag).estimatePropertyCandidates key value predicate
    return 0 + own
  | .branch level parent, tag, key, value, predicate => do
    let estimate ← parent.estimatePropertyCandidates tag key value predicate
    let own ← (level.data.nodes tag).estimatePropertyCandidates key value predicate
    return estimate + own

/-- `property`.  A root that finds an id visible contains its row, so the null parent is never
followed; the model answers that branch with an error. -/
def property : Snapshot S → (tag : S.Tag) → (key : GraphSchema.Key tag) → NodeId →
    Result (GraphSchema.Value tag key)
  | .root level, tag, key, id => do
    (Snapshot.root level).checkVisibility tag id
    if (level.data.nodes tag).contains id then (level.data.nodes tag).property key id
    else .error { code := .idNotFound }
  | .branch level parent, tag, key, id => do
    (Snapshot.branch level parent).checkVisibility tag id
    if (level.data.nodes tag).contains id then (level.data.nodes tag).property key id
    else parent.property tag key id

/-! ### Reading edges -/

/-- The node kind at the near end of an edge kind. -/
def nearTag (direction : AdjacencyStore.Direction) (edge : S.Edge) : S.Tag :=
  match direction with
  | .outgoing => GraphSchema.source edge
  | .incoming => GraphSchema.target edge

/-- The node kind at the far end of an edge kind. -/
def farTag (direction : AdjacencyStore.Direction) (edge : S.Edge) : S.Tag :=
  match direction with
  | .outgoing => GraphSchema.target edge
  | .incoming => GraphSchema.source edge

/-- The loop over the level's own edges: an edge stays when its far end is visible. -/
def ownIncident (graph : Snapshot S) (direction : AdjacencyStore.Direction) (edge : S.Edge)
    (node : NodeId) : Result (List EdgeId) :=
  let edges := graph.level.data.edges edge
  filterLoop
    (fun id => do
      let other ← edges.farEnd direction id
      graph.contains (farTag direction edge) other)
    (edges.filed direction node)

/-- What `outgoing` and `incoming` share: the near end has to be visible, the parent answers
first if it sees the near end, and the level's own edges follow. -/
def incident (direction : AdjacencyStore.Direction) :
    Snapshot S → (edge : S.Edge) → NodeId → Result (List EdgeId)
  | .root level, edge, node => do
    (Snapshot.root level).checkVisibility (nearTag direction edge) node
    (Snapshot.root level).ownIncident direction edge node
  | .branch level parent, edge, node => do
    (Snapshot.branch level parent).checkVisibility (nearTag direction edge) node
    let inheritedNode ← parent.contains (nearTag direction edge) node
    let inherited ← if inheritedNode then parent.incident direction edge node else .ok []
    let own ← (Snapshot.branch level parent).ownIncident direction edge node
    return inherited ++ own

/-- `outgoing`. -/
def outgoing (graph : Snapshot S) (edge : S.Edge) (source : NodeId) : Result (List EdgeId) :=
  graph.incident .outgoing edge source

/-- `incoming`. -/
def incoming (graph : Snapshot S) (edge : S.Edge) (target : NodeId) : Result (List EdgeId) :=
  graph.incident .incoming edge target

/-- `edge_target`. -/
def edgeTarget : Snapshot S → (edge : S.Edge) → EdgeId → Result NodeId
  | .root level, edge, id =>
    if (level.data.edges edge).contains id then (level.data.edges edge).target id
    else .error { code := .idNotFound }
  | .branch level parent, edge, id =>
    if (level.data.edges edge).contains id then (level.data.edges edge).target id
    else parent.edgeTarget edge id

end Snapshot

end Memorial
