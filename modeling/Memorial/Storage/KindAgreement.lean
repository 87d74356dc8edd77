import Memorial.Storage.Snapshot

/-!
# Snapshots that agree on some kinds

A part of a schema is a choice of node kinds and of edge kinds between them.  Two snapshots that
agree on a part, level by level, answer every read alike that asks about a kind of the part.

* `SchemaPart`, `SchemaPart.whole` — node kinds, and edge kinds whose ends are among them;
* `Level.SameOn`, `Snapshot.SameOn` — equal rows and edges of the kinds of a part;
* `Snapshot.SameReadsOn`, `Snapshot.SameOn.sameReadsOn` — **PROVED**: the reads of these kinds
  agree, with their errors and the estimates of filters; the estimates of traversals may differ,
  which also depend on entries without edges.
-/

namespace Memorial

open Library

variable {C : TypeSystem} {S : GraphSchema C}

/-! ### Parts of a schema -/

/-- Some node kinds, and some edge kinds between them. -/
structure SchemaPart (S : GraphSchema C) where
  nodes : S.Tag → Bool
  edges : S.Edge → Bool
  source : ∀ edge, edges edge = true → nodes (GraphSchema.source edge) = true
  target : ∀ edge, edges edge = true → nodes (GraphSchema.target edge) = true

namespace SchemaPart

/-- All kinds. -/
def whole : SchemaPart S := ⟨fun _ => true, fun _ => true, fun _ _ => rfl, fun _ _ => rfl⟩

variable {part : SchemaPart S} {edge : S.Edge}

theorem nearTag_mem (hedge : part.edges edge = true) (direction : AdjacencyStore.Direction) :
    part.nodes (Snapshot.nearTag direction edge) = true := by
  cases direction with
  | outgoing => exact part.source edge hedge
  | incoming => exact part.target edge hedge

theorem farTag_mem (hedge : part.edges edge = true) (direction : AdjacencyStore.Direction) :
    part.nodes (Snapshot.farTag direction edge) = true := by
  cases direction with
  | outgoing => exact part.target edge hedge
  | incoming => exact part.source edge hedge

end SchemaPart

/-! ### Stores of the same edges -/

namespace AdjacencyStore.SameEdges

variable {edge : EdgeSpec C} {a b : AdjacencyStore edge}

theorem extent (h : a.SameEdges b) : a.extent = b.extent := by
  rw [AdjacencyStore.extent, AdjacencyStore.extent, h.idBase, h.size]

theorem ids (h : a.SameEdges b) : a.ids = b.ids := by
  rw [AdjacencyStore.ids, AdjacencyStore.ids, h.idBase, h.size]

theorem contains_eq (h : a.SameEdges b) (id : EdgeId) : a.contains id = b.contains id := by
  rw [AdjacencyStore.contains, AdjacencyStore.contains, h.ids]

theorem target_eq (h : a.SameEdges b) (id : EdgeId) : a.target id = b.target id := by
  rw [AdjacencyStore.target, AdjacencyStore.target, checkedRow, checkedRow, h.ids, h.columns]

theorem farEnd_eq (h : a.SameEdges b) (direction : Direction) :
    a.farEnd direction = b.farEnd direction := by
  funext id
  cases direction with
  | outgoing => exact h.target_eq id
  | incoming =>
    show a.source id = b.source id
    rw [AdjacencyStore.source, AdjacencyStore.source, checkedRow, checkedRow, h.ids, h.columns]

theorem filed_eq (h : a.SameEdges b) (direction : Direction) (node : NodeId) :
    a.filed direction node = b.filed direction node := by
  cases direction with
  | outgoing => exact h.outgoing node
  | incoming => exact h.incoming node

end AdjacencyStore.SameEdges

/-! ### Agreement -/

/-- The same rows and edges of the kinds of a part, under equal coordinates. -/
structure Level.SameOn (part : SchemaPart S) (a b : Level S) : Prop where
  generation : a.generation = b.generation
  worldline : a.worldline = b.worldline
  validAt : a.validAt = b.validAt
  knownAt : a.knownAt = b.knownAt
  nodes : ∀ tag, part.nodes tag = true → a.data.nodes tag = b.data.nodes tag
  edges : ∀ edge, part.edges edge = true → (a.data.edges edge).SameEdges (b.data.edges edge)

theorem Level.SameOn.checkRow_eq {part : SchemaPart S} {a b : Level S} (h : a.SameOn part b)
    {tag : S.Tag} (htag : part.nodes tag = true) (id : NodeId) :
    a.checkRow tag id = b.checkRow tag id := by
  simp only [Level.checkRow, h.nodes tag htag, h.worldline, h.validAt, h.knownAt]

namespace Snapshot

/-- Chains of the same length whose levels agree in turn. -/
inductive SameOn (part : SchemaPart S) : Snapshot S → Snapshot S → Prop
  | root {a b : Level S} (level : a.SameOn part b) : SameOn part (.root a) (.root b)
  | branch {a b : Level S} {aParent bParent : Snapshot S} (level : a.SameOn part b)
      (parent : SameOn part aParent bParent) :
      SameOn part (.branch a aParent) (.branch b bParent)

/-- Every read of a kind of the part returns the same, but for `estimate_traversal_cardinality`. -/
structure SameReadsOn (part : SchemaPart S) (a b : Snapshot S) : Prop where
  generation : a.generation = b.generation
  worldline : a.worldline = b.worldline
  validAt : a.validAt = b.validAt
  knownAt : a.knownAt = b.knownAt
  nodeExtent : ∀ tag, part.nodes tag = true → a.nodeExtent tag = b.nodeExtent tag
  edgeExtent : ∀ edge, part.edges edge = true → a.edgeExtent edge = b.edgeExtent edge
  contains : ∀ tag, part.nodes tag = true → a.contains tag = b.contains tag
  property : ∀ tag, part.nodes tag = true → a.property tag = b.property tag
  sourceCandidates : ∀ tag, part.nodes tag = true → a.sourceCandidates tag = b.sourceCandidates tag
  propertyCandidates : ∀ {Value : Type} (tag : S.Tag), part.nodes tag = true →
    ∀ (key : GraphSchema.Key tag) (value : Value)
      (predicate : GraphSchema.Value tag key → Value → Bool),
      a.propertyCandidates tag key value predicate = b.propertyCandidates tag key value predicate
  estimatePropertyCandidates : ∀ {Value : Type} (tag : S.Tag), part.nodes tag = true →
    ∀ (key : GraphSchema.Key tag) (value : Value)
      (predicate : GraphSchema.Value tag key → Value → Bool),
      a.estimatePropertyCandidates tag key value predicate =
        b.estimatePropertyCandidates tag key value predicate
  outgoing : ∀ edge, part.edges edge = true → a.outgoing edge = b.outgoing edge
  incoming : ∀ edge, part.edges edge = true → a.incoming edge = b.incoming edge
  edgeTarget : ∀ edge, part.edges edge = true → a.edgeTarget edge = b.edgeTarget edge

namespace SameOn

variable {part : SchemaPart S} {a b : Snapshot S}

theorem level (h : a.SameOn part b) : a.level.SameOn part b.level := by
  cases h with
  | root level => exact level
  | branch level parent => exact level

/-- And so do their parents. -/
theorem chain (h : a.SameOn part b) : List.Forall₂ (SameOn part) a.chain b.chain := by
  induction h with
  | root level => exact .cons (.root level) .nil
  | branch level parent ih => exact .cons (.branch level parent) ih

/-! ### Reading nodes -/

section Nodes

variable {tag : S.Tag}

theorem checkVisibility_eq (h : a.SameOn part b) (htag : part.nodes tag = true) (id : NodeId) :
    a.checkVisibility tag id = b.checkVisibility tag id := by
  induction h with
  | root level =>
    rw [checkVisibility, checkVisibility, level.nodes tag htag, level.checkRow_eq htag]
  | branch level parent ih =>
    rw [checkVisibility, checkVisibility, level.nodes tag htag, level.checkRow_eq htag, ih]

theorem contains_eq (h : a.SameOn part b) (htag : part.nodes tag = true) :
    a.contains tag = b.contains tag := by
  funext id
  rw [contains, contains, h.checkVisibility_eq htag]

theorem property_eq (h : a.SameOn part b) (htag : part.nodes tag = true)
    (key : GraphSchema.Key tag) (id : NodeId) : a.property tag key id = b.property tag key id := by
  induction h with
  | root level =>
    rw [property, property, (SameOn.root level).checkVisibility_eq htag, level.nodes tag htag]
  | branch level parent ih =>
    rw [property, property, (SameOn.branch level parent).checkVisibility_eq htag,
      level.nodes tag htag, ih]

theorem sourceCandidates_eq (h : a.SameOn part b) (htag : part.nodes tag = true) :
    a.sourceCandidates tag = b.sourceCandidates tag := by
  induction h with
  | root level =>
    rw [sourceCandidates, sourceCandidates, level.nodes tag htag, level.worldline, level.validAt,
      level.knownAt]
  | branch level parent ih =>
    rw [sourceCandidates, sourceCandidates, ih, level.nodes tag htag, level.worldline,
      level.validAt, level.knownAt]

variable {Value : Type} (key : GraphSchema.Key tag) (value : Value)
  (predicate : GraphSchema.Value tag key → Value → Bool)

theorem propertyCandidates_eq (h : a.SameOn part b) (htag : part.nodes tag = true) :
    a.propertyCandidates tag key value predicate =
      b.propertyCandidates tag key value predicate := by
  induction h with
  | root level =>
    rw [propertyCandidates, propertyCandidates, level.nodes tag htag,
      (SameOn.root level).contains_eq htag]
  | branch level parent ih =>
    rw [propertyCandidates, propertyCandidates, ih, level.nodes tag htag,
      (SameOn.branch level parent).contains_eq htag]

theorem estimatePropertyCandidates_eq (h : a.SameOn part b) (htag : part.nodes tag = true) :
    a.estimatePropertyCandidates tag key value predicate =
      b.estimatePropertyCandidates tag key value predicate := by
  induction h with
  | root level =>
    rw [estimatePropertyCandidates, estimatePropertyCandidates, level.nodes tag htag]
  | branch level parent ih =>
    rw [estimatePropertyCandidates, estimatePropertyCandidates, ih, level.nodes tag htag]

end Nodes

/-! ### Reading edges -/

section Edges

variable {edge : S.Edge}

theorem ownIncident_eq (h : a.SameOn part b) (hedge : part.edges edge = true)
    (direction : AdjacencyStore.Direction) (node : NodeId) :
    a.ownIncident direction edge node = b.ownIncident direction edge node := by
  have hedges := h.level.edges edge hedge
  have hfar : part.nodes (farTag direction edge) = true := SchemaPart.farTag_mem hedge direction
  simp only [ownIncident, hedges.farEnd_eq, hedges.filed_eq, h.contains_eq hfar]

theorem incident_eq (h : a.SameOn part b) (hedge : part.edges edge = true)
    (direction : AdjacencyStore.Direction) (node : NodeId) :
    a.incident direction edge node = b.incident direction edge node := by
  have hnear : part.nodes (nearTag direction edge) = true := SchemaPart.nearTag_mem hedge direction
  induction h with
  | root level =>
    rw [incident, incident, (SameOn.root level).checkVisibility_eq hnear,
      (SameOn.root level).ownIncident_eq hedge]
  | branch level parent ih =>
    rw [incident, incident, (SameOn.branch level parent).checkVisibility_eq hnear,
      (SameOn.branch level parent).ownIncident_eq hedge, parent.contains_eq hnear, ih]

theorem edgeTarget_eq (h : a.SameOn part b) (hedge : part.edges edge = true) (id : EdgeId) :
    a.edgeTarget edge id = b.edgeTarget edge id := by
  induction h with
  | root level =>
    rw [edgeTarget, edgeTarget, (level.edges edge hedge).contains_eq,
      (level.edges edge hedge).target_eq]
  | branch level parent ih =>
    rw [edgeTarget, edgeTarget, (level.edges edge hedge).contains_eq,
      (level.edges edge hedge).target_eq, ih]

end Edges

/-- **Snapshots that agree on a part answer every read of its kinds alike.** -/
theorem sameReadsOn (h : a.SameOn part b) : a.SameReadsOn part b where
  generation := h.level.generation
  worldline := h.level.worldline
  validAt := h.level.validAt
  knownAt := h.level.knownAt
  nodeExtent tag htag := by
    rw [nodeExtent, nodeExtent, DeltaStore.nodeExtent, DeltaStore.nodeExtent,
      h.level.nodes tag htag]
  edgeExtent edge hedge := (h.level.edges edge hedge).extent
  contains tag htag := h.contains_eq htag
  property tag htag := by
    funext key id
    exact h.property_eq htag key id
  sourceCandidates tag htag := h.sourceCandidates_eq htag
  propertyCandidates tag htag key value predicate :=
    h.propertyCandidates_eq key value predicate htag
  estimatePropertyCandidates tag htag key value predicate :=
    h.estimatePropertyCandidates_eq key value predicate htag
  outgoing edge hedge := by
    funext source
    exact h.incident_eq hedge .outgoing source
  incoming edge hedge := by
    funext target
    exact h.incident_eq hedge .incoming target
  edgeTarget edge hedge := by
    funext id
    exact h.edgeTarget_eq hedge id

end SameOn

end Snapshot

end Memorial
