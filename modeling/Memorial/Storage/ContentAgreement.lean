import Memorial.Library.Simulation
import Memorial.Storage.KindAgreement
import Memorial.Storage.Session

/-!
# Equal contents

What a delta is for are its rows and its edges.  Next to them it keeps what it derives from them:
selection indices and a flag that says whether they are current, statistics, and in the hash maps
of its adjacency stores the empty entries that failed appends leave.

* `DeltaStore.SameContents`, `Snapshot.SameContents` — equal rows and edges, level by level;
* `DeltaStore.stores`, `DeltaCall.withoutFault` — the writes that are accepted, and the same write
  with nothing that throws;
* `sameContents_of_not_stores`, `SameContents.applyCall_withoutFault` — **PROVED**: a write that
  stores nothing keeps the contents, and one that does adds the same to equal contents;
* `Snapshot.SameReads`, `Snapshot.SameContents.sameReads` — **PROVED**: equal contents answer every
  read alike, with its error, but for the estimate of a traversal.
-/

namespace Memorial

open Library

variable {C : TypeSystem} {S : GraphSchema C}

/-! ### Deltas -/

/-- The same rows and edges. -/
structure DeltaStore.SameContents (a b : DeltaStore S) : Prop where
  nodes : ∀ tag, (a.nodes tag).nodes = (b.nodes tag).nodes
  metadata : ∀ tag, (a.nodes tag).metadata = (b.nodes tag).metadata
  edges : ∀ edge, (a.edges edge).SameEdges (b.edges edge)

namespace AdjacencyStore

variable {edge : EdgeSpec C}

theorem SameEdges.symm {a b : AdjacencyStore edge} (h : SameEdges a b) : SameEdges b a where
  columns := h.columns.symm
  idBase := h.idBase.symm
  size := h.size.symm
  outgoing source := (h.outgoing source).symm
  incoming target := (h.incoming target).symm

theorem SameEdges.trans {a b c : AdjacencyStore edge} (h : SameEdges a b) (h' : SameEdges b c) :
    SameEdges a c where
  columns := h.columns.trans h'.columns
  idBase := h.idBase.trans h'.idBase
  size := h.size.trans h'.size
  outgoing source := (h.outgoing source).trans (h'.outgoing source)
  incoming target := (h.incoming target).trans (h'.incoming target)

/-- One more edge on both sides. -/
theorem SameEdges.pushEdge {a b : AdjacencyStore edge} (h : SameEdges a b)
    (source target : NodeId) (values : PropertyValues edge.properties) :
    SameEdges (a.pushEdge source target values) (b.pushEdge source target values) where
  columns := by
    show a.columns.push source target values = b.columns.push source target values
    rw [h.columns]
  idBase := h.idBase
  size := congrArg (· + 1) h.size
  outgoing node := by
    have hfind : ∀ key, a.outgoingIndex.find key = b.outgoingIndex.find key := h.outgoing
    show VectorMap.find (a.outgoingIndex.pushBack source (.ofSize a.extent)) node =
      VectorMap.find (b.outgoingIndex.pushBack source (.ofSize b.extent)) node
    rw [VectorMap.find_pushBack, VectorMap.find_pushBack, hfind, hfind, h.extent]
  incoming node := by
    have hfind : ∀ key, a.incomingIndex.find key = b.incomingIndex.find key := h.incoming
    show VectorMap.find (a.incomingIndex.pushBack target (.ofSize a.extent)) node =
      VectorMap.find (b.incomingIndex.pushBack target (.ofSize b.extent)) node
    rw [VectorMap.find_pushBack, VectorMap.find_pushBack, hfind, hfind, h.extent]

/-- With nothing that throws, the checks decide. -/
theorem append_none {store : AdjacencyStore edge} {source target : NodeId}
    (hsource : source.isValid = true) (htarget : target.isValid = true)
    (hcapacity : store.extent < StrongId.capacity 32) (values : PropertyValues edge.properties) :
    store.append source target values none =
      (store.pushEdge source target values, .returned (.ok (.ofSize store.extent))) := by
  have hcapacity' : ¬store.extent ≥ StrongId.capacity 32 := not_le.mpr hcapacity
  simp only [append, hsource, htarget, attemptAll_eq, EdgeColumns.applyAll_pushColumns,
    if_neg hcapacity']
  rfl

end AdjacencyStore

/-- The same, for rows. -/
theorem DeltaNodeStore.append_none {node : NodeSpec C} {store : DeltaNodeStore node}
    {row : RowMetadata} (hworldline : row.worldline.isValid = true)
    (hcapacity : store.extent < StrongId.capacity 32) (values : PropertyValues node.properties) :
    store.append row values none =
      (store.pushRow row values, .returned (.ok (.ofSize store.extent))) := by
  have hcapacity' : ¬store.extent ≥ StrongId.capacity 32 := not_le.mpr hcapacity
  rw [append_eq, hworldline, if_neg (by decide), if_neg hcapacity']
  rfl

namespace DeltaStore

theorem SameContents.refl (delta : DeltaStore S) : delta.SameContents delta :=
  ⟨fun _ => rfl, fun _ => rfl, fun _ => .refl _⟩

theorem SameContents.symm {a b : DeltaStore S} (h : a.SameContents b) : b.SameContents a :=
  ⟨fun tag => (h.nodes tag).symm, fun tag => (h.metadata tag).symm, fun edge => (h.edges edge).symm⟩

theorem SameContents.trans {a b c : DeltaStore S} (h : a.SameContents b) (h' : b.SameContents c) :
    a.SameContents c :=
  ⟨fun tag => (h.nodes tag).trans (h'.nodes tag),
    fun tag => (h.metadata tag).trans (h'.metadata tag),
    fun edge => (h.edges edge).trans (h'.edges edge)⟩

/-- The write is accepted: it stores a row or an edge. -/
def stores (delta : DeltaStore S) : DeltaCall S → Bool
  | .appendNode tag row values fault => (delta.appendNode tag row values fault).2.accepted.isSome
  | .appendEdge edge source target values fault =>
    (delta.appendEdge edge source target values fault).2.accepted.isSome
  | .buildIndices => false

/-- The same write, with nothing that throws. -/
def DeltaCall.withoutFault : DeltaCall S → DeltaCall S
  | .appendNode tag row values _ => .appendNode tag row values none
  | .appendEdge edge source target values _ => .appendEdge edge source target values none
  | .buildIndices => .buildIndices

/-! ### What a write does to the contents -/

section Updates

variable {a b : DeltaStore S}

/-- Contents that agree still do when one node store is replaced on the left. -/
theorem SameContents.setNodes_left (h : a.SameContents b) {tag : S.Tag}
    {store : DeltaNodeStore (GraphSchema.node tag)} (hnodes : store.nodes = (a.nodes tag).nodes)
    (hmetadata : store.metadata = (a.nodes tag).metadata) :
    (a.setNodes tag store).SameContents b where
  nodes := (Function.forall_update_iff a.nodes (fun other store =>
    store.nodes = (b.nodes other).nodes)).mpr
      ⟨hnodes.trans (h.nodes tag), fun other _ => h.nodes other⟩
  metadata := (Function.forall_update_iff a.nodes (fun other store =>
    store.metadata = (b.nodes other).metadata)).mpr
      ⟨hmetadata.trans (h.metadata tag), fun other _ => h.metadata other⟩
  edges := h.edges

/-- One more row on both sides. -/
theorem SameContents.pushRow (h : a.SameContents b) (tag : S.Tag) (row : RowMetadata)
    (values : PropertyValues (GraphSchema.node tag).properties) :
    (a.setNodes tag ((a.nodes tag).pushRow row values)).SameContents
      (b.setNodes tag ((b.nodes tag).pushRow row values)) where
  nodes := by
    have hpush : ((a.nodes tag).pushRow row values).nodes =
        ((b.nodes tag).pushRow row values).nodes := by
      show (a.nodes tag).nodes.pushRow values = (b.nodes tag).nodes.pushRow values
      rw [h.nodes tag]
    exact related_update (R := fun other (store store' : DeltaNodeStore (GraphSchema.node other)) =>
      store.nodes = store'.nodes) h.nodes hpush
  metadata := by
    have hpush : ((a.nodes tag).pushRow row values).metadata =
        ((b.nodes tag).pushRow row values).metadata := by
      show (a.nodes tag).metadata.push row = (b.nodes tag).metadata.push row
      rw [h.metadata tag]
    exact related_update (R := fun other (store store' : DeltaNodeStore (GraphSchema.node other)) =>
      store.metadata = store'.metadata) h.metadata hpush
  edges := h.edges

/-- Adjacency stores that agree, put in place on both sides. -/
theorem SameContents.setEdges (h : a.SameContents b) {edge : S.Edge}
    {store store' : AdjacencyStore (GraphSchema.edge edge)} (hstore : store.SameEdges store') :
    (a.setEdges edge store).SameContents (b.setEdges edge store') where
  nodes := h.nodes
  metadata := h.metadata
  edges := related_update h.edges hstore

theorem setEdges_self (delta : DeltaStore S) (edge : S.Edge) :
    delta.setEdges edge (delta.edges edge) = delta := by
  rw [DeltaStore.setEdges, Function.update_eq_self]

/-! ### The checks of `append_edge` -/

theorem SameContents.extent_eq (h : a.SameContents b) (tag : S.Tag) :
    (a.nodes tag).extent = (b.nodes tag).extent := by
  rw [DeltaNodeStore.extent, DeltaNodeStore.extent, h.nodes tag]

theorem SameContents.contains_eq (h : a.SameContents b) (tag : S.Tag) (id : NodeId) :
    (a.nodes tag).contains id = (b.nodes tag).contains id := by
  rw [DeltaNodeStore.contains, DeltaNodeStore.contains, h.nodes tag]

theorem SameContents.worldline_eq (h : a.SameContents b) (tag : S.Tag) (id : NodeId) :
    (a.nodes tag).worldline id = (b.nodes tag).worldline id := by
  rw [DeltaNodeStore.worldline, DeltaNodeStore.worldline, DeltaNodeStore.checkedRow,
    DeltaNodeStore.checkedRow, h.nodes tag, h.metadata tag]

theorem SameContents.endpointExists_eq (h : a.SameContents b) (tag : S.Tag) (id : NodeId) :
    a.endpointExists tag id = b.endpointExists tag id := by
  rw [endpointExists, endpointExists, h.contains_eq tag id, DeltaNodeStore.idBase,
    DeltaNodeStore.idBase, h.nodes tag]

theorem SameContents.checkEndpoints_eq (h : a.SameContents b) (edge : S.Edge)
    (source target : NodeId) :
    a.checkEndpoints edge source target = b.checkEndpoints edge source target := by
  simp only [checkEndpoints, h.endpointExists_eq, h.contains_eq, h.worldline_eq]

/-! ### Writes -/

theorem appendNode_snd (delta : DeltaStore S) (tag : S.Tag) (row : RowMetadata)
    (values : PropertyValues (GraphSchema.node tag).properties) (fault : Option ℕ) :
    (delta.appendNode tag row values fault).2 = ((delta.nodes tag).append row values fault).2 := rfl

/-- With accepted endpoints `append_edge` is one append to the adjacency store. -/
theorem appendEdge_of_checked {delta : DeltaStore S} {edge : S.Edge} {source target : NodeId}
    (hcheck : delta.checkEndpoints edge source target = .ok ())
    (values : PropertyValues (GraphSchema.edge edge).properties) (fault : Option ℕ) :
    delta.appendEdge edge source target values fault =
      (delta.setEdges edge ((delta.edges edge).append source target values fault).1,
        ((delta.edges edge).append source target values fault).2) := by
  rw [appendEdge, hcheck]

theorem appendEdge_of_refused {delta : DeltaStore S} {edge : S.Edge} {source target : NodeId}
    {error : GraphError} (hcheck : delta.checkEndpoints edge source target = .error error)
    (values : PropertyValues (GraphSchema.edge edge).properties) (fault : Option ℕ) :
    delta.appendEdge edge source target values fault = (delta, .returned (.error error)) := by
  rw [appendEdge, hcheck]

/-- **A write that stores nothing keeps the contents**, whether it is refused, throws or only
builds indices. -/
theorem sameContents_of_not_stores {delta : DeltaStore S} {call : DeltaCall S}
    (h : delta.stores call = false) : (delta.applyCall call).SameContents delta := by
  cases call with
  | appendNode tag row values fault =>
    rw [applyCall, appendNode_fst]
    rcases DeltaNodeStore.append_cases (delta.nodes tag) row values fault with
      ⟨-, -, heq⟩ | ⟨heq | heq, -⟩
    · rw [stores, appendNode_snd, heq] at h
      cases h
    · rw [heq]
      exact (SameContents.refl delta).setNodes_left rfl rfl
    · rw [heq]
      exact (SameContents.refl delta).setNodes_left rfl rfl
  | appendEdge edge source target values fault =>
    rw [applyCall]
    cases hcheck : delta.checkEndpoints edge source target with
    | error error =>
      rw [appendEdge_of_refused hcheck]
      exact .refl delta
    | ok =>
      rw [appendEdge_of_checked hcheck]
      rcases AdjacencyStore.append_cases (delta.edges edge) source target values fault with
        ⟨-, -, -, heq⟩ | ⟨hsame, -⟩
      · rw [stores, appendEdge_of_checked hcheck, heq] at h
        cases h
      · have hset := (SameContents.refl delta).setEdges hsame
        rw [setEdges_self] at hset
        exact hset
  | buildIndices =>
    exact ⟨fun _ => rfl, fun _ => rfl, fun _ => ⟨rfl, rfl, rfl, fun _ => rfl, fun _ => rfl⟩⟩

/-- **A write that is accepted adds the same to equal contents**, where it is accepted as well, and
nothing has to throw for that. -/
theorem SameContents.applyCall_withoutFault {a b : DeltaStore S} (h : a.SameContents b)
    {call : DeltaCall S} (hstores : a.stores call = true) :
    b.stores call.withoutFault = true ∧
      (a.applyCall call).SameContents (b.applyCall call.withoutFault) := by
  cases call with
  | appendNode tag row values fault =>
    rw [applyCall, DeltaCall.withoutFault, applyCall, appendNode_fst, appendNode_fst, stores,
      appendNode_snd]
    rcases DeltaNodeStore.append_cases (a.nodes tag) row values fault with
      ⟨hcapacity, hworldline, heq⟩ | ⟨-, hnone⟩
    · rw [h.extent_eq tag] at hcapacity
      rw [heq, DeltaNodeStore.append_none hworldline hcapacity]
      exact ⟨rfl, h.pushRow tag row values⟩
    · rw [stores, appendNode_snd, hnone] at hstores
      cases hstores
  | appendEdge edge source target values fault =>
    rw [applyCall, DeltaCall.withoutFault, applyCall, stores]
    cases hcheck : a.checkEndpoints edge source target with
    | error error =>
      rw [stores, appendEdge_of_refused hcheck] at hstores
      cases hstores
    | ok =>
      have hcheck' := (h.checkEndpoints_eq edge source target).symm.trans hcheck
      rw [appendEdge_of_checked hcheck, appendEdge_of_checked hcheck']
      rcases AdjacencyStore.append_cases (a.edges edge) source target values fault with
        ⟨hcapacity, hsource, htarget, heq⟩ | ⟨-, hnone⟩
      · rw [(h.edges edge).extent] at hcapacity
        rw [heq, AdjacencyStore.append_none hsource htarget hcapacity]
        exact ⟨rfl, h.setEdges ((h.edges edge).pushEdge source target values)⟩
      · rw [stores, appendEdge_of_checked hcheck, hnone] at hstores
        cases hstores
  | buildIndices => cases hstores

end Updates

end DeltaStore

/-! ### Snapshots -/

/-- Equal contents under equal coordinates; after `build_indices` the node stores are equal. -/
structure Level.SameContents (a b : Level S) : Prop where
  generation : a.generation = b.generation
  worldline : a.worldline = b.worldline
  validAt : a.validAt = b.validAt
  knownAt : a.knownAt = b.knownAt
  nodes : a.data.nodes = b.data.nodes
  edges : ∀ edge, (a.data.edges edge).SameEdges (b.data.edges edge)

/-- `build_indices` derives everything anew. -/
theorem DeltaNodeStore.buildIndices_eq {node : NodeSpec C} {a b : DeltaNodeStore node}
    (hnodes : a.nodes = b.nodes) (hmetadata : a.metadata = b.metadata) :
    a.buildIndices = b.buildIndices := by
  obtain ⟨nodes, metadata, _, _, _, _, _⟩ := a
  obtain ⟨nodes', metadata', _, _, _, _, _⟩ := b
  obtain rfl : nodes = nodes' := hnodes
  obtain rfl : metadata = metadata' := hmetadata
  rfl

/-- Deltas of equal contents are published as levels of equal contents. -/
theorem DeltaStore.SameContents.level {a b : DeltaStore S} (h : a.SameContents b)
    (generation : GenerationId) (worldline : WorldlineId) (validAt knownAt : Timestamp) :
    Level.SameContents { generation, worldline, validAt, knownAt, data := a.buildIndices }
      { generation, worldline, validAt, knownAt, data := b.buildIndices } where
  generation := rfl
  worldline := rfl
  validAt := rfl
  knownAt := rfl
  nodes := by
    funext tag
    exact DeltaNodeStore.buildIndices_eq (h.nodes tag) (h.metadata tag)
  edges edge := by
    obtain ⟨hcolumns, hidBase, hsize, houtgoing, hincoming⟩ := h.edges edge
    exact ⟨hcolumns, hidBase, hsize, houtgoing, hincoming⟩

namespace Snapshot

/-- Chains of the same length with levels of equal contents. -/
inductive SameContents : Snapshot S → Snapshot S → Prop
  | root {a b : Level S} (level : a.SameContents b) : SameContents (.root a) (.root b)
  | branch {a b : Level S} {aParent bParent : Snapshot S} (level : a.SameContents b)
      (parent : SameContents aParent bParent) :
      SameContents (.branch a aParent) (.branch b bParent)

/-- Every read of the two snapshots returns the same, but for `estimate_traversal_cardinality`,
which also counts the entries that failed appends leave. -/
structure SameReads (a b : Snapshot S) : Prop where
  generation : a.generation = b.generation
  worldline : a.worldline = b.worldline
  validAt : a.validAt = b.validAt
  knownAt : a.knownAt = b.knownAt
  nodeExtent : a.nodeExtent = b.nodeExtent
  edgeExtent : a.edgeExtent = b.edgeExtent
  contains : a.contains = b.contains
  property : a.property = b.property
  sourceCandidates : a.sourceCandidates = b.sourceCandidates
  propertyCandidates : ∀ {Value : Type} (tag : S.Tag) (key : GraphSchema.Key tag) (value : Value)
    (predicate : GraphSchema.Value tag key → Value → Bool),
    a.propertyCandidates tag key value predicate = b.propertyCandidates tag key value predicate
  estimatePropertyCandidates : ∀ {Value : Type} (tag : S.Tag) (key : GraphSchema.Key tag)
    (value : Value) (predicate : GraphSchema.Value tag key → Value → Bool),
    a.estimatePropertyCandidates tag key value predicate =
      b.estimatePropertyCandidates tag key value predicate
  outgoing : a.outgoing = b.outgoing
  incoming : a.incoming = b.incoming
  edgeTarget : a.edgeTarget = b.edgeTarget

end Snapshot

/-! ### Equal contents read alike -/

theorem Level.SameContents.symm {a b : Level S} (h : a.SameContents b) : b.SameContents a :=
  ⟨h.generation.symm, h.worldline.symm, h.validAt.symm, h.knownAt.symm, h.nodes.symm,
    fun edge => (h.edges edge).symm⟩

theorem Level.SameContents.sameOn {a b : Level S} (h : a.SameContents b) : a.SameOn .whole b where
  generation := h.generation
  worldline := h.worldline
  validAt := h.validAt
  knownAt := h.knownAt
  nodes tag _ := congrFun h.nodes tag
  edges edge _ := h.edges edge

namespace Snapshot

theorem SameContents.symm {a b : Snapshot S} (h : a.SameContents b) : b.SameContents a := by
  induction h with
  | root level => exact .root level.symm
  | branch level parent ih => exact .branch level.symm ih

/-- The parents of snapshots of equal contents have equal contents. -/
theorem SameContents.chain {a b : Snapshot S} (h : a.SameContents b) :
    List.Forall₂ SameContents a.chain b.chain := by
  induction h with
  | root level => exact .cons (.root level) .nil
  | branch level parent ih => exact .cons (.branch level parent) ih

theorem SameContents.sameOn {a b : Snapshot S} (h : a.SameContents b) : a.SameOn .whole b := by
  induction h with
  | root level => exact .root level.sameOn
  | branch level parent ih => exact .branch level.sameOn ih

/-- Snapshots that agree on all kinds agree. -/
theorem SameReadsOn.sameReads {a b : Snapshot S} (h : a.SameReadsOn .whole b) :
    a.SameReads b where
  generation := h.generation
  worldline := h.worldline
  validAt := h.validAt
  knownAt := h.knownAt
  nodeExtent := funext fun tag => h.nodeExtent tag rfl
  edgeExtent := funext fun edge => h.edgeExtent edge rfl
  contains := funext fun tag => h.contains tag rfl
  property := funext fun tag => h.property tag rfl
  sourceCandidates := funext fun tag => h.sourceCandidates tag rfl
  propertyCandidates tag := h.propertyCandidates tag rfl
  estimatePropertyCandidates tag := h.estimatePropertyCandidates tag rfl
  outgoing := funext fun edge => h.outgoing edge rfl
  incoming := funext fun edge => h.incoming edge rfl
  edgeTarget := funext fun edge => h.edgeTarget edge rfl

/-- **Snapshots of equal contents answer every read alike**, but for the estimate of a traversal. -/
theorem SameContents.sameReads {a b : Snapshot S} (h : a.SameContents b) : a.SameReads b :=
  h.sameOn.sameReadsOn.sameReads

end Snapshot

end Memorial
