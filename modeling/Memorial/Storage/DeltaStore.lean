import Memorial.Library.Runs
import Memorial.Storage.AdjacencyStore
import Memorial.Storage.SelectionIndex

/-!
# Delta stores

`delta_store`: one temporal node store per declared node kind and one adjacency store per
declared edge kind, still being written.

* `branchFrom` — an empty delta whose ids continue those of a parent;
* `appendEdge` — an endpoint is accepted when it is a row of this delta, or when it lies below
  the id base, where it is taken on trust;
* `DeltaCall`, `applyCall` — the calls that write a delta, as one step function;
* `WellFormed` — well-formed stores, and no edge endpoint beyond the node extents;
* `WellFormed.applyCall` — **PROVED**: every call keeps it, refused and thrown ones included.
-/

namespace Memorial

open Library

variable {C : TypeSystem} {S : GraphSchema C}

/-- `delta_store<Schema>`. -/
structure DeltaStore (S : GraphSchema C) where
  nodes : (tag : S.Tag) → DeltaNodeStore (GraphSchema.node tag)
  edges : (edge : S.Edge) → AdjacencyStore (GraphSchema.edge edge)

namespace DeltaStore

/-- `branch_from`: `initialize_node_bases` and `initialize_edge_bases`, given the extents of the
parent. -/
def branchFrom (nodeExtent : S.Tag → ℕ) (edgeExtent : S.Edge → ℕ) : DeltaStore S :=
  { nodes := fun tag => .empty (nodeExtent tag)
    edges := fun edge => .empty (edgeExtent edge) }

/-- `delta_store()`. -/
def empty : DeltaStore S := branchFrom (fun _ => 0) (fun _ => 0)

def nodeExtent (delta : DeltaStore S) (tag : S.Tag) : ℕ := (delta.nodes tag).extent

def edgeExtent (delta : DeltaStore S) (edge : S.Edge) : ℕ := (delta.edges edge).extent

/-- `build_indices`. -/
def buildIndices (delta : DeltaStore S) : DeltaStore S :=
  { nodes := fun tag => (delta.nodes tag).buildIndices
    edges := fun edge => (delta.edges edge).buildStatistics }

/-- Writing through the reference `nodes<Tag>()` returns. -/
def setNodes (delta : DeltaStore S) (tag : S.Tag)
    (store : DeltaNodeStore (GraphSchema.node tag)) : DeltaStore S :=
  { delta with nodes := Function.update delta.nodes tag store }

/-- Writing through the reference `mutable_edges<Edge>()` returns. -/
def setEdges (delta : DeltaStore S) (edge : S.Edge)
    (store : AdjacencyStore (GraphSchema.edge edge)) : DeltaStore S :=
  { delta with edges := Function.update delta.edges edge store }

@[simp]
theorem nodes_setNodes (delta : DeltaStore S) (tag : S.Tag)
    (store : DeltaNodeStore (GraphSchema.node tag)) :
    (delta.setNodes tag store).nodes = Function.update delta.nodes tag store := rfl

@[simp]
theorem edges_setNodes (delta : DeltaStore S) (tag : S.Tag)
    (store : DeltaNodeStore (GraphSchema.node tag)) :
    (delta.setNodes tag store).edges = delta.edges := rfl

@[simp]
theorem nodes_setEdges (delta : DeltaStore S) (edge : S.Edge)
    (store : AdjacencyStore (GraphSchema.edge edge)) :
    (delta.setEdges edge store).nodes = delta.nodes := rfl

@[simp]
theorem edges_setEdges (delta : DeltaStore S) (edge : S.Edge)
    (store : AdjacencyStore (GraphSchema.edge edge)) :
    (delta.setEdges edge store).edges = Function.update delta.edges edge store := rfl

@[simp]
theorem nodeExtent_setEdges (delta : DeltaStore S) (edge : S.Edge)
    (store : AdjacencyStore (GraphSchema.edge edge)) :
    (delta.setEdges edge store).nodeExtent = delta.nodeExtent := rfl

/-- `nodes<Tag>().append(...)`. -/
def appendNode (delta : DeltaStore S) (tag : S.Tag) (row : RowMetadata)
    (values : PropertyValues (GraphSchema.node tag).properties) (fault : Option ℕ) :
    DeltaStore S × Outcome NodeId :=
  let (store, outcome) := (delta.nodes tag).append row values fault
  (delta.setNodes tag store, outcome)

/-- `endpoint_exists`. -/
def endpointExists (delta : DeltaStore S) (tag : S.Tag) (id : NodeId) : Bool :=
  id.isValid && (decide (id.toSize < (delta.nodes tag).idBase) || (delta.nodes tag).contains id)

/-- The checks of `append_edge`. -/
def checkEndpoints (delta : DeltaStore S) (edge : S.Edge) (source target : NodeId) :
    Result Unit := do
  let sources := delta.nodes (GraphSchema.source edge)
  let targets := delta.nodes (GraphSchema.target edge)
  if !delta.endpointExists (GraphSchema.source edge) source ||
      !delta.endpointExists (GraphSchema.target edge) target then
    .error { code := .idNotFound, detail := "edge endpoint does not exist" }
  else if sources.contains source && targets.contains target then
    let sourceWorldline ← sources.worldline source
    let targetWorldline ← targets.worldline target
    if sourceWorldline ≠ targetWorldline then
      .error
        { code := .worldlineMismatch, detail := "edge endpoints belong to different worldlines" }
    else .ok ()
  else .ok ()

/-- `append_edge`. -/
def appendEdge (delta : DeltaStore S) (edge : S.Edge) (source target : NodeId)
    (values : PropertyValues (GraphSchema.edge edge).properties) (fault : Option ℕ) :
    DeltaStore S × Outcome EdgeId :=
  match delta.checkEndpoints edge source target with
  | .error error => (delta, .returned (.error error))
  | .ok () =>
    let (store, outcome) := (delta.edges edge).append source target values fault
    (delta.setEdges edge store, outcome)

/-! ### Calls -/

/-- A call that writes a delta, with the position of the `push_back` that throws. -/
inductive DeltaCall (S : GraphSchema C)
  | appendNode (tag : S.Tag) (row : RowMetadata)
      (values : PropertyValues (GraphSchema.node tag).properties) (fault : Option ℕ)
  | appendEdge (edge : S.Edge) (source target : NodeId)
      (values : PropertyValues (GraphSchema.edge edge).properties) (fault : Option ℕ)
  | buildIndices

/-- The delta after a call. -/
def applyCall (delta : DeltaStore S) : DeltaCall S → DeltaStore S
  | .appendNode tag row values fault => (delta.appendNode tag row values fault).1
  | .appendEdge edge source target values fault =>
    (delta.appendEdge edge source target values fault).1
  | .buildIndices => delta.buildIndices

/-! ### What a call can do -/

theorem appendNode_fst (delta : DeltaStore S) (tag : S.Tag) (row : RowMetadata)
    (values : PropertyValues (GraphSchema.node tag).properties) (fault : Option ℕ) :
    (delta.appendNode tag row values fault).1 =
      delta.setNodes tag ((delta.nodes tag).append row values fault).1 := rfl

/-- An accepted endpoint lies below the extent of its node kind. -/
theorem lt_nodeExtent_of_endpointExists {delta : DeltaStore S} {tag : S.Tag} {id : NodeId}
    (h : delta.endpointExists tag id = true) : id.toSize < delta.nodeExtent tag := by
  rw [endpointExists, Bool.and_eq_true, Bool.or_eq_true, decide_eq_true_eq] at h
  obtain ⟨-, hbelow | hcontains⟩ := h
  · exact lt_of_lt_of_le hbelow (Nat.le_add_right _ _)
  · exact (IdRange.bounds_of_contains hcontains).2

theorem endpointExists_of_checkEndpoints {delta : DeltaStore S} {edge : S.Edge}
    {source target : NodeId} (h : delta.checkEndpoints edge source target = .ok ()) :
    delta.endpointExists (GraphSchema.source edge) source = true ∧
      delta.endpointExists (GraphSchema.target edge) target = true := by
  rw [checkEndpoints] at h
  by_cases hrefused : (!delta.endpointExists (GraphSchema.source edge) source ||
      !delta.endpointExists (GraphSchema.target edge) target) = true
  · rw [if_pos hrefused] at h
    cases h
  · simpa using hrefused

/-- **What `append_edge` does**: with accepted endpoints, one append to the adjacency store of the
edge kind; otherwise nothing. -/
theorem appendEdge_cases (delta : DeltaStore S) (edge : S.Edge) (source target : NodeId)
    (values : PropertyValues (GraphSchema.edge edge).properties) (fault : Option ℕ) :
    (delta.appendEdge edge source target values fault).1 = delta ∨
    (delta.endpointExists (GraphSchema.source edge) source = true ∧
      delta.endpointExists (GraphSchema.target edge) target = true ∧
      (delta.appendEdge edge source target values fault).1 =
        delta.setEdges edge ((delta.edges edge).append source target values fault).1) := by
  rw [appendEdge]
  cases hcheck : delta.checkEndpoints edge source target with
  | error error => exact Or.inl rfl
  | ok =>
    obtain ⟨hsource, htarget⟩ := endpointExists_of_checkEndpoints hcheck
    exact Or.inr ⟨hsource, htarget, rfl⟩

/-! ### The invariant -/

/-- Well-formed stores, and every stored endpoint below the extent of its node kind. -/
structure WellFormed (delta : DeltaStore S) : Prop where
  nodes : ∀ tag, (delta.nodes tag).WellFormed
  edges : ∀ edge, (delta.edges edge).WellFormed
  endpoints : ∀ edge, ∀ e ∈ (delta.edges edge).storedEdges,
    e.source.toSize < delta.nodeExtent (GraphSchema.source edge) ∧
      e.target.toSize < delta.nodeExtent (GraphSchema.target edge)

theorem wellFormed_branchFrom (nodeExtent : S.Tag → ℕ) (edgeExtent : S.Edge → ℕ) :
    (branchFrom nodeExtent edgeExtent).WellFormed where
  nodes _ := DeltaNodeStore.wellFormed_empty _
  edges _ := AdjacencyStore.wellFormed_empty _
  endpoints edge e he := by
    have hnone : ((branchFrom nodeExtent edgeExtent).edges edge).storedEdges = [] := rfl
    rw [hnone] at he
    cases he

theorem wellFormed_empty : (empty : DeltaStore S).WellFormed := wellFormed_branchFrom _ _

theorem WellFormed.buildIndices {delta : DeltaStore S} (h : delta.WellFormed) :
    delta.buildIndices.WellFormed where
  nodes tag := (h.nodes tag).buildIndices
  edges edge := (h.edges edge).buildStatistics
  endpoints := h.endpoints

/-- Appending a row does not lower the extent of a node store. -/
theorem extent_le_append {node : NodeSpec C} (store : DeltaNodeStore node) (row : RowMetadata)
    (values : PropertyValues node.properties) (fault : Option ℕ) :
    store.extent ≤ (store.append row values fault).1.extent := by
  rcases DeltaNodeStore.append_cases store row values fault with ⟨-, -, heq⟩ | ⟨heq | heq, -⟩
  · rw [heq]
    exact Nat.le_succ _
  · rw [heq]
  · rw [heq]
    exact le_rfl

theorem nodeExtent_le_appendNode (delta : DeltaStore S) (tag other : S.Tag) (row : RowMetadata)
    (values : PropertyValues (GraphSchema.node tag).properties) (fault : Option ℕ) :
    delta.nodeExtent other ≤ (delta.appendNode tag row values fault).1.nodeExtent other := by
  rw [nodeExtent, nodeExtent, appendNode_fst, nodes_setNodes]
  by_cases hother : other = tag
  · subst hother
    rw [Function.update_self]
    exact extent_le_append _ _ _ _
  · rw [Function.update_of_ne hother]

theorem WellFormed.appendNode {delta : DeltaStore S} (h : delta.WellFormed) (tag : S.Tag)
    (row : RowMetadata) (values : PropertyValues (GraphSchema.node tag).properties)
    (fault : Option ℕ) : (delta.appendNode tag row values fault).1.WellFormed where
  nodes other := by
    rw [appendNode_fst, nodes_setNodes]
    by_cases hother : other = tag
    · subst hother
      rw [Function.update_self]
      exact (h.nodes other).append row values fault
    · rw [Function.update_of_ne hother]
      exact h.nodes other
  edges := h.edges
  endpoints edge e he := by
    obtain ⟨hsource, htarget⟩ := h.endpoints edge e he
    exact ⟨hsource.trans_le (nodeExtent_le_appendNode _ _ _ _ _ _),
      htarget.trans_le (nodeExtent_le_appendNode _ _ _ _ _ _)⟩

theorem WellFormed.appendEdge {delta : DeltaStore S} (h : delta.WellFormed) (edge : S.Edge)
    (source target : NodeId) (values : PropertyValues (GraphSchema.edge edge).properties)
    (fault : Option ℕ) : (delta.appendEdge edge source target values fault).1.WellFormed := by
  rcases appendEdge_cases delta edge source target values fault with
    heq | ⟨hsource, htarget, heq⟩
  · rw [heq]
    exact h
  · rw [heq]
    refine ⟨h.nodes, ?_, ?_⟩
    · intro other
      rw [edges_setEdges]
      by_cases hother : other = edge
      · subst hother
        rw [Function.update_self]
        exact (h.edges other).append source target values fault
      · rw [Function.update_of_ne hother]
        exact h.edges other
    · intro other e he
      rw [edges_setEdges] at he
      rw [nodeExtent_setEdges]
      by_cases hother : other = edge
      · subst hother
        rw [Function.update_self] at he
        -- the only edge that may be new is the one whose endpoints were just checked
        rcases AdjacencyStore.append_cases (delta.edges other) source target values fault with
          ⟨-, -, -, hpush⟩ | ⟨hsame, -⟩
        · rw [hpush, (h.edges other).storedEdges_pushEdge, List.mem_append,
            List.mem_singleton] at he
          rcases he with hold | rfl
          · exact h.endpoints other e hold
          · exact ⟨lt_nodeExtent_of_endpointExists hsource,
              lt_nodeExtent_of_endpointExists htarget⟩
        · rw [hsame.storedEdges] at he
          exact h.endpoints other e he
      · rw [Function.update_of_ne hother] at he
        exact h.endpoints other e he

/-- **Every call keeps the invariant.** -/
theorem WellFormed.applyCall {delta : DeltaStore S} (h : delta.WellFormed) (call : DeltaCall S) :
    (delta.applyCall call).WellFormed := by
  cases call with
  | appendNode tag row values fault => exact h.appendNode tag row values fault
  | appendEdge edge source target values fault => exact h.appendEdge edge source target values fault
  | buildIndices => exact h.buildIndices

/-- **Every run of calls keeps the invariant.** -/
theorem wellFormed_run {delta : DeltaStore S} (h : delta.WellFormed)
    (calls : List (DeltaCall S)) : (run applyCall delta calls).WellFormed :=
  run_invariant applyCall WellFormed (fun _ call h => WellFormed.applyCall h call) calls h

/-! ### Bases never move -/

/-- The id bases of two deltas agree. -/
structure SameBases (a b : DeltaStore S) : Prop where
  nodes : ∀ tag, (a.nodes tag).idBase = (b.nodes tag).idBase
  edges : ∀ edge, (a.edges edge).idBase = (b.edges edge).idBase

theorem idBase_append {node : NodeSpec C} (store : DeltaNodeStore node) (row : RowMetadata)
    (values : PropertyValues node.properties) (fault : Option ℕ) :
    (store.append row values fault).1.idBase = store.idBase := by
  rcases DeltaNodeStore.append_cases store row values fault with ⟨-, -, heq⟩ | ⟨heq | heq, -⟩ <;>
    rw [heq] <;> rfl

theorem idBase_append_edge {edge : EdgeSpec C} (store : AdjacencyStore edge)
    (source target : NodeId) (values : PropertyValues edge.properties) (fault : Option ℕ) :
    (store.append source target values fault).1.idBase = store.idBase := by
  rcases AdjacencyStore.append_cases store source target values fault with
    ⟨-, -, -, heq⟩ | ⟨hsame, -⟩
  · rw [heq]
    rfl
  · exact hsame.idBase

theorem sameBases_applyCall (delta : DeltaStore S) (call : DeltaCall S) :
    SameBases (delta.applyCall call) delta := by
  cases call with
  | appendNode tag row values fault =>
    refine ⟨?_, fun _ => rfl⟩
    intro other
    by_cases hother : other = tag
    · subst hother
      rw [applyCall, appendNode_fst, nodes_setNodes, Function.update_self]
      exact idBase_append _ _ _ _
    · rw [applyCall, appendNode_fst, nodes_setNodes, Function.update_of_ne hother]
  | appendEdge edge source target values fault =>
    rcases appendEdge_cases delta edge source target values fault with heq | ⟨-, -, heq⟩
    · rw [applyCall, heq]
      exact ⟨fun _ => rfl, fun _ => rfl⟩
    · rw [applyCall, heq]
      refine ⟨fun _ => rfl, ?_⟩
      intro other
      rw [edges_setEdges]
      by_cases hother : other = edge
      · subst hother
        rw [Function.update_self]
        exact idBase_append_edge _ _ _ _ _
      · rw [Function.update_of_ne hother]
  | buildIndices => exact ⟨fun _ => rfl, fun _ => rfl⟩

/-- The bases after any run of calls are those the delta was made with. -/
theorem sameBases_run (delta : DeltaStore S) (calls : List (DeltaCall S)) :
    SameBases (run applyCall delta calls) delta := by
  have hkept : ∀ d call, SameBases d delta → SameBases (applyCall d call) delta := by
    intro d call hd
    have hstep := sameBases_applyCall d call
    exact ⟨fun tag => (hstep.nodes tag).trans (hd.nodes tag),
      fun edge => (hstep.edges edge).trans (hd.edges edge)⟩
  exact run_invariant applyCall (SameBases · delta) hkept calls ⟨fun _ => rfl, fun _ => rfl⟩

end DeltaStore

end Memorial
