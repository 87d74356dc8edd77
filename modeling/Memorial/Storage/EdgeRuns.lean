import Memorial.Storage.FailedEdgeAppend

/-!
# Runs of the adjacency store

Every run of `append` and `build_statistics` on a new adjacency store, with any arguments, any id
base, and any `push_back` or insertion that throws.  Like the node store, the store holds a list:
edges under consecutive ids, here filed a second time under both of their ends.

* `acceptedEdges` — the edges that a run was given and returned an id for;
* `StoresEdges`, `storesEdges_run` — **PROVED**: every column of the store is that of those edges;
* `StoresEdges.filed_eq` — **PROVED**: the edges filed under a node are those with the node at that
  end, in id order;
* `EdgeFidelity`, `edgeFidelity` — **PROVED**: edge counts, ids, both indices, and what is read back
  later.
-/

namespace Memorial

open Library

variable {C : TypeSystem} {edge : EdgeSpec C}

namespace AdjacencyStore

/-- A call that may change the store. -/
inductive Write (edge : EdgeSpec C)
  | append (call : Call edge)
  | buildStatistics

/-- What an accepted append was given, and the id that it returned. -/
structure AcceptedEdge (edge : EdgeSpec C) where
  id : EdgeId
  source : NodeId
  target : NodeId
  values : PropertyValues edge.properties

/-- The ids and ends of an accepted edge. -/
def AcceptedEdge.stored (accepted : AcceptedEdge edge) : StoredEdge :=
  ⟨accepted.id, accepted.source, accepted.target⟩

def write (store : AdjacencyStore edge) : Write edge → AdjacencyStore edge
  | .append call => store.step call
  | .buildStatistics => store.buildStatistics

/-- The edge of the call, if it is an append and is accepted. -/
def accepted (store : AdjacencyStore edge) : Write edge → Option (AcceptedEdge edge)
  | .append call =>
    (store.append call.source call.target call.values call.fault).2.accepted.map
      (fun id => ⟨id, call.source, call.target, call.values⟩)
  | .buildStatistics => none

/-- The edges that a run on a new store accepts, in order. -/
def acceptedEdges (idBase : ℕ) (calls : List (Write edge)) : List (AcceptedEdge edge) :=
  outputs write accepted (empty idBase) calls

/-! ### The edges behind the columns -/

/-- The store holds the edges, column by column. -/
structure StoresEdges (store : AdjacencyStore edge) (edges : List (AcceptedEdge edge)) : Prop where
  wellFormed : store.WellFormed
  ids : store.ids.rowIds = edges.map AcceptedEdge.id
  sources : store.columns.sources = edges.map AcceptedEdge.source
  targets : store.columns.targets = edges.map AcceptedEdge.target
  properties : ∀ index, store.columns.properties index = edges.map (fun e => e.values index)

theorem storesEdges_empty (idBase : ℕ) : (empty idBase : AdjacencyStore edge).StoresEdges [] where
  wellFormed := wellFormed_empty idBase
  ids := rfl
  sources := rfl
  targets := rfl
  properties _ := rfl

/-- What holds the same edges holds the same list. -/
theorem StoresEdges.of_sameEdges {a b : AdjacencyStore edge} {edges : List (AcceptedEdge edge)}
    (hb : b.StoresEdges edges) (h : SameEdges a b) : a.StoresEdges edges where
  wellFormed := hb.wellFormed.of_sameEdges h
  ids := by
    rw [AdjacencyStore.ids, h.idBase, h.size]
    exact hb.ids
  sources := by
    rw [h.columns]
    exact hb.sources
  targets := by
    rw [h.columns]
    exact hb.targets
  properties index := by
    rw [h.columns]
    exact hb.properties index

/-- An accepted edge adds one entry to every column. -/
theorem StoresEdges.pushEdge {store : AdjacencyStore edge} {edges : List (AcceptedEdge edge)}
    (h : store.StoresEdges edges) (hcapacity : store.extent < StrongId.capacity 32)
    (source target : NodeId) (values : PropertyValues edge.properties) :
    (store.pushEdge source target values).StoresEdges
      (edges ++ [⟨.ofSize store.extent, source, target, values⟩]) where
  wellFormed := h.wellFormed.pushEdge hcapacity source target values
  ids := by
    rw [List.map_append, ← h.ids]
    exact IdRange.rowIds_succ store.idBase store.size
  sources := by
    rw [List.map_append, ← h.sources]
    rfl
  targets := by
    rw [List.map_append, ← h.targets]
    rfl
  properties index := by
    rw [List.map_append, ← h.properties index]
    rfl

/-- **Every call keeps the columns those of the accepted edges.** -/
theorem StoresEdges.write {store : AdjacencyStore edge} {edges : List (AcceptedEdge edge)}
    (h : store.StoresEdges edges) (call : Write edge) :
    (store.write call).StoresEdges (edges ++ (store.accepted call).toList) := by
  cases call with
  | append call =>
    rw [AdjacencyStore.write, step, accepted]
    rcases append_cases store call.source call.target call.values call.fault with
      ⟨hcapacity, -, -, heq⟩ | ⟨hsame, hnone⟩
    · rw [heq]
      exact h.pushEdge hcapacity call.source call.target call.values
    · rw [hnone, Option.map_none, Option.toList_none, List.append_nil]
      exact h.of_sameEdges hsame
  | buildStatistics =>
    rw [accepted, Option.toList_none, List.append_nil]
    exact h.of_sameEdges ⟨rfl, rfl, rfl, fun _ => rfl, fun _ => rfl⟩

/-- **Every run does**, from any store that holds some edges. -/
theorem StoresEdges.run {store : AdjacencyStore edge} {edges : List (AcceptedEdge edge)}
    (h : store.StoresEdges edges) (calls : List (Write edge)) :
    (run AdjacencyStore.write store calls).StoresEdges
      (edges ++ outputs AdjacencyStore.write accepted store calls) :=
  run_outputs_invariant AdjacencyStore.write accepted StoresEdges (fun _ _ call h => h.write call)
    calls h

theorem storesEdges_run (idBase : ℕ) (calls : List (Write edge)) :
    (run write (empty idBase) calls).StoresEdges (acceptedEdges idBase calls) :=
  (storesEdges_empty idBase).run calls

theorem idBase_write (store : AdjacencyStore edge) (call : Write edge) :
    (store.write call).idBase = store.idBase := by
  cases call with
  | append call =>
    rw [write, step]
    rcases append_cases store call.source call.target call.values call.fault with
      ⟨-, -, -, heq⟩ | ⟨hsame, -⟩
    · rw [heq]
      rfl
    · exact hsame.idBase
  | buildStatistics => rfl

theorem idBase_writes (idBase : ℕ) (calls : List (Write edge)) :
    (run write (empty idBase : AdjacencyStore edge) calls).idBase = idBase :=
  run_invariant write (fun store : AdjacencyStore edge => store.idBase = idBase)
    (fun store call h => (store.idBase_write call).trans h) calls rfl

/-! ### Edge fidelity -/

section StoresEdges

variable {store : AdjacencyStore edge} {edges : List (AcceptedEdge edge)}

/-- The stored edges are the accepted ones. -/
theorem StoresEdges.storedEdges_eq (h : store.StoresEdges edges) :
    store.storedEdges = edges.map AcceptedEdge.stored := by
  rw [storedEdges, h.ids, h.sources, h.targets, List.zip_map', List.zipWith_map,
    List.zipWith_self]
  rfl

theorem StoresEdges.length_eq (h : store.StoresEdges edges) : edges.length = store.size := by
  rw [← List.length_map (f := AcceptedEdge.id), ← h.ids, IdRange.length_rowIds]
  rfl

/-- **The edges filed under a node are those that have it at that end**, in id order. -/
theorem StoresEdges.filed_eq (h : store.StoresEdges edges) (direction : Direction)
    (node : NodeId) :
    store.filed direction node =
      (edges.filter (fun e => e.stored.near direction = node)).map AcceptedEdge.id := by
  rw [h.wellFormed.filed, h.storedEdges_eq, List.filter_map, List.map_map]
  rfl

/-- The id of an accepted edge is the id base and its position. -/
theorem StoresEdges.toSize_id (h : store.StoresEdges edges) {k : ℕ} {e : AcceptedEdge edge}
    (hk : edges[k]? = some e) :
    store.contains e.id = true ∧ e.id.toSize = store.idBase + k := by
  have hlt : k < store.ids.size := by
    have hlength : k < edges.length := (List.getElem?_eq_some_iff.mp hk).1
    rw [h.length_eq] at hlength
    exact hlength
  have hids : (store.ids.rowIds : List EdgeId)[k]? = (edges.map AcceptedEdge.id)[k]? := by
    rw [h.ids]
  have hrange : (List.range store.ids.size)[k]? = some k := List.getElem?_range hlt
  rw [IdRange.rowIds, List.getElem?_map, List.getElem?_map, hk, hrange] at hids
  have hid : store.ids.rowId k = e.id := Option.some.inj hids
  rw [← hid]
  exact ⟨IdRange.contains_rowId h.wellFormed.fits hlt,
    IdRange.toSize_rowId h.wellFormed.fits hlt⟩

end StoresEdges

/-- Every accessor returns, under the edge's id, what the append was given. -/
structure ReadsBack (store : AdjacencyStore edge) (accepted : AcceptedEdge edge) : Prop where
  source : store.source accepted.id = .ok accepted.source
  target : store.target accepted.id = .ok accepted.target
  property : ∀ key, store.property key accepted.id = .ok (accepted.values key.index)

/-- **Every accepted edge is read back.** -/
theorem StoresEdges.readsBack {store : AdjacencyStore edge} {edges : List (AcceptedEdge edge)}
    (h : store.StoresEdges edges) {e : AcceptedEdge edge} (he : e ∈ edges) :
    store.ReadsBack e := by
  obtain ⟨k, hk⟩ := List.mem_iff_getElem?.mp he
  obtain ⟨hcontains, hid⟩ := h.toSize_id hk
  have hchecked : store.checkedRow e.id = .ok k := by
    have hrow := IdRange.checkedRow_of_contains hcontains
    rw [hid] at hrow
    rw [checkedRow, hrow]
    exact congrArg Except.ok (Nat.add_sub_cancel_left _ _)
  refine ⟨?_, ?_, ?_⟩
  · rw [source, hchecked, h.sources]
    exact vectorAt_of_getElem? (by rw [List.getElem?_map, hk]; rfl)
  · rw [target, hchecked, h.targets]
    exact vectorAt_of_getElem? (by rw [List.getElem?_map, hk]; rfl)
  · intro key
    rw [property, hchecked, h.properties]
    exact vectorAt_of_getElem? (by rw [List.getElem?_map, hk]; rfl)

/-- What holds of the store that a run builds and of the edges that the run accepted. -/
structure EdgeFidelity (idBase : ℕ) (store : AdjacencyStore edge)
    (edges : List (AcceptedEdge edge)) : Prop where
  size : store.size = edges.length
  columns : store.columns.HasLength store.size
  ids : ∀ k e, edges[k]? = some e → e.id.isValid = true ∧ e.id.toSize = idBase + k
  distinct : (edges.map AcceptedEdge.id).Nodup
  contains : ∀ id, store.contains id = true ↔ id ∈ edges.map AcceptedEdge.id
  outgoing : ∀ node, store.outgoing node =
    (edges.filter (fun e => e.source = node)).map AcceptedEdge.id
  incoming : ∀ node, store.incoming node =
    (edges.filter (fun e => e.target = node)).map AcceptedEdge.id
  later : ∀ (more : List (Write edge)), ∀ e ∈ edges, (run write store more).ReadsBack e

/-- **Edge fidelity and id allocation**, for every run. -/
theorem edgeFidelity (idBase : ℕ) (calls : List (Write edge)) :
    EdgeFidelity idBase (run write (empty idBase) calls) (acceptedEdges idBase calls) := by
  have h := storesEdges_run idBase calls
  refine ⟨h.length_eq.symm, h.wellFormed.columns, ?_, ?_, ?_, h.filed_eq .outgoing,
    h.filed_eq .incoming, ?_⟩
  · intro k e hk
    obtain ⟨hcontains, hid⟩ := h.toSize_id hk
    rw [idBase_writes] at hid
    exact ⟨IdRange.isValid_of_contains hcontains, hid⟩
  · rw [← h.ids]
    exact IdRange.nodup_rowIds h.wellFormed.fits
  · intro id
    rw [← h.ids]
    exact (IdRange.mem_rowIds h.wellFormed.fits).symm
  · intro more e he
    exact (h.run more).readsBack (List.mem_append_left _ he)

end AdjacencyStore

end Memorial
