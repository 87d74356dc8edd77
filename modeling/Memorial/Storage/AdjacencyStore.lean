import Memorial.Library.VectorMap
import Memorial.Storage.Columns

/-!
# Adjacency stores

`adjacency_store`: the edges of one kind in columns, with one index from sources and one from
targets.

* `append` — **PROVED** (`append_cases`) to store one edge, or to leave every edge and both
  indices reading as before;
* `storedEdges` — the edges as a list of id, source and target, in id order;
* `WellFormed` — one column entry per edge, and both indices the exact inverses of the endpoint
  columns;
* `WellFormed.append` — **PROVED**: every append keeps it, also one that throws.
-/

namespace Memorial

open Library

variable {C : TypeSystem} {edge : EdgeSpec C}

/-- `relation_degree_statistics`. -/
structure RelationDegreeStatistics (D : DoubleArithmetic) where
  edgeCount : ℕ
  sourceCount : ℕ
  maximumOutDegree : ℕ
  averageOutDegree : D.Double

/-! ### Edge columns -/

/-- `adjacency_store::columns_type`. -/
structure EdgeColumns (edge : EdgeSpec C) where
  sources : List NodeId
  targets : List NodeId
  properties : PropertyColumns edge.properties

namespace EdgeColumns

/-- The property columns as a part of the edge columns. -/
def propertiesPart : Part (EdgeColumns edge) (PropertyColumns edge.properties) where
  get columns := columns.properties
  set properties columns := { columns with properties }
  get_set _ _ := rfl
  set_get _ := rfl
  set_set _ _ _ := rfl

/-- `append_columns<0>`: the two endpoint columns, then the property columns. -/
def pushColumns (source target : NodeId) (values : PropertyValues edge.properties) :
    List (Undoable (EdgeColumns edge)) :=
  { apply := fun columns => { columns with sources := columns.sources ++ [source] }
    undo := fun columns => { columns with sources := columns.sources.dropLast }
    undo_apply := fun columns => by simp } ::
  { apply := fun columns => { columns with targets := columns.targets ++ [target] }
    undo := fun columns => { columns with targets := columns.targets.dropLast }
    undo_apply := fun columns => by simp } ::
  (pushProperties values).map (Undoable.onPart propertiesPart)

/-- `pop_columns`. -/
def popColumns (columns : EdgeColumns edge) : EdgeColumns edge :=
  { sources := columns.sources.dropLast
    targets := columns.targets.dropLast
    properties := fun index => (columns.properties index).dropLast }

/-- The columns with one more edge. -/
def push (columns : EdgeColumns edge) (source target : NodeId)
    (values : PropertyValues edge.properties) : EdgeColumns edge :=
  { sources := columns.sources ++ [source]
    targets := columns.targets ++ [target]
    properties := fun index => columns.properties index ++ [values index] }

@[simp]
theorem length_pushColumns (source target : NodeId) (values : PropertyValues edge.properties) :
    (pushColumns source target values).length = edge.properties.length + 2 := by
  simp [pushColumns]

theorem applyAll_pushColumns (columns : EdgeColumns edge) (source target : NodeId)
    (values : PropertyValues edge.properties) :
    applyAll (pushColumns source target values) columns = columns.push source target values := by
  have hproperties := applyAll_onPart propertiesPart (pushProperties values)
    { columns with sources := columns.sources ++ [source], targets := columns.targets ++ [target] }
  rw [applyAll_pushProperties] at hproperties
  exact hproperties

@[simp]
theorem popColumns_push (columns : EdgeColumns edge) (source target : NodeId)
    (values : PropertyValues edge.properties) :
    (columns.push source target values).popColumns = columns := by
  simp [push, popColumns]

/-- Every column has one entry per edge. -/
structure HasLength (columns : EdgeColumns edge) (size : ℕ) : Prop where
  sources : columns.sources.length = size
  targets : columns.targets.length = size
  properties : ∀ index, (columns.properties index).length = size

theorem HasLength.push {columns : EdgeColumns edge} {size : ℕ} (h : columns.HasLength size)
    (source target : NodeId) (values : PropertyValues edge.properties) :
    (columns.push source target values).HasLength (size + 1) where
  sources := by simp [EdgeColumns.push, h.sources]
  targets := by simp [EdgeColumns.push, h.targets]
  properties index := by simp [EdgeColumns.push, h.properties]

end EdgeColumns

/-! ### The store -/

/-- `adjacency_store<Edge>`. -/
structure AdjacencyStore (edge : EdgeSpec C) where
  columns : EdgeColumns edge
  outgoingIndex : VectorMap NodeId EdgeId
  incomingIndex : VectorMap NodeId EdgeId
  idBase : ℕ
  size : ℕ
  degreeStatistics : RelationDegreeStatistics C.arithmetic
  statisticsReady : Bool

namespace AdjacencyStore

/-- `adjacency_store(id_base)`. -/
def empty (idBase : ℕ) : AdjacencyStore edge :=
  { columns := ⟨[], [], fun _ => []⟩
    outgoingIndex := ∅
    incomingIndex := ∅
    idBase
    size := 0
    degreeStatistics := ⟨0, 0, 0, C.arithmetic.zero⟩
    statisticsReady := false }

/-- The edges as a range of ids. -/
def ids (store : AdjacencyStore edge) : IdRange := ⟨store.idBase, store.size⟩

def extent (store : AdjacencyStore edge) : ℕ := store.idBase + store.size

def contains (store : AdjacencyStore edge) (id : EdgeId) : Bool := store.ids.contains id

def checkedRow (store : AdjacencyStore edge) (id : EdgeId) : Result ℕ := store.ids.checkedRow id

/-- `build_statistics`. -/
def buildStatistics (store : AdjacencyStore edge) : AdjacencyStore edge :=
  let sourceCount := store.outgoingIndex.entries.length
  let maximumOutDegree := store.outgoingIndex.entries.foldl
    (fun maximum entry => max maximum entry.2.length) 0
  let averageOutDegree :=
    if sourceCount ≠ 0 then
      C.arithmetic.div (C.arithmetic.ofSize store.size) (C.arithmetic.ofSize sourceCount)
    else C.arithmetic.zero
  { store with
    degreeStatistics := ⟨store.size, sourceCount, maximumOutDegree, averageOutDegree⟩
    statisticsReady := true }

/-- `index[key].push_back(id)`: creating a missing entry may throw at `position`, and the
`push_back` right after it.  The flag says whether one of them threw. -/
def fileUnder (fault : Option ℕ) (position : ℕ) (index : VectorMap NodeId EdgeId) (key : NodeId)
    (id : EdgeId) : VectorMap NodeId EdgeId × Bool :=
  if fault = some position ∧ index.lookup key = none then (index, true)
  else if fault = some (position + 1) then (index.touch key, true)
  else (index.pushBack key id, false)

/-- `adjacency_store::append`.  The `push_back`s of the columns are numbered from 0, then come
the entry and the `push_back` of each index; the one numbered `fault` throws. -/
def append (store : AdjacencyStore edge) (source target : NodeId)
    (values : PropertyValues edge.properties) (fault : Option ℕ) :
    AdjacencyStore edge × Outcome EdgeId :=
  if !source.isValid || !target.isValid then
    (store, .returned (.error { code := .invalidId, detail := "edge endpoints must be valid" }))
  else if store.extent ≥ StrongId.capacity 32 then
    (store, .returned (.error { code := .capacityExceeded }))
  else
    let store := { store with statisticsReady := false }
    match attemptAll fault 0 (EdgeColumns.pushColumns source target values) store.columns with
    | (columns, true) => ({ store with columns }, .thrown)
    | (columns, false) =>
      let id : EdgeId := .ofSize store.extent
      let position := edge.properties.length + 2
      match fileUnder fault position store.outgoingIndex source id with
      | (outgoingIndex, true) =>
        ({ store with columns := columns.popColumns, outgoingIndex }, .thrown)
      | (outgoingIndex, false) =>
        match fileUnder fault (position + 2) store.incomingIndex target id with
        | (incomingIndex, true) =>
          ({ store with
              columns := columns.popColumns
              outgoingIndex := outgoingIndex.popBack source
              incomingIndex }, .thrown)
        | (incomingIndex, false) =>
          ({ store with columns, outgoingIndex, incomingIndex, size := store.size + 1 },
            .returned (.ok id))

/-- `adjacency_store::source`. -/
def source (store : AdjacencyStore edge) (id : EdgeId) : Result NodeId := do
  vectorAt store.columns.sources (← store.checkedRow id)

/-- `adjacency_store::target`. -/
def target (store : AdjacencyStore edge) (id : EdgeId) : Result NodeId := do
  vectorAt store.columns.targets (← store.checkedRow id)

/-- `adjacency_store::property`. -/
def property (store : AdjacencyStore edge) (key : PropertyKey edge.properties) (id : EdgeId) :
    Result (PropertyValue edge.properties key.index) := do
  vectorAt (store.columns.properties key.index) (← store.checkedRow id)

def outgoing (store : AdjacencyStore edge) (source : NodeId) : List EdgeId :=
  store.outgoingIndex.find source

def incoming (store : AdjacencyStore edge) (target : NodeId) : List EdgeId :=
  store.incomingIndex.find target

/-! ### What an append does -/

/-- The store with one more edge. -/
def pushEdge (store : AdjacencyStore edge) (source target : NodeId)
    (values : PropertyValues edge.properties) : AdjacencyStore edge :=
  { store with
    columns := store.columns.push source target values
    outgoingIndex := store.outgoingIndex.pushBack source (.ofSize store.extent)
    incomingIndex := store.incomingIndex.pushBack target (.ofSize store.extent)
    size := store.size + 1
    statisticsReady := false }

/-- Two stores hold the same edges: equal columns and ids, and indices that read alike. -/
structure SameEdges (a b : AdjacencyStore edge) : Prop where
  columns : a.columns = b.columns
  idBase : a.idBase = b.idBase
  size : a.size = b.size
  outgoing : ∀ source, a.outgoing source = b.outgoing source
  incoming : ∀ target, a.incoming target = b.incoming target

theorem SameEdges.refl (store : AdjacencyStore edge) : SameEdges store store :=
  ⟨rfl, rfl, rfl, fun _ => rfl, fun _ => rfl⟩

/-- A failed filing may create an empty entry, which reads like a missing one. -/
theorem fileUnder_cases (fault : Option ℕ) (position : ℕ) (index : VectorMap NodeId EdgeId)
    (key : NodeId) (id : EdgeId) :
    fileUnder fault position index key id = (index.pushBack key id, false) ∨
      ∃ index', fileUnder fault position index key id = (index', true) ∧
        ∀ k, VectorMap.find index' k = VectorMap.find index k := by
  rw [fileUnder]
  split
  · exact Or.inr ⟨index, rfl, fun _ => rfl⟩
  · split
    · exact Or.inr ⟨index.touch key, rfl, VectorMap.find_touch index key⟩
    · exact Or.inl rfl

/-- **An append stores one edge and returns its id, or it leaves every edge as it was.** -/
theorem append_cases (store : AdjacencyStore edge) (source target : NodeId)
    (values : PropertyValues edge.properties) (fault : Option ℕ) :
    (store.extent < StrongId.capacity 32 ∧ source.isValid = true ∧ target.isValid = true ∧
      store.append source target values fault =
        (store.pushEdge source target values, .returned (.ok (.ofSize store.extent)))) ∨
    (SameEdges (store.append source target values fault).1 store ∧
      (store.append source target values fault).2.accepted = none) := by
  simp only [append, attemptAll_eq, EdgeColumns.length_pushColumns,
    EdgeColumns.applyAll_pushColumns]
  by_cases hvalid : (!source.isValid || !target.isValid) = true
  · rw [if_pos hvalid]
    exact Or.inr ⟨SameEdges.refl store, rfl⟩
  · rw [if_neg hvalid]
    by_cases hcapacity : store.extent ≥ StrongId.capacity 32
    · rw [if_pos hcapacity]
      exact Or.inr ⟨SameEdges.refl store, rfl⟩
    · rw [if_neg hcapacity]
      cases interrupts fault 0 (edge.properties.length + 2) with
      | true => exact Or.inr ⟨⟨rfl, rfl, rfl, fun _ => rfl, fun _ => rfl⟩, rfl⟩
      | false =>
        simp only [Bool.false_eq_true, if_false]
        rcases fileUnder_cases fault (edge.properties.length + 2) store.outgoingIndex source
          (.ofSize store.extent) with hout | ⟨index', hout, hreads⟩
        · rcases fileUnder_cases fault (edge.properties.length + 2 + 2) store.incomingIndex target
            (.ofSize store.extent) with hin | ⟨index', hin, hreads⟩
          · left
            simp only [Bool.or_eq_true, Bool.not_eq_true', not_or, Bool.not_eq_false] at hvalid
            refine ⟨not_le.mp hcapacity, hvalid.1, hvalid.2, ?_⟩
            simp only [extent] at hout hin ⊢
            rw [hout, hin]
            rfl
          · right
            simp only [extent] at hout hin ⊢
            rw [hout, hin]
            refine ⟨⟨by simp, rfl, rfl, ?_, hreads⟩, rfl⟩
            intro k
            exact VectorMap.find_popBack_pushBack _ _ _ _
        · right
          simp only [extent] at hout ⊢
          rw [hout]
          exact ⟨⟨by simp, rfl, rfl, hreads, fun _ => rfl⟩, rfl⟩

/-! ### The stored edges -/

end AdjacencyStore

/-- An edge as it is stored: its id and its endpoints. -/
structure StoredEdge where
  id : EdgeId
  source : NodeId
  target : NodeId

namespace AdjacencyStore

/-- The edges of the store, in id order. -/
def storedEdges (store : AdjacencyStore edge) : List StoredEdge :=
  List.zipWith (fun id ends => ⟨id, ends.1, ends.2⟩) store.ids.rowIds
    (store.columns.sources.zip store.columns.targets)

/-- The two ways to read an edge: `outgoing` starts from sources, `incoming` from targets. -/
inductive Direction
  | outgoing
  | incoming

end AdjacencyStore

/-- The end of an edge a direction starts from. -/
def StoredEdge.near (e : StoredEdge) : AdjacencyStore.Direction → NodeId
  | .outgoing => e.source
  | .incoming => e.target

/-- The end of an edge a direction leads to. -/
def StoredEdge.far (e : StoredEdge) : AdjacencyStore.Direction → NodeId
  | .outgoing => e.target
  | .incoming => e.source

namespace AdjacencyStore

/-- The edges filed under a node: `outgoing` or `incoming`. -/
def filed (store : AdjacencyStore edge) : Direction → NodeId → List EdgeId
  | .outgoing => store.outgoing
  | .incoming => store.incoming

/-- The other end of an edge: `target` or `source`. -/
def farEnd (store : AdjacencyStore edge) : Direction → EdgeId → Result NodeId
  | .outgoing => store.target
  | .incoming => store.source

/-- One column entry per edge, a valid id for every edge, and both indices the inverses of the
endpoint columns. -/
structure WellFormed (store : AdjacencyStore edge) : Prop where
  columns : store.columns.HasLength store.size
  fits : store.ids.Fits 32
  filed : ∀ direction node, store.filed direction node =
    (store.storedEdges.filter (fun e => e.near direction = node)).map StoredEdge.id

theorem wellFormed_empty (idBase : ℕ) : (empty idBase : AdjacencyStore edge).WellFormed where
  columns := ⟨rfl, rfl, fun _ => rfl⟩
  fits := IdRange.fits_empty idBase 32
  filed direction _ := by cases direction <;> rfl

theorem SameEdges.storedEdges {a b : AdjacencyStore edge} (h : SameEdges a b) :
    a.storedEdges = b.storedEdges := by
  rw [AdjacencyStore.storedEdges, AdjacencyStore.storedEdges, ids, ids, h.columns, h.idBase,
    h.size]

/-- The invariant speaks only of what stores with the same edges share. -/
theorem WellFormed.of_sameEdges {a b : AdjacencyStore edge} (hb : b.WellFormed)
    (h : SameEdges a b) : a.WellFormed where
  columns := by
    rw [h.columns, h.size]
    exact hb.columns
  fits := by
    rw [ids, h.idBase, h.size]
    exact hb.fits
  filed direction node := by
    rw [h.storedEdges, ← hb.filed direction node]
    cases direction with
    | outgoing =>
      show a.outgoing node = b.outgoing node
      exact h.outgoing node
    | incoming =>
      show a.incoming node = b.incoming node
      exact h.incoming node

/-- Appending adds the new edge at the end. -/
theorem WellFormed.storedEdges_pushEdge {store : AdjacencyStore edge} (h : store.WellFormed)
    (source target : NodeId) (values : PropertyValues edge.properties) :
    (store.pushEdge source target values).storedEdges =
      store.storedEdges ++ [⟨.ofSize store.extent, source, target⟩] := by
  have hends : (store.columns.sources ++ [source]).zip (store.columns.targets ++ [target]) =
      store.columns.sources.zip store.columns.targets ++ [(source, target)] :=
    List.zip_append (by rw [h.columns.sources, h.columns.targets])
  have hids : ((store.pushEdge source target values).ids.rowIds : List EdgeId) =
      store.ids.rowIds ++ [.ofSize store.extent] := IdRange.rowIds_succ _ _
  have hcolumns : (store.pushEdge source target values).columns.sources.zip
      (store.pushEdge source target values).columns.targets =
      store.columns.sources.zip store.columns.targets ++ [(source, target)] := hends
  rw [storedEdges, hids, hcolumns, List.zipWith_append]
  · rfl
  · rw [IdRange.length_rowIds, List.length_zip, h.columns.sources, h.columns.targets]
    simp [ids]

theorem WellFormed.pushEdge {store : AdjacencyStore edge} (h : store.WellFormed)
    (hcapacity : store.extent < StrongId.capacity 32) (source target : NodeId)
    (values : PropertyValues edge.properties) :
    (store.pushEdge source target values).WellFormed where
  columns := h.columns.push source target values
  fits := by
    right
    simp only [extent] at hcapacity
    simp only [ids, AdjacencyStore.pushEdge, IdRange.extent]
    omega
  filed direction node := by
    rw [h.storedEdges_pushEdge, List.filter_append, List.map_append, ← h.filed direction node]
    cases direction with
    | outgoing =>
      simp only [AdjacencyStore.filed, AdjacencyStore.outgoing, AdjacencyStore.pushEdge,
        VectorMap.find_pushBack, StoredEdge.near]
      by_cases hnode : node = source
      · subst hnode
        simp
      · simp [hnode, Ne.symm hnode]
    | incoming =>
      simp only [AdjacencyStore.filed, AdjacencyStore.incoming, AdjacencyStore.pushEdge,
        VectorMap.find_pushBack, StoredEdge.near]
      by_cases hnode : node = target
      · subst hnode
        simp
      · simp [hnode, Ne.symm hnode]

/-- **Every append keeps the invariant**, whether it stores, refuses or throws. -/
theorem WellFormed.append {store : AdjacencyStore edge} (h : store.WellFormed)
    (source target : NodeId) (values : PropertyValues edge.properties) (fault : Option ℕ) :
    (store.append source target values fault).1.WellFormed := by
  rcases append_cases store source target values fault with ⟨hcapacity, -, -, heq⟩ | ⟨hsame, -⟩
  · rw [heq]
    exact h.pushEdge hcapacity source target values
  · exact h.of_sameEdges hsame

theorem WellFormed.buildStatistics {store : AdjacencyStore edge} (h : store.WellFormed) :
    store.buildStatistics.WellFormed :=
  h.of_sameEdges ⟨rfl, rfl, rfl, fun _ => rfl, fun _ => rfl⟩

/-! ### Reading the stored edges -/

section Reads

variable {store : AdjacencyStore edge}

theorem WellFormed.map_id_storedEdges (h : store.WellFormed) :
    store.storedEdges.map StoredEdge.id = store.ids.rowIds := by
  have hlength : (store.ids.rowIds : List EdgeId).length ≤
      (store.columns.sources.zip store.columns.targets).length := by
    rw [IdRange.length_rowIds, List.length_zip, h.columns.sources, h.columns.targets]
    simp [ids]
  have hzip := List.map_fst_zip hlength
  rw [List.zip, List.map_zipWith] at hzip
  rw [storedEdges, List.map_zipWith]
  exact hzip

/-- The stored edges ascend in id. -/
theorem WellFormed.storedEdges_pairwise (h : store.WellFormed) :
    store.storedEdges.Pairwise (fun a b => a.id.toSize < b.id.toSize) := by
  have hids : (store.ids.rowIds : List EdgeId).Pairwise (fun a b => a.toSize < b.toSize) :=
    IdRange.rowIds_pairwise h.fits
  rw [← h.map_id_storedEdges, List.pairwise_map] at hids
  exact hids

theorem WellFormed.contains_of_mem (h : store.WellFormed) {e : StoredEdge}
    (he : e ∈ store.storedEdges) : store.contains e.id = true := by
  have hid : e.id ∈ store.storedEdges.map StoredEdge.id := List.mem_map_of_mem he
  rw [h.map_id_storedEdges] at hid
  exact (IdRange.mem_rowIds h.fits).mp hid

theorem WellFormed.exists_of_contains (h : store.WellFormed) {id : EdgeId}
    (hid : store.contains id = true) : ∃ e ∈ store.storedEdges, e.id = id := by
  have hrow := (IdRange.mem_rowIds h.fits).mpr hid
  rw [← h.map_id_storedEdges, List.mem_map] at hrow
  exact hrow

/-- `source` and `target` return the stored endpoints. -/
theorem WellFormed.endpoints_of_mem (h : store.WellFormed) {e : StoredEdge}
    (he : e ∈ store.storedEdges) :
    store.source e.id = .ok e.source ∧ store.target e.id = .ok e.target := by
  have hcontains := h.contains_of_mem he
  have hchecked : store.checkedRow e.id = .ok (e.id.toSize - store.idBase) :=
    IdRange.checkedRow_of_contains hcontains
  obtain ⟨row, hrow⟩ := List.mem_iff_getElem?.mp he
  rw [storedEdges, List.getElem?_zipWith_eq_some] at hrow
  obtain ⟨id, ends, hid, hends, rfl⟩ := hrow
  rw [List.getElem?_zip_eq_some] at hends
  have hlt : row < store.size := by
    have := List.getElem?_eq_some_iff.mp hid
    simpa [ids] using this.1
  have hat : id = store.ids.rowId row := by
    rw [IdRange.rowIds, List.getElem?_map, List.getElem?_range (show row < store.ids.size from hlt)]
      at hid
    exact (Option.some.inj hid).symm
  have hoffset : id.toSize - store.idBase = row := by
    rw [hat, IdRange.toSize_rowId h.fits hlt]
    exact Nat.add_sub_cancel_left _ _
  rw [source, target, hchecked, hoffset]
  exact ⟨vectorAt_of_getElem? hends.1, vectorAt_of_getElem? hends.2⟩

theorem WellFormed.contains_of_source (h : store.WellFormed) {id : EdgeId} {source : NodeId}
    (hsource : store.source id = .ok source) : store.contains id = true := by
  by_contra hnot
  have hrow : ∀ row, store.checkedRow id ≠ .ok row := by
    intro row hchecked
    rw [checkedRow, IdRange.checkedRow] at hchecked
    split at hchecked
    · cases hchecked
    · split at hchecked
      · cases hchecked
      · exact hnot ((IdRange.contains_iff h.fits).mpr (by omega))
  rw [AdjacencyStore.source] at hsource
  cases hchecked : store.checkedRow id with
  | ok row => exact hrow row hchecked
  | error error =>
    rw [hchecked] at hsource
    cases hsource

theorem WellFormed.farEnd_of_mem (h : store.WellFormed) {e : StoredEdge}
    (he : e ∈ store.storedEdges) (direction : Direction) :
    store.farEnd direction e.id = .ok (e.far direction) := by
  obtain ⟨hsource, htarget⟩ := h.endpoints_of_mem he
  cases direction with
  | outgoing =>
    show store.target e.id = .ok e.target
    exact htarget
  | incoming =>
    show store.source e.id = .ok e.source
    exact hsource

end Reads

end AdjacencyStore

end Memorial
