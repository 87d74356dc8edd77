import Memorial.Library.FallibleLoop
import Memorial.Library.VectorMap
import Memorial.Storage.NodeStore

/-!
# Temporal node stores

`delta_node_store`: a node store whose rows also carry a worldline, a valid interval, a
transaction interval and a provenance, with the selection indices `build_indices` derives from
them.

* `append` — **PROVED** (`append_cases`) to store one row, or to store nothing and at most mark
  the indices stale;
* `buildIndices`, `indexedCandidates`, `indexedPropertyCandidates`,
  `estimatePropertyCandidates` — the index and the three ways to read it;
* `WellFormed` — every column and every metadata vector has one entry per row, and indices that
  are marked ready are those `buildIndices` would build now.
-/

namespace Memorial

open Library

variable {C : TypeSystem} {node : NodeSpec C}

/-! ### Metadata columns -/

/-- The temporal metadata of a row: the tuple `append` moves into the metadata columns. -/
@[ext]
structure RowMetadata where
  worldline : WorldlineId
  valid : ValidInterval
  transaction : TransactionInterval
  source : Provenance

/-- Visibility of a row: its worldline is the selected one and its intervals contain the
selected times. -/
def RowMetadata.isActive (row : RowMetadata) (worldline : WorldlineId)
    (validAt knownAt : Timestamp) : Bool :=
  row.worldline == worldline && row.valid.contains validAt && row.transaction.contains knownAt

/-- `metadata_columns`. -/
structure MetadataColumns where
  worldlines : List WorldlineId
  valids : List ValidInterval
  transactions : List TransactionInterval
  sources : List Provenance

namespace MetadataColumns

def empty : MetadataColumns := ⟨[], [], [], []⟩

/-- `append_metadata<0>`. -/
def pushMetadata (pending : RowMetadata) : List (Undoable MetadataColumns) :=
  [ { apply := fun m => { m with worldlines := m.worldlines ++ [pending.worldline] }
      undo := fun m => { m with worldlines := m.worldlines.dropLast }
      undo_apply := fun m => by simp },
    { apply := fun m => { m with valids := m.valids ++ [pending.valid] }
      undo := fun m => { m with valids := m.valids.dropLast }
      undo_apply := fun m => by simp },
    { apply := fun m => { m with transactions := m.transactions ++ [pending.transaction] }
      undo := fun m => { m with transactions := m.transactions.dropLast }
      undo_apply := fun m => by simp },
    { apply := fun m => { m with sources := m.sources ++ [pending.source] }
      undo := fun m => { m with sources := m.sources.dropLast }
      undo_apply := fun m => by simp } ]

/-- `pop_metadata`. -/
def popMetadata (m : MetadataColumns) : MetadataColumns :=
  ⟨m.worldlines.dropLast, m.valids.dropLast, m.transactions.dropLast, m.sources.dropLast⟩

/-- The columns with one more row. -/
def push (m : MetadataColumns) (row : RowMetadata) : MetadataColumns :=
  ⟨m.worldlines ++ [row.worldline], m.valids ++ [row.valid], m.transactions ++ [row.transaction],
    m.sources ++ [row.source]⟩

theorem applyAll_pushMetadata (m : MetadataColumns) (row : RowMetadata) :
    applyAll (pushMetadata row) m = m.push row := rfl

@[simp]
theorem popMetadata_push (m : MetadataColumns) (row : RowMetadata) :
    (m.push row).popMetadata = m := by
  simp [push, popMetadata]

/-- The metadata of a row. -/
def rowAt? (m : MetadataColumns) (row : ℕ) : Option RowMetadata := do
  return ⟨← m.worldlines[row]?, ← m.valids[row]?, ← m.transactions[row]?, ← m.sources[row]?⟩

/-- Every column has one entry per row. -/
structure HasLength (m : MetadataColumns) (size : ℕ) : Prop where
  worldlines : m.worldlines.length = size
  valids : m.valids.length = size
  transactions : m.transactions.length = size
  sources : m.sources.length = size

theorem HasLength.push {m : MetadataColumns} {size : ℕ} (h : m.HasLength size)
    (row : RowMetadata) : (m.push row).HasLength (size + 1) := by
  constructor <;> simp [MetadataColumns.push, h.worldlines, h.valids, h.transactions, h.sources]

/-- A row that exists has its entry in each of the four columns. -/
theorem HasLength.exists_row {m : MetadataColumns} {size row : ℕ} (h : m.HasLength size)
    (hrow : row < size) :
    ∃ entry : RowMetadata, m.rowAt? row = some entry ∧ m.worldlines[row]? = some entry.worldline ∧
      m.valids[row]? = some entry.valid ∧ m.transactions[row]? = some entry.transaction ∧
      m.sources[row]? = some entry.source := by
  have hw := List.getElem?_eq_getElem (h.worldlines.symm ▸ hrow : row < m.worldlines.length)
  have hv := List.getElem?_eq_getElem (h.valids.symm ▸ hrow : row < m.valids.length)
  have ht := List.getElem?_eq_getElem (h.transactions.symm ▸ hrow : row < m.transactions.length)
  have hs := List.getElem?_eq_getElem (h.sources.symm ▸ hrow : row < m.sources.length)
  refine ⟨⟨_, _, _, _⟩, ?_, hw, hv, ht, hs⟩
  rw [rowAt?, hw, hv, ht, hs]
  rfl

end MetadataColumns

/-! ### Property selection indices -/

/-- `detail::property_histogram_bucket_count`. -/
def propertyHistogramBucketCount : ℕ := 16

/-- `detail::property_histogram`. -/
structure PropertyHistogram (D : DoubleArithmetic) where
  buckets : Fin propertyHistogramBucketCount → ℕ
  sampledCount : ℕ
  minimum : D.Double
  maximum : D.Double
  available : Bool

namespace PropertyHistogram

variable {D : DoubleArithmetic}

/-- `property_histogram{}`. -/
def empty : PropertyHistogram D :=
  { buckets := fun _ => 0, sampledCount := 0, minimum := D.zero, maximum := D.zero,
    available := false }

/-- The body of the first loop of `build_property_histogram`; the flag is `initialized`. -/
def observe (state : Bool × PropertyHistogram D) (sample : D.Double) :
    Bool × PropertyHistogram D :=
  let (initialized, histogram) := state
  if !D.isFinite sample then state
  else if !initialized then
    (true,
      { histogram with
        minimum := sample
        maximum := sample
        sampledCount := histogram.sampledCount + 1 })
  else
    (true,
      { histogram with
        minimum := if D.lessThan sample histogram.minimum then sample else histogram.minimum
        maximum := if D.lessThan histogram.maximum sample then sample else histogram.maximum
        sampledCount := histogram.sampledCount + 1 })

/-- The bucket a sample falls into.  Where the range of the samples overflows, `scaled` can be a
NaN, and what the cast of a NaN to `std::size_t` yields is not defined; in `cppTypes` it is 0 here,
so the sample falls into the first bucket. -/
def bucketOf (histogram : PropertyHistogram D) (sample : D.Double) :
    Fin propertyHistogramBucketCount :=
  let range := D.sub histogram.maximum histogram.minimum
  let scaled :=
    if D.equalTo range D.zero then D.zero
    else D.div (D.sub sample histogram.minimum) range
  ⟨min (D.toSize (D.mul scaled (D.ofSize propertyHistogramBucketCount)))
      (propertyHistogramBucketCount - 1), by
    have : propertyHistogramBucketCount = 16 := rfl
    omega⟩

/-- The body of the second loop of `build_property_histogram`. -/
def count (histogram : PropertyHistogram D) (sample : D.Double) : PropertyHistogram D :=
  if !D.isFinite sample then histogram
  else
    let bucket := histogram.bucketOf sample
    { histogram with
      buckets := Function.update histogram.buckets bucket (histogram.buckets bucket + 1) }

end PropertyHistogram

/-- `build_property_histogram`; for finite values whose range overflows see `bucketOf`. -/
def buildPropertyHistogram {type : C.ValueType} (values : List (C.carrier type)) :
    PropertyHistogram C.arithmetic :=
  match C.casts type with
  | none => .empty
  | some casts =>
    let samples := values.map casts.toDouble
    let (initialized, histogram) := samples.foldl PropertyHistogram.observe (false, .empty)
    let histogram := { histogram with available := initialized }
    if !initialized then histogram
    else samples.foldl PropertyHistogram.count histogram

/-- `detail::property_selection_index`. -/
structure PropertySelectionIndex (D : DoubleArithmetic) where
  rows : List NodeId
  histogram : PropertyHistogram D

/-! ### The store -/

/-- `delta_node_store<Node>`. -/
structure DeltaNodeStore (node : NodeSpec C) where
  nodes : NodeStore node
  metadata : MetadataColumns
  worldlineIndex : VectorMap WorldlineId NodeId
  validStartIndex : List (Timestamp × NodeId)
  transactionStartIndex : List (Timestamp × NodeId)
  propertyIndices : Fin node.properties.length → PropertySelectionIndex C.arithmetic
  indicesReady : Bool

namespace DeltaNodeStore

/-- `delta_node_store(id_base)`. -/
def empty (idBase : ℕ) : DeltaNodeStore node :=
  { nodes := .empty idBase
    metadata := .empty
    worldlineIndex := ∅
    validStartIndex := []
    transactionStartIndex := []
    propertyIndices := fun _ => ⟨[], .empty⟩
    indicesReady := false }

def size (store : DeltaNodeStore node) : ℕ := store.nodes.size

def idBase (store : DeltaNodeStore node) : ℕ := store.nodes.idBase

def extent (store : DeltaNodeStore node) : ℕ := store.nodes.extent

def contains (store : DeltaNodeStore node) (id : NodeId) : Bool := store.nodes.contains id

/-- The ids of the rows, in row order: `id_base() + row` for each row. -/
def rowIds (store : DeltaNodeStore node) : List NodeId := store.nodes.ids.rowIds

/-! #### Appending -/

/-- `delta_node_store::append`.  The four metadata `push_back`s are numbered from 0 and those of
the property columns from 4; the one numbered `fault` throws. -/
def append (store : DeltaNodeStore node) (row : RowMetadata)
    (values : PropertyValues node.properties) (fault : Option ℕ) :
    DeltaNodeStore node × Outcome NodeId :=
  if !row.worldline.isValid then
    (store, .returned (.error
      { code := .invalidId, detail := "delta row worldline ID must be valid" }))
  else
    let store := { store with indicesReady := false }
    match attemptAll fault 0 (MetadataColumns.pushMetadata row) store.metadata with
    | (metadata, true) => ({ store with metadata }, .thrown)
    | (metadata, false) =>
      match store.nodes.append values fault 4 with
      | (nodes, .returned (.ok id)) => ({ store with metadata, nodes }, .returned (.ok id))
      | (nodes, .returned (.error error)) =>
        ({ store with metadata := metadata.popMetadata, nodes }, .returned (.error error))
      | (nodes, .thrown) => ({ store with metadata := metadata.popMetadata, nodes }, .thrown)

/-- The store with its indices marked stale. -/
def stale (store : DeltaNodeStore node) : DeltaNodeStore node :=
  { store with indicesReady := false }

/-- The store with one more row. -/
def pushRow (store : DeltaNodeStore node) (row : RowMetadata)
    (values : PropertyValues node.properties) : DeltaNodeStore node :=
  { store.stale with metadata := store.metadata.push row, nodes := store.nodes.pushRow values }

/-- **What an append does**, case by case. -/
theorem append_eq (store : DeltaNodeStore node) (row : RowMetadata)
    (values : PropertyValues node.properties) (fault : Option ℕ) :
    store.append row values fault =
      if row.worldline.isValid = false then
        (store, .returned (.error
          { code := .invalidId, detail := "delta row worldline ID must be valid" }))
      else if interrupts fault 0 4 then (store.stale, .thrown)
      else if store.extent ≥ StrongId.capacity 32 then
        (store.stale, .returned (.error { code := .capacityExceeded }))
      else if interrupts fault 4 node.properties.length then (store.stale, .thrown)
      else (store.pushRow row values, .returned (.ok (.ofSize store.extent))) := by
  have hlength : (MetadataColumns.pushMetadata row).length = 4 := rfl
  simp only [append, attemptAll_eq, hlength, MetadataColumns.applyAll_pushMetadata,
    NodeStore.append_eq, Bool.not_eq_true']
  split
  · rfl
  · cases interrupts fault 0 4 with
    | true => rfl
    | false =>
      by_cases hcapacity : store.nodes.extent ≥ StrongId.capacity 32
      · simp [hcapacity, extent, stale]
      · cases hnodes : interrupts fault 4 node.properties.length with
        | true => simp [hcapacity, extent, stale]
        | false => simp [hcapacity, extent, stale, pushRow]

/-- An append stores one row and returns its id, or it stores nothing and returns no id. -/
theorem append_cases (store : DeltaNodeStore node) (row : RowMetadata)
    (values : PropertyValues node.properties) (fault : Option ℕ) :
    (store.extent < StrongId.capacity 32 ∧ row.worldline.isValid = true ∧
      store.append row values fault =
        (store.pushRow row values, .returned (.ok (.ofSize store.extent)))) ∨
    (((store.append row values fault).1 = store ∨ (store.append row values fault).1 = store.stale) ∧
      (store.append row values fault).2.accepted = none) := by
  rw [append_eq]
  by_cases hworldline : row.worldline.isValid = false
  · exact Or.inr (by simp [hworldline, Outcome.accepted])
  · rw [if_neg hworldline]
    split
    · exact Or.inr ⟨Or.inr rfl, rfl⟩
    · split
      · exact Or.inr ⟨Or.inr rfl, rfl⟩
      · rename_i hcapacity
        split
        · exact Or.inr ⟨Or.inr rfl, rfl⟩
        · exact Or.inl ⟨not_le.mp hcapacity, by simpa using hworldline, rfl⟩

/-! #### Building the indices -/

/-- `build_property_index`. -/
def buildPropertyIndex (store : DeltaNodeStore node) (index : Fin node.properties.length) :
    PropertySelectionIndex C.arithmetic :=
  { rows := store.rowIds
    histogram := buildPropertyHistogram (store.nodes.columns index) }

/-- The comparator `by_time`. -/
def byTime (left right : Timestamp × NodeId) : Bool := decide (left.1 < right.1)

/-- The comparator that orders ids by value. -/
def byValue (left right : NodeId) : Bool := decide (left.value < right.value)

/-- `build_indices`: the loop over the rows files each id under its worldline and its two start
times. -/
def buildIndices (store : DeltaNodeStore node) : DeltaNodeStore node :=
  { store with
    worldlineIndex := VectorMap.group (store.metadata.worldlines.zip store.rowIds)
    validStartIndex := C.rangesSort.sort byTime
      ((store.metadata.valids.map TemporalInterval.fromTime).zip store.rowIds)
    transactionStartIndex := C.rangesSort.sort byTime
      ((store.metadata.transactions.map TemporalInterval.fromTime).zip store.rowIds)
    propertyIndices := store.buildPropertyIndex
    indicesReady := true }

/-! #### Reading the indices -/

/-- The error of every index lookup before `build_indices`. -/
def indicesNotBuilt : GraphError :=
  { code := .conflict, detail := "delta selection indices are not built" }

/-- `indexed_property_candidates`. -/
def indexedPropertyCandidates {Value : Type} (store : DeltaNodeStore node)
    (key : PropertyKey node.properties) (value : Value)
    (predicate : PropertyValue node.properties key.index → Value → Bool) :
    Result (List NodeId) := do
  if !store.indicesReady then .error indicesNotBuilt
  else
    let result ← filterLoop
      (fun id => do
        let row := id.toSize - store.idBase
        return predicate (← vectorAt (store.nodes.columns key.index) row) value)
      (store.propertyIndices key.index).rows
    return C.rangesSort.sort byValue result

/-- `estimate_property_candidates`. -/
def estimatePropertyCandidates {Value : Type} (store : DeltaNodeStore node)
    (key : PropertyKey node.properties) (value : Value)
    (predicate : PropertyValue node.properties key.index → Value → Bool) : Result ℕ :=
  if !store.indicesReady then .error indicesNotBuilt
  else
    match C.casts (node.properties.get key.index).valueType with
    | none => .ok store.size
    | some casts =>
      let D := C.arithmetic
      let histogram := (store.propertyIndices key.index).histogram
      if !histogram.available then .ok store.size
      else if D.equalTo histogram.minimum histogram.maximum then
        .ok (if predicate (casts.ofDouble histogram.minimum) value then histogram.sampledCount
          else 0)
      else
        let width := D.div (D.sub histogram.maximum histogram.minimum)
          (D.ofSize propertyHistogramBucketCount)
        let estimate := (List.finRange propertyHistogramBucketCount).foldl
          (fun estimate (bucket : Fin propertyHistogramBucketCount) =>
            let midpoint :=
              D.add histogram.minimum (D.mul (D.add (D.ofSize bucket) D.half) width)
            if predicate (casts.ofDouble midpoint) value then
              estimate + histogram.buckets bucket
            else estimate) 0
        .ok (estimate + (store.size - histogram.sampledCount))

/-- The entries of a start index before `upper_bound`: those that do not start after the
point. -/
def startedBy (index : List (Timestamp × NodeId)) (point : Timestamp) :
    List (Timestamp × NodeId) :=
  index.takeWhile (fun entry => !decide (point < entry.1))

/-- The test of `append_if_visible`. -/
def isVisible (store : DeltaNodeStore node) (worldline : WorldlineId)
    (validAt knownAt : Timestamp) (id : NodeId) : Result Bool := do
  let row := id.toSize - store.idBase
  let rowWorldline ← vectorAt store.metadata.worldlines row
  let valid ← vectorAt store.metadata.valids row
  let transaction ← vectorAt store.metadata.transactions row
  return rowWorldline == worldline && valid.contains validAt && transaction.contains knownAt

/-- The ids `indexed_candidates` tests: the shortest of the worldline list and the two
prefixes. -/
def accessPath (worldlineRows : List NodeId)
    (validPrefix transactionPrefix : List (Timestamp × NodeId)) : List NodeId :=
  if worldlineRows.length ≤ validPrefix.length ∧
      worldlineRows.length ≤ transactionPrefix.length then worldlineRows
  else if validPrefix.length ≤ transactionPrefix.length then validPrefix.map Prod.snd
  else transactionPrefix.map Prod.snd

/-- `indexed_candidates`. -/
def indexedCandidates (store : DeltaNodeStore node) (worldline : WorldlineId)
    (validAt knownAt : Timestamp) : Result (List NodeId) :=
  if !store.indicesReady then .error indicesNotBuilt
  else
    match store.worldlineIndex.lookup worldline with
    | none => .ok []
    | some worldlineRows => do
      let path := accessPath worldlineRows (startedBy store.validStartIndex validAt)
        (startedBy store.transactionStartIndex knownAt)
      let result ← filterLoop (store.isVisible worldline validAt knownAt) path
      return C.rangesSort.sort byValue result

/-! #### Reading rows -/

/-- `delta_node_store::property`. -/
def property (store : DeltaNodeStore node) (key : PropertyKey node.properties) (id : NodeId) :
    Result (PropertyValue node.properties key.index) :=
  store.nodes.property key id

/-- `delta_node_store::checked_row`. -/
def checkedRow (store : DeltaNodeStore node) (id : NodeId) : Result ℕ :=
  if !id.isValid then .error { code := .invalidId }
  else if !store.nodes.contains id then .error { code := .idNotFound }
  else .ok (id.toSize - store.nodes.idBase)

def worldline (store : DeltaNodeStore node) (id : NodeId) : Result WorldlineId := do
  vectorAt store.metadata.worldlines (← store.checkedRow id)

def valid (store : DeltaNodeStore node) (id : NodeId) : Result ValidInterval := do
  vectorAt store.metadata.valids (← store.checkedRow id)

def transaction (store : DeltaNodeStore node) (id : NodeId) : Result TransactionInterval := do
  vectorAt store.metadata.transactions (← store.checkedRow id)

def source (store : DeltaNodeStore node) (id : NodeId) : Result Provenance := do
  vectorAt store.metadata.sources (← store.checkedRow id)

/-- The metadata of the row an id names. -/
def rowOf? (store : DeltaNodeStore node) (id : NodeId) : Option RowMetadata :=
  store.metadata.rowAt? (id.toSize - store.idBase)

/-! ### The invariant -/

/-- One entry per row everywhere, and no stale index marked ready. -/
structure WellFormed (store : DeltaNodeStore node) : Prop where
  nodes : store.nodes.WellFormed
  metadata : store.metadata.HasLength store.nodes.size
  ready : store.indicesReady = true → store.buildIndices = store

theorem wellFormed_empty (idBase : ℕ) : (empty idBase : DeltaNodeStore node).WellFormed where
  nodes := NodeStore.wellFormed_empty idBase
  metadata := ⟨rfl, rfl, rfl, rfl⟩
  ready h := by cases h

theorem WellFormed.stale {store : DeltaNodeStore node} (h : store.WellFormed) :
    store.stale.WellFormed where
  nodes := h.nodes
  metadata := h.metadata
  ready hready := by cases hready

theorem WellFormed.pushRow {store : DeltaNodeStore node} (h : store.WellFormed)
    (hcapacity : store.extent < StrongId.capacity 32) (row : RowMetadata)
    (values : PropertyValues node.properties) : (store.pushRow row values).WellFormed where
  nodes := h.nodes.pushRow hcapacity values
  metadata := h.metadata.push row
  ready hready := by cases hready

theorem WellFormed.append {store : DeltaNodeStore node} (h : store.WellFormed)
    (row : RowMetadata) (values : PropertyValues node.properties) (fault : Option ℕ) :
    (store.append row values fault).1.WellFormed := by
  rcases append_cases store row values fault with ⟨hcapacity, -, heq⟩ | ⟨heq | heq, -⟩
  · rw [heq]
    exact h.pushRow hcapacity row values
  · rw [heq]
    exact h
  · rw [heq]
    exact h.stale

theorem WellFormed.buildIndices {store : DeltaNodeStore node} (h : store.WellFormed) :
    store.buildIndices.WellFormed where
  nodes := h.nodes
  metadata := h.metadata
  ready _ := rfl

/-- A stored row has its metadata, with one entry in each column. -/
theorem WellFormed.exists_entries {store : DeltaNodeStore node} (h : store.WellFormed)
    {id : NodeId} (hid : store.contains id = true) :
    ∃ row : RowMetadata, store.rowOf? id = some row ∧
      store.metadata.worldlines[id.toSize - store.idBase]? = some row.worldline ∧
      store.metadata.valids[id.toSize - store.idBase]? = some row.valid ∧
      store.metadata.transactions[id.toSize - store.idBase]? = some row.transaction ∧
      store.metadata.sources[id.toSize - store.idBase]? = some row.source := by
  obtain ⟨hbase, hlt⟩ := IdRange.bounds_of_contains hid
  have hrow : id.toSize - store.idBase < store.nodes.size := by
    simp only [NodeStore.ids, IdRange.extent] at hbase hlt
    simp only [idBase]
    omega
  exact h.metadata.exists_row hrow

/-- The four accessors return the metadata of a stored row. -/
theorem WellFormed.exists_row {store : DeltaNodeStore node} (h : store.WellFormed) {id : NodeId}
    (hid : store.contains id = true) :
    ∃ row : RowMetadata, store.rowOf? id = some row ∧
      store.worldline id = .ok row.worldline ∧ store.valid id = .ok row.valid ∧
      store.transaction id = .ok row.transaction ∧ store.source id = .ok row.source := by
  obtain ⟨row, hof, hw, hv, ht, hs⟩ := h.exists_entries hid
  have hchecked : store.checkedRow id = .ok (id.toSize - store.idBase) := by
    have hvalid := IdRange.isValid_of_contains hid
    have hcontains : store.nodes.contains id = true := hid
    rw [checkedRow, hvalid, hcontains]
    rfl
  refine ⟨row, hof, ?_, ?_, ?_, ?_⟩
  · rw [worldline, hchecked]
    exact vectorAt_of_getElem? hw
  · rw [valid, hchecked]
    exact vectorAt_of_getElem? hv
  · rw [transaction, hchecked]
    exact vectorAt_of_getElem? ht
  · rw [source, hchecked]
    exact vectorAt_of_getElem? hs

end DeltaNodeStore

end Memorial
