import Memorial.Library.Runs
import Memorial.Storage.SelectionIndex

/-!
# Runs of the temporal node store

Every run of `append` and `build_indices` on a new store, with any arguments, any id base, and any
`push_back` that throws.  What the store is for is a list of rows under consecutive ids; the store
holds that list column by column.

* `acceptedRows` — the rows that a run was given and returned an id for;
* `StoresRows`, `storesRows_run` — **PROVED**: every column of the store is that of those rows;
* `RowFidelity`, `rowFidelity` — **PROVED**: row counts, ids, and what is read back later;
* `SelectsCurrentRows`, `selectsCurrentRows` — **PROVED**: indexed selection is a scan of the
  current rows, or it is refused.
-/

namespace Memorial

open Library

variable {C : TypeSystem} {node : NodeSpec C}

namespace DeltaNodeStore

/-- A call that may change the store.  The `push_back` of the append that is numbered `fault`
throws. -/
inductive Call (node : NodeSpec C)
  | append (row : RowMetadata) (values : PropertyValues node.properties) (fault : Option ℕ)
  | buildIndices

/-- What an accepted append was given, and the id that it returned. -/
structure AcceptedRow (node : NodeSpec C) where
  id : NodeId
  row : RowMetadata
  values : PropertyValues node.properties

def step (store : DeltaNodeStore node) : Call node → DeltaNodeStore node
  | .append row values fault => (store.append row values fault).1
  | .buildIndices => store.buildIndices

/-- The row of the call, if it is an append and is accepted. -/
def accepted (store : DeltaNodeStore node) : Call node → Option (AcceptedRow node)
  | .append row values fault =>
    (store.append row values fault).2.accepted.map (fun id => ⟨id, row, values⟩)
  | .buildIndices => none

/-- The rows that a run on a new store accepts, in order. -/
def acceptedRows (idBase : ℕ) (calls : List (Call node)) : List (AcceptedRow node) :=
  outputs step accepted (empty idBase) calls

/-! ### The rows behind the columns -/

/-- The store holds the rows, column by column. -/
structure StoresRows (store : DeltaNodeStore node) (rows : List (AcceptedRow node)) : Prop where
  wellFormed : store.WellFormed
  ids : store.rowIds = rows.map AcceptedRow.id
  worldlines : store.metadata.worldlines = rows.map (fun accepted => accepted.row.worldline)
  valids : store.metadata.valids = rows.map (fun accepted => accepted.row.valid)
  transactions : store.metadata.transactions = rows.map (fun accepted => accepted.row.transaction)
  sources : store.metadata.sources = rows.map (fun accepted => accepted.row.source)
  columns : ∀ index, store.nodes.columns index = rows.map (fun accepted => accepted.values index)

theorem storesRows_empty (idBase : ℕ) : (empty idBase : DeltaNodeStore node).StoresRows [] where
  wellFormed := wellFormed_empty idBase
  ids := rfl
  worldlines := rfl
  valids := rfl
  transactions := rfl
  sources := rfl
  columns _ := rfl

/-- An accepted row adds one entry to every column. -/
theorem StoresRows.pushRow {store : DeltaNodeStore node} {rows : List (AcceptedRow node)}
    (h : store.StoresRows rows) (hcapacity : store.extent < StrongId.capacity 32)
    (row : RowMetadata) (values : PropertyValues node.properties) :
    (store.pushRow row values).StoresRows (rows ++ [⟨.ofSize store.extent, row, values⟩]) where
  wellFormed := h.wellFormed.pushRow hcapacity row values
  ids := by
    rw [List.map_append, ← h.ids]
    exact IdRange.rowIds_succ store.idBase store.nodes.size
  worldlines := by
    rw [List.map_append, ← h.worldlines]
    rfl
  valids := by
    rw [List.map_append, ← h.valids]
    rfl
  transactions := by
    rw [List.map_append, ← h.transactions]
    rfl
  sources := by
    rw [List.map_append, ← h.sources]
    rfl
  columns index := by
    rw [List.map_append, ← h.columns index]
    rfl

/-- The rows do not depend on the indices. -/
theorem StoresRows.stale {store : DeltaNodeStore node} {rows : List (AcceptedRow node)}
    (h : store.StoresRows rows) : store.stale.StoresRows rows where
  wellFormed := h.wellFormed.stale
  ids := h.ids
  worldlines := h.worldlines
  valids := h.valids
  transactions := h.transactions
  sources := h.sources
  columns := h.columns

theorem StoresRows.buildIndices {store : DeltaNodeStore node} {rows : List (AcceptedRow node)}
    (h : store.StoresRows rows) : store.buildIndices.StoresRows rows where
  wellFormed := h.wellFormed.buildIndices
  ids := h.ids
  worldlines := h.worldlines
  valids := h.valids
  transactions := h.transactions
  sources := h.sources
  columns := h.columns

/-- **Every call keeps the columns those of the accepted rows.** -/
theorem StoresRows.step {store : DeltaNodeStore node} {rows : List (AcceptedRow node)}
    (h : store.StoresRows rows) (call : Call node) :
    (store.step call).StoresRows (rows ++ (store.accepted call).toList) := by
  cases call with
  | append row values fault =>
    rw [DeltaNodeStore.step, accepted]
    rcases append_cases store row values fault with ⟨hcapacity, -, happend⟩ | ⟨hstore, hnone⟩
    · rw [happend]
      exact h.pushRow hcapacity row values
    · rw [hnone, Option.map_none, Option.toList_none, List.append_nil]
      rcases hstore with hsame | hstale
      · rw [hsame]
        exact h
      · rw [hstale]
        exact h.stale
  | buildIndices =>
    rw [accepted, Option.toList_none, List.append_nil]
    exact h.buildIndices

/-- **Every run does**, from any store that holds some rows. -/
theorem StoresRows.run {store : DeltaNodeStore node} {rows : List (AcceptedRow node)}
    (h : store.StoresRows rows) (calls : List (Call node)) :
    (run DeltaNodeStore.step store calls).StoresRows
      (rows ++ outputs DeltaNodeStore.step accepted store calls) :=
  run_outputs_invariant DeltaNodeStore.step accepted StoresRows (fun _ _ call h => h.step call)
    calls h

theorem storesRows_run (idBase : ℕ) (calls : List (Call node)) :
    (run step (empty idBase) calls).StoresRows (acceptedRows idBase calls) :=
  (storesRows_empty idBase).run calls

theorem idBase_step (store : DeltaNodeStore node) (call : Call node) :
    (store.step call).idBase = store.idBase := by
  cases call with
  | append row values fault =>
    rw [step]
    rcases append_cases store row values fault with ⟨-, -, happend⟩ | ⟨hsame | hstale, -⟩
    · rw [happend]
      rfl
    · rw [hsame]
    · rw [hstale]
      rfl
  | buildIndices => rfl

/-- No call changes the id base. -/
theorem idBase_run (idBase : ℕ) (calls : List (Call node)) :
    (run step (empty idBase : DeltaNodeStore node) calls).idBase = idBase :=
  run_invariant step (fun store : DeltaNodeStore node => store.idBase = idBase)
    (fun store call h => (store.idBase_step call).trans h) calls rfl

/-! ### Row fidelity -/

/-- Every accessor returns, under the row's id, what the append was given. -/
structure ReadsBack (store : DeltaNodeStore node) (accepted : AcceptedRow node) : Prop where
  property : ∀ key, store.property key accepted.id = .ok (accepted.values key.index)
  worldline : store.worldline accepted.id = .ok accepted.row.worldline
  valid : store.valid accepted.id = .ok accepted.row.valid
  transaction : store.transaction accepted.id = .ok accepted.row.transaction
  source : store.source accepted.id = .ok accepted.row.source

theorem StoresRows.length_eq {store : DeltaNodeStore node} {rows : List (AcceptedRow node)}
    (h : store.StoresRows rows) : rows.length = store.size := by
  rw [← List.length_map (f := AcceptedRow.id), ← h.ids, length_rowIds]
  rfl

/-- The id of an accepted row is the id base and its position. -/
theorem StoresRows.toSize_id {store : DeltaNodeStore node} {rows : List (AcceptedRow node)}
    (h : store.StoresRows rows) {k : ℕ} {accepted : AcceptedRow node}
    (hk : rows[k]? = some accepted) :
    store.contains accepted.id = true ∧ accepted.id.toSize = store.idBase + k := by
  have hlt : k < store.nodes.ids.size := by
    have hlength : k < rows.length := (List.getElem?_eq_some_iff.mp hk).1
    rw [h.length_eq] at hlength
    exact hlength
  have hids : store.rowIds[k]? = (rows.map AcceptedRow.id)[k]? := by rw [h.ids]
  have hrange : (List.range store.nodes.ids.size)[k]? = some k := List.getElem?_range hlt
  rw [rowIds, IdRange.rowIds, List.getElem?_map, List.getElem?_map, hk, hrange] at hids
  have hid : store.nodes.ids.rowId k = accepted.id := Option.some.inj hids
  rw [← hid]
  exact ⟨IdRange.contains_rowId h.wellFormed.nodes.fits hlt,
    IdRange.toSize_rowId h.wellFormed.nodes.fits hlt⟩

/-- The row that an accepted id names is where it was accepted. -/
theorem StoresRows.exists_row {store : DeltaNodeStore node} {rows : List (AcceptedRow node)}
    (h : store.StoresRows rows) {accepted : AcceptedRow node} (haccepted : accepted ∈ rows) :
    store.contains accepted.id = true ∧
      rows[accepted.id.toSize - store.idBase]? = some accepted := by
  obtain ⟨k, hk⟩ := List.mem_iff_getElem?.mp haccepted
  obtain ⟨hcontains, hid⟩ := h.toSize_id hk
  refine ⟨hcontains, ?_⟩
  rw [hid, Nat.add_sub_cancel_left]
  exact hk

/-- The metadata behind an accepted id is what the append was given. -/
theorem StoresRows.rowOf?_eq {store : DeltaNodeStore node} {rows : List (AcceptedRow node)}
    (h : store.StoresRows rows) {accepted : AcceptedRow node} (haccepted : accepted ∈ rows) :
    store.rowOf? accepted.id = some accepted.row := by
  obtain ⟨-, hrow⟩ := h.exists_row haccepted
  rw [rowOf?, MetadataColumns.rowAt?, h.worldlines, h.valids, h.transactions, h.sources]
  simp only [List.getElem?_map, hrow]
  rfl

/-- **Every accepted row is read back.** -/
theorem StoresRows.readsBack {store : DeltaNodeStore node} {rows : List (AcceptedRow node)}
    (h : store.StoresRows rows) {accepted : AcceptedRow node} (haccepted : accepted ∈ rows) :
    store.ReadsBack accepted := by
  obtain ⟨hcontains, hrow⟩ := h.exists_row haccepted
  obtain ⟨row, hof, hworldline, hvalid, htransaction, hsource⟩ := h.wellFormed.exists_row hcontains
  rw [h.rowOf?_eq haccepted] at hof
  obtain rfl := Option.some.inj hof
  refine ⟨?_, hworldline, hvalid, htransaction, hsource⟩
  intro key
  obtain ⟨value, hread, hproperty⟩ :=
    NodeStore.property_of_contains h.wellFormed.nodes hcontains key
  have hstored : (store.nodes.columns key.index)[accepted.id.toSize - store.idBase]? =
      some (accepted.values key.index) := by
    rw [h.columns, List.getElem?_map, hrow]
    rfl
  obtain rfl := Option.some.inj (hread.symm.trans hstored)
  exact hproperty

/-- What holds of the store that a run builds and of the rows that the run accepted. -/
structure RowFidelity (idBase : ℕ) (store : DeltaNodeStore node)
    (rows : List (AcceptedRow node)) : Prop where
  size : store.size = rows.length
  columns : ∀ index, (store.nodes.columns index).length = store.size
  metadata : store.metadata.HasLength store.size
  ids : ∀ k accepted, rows[k]? = some accepted →
    accepted.id.isValid = true ∧ accepted.id.toSize = idBase + k
  distinct : (rows.map AcceptedRow.id).Nodup
  contains : ∀ id, store.contains id = true ↔ id ∈ rows.map AcceptedRow.id
  later : ∀ (more : List (Call node)), ∀ accepted ∈ rows, (run step store more).ReadsBack accepted

/-- **Row fidelity and id allocation**, for every run. -/
theorem rowFidelity (idBase : ℕ) (calls : List (Call node)) :
    RowFidelity idBase (run step (empty idBase) calls) (acceptedRows idBase calls) := by
  have h := storesRows_run idBase calls
  refine ⟨h.length_eq.symm, h.wellFormed.nodes.columns_length, h.wellFormed.metadata, ?_, ?_, ?_,
    ?_⟩
  · intro k accepted hk
    obtain ⟨hcontains, hid⟩ := h.toSize_id hk
    rw [idBase_run] at hid
    exact ⟨IdRange.isValid_of_contains hcontains, hid⟩
  · rw [← h.ids]
    exact h.wellFormed.nodup_rowIds
  · intro id
    rw [← h.ids]
    exact h.wellFormed.contains_iff_mem_rowIds.symm
  · intro more accepted haccepted
    exact (h.run more).readsBack (List.mem_append_left _ haccepted)

/-! ### Indexed selection -/

/-- The row of the id is stored, its worldline is the one asked for, and its intervals contain the
two times. -/
structure IsCurrentRow (store : DeltaNodeStore node) (worldline : WorldlineId)
    (validAt knownAt : Timestamp) (id : NodeId) : Prop where
  stored : store.contains id = true
  worldline : store.worldline id = .ok worldline
  valid : ∃ valid, store.valid id = .ok valid ∧ valid.contains validAt = true
  transaction : ∃ transaction, store.transaction id = .ok transaction ∧
    transaction.contains knownAt = true

/-- The row of the id is stored, with a value that satisfies the predicate. -/
structure SatisfiesPredicate (store : DeltaNodeStore node) (key : PropertyKey node.properties)
    {Value : Type} (value : Value)
    (predicate : PropertyValue node.properties key.index → Value → Bool) (id : NodeId) : Prop where
  stored : store.contains id = true
  value : ∃ stored, store.property key id = .ok stored ∧ predicate stored value = true

/-- Where the indices are not ready the lookup is refused; where they are, it returns exactly the
ids that are selected, in strictly ascending order. -/
def RefusesOrScans (ready : Bool) (selected : NodeId → Prop) (result : Result (List NodeId)) :
    Prop :=
  (ready = false ∧ result = .error indicesNotBuilt) ∨
    (ready = true ∧ ∃ ids, result = .ok ids ∧
      ids.Pairwise (fun a b => a.toSize < b.toSize) ∧ ids.Nodup ∧ ∀ id, id ∈ ids ↔ selected id)

/-- What the two lookups return, and that ready indices are those of the current rows. -/
structure SelectsCurrentRows (store : DeltaNodeStore node) : Prop where
  candidates : ∀ worldline validAt knownAt,
    RefusesOrScans store.indicesReady (store.IsCurrentRow worldline validAt knownAt)
      (store.indexedCandidates worldline validAt knownAt)
  propertyCandidates : ∀ (key : PropertyKey node.properties) (Value : Type) (value : Value)
    (predicate : PropertyValue node.properties key.index → Value → Bool),
    RefusesOrScans store.indicesReady (store.SatisfiesPredicate key value predicate)
      (store.indexedPropertyCandidates key value predicate)
  fresh : store.indicesReady = true → store.buildIndices = store

/-- A stored row is active exactly if it is current. -/
theorem WellFormed.isActiveRow_iff {store : DeltaNodeStore node} (h : store.WellFormed)
    {id : NodeId} (hid : store.contains id = true) {worldline : WorldlineId}
    {validAt knownAt : Timestamp} :
    store.isActiveRow worldline validAt knownAt id = true ↔
      store.IsCurrentRow worldline validAt knownAt id := by
  obtain ⟨row, hof, hworldline, hvalid, htransaction, -⟩ := h.exists_row hid
  rw [isActiveRow, hof, Option.any_some, RowMetadata.isActive, Bool.and_eq_true, Bool.and_eq_true,
    beq_iff_eq]
  constructor
  · intro hactive
    obtain ⟨⟨hsame, hvalidAt⟩, hknownAt⟩ := hactive
    refine ⟨hid, ?_, ⟨row.valid, hvalid, hvalidAt⟩, ⟨row.transaction, htransaction, hknownAt⟩⟩
    rw [hworldline, hsame]
  · intro hcurrent
    obtain ⟨valid, hvalid', hvalidAt⟩ := hcurrent.valid
    obtain ⟨transaction, htransaction', hknownAt⟩ := hcurrent.transaction
    obtain rfl := Except.ok.inj (hvalid.symm.trans hvalid')
    obtain rfl := Except.ok.inj (htransaction.symm.trans htransaction')
    exact ⟨⟨Except.ok.inj (hworldline.symm.trans hcurrent.worldline), hvalidAt⟩, hknownAt⟩

/-- A stored row's value satisfies the predicate exactly if what `property` returns does. -/
theorem WellFormed.any_valueOf?_iff {store : DeltaNodeStore node} (h : store.WellFormed)
    {id : NodeId} (hid : store.contains id = true) (key : PropertyKey node.properties)
    {Value : Type} (value : Value)
    (predicate : PropertyValue node.properties key.index → Value → Bool) :
    (store.valueOf? key id).any (fun stored => predicate stored value) = true ↔
      store.SatisfiesPredicate key value predicate id := by
  obtain ⟨stored, hread, hproperty⟩ := NodeStore.property_of_contains h.nodes hid key
  have hvalue : store.valueOf? key id = some stored := hread
  rw [hvalue, Option.any_some]
  constructor
  · intro hsatisfies
    exact ⟨hid, stored, hproperty, hsatisfies⟩
  · intro hsatisfies
    obtain ⟨stored', hproperty', hpredicate⟩ := hsatisfies.value
    obtain rfl := Except.ok.inj (hproperty.symm.trans hproperty')
    exact hpredicate

/-- A filter of the row ids is a scan. -/
theorem WellFormed.refusesOrScans_filter {store : DeltaNodeStore node} (h : store.WellFormed)
    (hready : store.indicesReady = true) {test : NodeId → Bool} {selected : NodeId → Prop}
    (hstored : ∀ id, selected id → store.contains id = true)
    (htest : ∀ id, store.contains id = true → (test id = true ↔ selected id)) :
    RefusesOrScans store.indicesReady selected (.ok (store.rowIds.filter test)) := by
  refine Or.inr ⟨hready, _, rfl, h.rowIds_pairwise.filter _, h.nodup_rowIds.filter _, ?_⟩
  intro id
  rw [List.mem_filter, h.contains_iff_mem_rowIds]
  constructor
  · intro hkept
    exact (htest id hkept.1).mp hkept.2
  · intro hselected
    exact ⟨hstored id hselected, (htest id (hstored id hselected)).mpr hselected⟩

/-- In a well-formed store the lookups scan the current rows, or are refused. -/
theorem WellFormed.refusesOrScans {store : DeltaNodeStore node} (h : store.WellFormed) :
    store.SelectsCurrentRows := by
  refine ⟨?_, ?_, h.ready⟩
  · intro worldline validAt knownAt
    by_cases hready : store.indicesReady = true
    · rw [h.indexedCandidates_eq hready]
      exact h.refusesOrScans_filter hready (fun _ hcurrent => hcurrent.stored)
        (fun _ hid => h.isActiveRow_iff hid)
    · exact Or.inl ⟨by simpa using hready, if_pos (by simp [hready])⟩
  · intro key Value value predicate
    by_cases hready : store.indicesReady = true
    · rw [h.indexedPropertyCandidates_eq hready]
      exact h.refusesOrScans_filter hready (fun _ hsatisfies => hsatisfies.stored)
        (fun _ hid => h.any_valueOf?_iff hid key value predicate)
    · exact Or.inl ⟨by simpa using hready, if_pos (by simp [hready])⟩

/-- **Indexed selection equals a full scan or refuses**, after every run. -/
theorem selectsCurrentRows (idBase : ℕ) (calls : List (Call node)) :
    (run step (empty idBase : DeltaNodeStore node) calls).SelectsCurrentRows :=
  (storesRows_run idBase calls).wellFormed.refusesOrScans

end DeltaNodeStore

end Memorial
