import Memorial.Storage.DeltaNodeStore

/-!
# Indexed selection is a scan

What `indexed_candidates` and `indexed_property_candidates` return, stated as filters of the
list of all rows.

* `mem_zip_rowIds` — a column filed by row id, read back by membership;
* `isVisible_eq` — the test of `append_if_visible` reads the metadata of the row;
* `IsAccessPath` — stored rows, each once, among them every active one: **PROVED** of each of
  the three lists `indexed_candidates` chooses from;
* `indexedCandidates_eq` — **PROVED**: the result is the ascending list of the active rows,
  whichever path was shortest;
* `indexedPropertyCandidates_eq` — **PROVED**: likewise for a predicate on stored values.
-/

namespace Memorial

open Library

variable {C : TypeSystem} {node : NodeSpec C}

/-- A column filed by row id: the entries are the stored rows with their values. -/
theorem IdRange.mem_zip_rowIds {Tag : Type} {width : ℕ} {ids : IdRange} (h : ids.Fits width)
    {α : Type} {values : List α} {value : α} {id : StrongId Tag width} :
    (value, id) ∈ values.zip ids.rowIds ↔
      ids.contains id = true ∧ values[id.toSize - ids.base]? = some value := by
  have hat : ∀ row, (ids.rowIds : List (StrongId Tag width))[row]? =
      if row < ids.size then some (ids.rowId row) else none := by
    intro row
    rw [rowIds, List.getElem?_map]
    split
    · rename_i hrow
      rw [List.getElem?_range hrow]
      rfl
    · rename_i hrow
      rw [List.getElem?_eq_none (by simpa using hrow)]
      rfl
  rw [List.mem_iff_getElem?]
  simp only [List.getElem?_zip_eq_some, hat]
  constructor
  · intro hfiled
    obtain ⟨row, hvalue, hid⟩ := hfiled
    split at hid
    · rename_i hrow
      obtain rfl := Option.some.inj hid
      refine ⟨contains_rowId h hrow, ?_⟩
      rw [toSize_rowId h hrow, Nat.add_sub_cancel_left]
      exact hvalue
    · cases hid
  · intro hstored
    obtain ⟨hid, hvalue⟩ := hstored
    obtain ⟨hbase, hlt⟩ := bounds_of_contains hid
    rw [extent] at hlt
    refine ⟨id.toSize - ids.base, hvalue, ?_⟩
    rw [if_pos (by omega), rowId_sub hid]

namespace DeltaNodeStore

/-- The row of an id is stored and active at the selected worldline and times. -/
def isActiveRow (store : DeltaNodeStore node) (worldline : WorldlineId)
    (validAt knownAt : Timestamp) (id : NodeId) : Bool :=
  (store.rowOf? id).any (fun row => row.isActive worldline validAt knownAt)

/-! ### The comparators -/

theorem byTime_eq (left right : Timestamp × NodeId) :
    byTime left right = decide (left.1.toInt < right.1.toInt) := by
  simp only [byTime, Int64.lt_iff_toInt_lt]

theorem byValue_eq (left right : NodeId) :
    byValue left right = decide (left.toSize < right.toSize) := rfl

/-- Sorting by value gives *the* ascending list of the members. -/
theorem sort_byValue_eq {path ids : List NodeId} (hpath : path.Nodup)
    (hids : ids.Pairwise (fun a b => a.toSize < b.toSize)) (hmem : ∀ id, id ∈ path ↔ id ∈ ids) :
    C.rangesSort.sort byValue path = ids :=
  C.rangesSort.sort_eq_of_mem_iff byValue_eq StrongId.toSize_injective hpath hids hmem

theorem mem_startedBy {entries : List (Timestamp × NodeId)} {point : Timestamp}
    {entry : Timestamp × NodeId} :
    entry ∈ startedBy (C.rangesSort.sort byTime entries) point ↔
      entry ∈ entries ∧ entry.1 ≤ point := by
  have hsorted := C.rangesSort.pairwise_sort byTime_eq entries
  have hpast := mem_takeWhile_key_le hsorted point.toInt entry
  simp only [startedBy, Int64.lt_iff_toInt_lt, Int64.le_iff_toInt_le]
  rw [hpast, UnstableSort.mem_sort]

/-! ### What the built indices hold -/

section Ready

variable {store : DeltaNodeStore node}

theorem WellFormed.contains_iff_mem_rowIds (h : store.WellFormed) {id : NodeId} :
    id ∈ store.rowIds ↔ store.contains id = true :=
  IdRange.mem_rowIds h.nodes.fits

theorem WellFormed.rowIds_pairwise (h : store.WellFormed) :
    store.rowIds.Pairwise (fun a b => a.toSize < b.toSize) :=
  IdRange.rowIds_pairwise h.nodes.fits

theorem WellFormed.nodup_rowIds (h : store.WellFormed) : store.rowIds.Nodup :=
  IdRange.nodup_rowIds h.nodes.fits

theorem length_rowIds (store : DeltaNodeStore node) : store.rowIds.length = store.nodes.size :=
  IdRange.length_rowIds _

/-- The entries of a start index are the stored rows with their start times. -/
theorem WellFormed.mem_startIndex (h : store.WellFormed) {starts : List Timestamp}
    {point : Timestamp} {id : NodeId} :
    id ∈ (startedBy (C.rangesSort.sort byTime (starts.zip store.rowIds)) point).map Prod.snd ↔
      store.contains id = true ∧
        ∃ start, starts[id.toSize - store.idBase]? = some start ∧ start ≤ point := by
  rw [List.mem_map]
  constructor
  · intro hlisted
    obtain ⟨⟨start, other⟩, hentry, rfl⟩ := hlisted
    obtain ⟨hmem, hle⟩ := mem_startedBy.mp hentry
    obtain ⟨hcontains, hstart⟩ := (IdRange.mem_zip_rowIds h.nodes.fits).mp hmem
    exact ⟨hcontains, start, hstart, hle⟩
  · intro hstored
    obtain ⟨hcontains, start, hstart, hle⟩ := hstored
    have hmem := (IdRange.mem_zip_rowIds h.nodes.fits).mpr ⟨hcontains, hstart⟩
    exact ⟨(start, id), mem_startedBy.mpr ⟨hmem, hle⟩, rfl⟩

/-- Each row is filed once in a start index. -/
theorem WellFormed.nodup_startIndex (h : store.WellFormed) {starts : List Timestamp}
    (hlength : starts.length = store.nodes.size) (point : Timestamp) :
    ((startedBy (C.rangesSort.sort byTime (starts.zip store.rowIds)) point).map
      Prod.snd).Nodup := by
  have hperm := (C.rangesSort.sort_perm byTime (starts.zip store.rowIds)).map Prod.snd
  have hzip : (starts.zip store.rowIds).map Prod.snd = store.rowIds :=
    List.map_snd_zip (by rw [length_rowIds, hlength])
  rw [hzip] at hperm
  have hsorted := hperm.nodup_iff.mpr h.nodup_rowIds
  exact hsorted.sublist ((List.takeWhile_sublist _).map Prod.snd)

/-- The worldline index files exactly the rows of the worldline. -/
theorem WellFormed.mem_worldlineIndex (h : store.WellFormed) {worldline : WorldlineId}
    {id : NodeId} :
    id ∈ (VectorMap.group (store.metadata.worldlines.zip store.rowIds)).find worldline ↔
      store.contains id = true ∧
        store.metadata.worldlines[id.toSize - store.idBase]? = some worldline := by
  rw [VectorMap.find_group, List.mem_map]
  simp only [List.mem_filter, decide_eq_true_eq]
  constructor
  · intro hlisted
    obtain ⟨⟨found, other⟩, ⟨hmem, rfl⟩, rfl⟩ := hlisted
    exact (IdRange.mem_zip_rowIds h.nodes.fits).mp hmem
  · intro hid
    exact ⟨(worldline, id), ⟨(IdRange.mem_zip_rowIds h.nodes.fits).mpr hid, rfl⟩, rfl⟩

theorem WellFormed.nodup_worldlineIndex (h : store.WellFormed) (worldline : WorldlineId) :
    ((VectorMap.group (store.metadata.worldlines.zip store.rowIds)).find worldline).Nodup := by
  have hzip : (store.metadata.worldlines.zip store.rowIds).map Prod.snd = store.rowIds :=
    List.map_snd_zip (by rw [length_rowIds, h.metadata.worldlines])
  rw [VectorMap.find_group]
  refine List.Nodup.sublist (List.filter_sublist.map Prod.snd) ?_
  rw [hzip]
  exact h.nodup_rowIds

/-! ### The three access paths -/

/-- The test of `append_if_visible` reads the metadata of the row. -/
theorem WellFormed.isVisible_eq (h : store.WellFormed) {id : NodeId}
    (hid : store.contains id = true) (worldline : WorldlineId) (validAt knownAt : Timestamp) :
    store.isVisible worldline validAt knownAt id =
      .ok (store.isActiveRow worldline validAt knownAt id) := by
  obtain ⟨row, hof, hw, hv, ht, -⟩ := h.exists_entries hid
  rw [isVisible, vectorAt_of_getElem? hw, vectorAt_of_getElem? hv, vectorAt_of_getElem? ht,
    isActiveRow, hof]
  rfl

/-- An active row belongs to the worldline and has started at both times. -/
theorem WellFormed.active_bounds (h : store.WellFormed) {id : NodeId}
    (hid : store.contains id = true) {worldline : WorldlineId} {validAt knownAt : Timestamp}
    (hactive : store.isActiveRow worldline validAt knownAt id = true) :
    store.metadata.worldlines[id.toSize - store.idBase]? = some worldline ∧
      (∃ start, (store.metadata.valids.map TemporalInterval.fromTime)[id.toSize - store.idBase]? =
        some start ∧ start ≤ validAt) ∧
      ∃ start, (store.metadata.transactions.map
        TemporalInterval.fromTime)[id.toSize - store.idBase]? = some start ∧ start ≤ knownAt := by
  obtain ⟨row, hof, hw, hv, ht, -⟩ := h.exists_entries hid
  rw [isActiveRow, hof, Option.any_some] at hactive
  simp only [RowMetadata.isActive, TemporalInterval.contains, Bool.and_eq_true, beq_iff_eq,
    decide_eq_true_eq] at hactive
  obtain ⟨⟨hworldline, hvalid, -⟩, htransaction, -⟩ := hactive
  refine ⟨by rw [hw, hworldline], ⟨row.valid.fromTime, ?_, hvalid⟩,
    ⟨row.transaction.fromTime, ?_, htransaction⟩⟩
  · rw [List.getElem?_map, hv]
    rfl
  · rw [List.getElem?_map, ht]
    rfl

/-- A list of ids to test is a good access path when it holds stored rows, each once, and among
them every active one. -/
structure IsAccessPath (store : DeltaNodeStore node) (worldline : WorldlineId)
    (validAt knownAt : Timestamp) (path : List NodeId) : Prop where
  stored : ∀ id ∈ path, store.contains id = true
  nodup : path.Nodup
  complete : ∀ id, store.contains id = true →
    store.isActiveRow worldline validAt knownAt id = true → id ∈ path

variable {worldline : WorldlineId} {validAt knownAt : Timestamp}

theorem WellFormed.isAccessPath_worldline (h : store.WellFormed) :
    IsAccessPath store worldline validAt knownAt
      ((VectorMap.group (store.metadata.worldlines.zip store.rowIds)).find worldline) where
  stored _ hid := (h.mem_worldlineIndex.mp hid).1
  nodup := h.nodup_worldlineIndex worldline
  complete _ hid hactive := h.mem_worldlineIndex.mpr ⟨hid, (h.active_bounds hid hactive).1⟩

theorem WellFormed.isAccessPath_valid (h : store.WellFormed) :
    IsAccessPath store worldline validAt knownAt
      ((startedBy (C.rangesSort.sort byTime
        ((store.metadata.valids.map TemporalInterval.fromTime).zip store.rowIds)) validAt).map
        Prod.snd) where
  stored _ hid := (h.mem_startIndex.mp hid).1
  nodup := h.nodup_startIndex (by rw [List.length_map, h.metadata.valids]) validAt
  complete _ hid hactive := h.mem_startIndex.mpr ⟨hid, (h.active_bounds hid hactive).2.1⟩

theorem WellFormed.isAccessPath_transaction (h : store.WellFormed) :
    IsAccessPath store worldline validAt knownAt
      ((startedBy (C.rangesSort.sort byTime
        ((store.metadata.transactions.map TemporalInterval.fromTime).zip store.rowIds))
        knownAt).map Prod.snd) where
  stored _ hid := (h.mem_startIndex.mp hid).1
  nodup := h.nodup_startIndex (by rw [List.length_map, h.metadata.transactions]) knownAt
  complete _ hid hactive := h.mem_startIndex.mpr ⟨hid, (h.active_bounds hid hactive).2.2⟩

/-- The path taken is one of the three. -/
theorem IsAccessPath.accessPath {worldlineRows : List NodeId}
    {validPrefix transactionPrefix : List (Timestamp × NodeId)}
    (hworldline : IsAccessPath store worldline validAt knownAt worldlineRows)
    (hvalid : IsAccessPath store worldline validAt knownAt (validPrefix.map Prod.snd))
    (htransaction : IsAccessPath store worldline validAt knownAt
      (transactionPrefix.map Prod.snd)) :
    IsAccessPath store worldline validAt knownAt
      (accessPath worldlineRows validPrefix transactionPrefix) := by
  rw [DeltaNodeStore.accessPath]
  split
  · exact hworldline
  · split
    · exact hvalid
    · exact htransaction

/-- Testing any access path and sorting what is left gives the active rows. -/
theorem IsAccessPath.sort_filter (h : store.WellFormed) {path : List NodeId}
    (hpath : IsAccessPath store worldline validAt knownAt path) :
    C.rangesSort.sort byValue (path.filter (store.isActiveRow worldline validAt knownAt)) =
      store.rowIds.filter (store.isActiveRow worldline validAt knownAt) := by
  refine sort_byValue_eq (hpath.nodup.filter _) (h.rowIds_pairwise.filter _) ?_
  intro id
  rw [List.mem_filter, List.mem_filter, h.contains_iff_mem_rowIds]
  constructor
  · intro hkept
    obtain ⟨hid, hactive⟩ := hkept
    exact ⟨hpath.stored id hid, hactive⟩
  · intro hrow
    obtain ⟨hid, hactive⟩ := hrow
    exact ⟨hpath.complete id hid hactive, hactive⟩

/-- **Indexed selection is a scan**: `indexed_candidates` returns the ascending list of the
active rows. -/
theorem WellFormed.indexedCandidates_eq (h : store.WellFormed) (hready : store.indicesReady = true)
    (worldline : WorldlineId) (validAt knownAt : Timestamp) :
    store.indexedCandidates worldline validAt knownAt =
      .ok (store.rowIds.filter (store.isActiveRow worldline validAt knownAt)) := by
  have hbuilt := h.ready hready
  have hworldlines : store.worldlineIndex =
      VectorMap.group (store.metadata.worldlines.zip store.rowIds) :=
    (congrArg worldlineIndex hbuilt).symm
  have hvalids : store.validStartIndex = C.rangesSort.sort byTime
      ((store.metadata.valids.map TemporalInterval.fromTime).zip store.rowIds) :=
    (congrArg validStartIndex hbuilt).symm
  have htransactions : store.transactionStartIndex = C.rangesSort.sort byTime
      ((store.metadata.transactions.map TemporalInterval.fromTime).zip store.rowIds) :=
    (congrArg transactionStartIndex hbuilt).symm
  have hfiled : IsAccessPath store worldline validAt knownAt
      ((VectorMap.group (store.metadata.worldlines.zip store.rowIds)).find worldline) :=
    h.isAccessPath_worldline
  rw [← hworldlines] at hfiled
  rw [indexedCandidates, hready, if_neg (by simp)]
  cases hlookup : store.worldlineIndex.lookup worldline with
  | none =>
    -- no row is filed under the worldline, so none is active
    rw [VectorMap.find_of_lookup_eq_none hlookup] at hfiled
    have hnone : store.rowIds.filter (store.isActiveRow worldline validAt knownAt) = [] := by
      rw [List.filter_eq_nil_iff]
      intro id hid hactive
      exact List.not_mem_nil (hfiled.complete id (h.contains_iff_mem_rowIds.mp hid) hactive)
    rw [hnone]
  | some worldlineRows =>
    rw [VectorMap.find_of_lookup_eq_some hlookup] at hfiled
    have hpath := hfiled.accessPath (hvalids ▸ h.isAccessPath_valid)
      (htransactions ▸ h.isAccessPath_transaction)
    show (filterLoop (store.isVisible worldline validAt knownAt) _ >>= fun result =>
      .ok (C.rangesSort.sort byValue result)) = _
    rw [filterLoop_eq_ok (fun id hid => h.isVisible_eq (hpath.stored id hid) worldline validAt
      knownAt), ok_bind, hpath.sort_filter h]

/-! ### Property predicates -/

/-- The stored value of a property, by id. -/
def valueOf? (store : DeltaNodeStore node) (key : PropertyKey node.properties) (id : NodeId) :
    Option (PropertyValue node.properties key.index) :=
  (store.nodes.columns key.index)[id.toSize - store.idBase]?

/-- **Indexed predicates are scans**: `indexed_property_candidates` returns the ascending list of
the rows whose stored value satisfies the predicate. -/
theorem WellFormed.indexedPropertyCandidates_eq (h : store.WellFormed)
    (hready : store.indicesReady = true) (key : PropertyKey node.properties) {Value : Type}
    (value : Value) (predicate : PropertyValue node.properties key.index → Value → Bool) :
    store.indexedPropertyCandidates key value predicate =
      .ok (store.rowIds.filter (fun id =>
        (store.valueOf? key id).any (fun stored => predicate stored value))) := by
  have hrows : (store.propertyIndices key.index).rows = store.rowIds :=
    (congrArg (fun built => (built.propertyIndices key.index).rows) (h.ready hready)).symm
  rw [indexedPropertyCandidates, hready, if_neg (by simp), hrows,
    filterLoop_eq_ok (p := fun id =>
      (store.valueOf? key id).any (fun stored => predicate stored value)), ok_bind]
  · refine congrArg Except.ok (sort_byValue_eq (h.nodup_rowIds.filter _)
      (h.rowIds_pairwise.filter _) fun id => Iff.rfl)
  · intro id hid
    obtain ⟨stored, hread, hvector⟩ := IdRange.vectorAt_of_contains
      (h.contains_iff_mem_rowIds.mp hid) (h.nodes.columns_length key.index)
    have hvalue : store.valueOf? key id = some stored := hread
    have hat : vectorAt (store.nodes.columns key.index) (id.toSize - store.idBase) = .ok stored :=
      hvector
    simp only [hat, hvalue]
    rfl

/-- An estimate never fails once the indices are built. -/
theorem estimatePropertyCandidates_isOk (hready : store.indicesReady = true)
    (key : PropertyKey node.properties) {Value : Type} (value : Value)
    (predicate : PropertyValue node.properties key.index → Value → Bool) :
    ∃ estimate, store.estimatePropertyCandidates key value predicate = .ok estimate := by
  rw [estimatePropertyCandidates, hready, if_neg (by simp)]
  cases C.casts (node.properties.get key.index).valueType with
  | none => exact ⟨_, rfl⟩
  | some casts =>
    dsimp only
    split
    · exact ⟨_, rfl⟩
    · split <;> exact ⟨_, rfl⟩

end Ready

end DeltaNodeStore

end Memorial
