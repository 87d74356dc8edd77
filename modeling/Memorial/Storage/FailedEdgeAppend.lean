import Memorial.Library.Runs
import Memorial.Schema.JournalSchema
import Memorial.Storage.AdjacencyStore
import Mathlib.Order.Bounds.Defs

/-!
# Edge appends that fail

An append that throws takes back what it wrote, but not the entry that `outgoing_[source]` created
on access.  An empty entry reads like a missing one, and `build_statistics` counts it.

* `SameObservations` — two stores that neither the reads nor new statistics tell apart;
* `append_invisible_iff` — **PROVED**: a failed append is invisible exactly if it does not throw
  after it created the entry of its source;
* `StatisticsRight` — the statistics of the stored edges;
* `failedEdgeAppends_invisible_iff` — **PROVED**: in a run the failed appends are invisible and the
  statistics right exactly if no append throws that late for a source without an entry;
* `failedAppend_counted` — **PROVED**: a source is counted that has no edge.
-/

namespace Memorial

open Library

variable {C : TypeSystem} {edge : EdgeSpec C}

namespace AdjacencyStore

/-! ### Observations -/

/-- The statistics that `build_statistics` computes. -/
def statistics (store : AdjacencyStore edge) : RelationDegreeStatistics C.arithmetic :=
  store.buildStatistics.degreeStatistics

/-- Sizes, edges and adjacency lists read the same, and so do the statistics when they are built;
the statistics built so far, which an append that throws marks stale, are not compared. -/
structure SameObservations (a b : AdjacencyStore edge) : Prop where
  size : a.size = b.size
  extent : a.extent = b.extent
  source : ∀ id, a.source id = b.source id
  target : ∀ id, a.target id = b.target id
  property : ∀ key id, a.property key id = b.property key id
  outgoing : ∀ source, a.outgoing source = b.outgoing source
  incoming : ∀ target, a.incoming target = b.incoming target
  statistics : a.statistics = b.statistics

/-- The statistics are those of the edges, up to the number of entries in the index. -/
theorem statistics_eq (store : AdjacencyStore edge) :
    store.statistics =
      { edgeCount := store.size
        sourceCount := store.outgoingIndex.keySet.card
        maximumOutDegree := store.outgoingIndex.longest
        averageOutDegree :=
          if store.outgoingIndex.keySet.card ≠ 0 then
            C.arithmetic.div (C.arithmetic.ofSize store.size)
              (C.arithmetic.ofSize store.outgoingIndex.keySet.card)
          else C.arithmetic.zero } := by
  rw [← VectorMap.length_entries]
  rfl

theorem SameEdges.longest_eq {a b : AdjacencyStore edge} (h : SameEdges a b) :
    a.outgoingIndex.longest = b.outgoingIndex.longest := by
  refine eq_of_forall_ge_iff fun bound => ?_
  rw [VectorMap.longest_le_iff, VectorMap.longest_le_iff]
  have hfind : ∀ source, a.outgoingIndex.find source = b.outgoingIndex.find source := h.outgoing
  simp only [hfind]

/-- Stores with the same edges are told apart by the number of entries only. -/
theorem SameEdges.sameObservations_iff {a b : AdjacencyStore edge} (h : SameEdges a b) :
    SameObservations a b ↔ a.outgoingIndex.keySet.card = b.outgoingIndex.keySet.card := by
  constructor
  · intro hsame
    have hcount := congrArg RelationDegreeStatistics.sourceCount hsame.statistics
    rw [statistics_eq, statistics_eq] at hcount
    exact hcount
  · intro hcard
    have hchecked : ∀ id, a.checkedRow id = b.checkedRow id := by
      intro id
      rw [checkedRow, checkedRow, ids, ids, h.idBase, h.size]
    refine ⟨h.size, by rw [extent, extent, h.idBase, h.size], ?_, ?_, ?_, h.outgoing, h.incoming, ?_⟩
    · intro id
      rw [source, source, hchecked, h.columns]
    · intro id
      rw [target, target, hchecked, h.columns]
    · intro key id
      rw [property, property, hchecked, h.columns]
    · rw [statistics_eq, statistics_eq, hcard, h.size, h.longest_eq]

/-! ### Where a failed append leaves an entry -/

/-- The append returns an error or throws. -/
def Fails (store : AdjacencyStore edge) (source target : NodeId)
    (values : PropertyValues edge.properties) (fault : Option ℕ) : Prop :=
  (store.append source target values fault).2.accepted = none

/-- The append passes its checks and throws after `outgoing_[source]`: at the `push_back` that
follows, where `incoming_[target]` creates an entry, or at the last `push_back`. -/
def ThrowsAfterEntry (store : AdjacencyStore edge) (source target : NodeId) (fault : Option ℕ) :
    Prop :=
  source.isValid = true ∧ target.isValid = true ∧ store.extent < StrongId.capacity 32 ∧
    (fault = some (edge.properties.length + 3) ∨
      (fault = some (edge.properties.length + 4) ∧ store.incomingIndex.lookup target = none) ∨
        fault = some (edge.properties.length + 5))

/-- An append that passes its checks and writes its columns files the edge, under its source first
and then under its target. -/
theorem append_of_columns {store : AdjacencyStore edge} {source target : NodeId}
    {fault : Option ℕ} (hsource : source.isValid = true) (htarget : target.isValid = true)
    (hcapacity : store.extent < StrongId.capacity 32)
    (hcolumns : interrupts fault 0 (edge.properties.length + 2) = false)
    (values : PropertyValues edge.properties) :
    store.append source target values fault =
      let out := fileUnder fault (edge.properties.length + 2) store.outgoingIndex source
        (.ofSize store.extent)
      let into := fileUnder fault (edge.properties.length + 4) store.incomingIndex target
        (.ofSize store.extent)
      if out.2 then ({ store with outgoingIndex := out.1, statisticsReady := false }, .thrown)
      else if into.2 then
        ({ store with
            outgoingIndex := out.1.popBack source
            incomingIndex := into.1
            statisticsReady := false }, .thrown)
      else
        ({ store with
            columns := store.columns.push source target values
            outgoingIndex := out.1
            incomingIndex := into.1
            size := store.size + 1
            statisticsReady := false }, .returned (.ok (.ofSize store.extent))) := by
  have hvalid : ¬(!source.isValid || !target.isValid) = true := by simp [hsource, htarget]
  rw [append, if_neg hvalid, if_neg (Nat.not_le.mpr hcapacity)]
  simp only [attemptAll_eq, EdgeColumns.length_pushColumns, EdgeColumns.applyAll_pushColumns,
    hcolumns, Bool.false_eq_true, if_false, EdgeColumns.popColumns_push, extent, Nat.add_assoc]
  split
  · rename_i index hout
    simp only [hout, if_true]
  · rename_i index hout
    split
    · rename_i index' hinto
      simp only [hout, hinto, Bool.false_eq_true, if_false, if_true]
    · rename_i index' hinto
      simp only [hout, hinto, Bool.false_eq_true, if_false]

theorem append_of_throwsAfterEntry {store : AdjacencyStore edge} {source target : NodeId}
    {fault : Option ℕ} (h : store.ThrowsAfterEntry source target fault)
    (values : PropertyValues edge.properties) :
    store.Fails source target values fault ∧
      (store.append source target values fault).1.outgoingIndex.keySet =
        insert source store.outgoingIndex.keySet := by
  obtain ⟨hsource, htarget, hcapacity, hfault⟩ := h
  have hcolumns : interrupts fault 0 (edge.properties.length + 2) = false := by
    rcases hfault with rfl | ⟨rfl, -⟩ | rfl <;> simp [interrupts]
  have hkeys : ∀ id : EdgeId,
      ((store.outgoingIndex.pushBack source id).popBack source).keySet =
        insert source store.outgoingIndex.keySet := by
    intro id
    rw [VectorMap.popBack, VectorMap.keySet_insert, VectorMap.pushBack, VectorMap.keySet_insert,
      Finset.insert_idem]
  rw [Fails, append_of_columns hsource htarget hcapacity hcolumns]
  rcases hfault with rfl | ⟨rfl, hmissing⟩ | rfl
  · simp [fileUnder, Outcome.accepted, VectorMap.keySet_touch]
  · simp [fileUnder, hmissing, Outcome.accepted, hkeys]
  · simp [fileUnder, Outcome.accepted, hkeys]

theorem append_of_not_throwsAfterEntry {store : AdjacencyStore edge} {source target : NodeId}
    {fault : Option ℕ} (h : ¬store.ThrowsAfterEntry source target fault)
    {values : PropertyValues edge.properties} (hfails : store.Fails source target values fault) :
    (store.append source target values fault).1.outgoingIndex = store.outgoingIndex := by
  by_cases hvalid : (!source.isValid || !target.isValid) = true
  · rw [append, if_pos hvalid]
  by_cases hcapacity : store.extent ≥ StrongId.capacity 32
  · rw [append, if_neg hvalid, if_pos hcapacity]
  by_cases hcolumns : interrupts fault 0 (edge.properties.length + 2) = true
  · rw [append, if_neg hvalid, if_neg hcapacity]
    simp only [attemptAll_eq, EdgeColumns.length_pushColumns, hcolumns, if_true]
  simp only [Bool.or_eq_true, Bool.not_eq_true', not_or, Bool.not_eq_false] at hvalid
  obtain ⟨hsource, htarget⟩ := hvalid
  rw [Bool.not_eq_true] at hcolumns
  rw [Fails, append_of_columns hsource htarget (not_le.mp hcapacity) hcolumns] at hfails
  rw [append_of_columns hsource htarget (not_le.mp hcapacity) hcolumns]
  rw [ThrowsAfterEntry] at h
  push Not at h
  obtain ⟨hpush, hcreate, hlast⟩ := h hsource htarget (not_le.mp hcapacity)
  by_cases hentry : fault = some (edge.properties.length + 2) ∧
      store.outgoingIndex.lookup source = none
  · simp [fileUnder, hentry]
  · -- the outgoing entry is filed, so the incoming one is too, and nothing throws
    exfalso
    have hcreate' : ¬(fault = some (edge.properties.length + 4) ∧
        store.incomingIndex.lookup target = none) := fun h => hcreate h.1 h.2
    simp [fileUnder, hentry, hpush, hcreate', hlast, Outcome.accepted] at hfails

/-- **A failed append is invisible exactly if it does not throw after creating the entry of its
source.** -/
theorem append_invisible_iff (store : AdjacencyStore edge) (source target : NodeId)
    (values : PropertyValues edge.properties) (fault : Option ℕ) :
    (store.Fails source target values fault →
      SameObservations (store.append source target values fault).1 store) ↔
    ¬(store.outgoingIndex.lookup source = none ∧ store.ThrowsAfterEntry source target fault) := by
  have hsame : store.Fails source target values fault →
      SameEdges (store.append source target values fault).1 store := by
    intro hfails
    rcases append_cases store source target values fault with ⟨-, -, -, heq⟩ | ⟨hsame, -⟩
    · rw [Fails, heq] at hfails
      cases hfails
    · exact hsame
  by_cases hlate : store.ThrowsAfterEntry source target fault
  · obtain ⟨hfails, hkeys⟩ := append_of_throwsAfterEntry hlate values
    rw [forall_prop_of_true hfails, (hsame hfails).sameObservations_iff, hkeys,
      and_iff_left hlate, AList.lookup_eq_none, not_not, ← VectorMap.mem_keySet]
    constructor
    · intro hcard
      by_contra hmissing
      rw [Finset.card_insert_of_notMem hmissing] at hcard
      omega
    · intro hentry
      rw [Finset.insert_eq_of_mem hentry]
  · refine iff_of_true (fun hfails => ?_) (fun h => hlate h.2)
    rw [(hsame hfails).sameObservations_iff, append_of_not_throwsAfterEntry hlate hfails]

/-! ### What the statistics should be -/

/-- The sources that have at least one edge. -/
def sourceSet (store : AdjacencyStore edge) : Finset NodeId :=
  (store.storedEdges.map StoredEdge.source).toFinset

/-- The number of edges of a source. -/
def outDegree (store : AdjacencyStore edge) (source : NodeId) : ℕ :=
  (store.storedEdges.filter (fun e => e.source = source)).length

/-- The statistics are those of the stored edges. -/
structure StatisticsRight (store : AdjacencyStore edge) : Prop where
  edgeCount : store.statistics.edgeCount = store.storedEdges.length
  sourceCount : store.statistics.sourceCount = store.sourceSet.card
  maximumOutDegree :
    IsGreatest (Set.range store.outDegree) store.statistics.maximumOutDegree
  averageOutDegree : store.statistics.averageOutDegree =
    if store.sourceSet.card ≠ 0 then
      C.arithmetic.div (C.arithmetic.ofSize store.storedEdges.length)
        (C.arithmetic.ofSize store.sourceSet.card)
    else C.arithmetic.zero

theorem WellFormed.length_outgoing {store : AdjacencyStore edge} (h : store.WellFormed)
    (source : NodeId) : (store.outgoingIndex.find source).length = store.outDegree source := by
  have hfiled : store.outgoingIndex.find source =
      (store.storedEdges.filter (fun e => e.source = source)).map StoredEdge.id :=
    h.filed .outgoing source
  rw [hfiled, List.length_map, outDegree]

/-- The largest degree does not depend on which sources have an entry. -/
theorem WellFormed.longest_isGreatest {store : AdjacencyStore edge} (h : store.WellFormed) :
    IsGreatest (Set.range store.outDegree) store.outgoingIndex.longest := by
  have hle : ∀ bound, store.outgoingIndex.longest ≤ bound ↔
      ∀ source, store.outDegree source ≤ bound := by
    intro bound
    rw [VectorMap.longest_le_iff]
    simp only [h.length_outgoing]
  have hupper := (hle _).mp (Nat.le_refl _)
  constructor
  · by_contra hnone
    have hbelow : ∀ source, store.outDegree source ≤ store.outgoingIndex.longest - 1 := by
      intro source
      have hne : store.outDegree source ≠ store.outgoingIndex.longest :=
        fun heq => hnone ⟨source, heq⟩
      have hsource := hupper source
      omega
    have hlongest := (hle _).mpr hbelow
    exact hnone ⟨⟨0⟩, by have hzero := hupper ⟨0⟩; omega⟩
  · rintro _ ⟨source, rfl⟩
    exact hupper source

theorem WellFormed.length_storedEdges {store : AdjacencyStore edge} (h : store.WellFormed) :
    store.storedEdges.length = store.size := by
  rw [← List.length_map (f := StoredEdge.id), h.map_id_storedEdges, IdRange.length_rowIds]
  rfl

/-- No entry but those of sources with edges makes the statistics right. -/
theorem WellFormed.statisticsRight {store : AdjacencyStore edge} (h : store.WellFormed)
    (hentries : store.outgoingIndex.keySet = store.sourceSet) : store.StatisticsRight := by
  constructor
  · rw [statistics_eq, h.length_storedEdges]
  · rw [statistics_eq, hentries]
  · rw [statistics_eq]
    exact h.longest_isGreatest
  · rw [statistics_eq, hentries, h.length_storedEdges]

/-! ### Runs -/

/-- An append; the `push_back` or insertion numbered `fault` throws. -/
structure Call (edge : EdgeSpec C) where
  source : NodeId
  target : NodeId
  values : PropertyValues edge.properties
  fault : Option ℕ

def step (store : AdjacencyStore edge) (call : Call edge) : AdjacencyStore edge :=
  (store.append call.source call.target call.values call.fault).1

/-- The call does not fail, or it leaves every observation as it was. -/
def FailureInvisible (store : AdjacencyStore edge) (call : Call edge) : Prop :=
  store.Fails call.source call.target call.values call.fault →
    SameObservations (store.step call) store

/-- The call does not throw after it created the entry of a source that had none. -/
def LeavesNoEntry (store : AdjacencyStore edge) (call : Call edge) : Prop :=
  ¬(store.outgoingIndex.lookup call.source = none ∧
    store.ThrowsAfterEntry call.source call.target call.fault)

/-- Well formed, and every entry of the outgoing index is that of a source with edges. -/
structure NoEmptyEntries (store : AdjacencyStore edge) : Prop where
  wellFormed : store.WellFormed
  entries : store.outgoingIndex.keySet = store.sourceSet

theorem noEmptyEntries_empty (idBase : ℕ) :
    (empty idBase : AdjacencyStore edge).NoEmptyEntries where
  wellFormed := wellFormed_empty idBase
  entries := rfl

/-- **A call that leaves no entry behind keeps the index exact.** -/
theorem NoEmptyEntries.step {store : AdjacencyStore edge} (h : store.NoEmptyEntries)
    {call : Call edge} (hcall : store.LeavesNoEntry call) :
    (AdjacencyStore.step store call).NoEmptyEntries := by
  refine ⟨h.wellFormed.append _ _ _ _, ?_⟩
  rcases append_cases store call.source call.target call.values call.fault with
    ⟨-, -, -, heq⟩ | ⟨hsame, hfails⟩
  · have hkeys : (store.pushEdge call.source call.target call.values).outgoingIndex.keySet =
        insert call.source store.outgoingIndex.keySet := VectorMap.keySet_insert _ _ _
    have hsources : (store.pushEdge call.source call.target call.values).sourceSet =
        insert call.source store.sourceSet := by
      rw [sourceSet, h.wellFormed.storedEdges_pushEdge, sourceSet, List.map_append,
        List.toFinset_append, Finset.union_comm]
      rfl
    rw [AdjacencyStore.step, heq, hkeys, hsources, h.entries]
  · have hsources : (AdjacencyStore.step store call).sourceSet = store.sourceSet := by
      rw [sourceSet, sourceSet, AdjacencyStore.step, hsame.storedEdges]
    rw [hsources, ← h.entries, AdjacencyStore.step]
    by_cases hlate : store.ThrowsAfterEntry call.source call.target call.fault
    · obtain ⟨-, hkeys⟩ := append_of_throwsAfterEntry hlate call.values
      have hentry : call.source ∈ store.outgoingIndex := by
        by_contra hmissing
        exact hcall ⟨AList.lookup_eq_none.mpr hmissing, hlate⟩
      rw [hkeys, Finset.insert_eq_of_mem (VectorMap.mem_keySet.mpr hentry)]
    · rw [append_of_not_throwsAfterEntry hlate hfails]

/-- **In a run the failed appends are invisible and the statistics right exactly if no append
throws after creating the entry of a source that has none.** -/
theorem failedEdgeAppends_invisible_iff (idBase : ℕ) (calls : List (Call edge)) :
    ((∀ before call after, calls = before ++ call :: after →
        (run step (empty idBase) before).FailureInvisible call) ∧
      ∀ before after, calls = before ++ after →
        (run step (empty idBase : AdjacencyStore edge) before).StatisticsRight) ↔
      Meets step LeavesNoEntry (empty idBase) calls := by
  have hcall : ∀ (store : AdjacencyStore edge) call,
      store.FailureInvisible call ↔ store.LeavesNoEntry call := fun store call =>
    append_invisible_iff store call.source call.target call.values call.fault
  simp only [hcall]
  rw [← meets_iff_split]
  constructor
  · exact And.left
  · intro hmeets
    refine ⟨hmeets, ?_⟩
    rintro before after rfl
    have hbefore : Meets step LeavesNoEntry (empty idBase : AdjacencyStore edge) before := by
      rw [meets_iff_split] at hmeets ⊢
      rintro first call rest rfl
      exact hmeets first call (rest ++ after) (by rw [List.append_assoc, List.cons_append])
    have hgood := run_of_meets step LeavesNoEntry NoEmptyEntries (fun _ _ h hcall => h.step hcall)
      before (noEmptyEntries_empty idBase) hbefore
    exact hgood.wellFormed.statisticsRight hgood.entries

/-- **A source without an edge is counted**: after one append that throws at the `push_back` of its
edge, the statistics have one source and no edge. -/
theorem failedAppend_counted :
    ¬∀ (idBase : ℕ) (calls : List (Call Journal.recallsEdge)),
      (∀ before call after, calls = before ++ call :: after →
        (run step (empty idBase) before).FailureInvisible call) ∧
        ∀ before after, calls = before ++ after →
          (run step (empty idBase : AdjacencyStore Journal.recallsEdge) before).StatisticsRight := by
  intro h
  have hright := (h 0 [⟨⟨0⟩, ⟨1⟩, nofun, some 3⟩]).2 _ [] (List.append_nil _).symm
  exact absurd hright.sourceCount (by decide)

end AdjacencyStore

end Memorial
