import Memorial.Library.Simulation
import Memorial.Storage.ContentAgreement
import Memorial.Storage.EdgeRuns
import Memorial.Storage.StoreRuns

/-!
# Histories

What the storage layer is for, without its machinery: a client writes rows and edges into batches
and closes a batch under coordinates, alone or on top of what was closed before.  A batch is a list
of what was written.  There are no columns, no hash maps, no indices, no capacities, nothing that
fails and nothing that is refused.

* `Batch`, `Entry`, `History` — rows and edges as written, a closed batch, the entries of a
  snapshot;
* `Archive`, `Record`, `Archive.record` — the sessions of this model;
* `Session.recorded` — what a call of a session records, if it has any effect;
* `HoldsBatch`, `HoldsHistory`, `Refines` — a delta holds a batch, a snapshot a history;
* `follows_recorded`, `refines_run` — **PROVED**: every run of a session refines the run of what it
  records.
-/

namespace Memorial

open Library

variable {C : TypeSystem} {S : GraphSchema C}

/-! ### The model -/

/-- Rows and edges as they were written, under consecutive ids. -/
structure Batch (S : GraphSchema C) where
  nodeBase : S.Tag → ℕ
  edgeBase : S.Edge → ℕ
  rows : (tag : S.Tag) → List (DeltaNodeStore.AcceptedRow (GraphSchema.node tag))
  edges : (edge : S.Edge) → List (AdjacencyStore.AcceptedEdge (GraphSchema.edge edge))

/-- A batch that was closed under coordinates. -/
structure Entry (S : GraphSchema C) where
  generation : GenerationId
  worldline : WorldlineId
  validAt : Timestamp
  knownAt : Timestamp
  batch : Batch S

/-- The entries of a snapshot, the oldest first. -/
structure History (S : GraphSchema C) where
  earlier : List (Entry S)
  last : Entry S

namespace Batch

/-- A batch on top of some number of rows and edges. -/
def above (nodeBase : S.Tag → ℕ) (edgeBase : S.Edge → ℕ) : Batch S :=
  ⟨nodeBase, edgeBase, fun _ => [], fun _ => []⟩

def nodeExtent (batch : Batch S) (tag : S.Tag) : ℕ := batch.nodeBase tag + (batch.rows tag).length

def edgeExtent (batch : Batch S) (edge : S.Edge) : ℕ :=
  batch.edgeBase edge + (batch.edges edge).length

/-- One more row, under the next id. -/
def addRow (batch : Batch S) (tag : S.Tag) (row : RowMetadata)
    (values : PropertyValues (GraphSchema.node tag).properties) : Batch S :=
  { batch with
    rows := Function.update batch.rows tag
      (batch.rows tag ++ [⟨.ofSize (batch.nodeExtent tag), row, values⟩]) }

/-- One more edge, under the next id. -/
def addEdge (batch : Batch S) (edge : S.Edge) (source target : NodeId)
    (values : PropertyValues (GraphSchema.edge edge).properties) : Batch S :=
  { batch with
    edges := Function.update batch.edges edge
      (batch.edges edge ++ [⟨.ofSize (batch.edgeExtent edge), source, target, values⟩]) }

end Batch

namespace History

def entries (history : History S) : List (Entry S) := history.earlier ++ [history.last]

/-- The batch a client starts on top of a history. -/
def nextBatch (history : History S) : Batch S :=
  .above history.last.batch.nodeExtent history.last.batch.edgeExtent

end History

/-- The batches and histories of a client. -/
structure Archive (S : GraphSchema C) where
  batches : List (Batch S)
  histories : List (History S)

/-- What a client does, where it has an effect. -/
inductive Record (S : GraphSchema C)
  | newBatch
  | nextBatch (history : ℕ)
  | addRow (batch : ℕ) (tag : S.Tag) (row : RowMetadata)
      (values : PropertyValues (GraphSchema.node tag).properties)
  | addEdge (batch : ℕ) (edge : S.Edge) (source target : NodeId)
      (values : PropertyValues (GraphSchema.edge edge).properties)
  | close (batch : ℕ) (generation : GenerationId) (worldline : WorldlineId)
      (validAt knownAt : Timestamp)
  | closeOnTop (history batch : ℕ) (generation : GenerationId) (worldline : WorldlineId)
      (validAt knownAt : Timestamp)

namespace Archive

def empty : Archive S := ⟨[], []⟩

def record (archive : Archive S) : Record S → Archive S
  | .newBatch => { archive with batches := archive.batches ++ [.above (fun _ => 0) (fun _ => 0)] }
  | .nextBatch history =>
    { archive with
      batches := archive.batches ++ (archive.histories[history]?.map History.nextBatch).toList }
  | .addRow batch tag row values =>
    { archive with batches := archive.batches.modify batch (·.addRow tag row values) }
  | .addEdge batch edge source target values =>
    { archive with batches := archive.batches.modify batch (·.addEdge edge source target values) }
  | .close batch generation worldline validAt knownAt =>
    { archive with
      histories := archive.histories ++ (archive.batches[batch]?.map fun batch =>
        { earlier := [], last := { generation, worldline, validAt, knownAt, batch } }).toList }
  | .closeOnTop history batch generation worldline validAt knownAt =>
    let closed : Option (History S) := do
      let history ← archive.histories[history]?
      let batch ← archive.batches[batch]?
      return { earlier := history.entries, last := { generation, worldline, validAt, knownAt, batch } }
    { archive with histories := archive.histories ++ closed.toList }

end Archive

/-! ### What a session records -/

namespace Session

open DeltaStore

/-- The record of a write. -/
def recordedWrite (index : ℕ) : DeltaCall S → Option (Record S)
  | .appendNode tag row values _ => some (.addRow index tag row values)
  | .appendEdge edge source target values _ => some (.addEdge index edge source target values)
  | .buildIndices => none

/-- What a call of a session records: a write if a row or an edge is stored, a publication if it is
not refused. -/
def recorded (session : Session S) : Call S → Option (Record S)
  | .newDelta => some .newBatch
  | .makeBranchDelta graph => some (.nextBatch graph)
  | .write index call =>
    if session.deltas[index]?.any (·.stores call) then recordedWrite index call else none
  | .publish delta generation worldline validAt knownAt =>
    if (session.published (.publish delta generation worldline validAt knownAt)).isSome then
      some (.close delta generation worldline validAt knownAt)
    else none
  | .publishBranch parent delta generation worldline validAt knownAt =>
    if (session.published
        (.publishBranch parent delta generation worldline validAt knownAt)).isSome then
      some (.closeOnTop parent delta generation worldline validAt knownAt)
    else none

/-- The records of a run of calls. -/
def records (calls : List (Call S)) : List (Record S) := outputs step recorded initial calls

end Session

/-! ### A delta holds a batch -/

/-- The delta stores what the batch lists, under the ids of the batch. -/
structure HoldsBatch (delta : DeltaStore S) (batch : Batch S) : Prop where
  nodeBase : ∀ tag, (delta.nodes tag).idBase = batch.nodeBase tag
  edgeBase : ∀ edge, (delta.edges edge).idBase = batch.edgeBase edge
  rows : ∀ tag, (delta.nodes tag).StoresRows (batch.rows tag)
  edges : ∀ edge, (delta.edges edge).StoresEdges (batch.edges edge)

theorem holdsBatch_branchFrom (nodeExtent : S.Tag → ℕ) (edgeExtent : S.Edge → ℕ) :
    HoldsBatch (.branchFrom nodeExtent edgeExtent : DeltaStore S)
      (.above nodeExtent edgeExtent) where
  nodeBase _ := rfl
  edgeBase _ := rfl
  rows tag := DeltaNodeStore.storesRows_empty (nodeExtent tag)
  edges edge := AdjacencyStore.storesEdges_empty (edgeExtent edge)

namespace HoldsBatch

variable {delta : DeltaStore S} {batch : Batch S}

theorem nodeExtent_eq (h : HoldsBatch delta batch) (tag : S.Tag) :
    (delta.nodes tag).extent = batch.nodeExtent tag := by
  rw [Batch.nodeExtent, ← h.nodeBase tag, (h.rows tag).length_eq]
  rfl

theorem edgeExtent_eq (h : HoldsBatch delta batch) (edge : S.Edge) :
    (delta.edges edge).extent = batch.edgeExtent edge := by
  rw [Batch.edgeExtent, ← h.edgeBase edge, (h.edges edge).length_eq]
  rfl

/-- A batch is held by any well-formed delta of the same contents. -/
theorem of_sameContents {other : DeltaStore S} (h : HoldsBatch delta batch)
    (hother : other.WellFormed) (hsame : other.SameContents delta) : HoldsBatch other batch where
  nodeBase tag := by
    rw [← h.nodeBase tag, DeltaNodeStore.idBase, DeltaNodeStore.idBase, hsame.nodes tag]
  edgeBase edge := (hsame.edges edge).idBase.trans (h.edgeBase edge)
  rows tag := by
    obtain ⟨-, hids, hworldlines, hvalids, htransactions, hsources, hcolumns⟩ := h.rows tag
    rw [← hsame.metadata tag] at hworldlines hvalids htransactions hsources
    rw [DeltaNodeStore.rowIds, ← hsame.nodes tag] at hids
    rw [← hsame.nodes tag] at hcolumns
    exact ⟨hother.nodes tag, hids, hworldlines, hvalids, htransactions, hsources, hcolumns⟩
  edges edge := (h.edges edge).of_sameEdges (hsame.edges edge)

/-- One more row on both sides. -/
theorem addRow (h : HoldsBatch delta batch) {tag : S.Tag}
    (hcapacity : (delta.nodes tag).extent < StrongId.capacity 32) (row : RowMetadata)
    (values : PropertyValues (GraphSchema.node tag).properties) :
    HoldsBatch (delta.setNodes tag ((delta.nodes tag).pushRow row values))
      (batch.addRow tag row values) where
  nodeBase := (Function.forall_update_iff delta.nodes (fun other store =>
    store.idBase = batch.nodeBase other)).mpr ⟨h.nodeBase tag, fun other _ => h.nodeBase other⟩
  edgeBase := h.edgeBase
  rows := by
    have hpush := (h.rows tag).pushRow hcapacity row values
    rw [h.nodeExtent_eq] at hpush
    exact related_update h.rows hpush
  edges := h.edges

/-- One more edge on both sides. -/
theorem addEdge (h : HoldsBatch delta batch) {edge : S.Edge}
    (hcapacity : (delta.edges edge).extent < StrongId.capacity 32) (source target : NodeId)
    (values : PropertyValues (GraphSchema.edge edge).properties) :
    HoldsBatch (delta.setEdges edge ((delta.edges edge).pushEdge source target values))
      (batch.addEdge edge source target values) where
  nodeBase := h.nodeBase
  edgeBase := (Function.forall_update_iff delta.edges (fun other store =>
    store.idBase = batch.edgeBase other)).mpr ⟨h.edgeBase edge, fun other _ => h.edgeBase other⟩
  rows := h.rows
  edges := by
    have hpush := (h.edges edge).pushEdge hcapacity source target values
    rw [h.edgeExtent_eq] at hpush
    exact related_update h.edges hpush

theorem buildIndices (h : HoldsBatch delta batch) : HoldsBatch delta.buildIndices batch where
  nodeBase := h.nodeBase
  edgeBase := h.edgeBase
  rows tag := (h.rows tag).buildIndices
  edges edge := (h.edges edge).of_sameEdges ⟨rfl, rfl, rfl, fun _ => rfl, fun _ => rfl⟩

/-- An accepted row is one more row of the batch. -/
theorem appendNode (h : HoldsBatch delta batch) {tag : S.Tag} {row : RowMetadata}
    {values : PropertyValues (GraphSchema.node tag).properties} {fault : Option ℕ}
    (hstores : delta.stores (.appendNode tag row values fault) = true) :
    HoldsBatch (delta.applyCall (.appendNode tag row values fault))
      (batch.addRow tag row values) := by
  rw [DeltaStore.stores, DeltaStore.appendNode_snd] at hstores
  rw [DeltaStore.applyCall, DeltaStore.appendNode_fst]
  rcases DeltaNodeStore.append_cases (delta.nodes tag) row values fault with
    ⟨hcapacity, -, heq⟩ | ⟨-, hnone⟩
  · rw [heq]
    exact h.addRow hcapacity row values
  · rw [hnone] at hstores
    cases hstores

/-- And so is an accepted edge. -/
theorem appendEdge (h : HoldsBatch delta batch) {edge : S.Edge} {source target : NodeId}
    {values : PropertyValues (GraphSchema.edge edge).properties} {fault : Option ℕ}
    (hstores : delta.stores (.appendEdge edge source target values fault) = true) :
    HoldsBatch (delta.applyCall (.appendEdge edge source target values fault))
      (batch.addEdge edge source target values) := by
  rw [DeltaStore.stores] at hstores
  rw [DeltaStore.applyCall]
  cases hcheck : delta.checkEndpoints edge source target with
  | error error =>
    rw [DeltaStore.appendEdge_of_refused hcheck] at hstores
    cases hstores
  | ok =>
    rw [DeltaStore.appendEdge_of_checked hcheck] at hstores ⊢
    rcases AdjacencyStore.append_cases (delta.edges edge) source target values fault with
      ⟨hcapacity, -, -, heq⟩ | ⟨-, hnone⟩
    · rw [heq]
      exact h.addEdge hcapacity source target values
    · rw [hnone] at hstores
      cases hstores

end HoldsBatch

/-! ### A snapshot holds a history -/

/-- A level holds the batch of an entry, under its coordinates. -/
structure HoldsEntry (level : Level S) (entry : Entry S) : Prop where
  generation : level.generation = entry.generation
  worldline : level.worldline = entry.worldline
  validAt : level.validAt = entry.validAt
  knownAt : level.knownAt = entry.knownAt
  batch : HoldsBatch level.data entry.batch

/-- The levels of a snapshot hold the entries of a history, one by one. -/
inductive HoldsHistory : Snapshot S → History S → Prop
  | root {level : Level S} {entry : Entry S} (holds : HoldsEntry level entry) :
      HoldsHistory (.root level) ⟨[], entry⟩
  | branch {level : Level S} {entry : Entry S} {parent : Snapshot S} {history : History S}
      (holds : HoldsEntry level entry) (parentHolds : HoldsHistory parent history) :
      HoldsHistory (.branch level parent) ⟨history.entries, entry⟩

theorem HoldsHistory.last {graph : Snapshot S} {history : History S}
    (h : HoldsHistory graph history) : HoldsEntry graph.level history.last := by
  cases h with
  | root holds => exact holds
  | branch holds => exact holds

/-- The delta made from a snapshot holds the batch started on top of its history. -/
theorem HoldsHistory.nextBatch {graph : Snapshot S} {history : History S}
    (h : HoldsHistory graph history) : HoldsBatch graph.makeBranchDelta history.nextBatch := by
  have hnodes : graph.nodeExtent = history.last.batch.nodeExtent :=
    funext h.last.batch.nodeExtent_eq
  have hedges : graph.edgeExtent = history.last.batch.edgeExtent :=
    funext h.last.batch.edgeExtent_eq
  rw [Snapshot.makeBranchDelta, History.nextBatch, hnodes, hedges]
  exact holdsBatch_branchFrom _ _

/-! ### Sessions refine archives -/

/-- The deltas of a session hold the batches of an archive, and its snapshots the histories. -/
structure Refines (session : Session S) (archive : Archive S) : Prop where
  wellFormed : session.WellFormed
  batches : List.Forall₂ HoldsBatch session.deltas archive.batches
  histories : List.Forall₂ HoldsHistory session.graphs archive.histories

namespace Refines

open Session

variable {session : Session S} {archive : Archive S}

/-- A write with no effect leaves what its delta holds. -/
theorem write_idle (h : Refines session archive) {index : ℕ} {call : DeltaStore.DeltaCall S}
    (hidle : session.deltas[index]?.any (·.stores call) = false) :
    Refines (session.step (.write index call)) archive where
  wellFormed := h.wellFormed.step _
  batches := by
    have hmodified := forall₂_modify h.batches index (f := (DeltaStore.applyCall · call))
      (g := id) ?_
    · rw [List.modify_id] at hmodified
      exact hmodified
    · intro delta batch hdelta _ hholds
      rw [hdelta, Option.any_some] at hidle
      have hwf := h.wellFormed.deltas delta (List.mem_of_getElem? hdelta)
      exact hholds.of_sameContents (hwf.applyCall call)
        (DeltaStore.sameContents_of_not_stores hidle)
  histories := h.histories

/-- A write that stores something is one record. -/
theorem write (h : Refines session archive) {index : ℕ} {call : DeltaStore.DeltaCall S}
    (hstores : session.deltas[index]?.any (·.stores call) = true) :
    Refines (session.step (.write index call))
      (run Archive.record archive (recordedWrite index call).toList) := by
  have hkept : ∀ batches', List.Forall₂ HoldsBatch
      (session.deltas.modify index (DeltaStore.applyCall · call)) batches' →
      Refines (session.step (.write index call)) { archive with batches := batches' } :=
    fun _ hbatches => ⟨h.wellFormed.step _, hbatches, h.histories⟩
  cases call with
  | appendNode tag row values fault =>
    refine hkept _ (forall₂_modify h.batches index ?_)
    intro delta batch hdelta _ hholds
    rw [hdelta, Option.any_some] at hstores
    exact hholds.appendNode hstores
  | appendEdge edge source target values fault =>
    refine hkept _ (forall₂_modify h.batches index ?_)
    intro delta batch hdelta _ hholds
    rw [hdelta, Option.any_some] at hstores
    exact hholds.appendEdge hstores
  | buildIndices =>
    cases hdelta : session.deltas[index]? <;> rw [hdelta] at hstores <;> cases hstores

theorem publishes (h : Refines session archive) {call : Call S}
    (hdeltas : (session.step call).deltas = session.deltas) {closed : List (History S)}
    (hclosed : List.Forall₂ HoldsHistory (session.published call).toList closed) :
    Refines (session.step call)
      { archive with histories := archive.histories ++ closed } where
  wellFormed := h.wellFormed.step call
  batches := by
    rw [hdeltas]
    exact h.batches
  histories := by
    rw [graphs_step]
    exact List.rel_append h.histories hclosed

/-- A publication that is refused is no record. -/
theorem publish_refused (h : Refines session archive) {call : Call S}
    (hdeltas : (session.step call).deltas = session.deltas)
    (hnone : session.published call = none) : Refines (session.step call) archive := by
  have hclosed : List.Forall₂ HoldsHistory (session.published call).toList [] := by
    rw [hnone]
    exact .nil
  have hpublishes := h.publishes hdeltas hclosed
  rw [List.append_nil] at hpublishes
  exact hpublishes

/-- **A call of a session is followed by what it records.** -/
theorem follows_recorded :
    Follows Session.step Archive.record Session.recorded (Refines (S := S)) := by
  intro session archive call h
  cases call with
  | newDelta =>
    exact ⟨h.wellFormed.step _, forall₂_concat h.batches (holdsBatch_branchFrom _ _), h.histories⟩
  | makeBranchDelta index =>
    have hwf := h.wellFormed.step (.makeBranchDelta index)
    show Refines (session.step (.makeBranchDelta index)) (archive.record (.nextBatch index))
    cases hgraph : session.graphs[index]? with
    | none =>
      have hhistory : archive.histories[index]? = none := none_of_forall₂ h.histories hgraph
      rw [step, hgraph] at hwf
      rw [step, hgraph, Archive.record, hhistory, Option.map_none, Option.toList_none,
        List.append_nil]
      exact h
    | some graph =>
      obtain ⟨history, hhistory, hholds⟩ := exists_of_forall₂ h.histories hgraph
      rw [step, hgraph] at hwf
      rw [step, hgraph, Archive.record, hhistory, Option.map_some, Option.toList_some]
      exact ⟨hwf, forall₂_concat h.batches hholds.nextBatch, h.histories⟩
  | write index call =>
    rw [recorded]
    cases hstores : session.deltas[index]?.any (·.stores call) with
    | true => exact h.write hstores
    | false => exact h.write_idle hstores
  | publish index generation worldline validAt knownAt =>
    rw [recorded]
    cases hpublished : session.published (.publish index generation worldline validAt knownAt) with
    | none => exact h.publish_refused rfl hpublished
    | some graph =>
      obtain ⟨delta, hdelta, hpublish⟩ := published_publish_iff.mp hpublished
      obtain ⟨-, -, rfl⟩ := Snapshot.publish_eq_ok_iff.mp hpublish
      obtain ⟨batch, hbatch, hholds⟩ := exists_of_forall₂ h.batches hdelta
      rw [Option.isSome_some, if_pos rfl, Option.toList_some, run_cons, run_nil, Archive.record,
        hbatch]
      refine h.publishes rfl ?_
      rw [hpublished]
      exact .cons (.root ⟨rfl, rfl, rfl, rfl, hholds.buildIndices⟩) .nil
  | publishBranch parentIndex index generation worldline validAt knownAt =>
    rw [recorded]
    cases hpublished : session.published
        (.publishBranch parentIndex index generation worldline validAt knownAt) with
    | none => exact h.publish_refused rfl hpublished
    | some graph =>
      obtain ⟨parent, delta, hparent, hdelta, hpublish⟩ := published_publishBranch_iff.mp hpublished
      obtain ⟨-, rfl⟩ := Snapshot.publishBranch_eq_ok_iff.mp hpublish
      obtain ⟨batch, hbatch, hholds⟩ := exists_of_forall₂ h.batches hdelta
      obtain ⟨history, hhistory, hparentHolds⟩ := exists_of_forall₂ h.histories hparent
      rw [Option.isSome_some, if_pos rfl, Option.toList_some, run_cons, run_nil, Archive.record,
        hbatch, hhistory]
      refine h.publishes rfl ?_
      rw [hpublished]
      exact .cons (.branch ⟨rfl, rfl, rfl, rfl, hholds.buildIndices⟩ hparentHolds) .nil

/-- **Every run of a session refines the run of what it records.** -/
theorem refines_run (calls : List (Call S)) :
    Refines (run step initial calls) (run Archive.record .empty (records calls)) :=
  run_simulates follows_recorded calls ⟨wellFormed_initial, .nil, .nil⟩

end Refines

end Memorial
