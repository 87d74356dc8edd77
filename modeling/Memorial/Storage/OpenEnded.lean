import Memorial.Storage.Session

/-!
# Rows without an end

An open-ended interval ends at the largest timestamp, and intervals are half-open: the last
instant of the clock lies outside of every interval.

* `TemporalInterval.IsOpenEnded` — the intervals `open_ended` makes;
* `TemporalInterval.contains_later_iff` — **PROVED**: such an interval, once entered, is left at
  the last instant only;
* `Snapshot.shows_later_iff` — **PROVED**: so an open-ended row that a root shows is shown by the
  same rows published later exactly if neither coordinate is the last instant;
* `Snapshot.openRows_disappear` — **PROVED**: a row that is not.
-/

namespace Memorial

open Library Session DeltaStore

/-! ### Intervals -/

namespace TemporalInterval

variable {Domain : Type}

/-- The interval was made by `open_ended`. -/
def IsOpenEnded (interval : TemporalInterval Domain) : Prop :=
  ∃ fromTime, openEnded fromTime = .ok interval

theorem IsOpenEnded.toTime_eq {interval : TemporalInterval Domain} (h : interval.IsOpenEnded) :
    interval.toTime = Int64.maxValue := by
  obtain ⟨fromTime, hmake⟩ := h
  rw [openEnded, make] at hmake
  split at hmake
  · rw [← Except.ok.inj hmake]
  · cases hmake

theorem contains_iff {interval : TemporalInterval Domain} {point : Timestamp} :
    interval.contains point = true ↔ interval.fromTime ≤ point ∧ point < interval.toTime := by
  rw [contains, Bool.and_eq_true, decide_eq_true_iff, decide_eq_true_iff]

theorem lt_maxValue_iff (point : Timestamp) : point < Int64.maxValue ↔ point ≠ Int64.maxValue := by
  rw [Int64.lt_iff_toInt_lt, ne_eq, ← Int64.toInt_inj]
  have hle : point.toInt ≤ Int64.maxValue.toInt := Int64.le_iff_toInt_le.mp (Int64.le_maxValue point)
  omega

/-- An open-ended interval, once entered, is left at the last instant only. -/
theorem contains_later_iff {interval : TemporalInterval Domain} (h : interval.IsOpenEnded)
    {point later : Timestamp} (hpoint : interval.contains point = true) (hle : point ≤ later) :
    interval.contains later = true ↔ later ≠ Int64.maxValue := by
  rw [contains_iff] at hpoint
  rw [contains_iff, h.toTime_eq, lt_maxValue_iff]
  exact and_iff_right (Int64.le_trans hpoint.1 hle)

end TemporalInterval

variable {C : TypeSystem} {S : GraphSchema C}

namespace Snapshot

/-! ### Rows -/

/-- `contains` answers true, and `source_candidates` lists the id. -/
structure Shows (graph : Snapshot S) (tag : S.Tag) (id : NodeId) : Prop where
  contained : graph.contains tag id = .ok true
  listed : ∃ ids, graph.sourceCandidates tag = .ok ids ∧ id ∈ ids

/-- Both intervals of the row of the id are open-ended. -/
def HasOpenRow (graph : Snapshot S) (tag : S.Tag) (id : NodeId) : Prop :=
  ∃ row, graph.storedRow? tag id = some row ∧ row.valid.IsOpenEnded ∧ row.transaction.IsOpenEnded

theorem WellFormed.shows_iff {graph : Snapshot S} (h : graph.WellFormed) {tag : S.Tag}
    {id : NodeId} : graph.Shows tag id ↔ graph.visible tag id = true := by
  constructor
  · intro hshows
    exact h.contains_iff.mp hshows.contained
  · intro hvisible
    exact ⟨h.contains_iff.mpr hvisible,
      _, h.sourceCandidates_eq tag, h.mem_visibleIds.mpr hvisible⟩

/-- A root finds an id visible when it has a row that is active at the root's coordinates. -/
theorem visible_root_iff {level : Level S} {tag : S.Tag} {id : NodeId} {row : RowMetadata}
    (hrow : (Snapshot.root level).storedRow? tag id = some row) :
    (Snapshot.root level).visible tag id = true ↔ row.worldline = level.worldline ∧
      row.valid.contains level.validAt = true ∧ row.transaction.contains level.knownAt = true := by
  rw [storedRow?, Option.bind_eq_some_iff] at hrow
  obtain ⟨owner, howner, hof⟩ := hrow
  have hlevel : owner = level := by
    rw [Snapshot.owner] at howner
    split at howner
    · exact (Option.some.inj howner).symm
    · cases howner
  subst hlevel
  rw [visible, howner, Option.any_some, Level.isActiveRow, DeltaNodeStore.isActiveRow, hof,
    Option.any_some, RowMetadata.isActive, Bool.and_eq_true, Bool.and_eq_true, beq_iff_eq,
    and_assoc]

/-- **An open-ended row that a root shows stays exactly off the last instant**: of the same rows
published in the same worldline at later coordinates. -/
theorem shows_later_iff (calls : List (Call S)) (delta : DeltaStore S)
    (hdelta : delta ∈ (run step initial calls).deltas) (generation generation' : GenerationId)
    (worldline : WorldlineId) (validAt knownAt validAt' knownAt' : Timestamp)
    (graph graph' : Snapshot S)
    (hgraph : publish generation worldline validAt knownAt delta = .ok graph)
    (hgraph' : publish generation' worldline validAt' knownAt' delta = .ok graph')
    (hvalid : validAt ≤ validAt') (hknown : knownAt ≤ knownAt') (tag : S.Tag) (id : NodeId)
    (hopen : graph.HasOpenRow tag id) (hshows : graph.Shows tag id) :
    graph'.Shows tag id ↔ validAt' ≠ Int64.maxValue ∧ knownAt' ≠ Int64.maxValue := by
  have hwell : delta.WellFormed := (wellFormed_run calls).deltas delta hdelta
  have h := WellFormed.of_publish hwell hgraph
  have h' := WellFormed.of_publish hwell hgraph'
  obtain ⟨-, -, rfl⟩ := publish_eq_ok_iff.mp hgraph
  obtain ⟨-, -, rfl⟩ := publish_eq_ok_iff.mp hgraph'
  obtain ⟨row, hrow, hvalidOpen, htransactionOpen⟩ := hopen
  rw [h.shows_iff, visible_root_iff hrow] at hshows
  obtain ⟨hworldline, hvalidAt, hknownAt⟩ := hshows
  -- the two roots hold the same rows
  have hrow' : (Snapshot.root ⟨generation', worldline, validAt', knownAt',
      delta.buildIndices⟩).storedRow? tag id = some row := by
    rw [← hrow, storedRow?, storedRow?, owner, owner]
    split <;> rfl
  rw [h'.shows_iff, visible_root_iff hrow', and_iff_right hworldline,
    TemporalInterval.contains_later_iff hvalidOpen hvalidAt hvalid,
    TemporalInterval.contains_later_iff htransactionOpen hknownAt hknown]

/-! ### A row that disappears -/

/-- The row of a thought without an end. -/
def openRow : RowMetadata where
  worldline := Journal.actual
  valid := ⟨11, Int64.maxValue, by decide⟩
  transaction := ⟨31, Int64.maxValue, by decide⟩
  source := .ofObservation (.singleton 111) (List.cons_ne_nil _ _)

def openWrite : DeltaCall Journal.journalSchema :=
  .appendNode Journal.thought openRow (Journal.thoughtValues 3 .nan) none

/-- A root with that row. -/
def openGraph (validAt knownAt : Timestamp) : Snapshot Journal.journalSchema :=
  .root ⟨⟨1⟩, Journal.actual, validAt, knownAt,
    (run applyCall .empty [openWrite]).buildIndices⟩

theorem openGraph_shows : (openGraph 15 35).Shows Journal.thought ⟨0⟩ :=
  ⟨rfl, [⟨0⟩], rfl, List.mem_cons_self⟩

theorem openGraph_hasOpenRow : (openGraph 15 35).HasOpenRow Journal.thought ⟨0⟩ :=
  ⟨openRow, rfl, ⟨11, rfl⟩, ⟨31, rfl⟩⟩

theorem shows_later_iff_openGraph : (openGraph 16 36).Shows Journal.thought ⟨0⟩ :=
  (shows_later_iff [.newDelta, .write 0 openWrite] (run applyCall .empty [openWrite])
    List.mem_cons_self ⟨1⟩ ⟨1⟩ Journal.actual 15 35 16 36 (openGraph 15 35) (openGraph 16 36) rfl
    rfl (by decide) (by decide) Journal.thought ⟨0⟩ openGraph_hasOpenRow openGraph_shows).mpr
    ⟨by decide, by decide⟩

/-- Open-ended rows that a root shows are shown by the same rows published later. -/
def OpenRowsStay (S : GraphSchema C) : Prop :=
  ∀ (calls : List (Call S)), ∀ delta ∈ (run step initial calls).deltas,
    ∀ generation generation' worldline validAt knownAt validAt' knownAt' graph graph',
      publish generation worldline validAt knownAt delta = .ok graph →
      publish generation' worldline validAt' knownAt' delta = .ok graph' →
      validAt ≤ validAt' → knownAt ≤ knownAt' →
      ∀ tag id, graph.HasOpenRow tag id → graph.Shows tag id → graph'.Shows tag id

/-- **An open-ended row disappears** at the last instant of the clock. -/
theorem openRows_disappear : ¬OpenRowsStay Journal.journalSchema := by
  intro h
  have hstays : (openGraph Int64.maxValue 35).Shows Journal.thought ⟨0⟩ :=
    h [.newDelta, .write 0 openWrite] (run applyCall .empty [openWrite])
      List.mem_cons_self ⟨1⟩ ⟨1⟩ Journal.actual 15 35 Int64.maxValue 35 _ _ rfl rfl (by decide)
      (by decide) Journal.thought ⟨0⟩ openGraph_hasOpenRow openGraph_shows
  have hgone : (openGraph Int64.maxValue 35).contains Journal.thought ⟨0⟩ = .ok false := rfl
  rw [hstays.contained] at hgone
  cases hgone

end Snapshot

end Memorial
