import Memorial.Query.Scan
import Memorial.Storage.Session

/-!
# Branches and the times of a query

A query names times, the executor compares them with those of the snapshot, and the snapshot
decides what is visible.  An inherited row is judged by the level that owns it, at that level's
times, so a branch published at other times shows rows that are not active at its own.

* `NoLeakage` — what a snapshot shows is valid and known at its own times;
* `noLeakage_run_iff` — **PROVED**: this holds in a run exactly if every branch is published at
  times at which every row its parent shows is valid and known;
* `rows_leak` — **PROVED**: a run that shows a row before it was known.
-/

namespace Memorial

open Library Session Query

variable {C : TypeSystem} {S : GraphSchema C}

namespace Query

/-! ### The times of a pipeline -/

/-- The times of the `active_at` stages. -/
def Expression.activeAts : {tag : S.Tag} → Expression S tag → List Timestamp
  | _, .source _ => []
  | _, .pipeline previous operation =>
    match operation with
    | .activeAt value => value :: previous.activeAts
    | _ => previous.activeAts

/-- The times of the `known_at` stages. -/
def Expression.knownAts : {tag : S.Tag} → Expression S tag → List Timestamp
  | _, .source _ => []
  | _, .pipeline previous operation =>
    match operation with
    | .knownAt value => value :: previous.knownAts
    | _ => previous.knownAts

/-- A pipeline whose selectors match names the times of the snapshot only. -/
theorem times_of_selectorError_eq_none {graph : Snapshot S} {tag : S.Tag}
    {expression : Expression S tag} (h : selectorError graph expression = none) :
    (∀ time ∈ expression.activeAts, time = graph.validAt) ∧
      ∀ time ∈ expression.knownAts, time = graph.knownAt := by
  induction expression with
  | source tag => simp [Expression.activeAts, Expression.knownAts]
  | pipeline previous operation ih =>
    rw [selectorError, Option.or_eq_none_iff] at h
    obtain ⟨hoperation, hprevious⟩ := h
    obtain ⟨hactive, hknown⟩ := ih hprevious
    cases operation with
    | activeAt value =>
      have hvalue : value = graph.validAt := by
        by_contra hne
        rw [Operation.mismatch, if_pos hne] at hoperation
        cases hoperation
      exact ⟨List.forall_mem_cons.mpr ⟨hvalue, hactive⟩, hknown⟩
    | knownAt value =>
      have hvalue : value = graph.knownAt := by
        by_contra hne
        rw [Operation.mismatch, if_pos hne] at hoperation
        cases hoperation
      exact ⟨hactive, List.forall_mem_cons.mpr ⟨hvalue, hknown⟩⟩
    | _ => exact ⟨hactive, hknown⟩

end Query

namespace Snapshot

/-! ### Leakage -/

/-- The stored row of an id is valid at one time and known at another. -/
def RowHoldsAt (graph : Snapshot S) (tag : S.Tag) (id : NodeId) (validAt knownAt : Timestamp) :
    Prop :=
  ∃ row, graph.storedRow? tag id = some row ∧ row.valid.contains validAt = true ∧
    row.transaction.contains knownAt = true

/-- Every id a snapshot shows has a row that is valid and known at the snapshot's times; so a
query that names times and executes starts from rows valid and known at these times. -/
structure NoLeakage (graph : Snapshot S) : Prop where
  contained : ∀ tag id, graph.contains tag id = .ok true →
    graph.RowHoldsAt tag id graph.validAt graph.knownAt
  listed : ∀ tag ids, graph.sourceCandidates tag = .ok ids → ∀ id ∈ ids,
    graph.RowHoldsAt tag id graph.validAt graph.knownAt
  queried : ∀ (query : TypedQuery S) result, execute graph query = .ok result →
    ∀ validAt ∈ query.expression.activeAts, ∀ knownAt ∈ query.expression.knownAts,
    ∀ ids, graph.sourceCandidates query.expression.sourceTag = .ok ids → ∀ id ∈ ids,
    graph.RowHoldsAt query.expression.sourceTag id validAt knownAt

/-- The three ways to look at a snapshot show the same rows. -/
theorem WellFormed.noLeakage_iff {graph : Snapshot S} (h : graph.WellFormed) :
    graph.NoLeakage ↔ ∀ tag id, graph.visible tag id = true →
      graph.RowHoldsAt tag id graph.validAt graph.knownAt := by
  constructor
  · intro hleakage tag id hvisible
    exact hleakage.contained tag id (h.contains_iff.mpr hvisible)
  · intro hrows
    have hlisted : ∀ tag ids, graph.sourceCandidates tag = .ok ids → ∀ id ∈ ids,
        graph.RowHoldsAt tag id graph.validAt graph.knownAt := by
      intro tag ids hids id hid
      rw [h.sourceCandidates_eq] at hids
      rw [← Except.ok.inj hids, h.mem_visibleIds] at hid
      exact hrows tag id hid
    refine ⟨fun tag id hcontains => hrows tag id (h.contains_iff.mp hcontains), hlisted, ?_⟩
    intro query result hexecute validAt hvalid knownAt hknown ids hids id hid
    have hselectors : selectorError graph query.expression = none := by
      rw [execute_eq h] at hexecute
      cases hselectors : selectorError graph query.expression with
      | none => rfl
      | some error =>
        rw [hselectors] at hexecute
        cases hexecute
    obtain ⟨hactives, hknowns⟩ := times_of_selectorError_eq_none hselectors
    rw [hactives validAt hvalid, hknowns knownAt hknown]
    exact hlisted _ ids hids id hid

/-- An active row of a level holds at the level's times. -/
theorem rowHoldsAt_of_active {graph : Snapshot S} {level : Level S} {tag : S.Tag} {id : NodeId}
    (howner : graph.owner tag id = some level) (hactive : level.isActiveRow tag id = true) :
    graph.RowHoldsAt tag id level.validAt level.knownAt := by
  rw [Level.isActiveRow, DeltaNodeStore.isActiveRow, Option.any_eq_true] at hactive
  obtain ⟨row, hrow, hactive⟩ := hactive
  rw [RowMetadata.isActive, Bool.and_eq_true, Bool.and_eq_true] at hactive
  exact ⟨row, by rw [storedRow?, howner]; exact hrow, hactive.1.2, hactive.2⟩

/-- Every row the parent shows is valid and known at the times of the branch. -/
def HoldsParentRows (level : Level S) (parent : Snapshot S) : Prop :=
  ∀ tag id, parent.contains tag id = .ok true →
    parent.RowHoldsAt tag id level.validAt level.knownAt

/-- A branch leaks nothing exactly if the rows of its parent hold at its times: its own rows are
judged at these times anyway. -/
theorem WellFormed.noLeakage_branch_iff {level : Level S} {parent : Snapshot S}
    (h : (Snapshot.branch level parent).WellFormed) :
    (Snapshot.branch level parent).NoLeakage ↔ HoldsParentRows level parent := by
  -- below the extent of the parent the branch stores the row the parent stores
  have hstored : ∀ tag (id : NodeId), id.toSize < parent.nodeExtent tag →
      (Snapshot.branch level parent).storedRow? tag id = parent.storedRow? tag id := by
    intro tag id hid
    rw [storedRow?, storedRow?, h.owner_of_lt hid]
  rw [h.noLeakage_iff]
  constructor
  · intro hrows tag id hcontains
    have hvisible := h.of_branch.contains_iff.mp hcontains
    have hlt := h.of_branch.lt_of_visible hvisible
    obtain ⟨row, hrow, hholds⟩ := hrows tag id (by rw [h.visible_of_lt hlt, hvisible])
    exact ⟨row, by rw [← hstored tag id hlt, hrow], hholds⟩
  · intro hparent tag id hvisible
    by_cases hown : (level.data.nodes tag).contains id = true
    · have howner : (Snapshot.branch level parent).owner tag id = some level :=
        owner_of_contains hown
      rw [visible, howner] at hvisible
      exact rowHoldsAt_of_active howner hvisible
    · have hlt : id.toSize < parent.nodeExtent tag := by
        have hextent := h.lt_of_visible hvisible
        rw [h.contains_own_iff] at hown
        omega
      rw [h.visible_of_lt hlt] at hvisible
      obtain ⟨row, hrow, hholds⟩ := hparent tag id (h.of_branch.contains_iff.mpr hvisible)
      exact ⟨row, by rw [hstored tag id hlt, hrow], hholds⟩

/-- A root leaks nothing. -/
theorem noLeakage_root {level : Level S} (published : level.Published) :
    (Snapshot.root level).NoLeakage := by
  rw [(WellFormed.root published).noLeakage_iff]
  intro tag id hvisible
  have howner := owner_root_of_contains (contains_of_visible_root hvisible)
  rw [visible, howner] at hvisible
  exact rowHoldsAt_of_active howner hvisible

/-- **Nothing leaks in a run exactly if every branch is published at times at which every row its
parent shows is valid and known**, its parent's own times for example. -/
theorem noLeakage_run_iff (calls : List (Call S)) :
    (∀ graph ∈ (run step (initial : Session S) calls).graphs, graph.NoLeakage) ↔
      Meets step (Publishes (fun _ => True) HoldsParentRows) (initial : Session S) calls :=
  run_graphs_iff (fun _ published => iff_of_true (noLeakage_root published) trivial)
    (fun _ _ h _ => h.noLeakage_branch_iff) calls

/-- A branch that knows less than its parent: the thoughts of the root are known from 30 on, and
the branch is published as known at 20. -/
def leakingCalls : List (Call Journal.journalSchema) :=
  [.newDelta, .write 0 (Journal.writeThought Journal.actual 3),
    .publish 0 ⟨1⟩ Journal.actual 15 35,
    .makeBranchDelta 0, .publishBranch 0 1 ⟨2⟩ Journal.counterfactual 15 20]

/-- **Rows leak**: the branch shows a thought that is not known yet at the branch's time. -/
theorem rows_leak : ¬∀ graph ∈ (run step initial leakingCalls).graphs, graph.NoLeakage := by
  intro h
  have hlast : ∃ graph ∈ (run step initial leakingCalls).graphs,
      graph.contains Journal.thought ⟨0⟩ = .ok true ∧ graph.knownAt = 20 ∧
        graph.storedRow? Journal.thought ⟨0⟩ = some (Journal.thoughtRow Journal.actual) :=
    ⟨_, List.mem_of_getElem? (i := 1) rfl, rfl, rfl, rfl⟩
  obtain ⟨graph, hgraph, hcontains, hknownAt, hstored⟩ := hlast
  obtain ⟨row, hrow, -, hknown⟩ := (h graph hgraph).contained _ _ hcontains
  rw [hstored] at hrow
  rw [← Option.some.inj hrow, hknownAt] at hknown
  exact absurd hknown (by decide)

end Snapshot

end Memorial
