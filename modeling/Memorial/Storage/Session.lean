import Memorial.Schema.JournalSchema
import Memorial.Storage.SnapshotReads

/-!
# Sessions

A client of the storage layer, as a transition system: it makes deltas, writes them, and
publishes them as roots or branches, in any order.  A call that names nothing or is refused
changes nothing.  A client writes with `append`, `append_edge` and `build_indices`; assigning
another store through the reference that `nodes<Tag>()` returns, and building the indices of one
store through it, are left out.

* `Session`, `Call`, `step` — the deltas and snapshots a client holds, and what it can do;
* `Reachable` — the snapshots some run of calls publishes;
* `graphs_step` — **PROVED**: a step adds the snapshot it publishes and nothing else;
* `wellFormed_of_reachable` — **PROVED**: every reachable snapshot is a well-formed chain;
* `run_graphs_iff` — **PROVED**: an exact condition on single publications is exact for runs.
-/

namespace Memorial

open Library DeltaStore

variable {C : TypeSystem} {S : GraphSchema C}

namespace Snapshot

/-- The checks of `publish_branch`, all of them on its arguments. -/
def AcceptsBranch (parent : Snapshot S) (generation : GenerationId) (worldline : WorldlineId)
    (delta : DeltaStore S) : Prop :=
  generation.isValid = true ∧ worldline.isValid = true ∧ worldline ≠ parent.worldline ∧
    parent.branchBasesMatch delta = true

theorem publish_eq_ok_iff {generation : GenerationId} {worldline : WorldlineId}
    {validAt knownAt : Timestamp} {delta : DeltaStore S} {graph : Snapshot S} :
    publish generation worldline validAt knownAt delta = .ok graph ↔
      generation.isValid = true ∧ worldline.isValid = true ∧
        graph = .root { generation, worldline, validAt, knownAt, data := delta.buildIndices } := by
  rw [publish]
  cases generation.isValid <;> cases worldline.isValid <;> simp [eq_comm]

theorem publishBranch_eq_ok_iff {parent graph : Snapshot S} {generation : GenerationId}
    {worldline : WorldlineId} {validAt knownAt : Timestamp} {delta : DeltaStore S} :
    parent.publishBranch generation worldline validAt knownAt delta = .ok graph ↔
      parent.AcceptsBranch generation worldline delta ∧
        graph = .branch
          { generation, worldline, validAt, knownAt, data := delta.buildIndices } parent := by
  rw [publishBranch, AcceptsBranch]
  cases generation.isValid <;> cases worldline.isValid <;>
    cases parent.branchBasesMatch delta <;> by_cases h : worldline = parent.worldline <;>
    simp [h, eq_comm]

/-- `branch_bases_match` compares every node kind and every edge kind. -/
theorem branchBasesMatch_iff {graph : Snapshot S} {delta : DeltaStore S} :
    graph.branchBasesMatch delta = true ↔
      (∀ tag, (delta.nodes tag).idBase = graph.nodeExtent tag) ∧
        ∀ edge, (delta.edges edge).idBase = graph.edgeExtent edge := by
  simp only [branchBasesMatch, nodeBasesMatch, edgeBasesMatch, Bool.and_eq_true, List.all_eq_true,
    beq_iff_eq]
  constructor
  · intro hbases
    obtain ⟨hnodes, hedges⟩ := hbases
    exact ⟨fun tag => hnodes tag (GraphSchema.mem_tags tag),
      fun edge => hedges edge (GraphSchema.mem_signatures edge)⟩
  · intro hbases
    obtain ⟨hnodes, hedges⟩ := hbases
    exact ⟨fun tag _ => hnodes tag, fun edge _ => hedges edge⟩

/-- Publication builds the indices. -/
theorem published_buildIndices {delta : DeltaStore S} (h : delta.WellFormed)
    (generation : GenerationId) (worldline : WorldlineId) (validAt knownAt : Timestamp) :
    Level.Published
      { generation, worldline, validAt, knownAt, data := delta.buildIndices } where
  wellFormed := h.buildIndices
  ready _ := rfl

theorem WellFormed.of_publish {generation : GenerationId} {worldline : WorldlineId}
    {validAt knownAt : Timestamp} {delta : DeltaStore S} {graph : Snapshot S}
    (hdelta : delta.WellFormed)
    (h : publish generation worldline validAt knownAt delta = .ok graph) : graph.WellFormed := by
  obtain ⟨-, -, rfl⟩ := publish_eq_ok_iff.mp h
  exact .root (published_buildIndices hdelta _ _ _ _)

theorem WellFormed.of_publishBranch {parent graph : Snapshot S} {generation : GenerationId}
    {worldline : WorldlineId} {validAt knownAt : Timestamp} {delta : DeltaStore S}
    (hparent : parent.WellFormed) (hdelta : delta.WellFormed)
    (h : parent.publishBranch generation worldline validAt knownAt delta = .ok graph) :
    graph.WellFormed := by
  obtain ⟨⟨-, -, hworldline, hbases⟩, rfl⟩ := publishBranch_eq_ok_iff.mp h
  obtain ⟨hnodes, hedges⟩ := branchBasesMatch_iff.mp hbases
  exact .branch (published_buildIndices hdelta _ _ _ _) hparent hnodes hedges hworldline

end Snapshot

/-- What a client holds.  Publishing moves a delta in C++; the client may have kept a copy, so
the delta stays in the list. -/
structure Session (S : GraphSchema C) where
  deltas : List (DeltaStore S)
  graphs : List (Snapshot S)

namespace Session

/-- A call of a client.  Deltas and snapshots are named by their positions. -/
inductive Call (S : GraphSchema C)
  | newDelta
  | makeBranchDelta (graph : ℕ)
  | write (delta : ℕ) (call : DeltaCall S)
  | publish (delta : ℕ) (generation : GenerationId) (worldline : WorldlineId)
      (validAt knownAt : Timestamp)
  | publishBranch (parent delta : ℕ) (generation : GenerationId) (worldline : WorldlineId)
      (validAt knownAt : Timestamp)

/-- A session before its first call. -/
def initial : Session S := ⟨[], []⟩

/-- The outcome of a publication the call asks for; `none` when it asks for none. -/
def publication (session : Session S) : Call S → Option (Result (Snapshot S))
  | .publish delta generation worldline validAt knownAt => do
    return Snapshot.publish generation worldline validAt knownAt (← session.deltas[delta]?)
  | .publishBranch parent delta generation worldline validAt knownAt => do
    let parent ← session.graphs[parent]?
    let delta ← session.deltas[delta]?
    return parent.publishBranch generation worldline validAt knownAt delta
  | _ => none

/-- The snapshot the call publishes, if it does. -/
def published (session : Session S) (call : Call S) : Option (Snapshot S) :=
  match session.publication call with
  | some (.ok graph) => some graph
  | _ => none

/-- The session after a call. -/
def step (session : Session S) (call : Call S) : Session S :=
  match call with
  | .newDelta => { session with deltas := session.deltas ++ [.empty] }
  | .makeBranchDelta graph =>
    match session.graphs[graph]? with
    | some graph => { session with deltas := session.deltas ++ [graph.makeBranchDelta] }
    | none => session
  | .write delta call => { session with deltas := session.deltas.modify delta (applyCall · call) }
  | _ => { session with graphs := session.graphs ++ (session.published call).toList }

/-- The snapshots a run of calls can publish. -/
def Reachable (graph : Snapshot S) : Prop :=
  ∃ calls : List (Call S), graph ∈ (run step initial calls).graphs

/-! ### What a step can do -/

/-- **A step adds the snapshot it publishes, and nothing else.** -/
theorem graphs_step (session : Session S) (call : Call S) :
    (session.step call).graphs = session.graphs ++ (session.published call).toList := by
  cases call with
  | newDelta => simp [step, published, publication]
  | makeBranchDelta graph =>
    have hnone : session.published (.makeBranchDelta graph) = none := rfl
    rw [hnone, step]
    cases session.graphs[graph]? <;> simp
  | write delta call => simp [step, published, publication]
  | publish delta generation worldline validAt knownAt => rfl
  | publishBranch parent delta generation worldline validAt knownAt => rfl

/-- What a call to `publish` publishes. -/
theorem published_publish_iff {session : Session S} {index : ℕ} {generation : GenerationId}
    {worldline : WorldlineId} {validAt knownAt : Timestamp} {graph : Snapshot S} :
    session.published (.publish index generation worldline validAt knownAt) = some graph ↔
      ∃ delta, session.deltas[index]? = some delta ∧
        Snapshot.publish generation worldline validAt knownAt delta = .ok graph := by
  cases hdelta : session.deltas[index]? with
  | none => simp [published, publication, hdelta]
  | some delta =>
    cases hpublish : Snapshot.publish generation worldline validAt knownAt delta <;>
      simp [published, publication, hdelta, hpublish]

/-- What a call to `publish_branch` publishes. -/
theorem published_publishBranch_iff {session : Session S} {parentIndex index : ℕ}
    {generation : GenerationId} {worldline : WorldlineId} {validAt knownAt : Timestamp}
    {graph : Snapshot S} :
    session.published (.publishBranch parentIndex index generation worldline validAt knownAt) =
        some graph ↔
      ∃ parent delta, session.graphs[parentIndex]? = some parent ∧
        session.deltas[index]? = some delta ∧
        parent.publishBranch generation worldline validAt knownAt delta = .ok graph := by
  cases hparent : session.graphs[parentIndex]? with
  | none => simp [published, publication, hparent]
  | some parent =>
    cases hdelta : session.deltas[index]? with
    | none => simp [published, publication, hparent, hdelta]
    | some delta =>
      cases hpublish : parent.publishBranch generation worldline validAt knownAt delta <;>
        simp [published, publication, hparent, hdelta, hpublish]

/-! ### The invariant -/

/-- Well-formed deltas and snapshots only. -/
structure WellFormed (session : Session S) : Prop where
  deltas : ∀ delta ∈ session.deltas, delta.WellFormed
  graphs : ∀ graph ∈ session.graphs, graph.WellFormed

theorem wellFormed_initial : (initial : Session S).WellFormed where
  deltas _ h := absurd h List.not_mem_nil
  graphs _ h := absurd h List.not_mem_nil

theorem WellFormed.published {session : Session S} (h : session.WellFormed) {call : Call S}
    {graph : Snapshot S} (hpublished : session.published call = some graph) :
    graph.WellFormed := by
  cases call with
  | newDelta => cases hpublished
  | makeBranchDelta => cases hpublished
  | write => cases hpublished
  | publish =>
    obtain ⟨delta, hdelta, hpublish⟩ := published_publish_iff.mp hpublished
    exact .of_publish (h.deltas delta (List.mem_of_getElem? hdelta)) hpublish
  | publishBranch =>
    obtain ⟨parent, delta, hparent, hdelta, hpublish⟩ := published_publishBranch_iff.mp hpublished
    exact .of_publishBranch (h.graphs parent (List.mem_of_getElem? hparent))
      (h.deltas delta (List.mem_of_getElem? hdelta)) hpublish

theorem WellFormed.deltas_step {session : Session S} (h : session.WellFormed) (call : Call S) :
    ∀ delta ∈ (session.step call).deltas, delta.WellFormed := by
  cases call with
  | newDelta =>
    intro delta hdelta
    rw [step] at hdelta
    rcases List.mem_append.mp hdelta with hold | hnew
    · exact h.deltas delta hold
    · rw [List.mem_singleton.mp hnew]
      exact wellFormed_empty
  | makeBranchDelta graph =>
    intro delta hdelta
    rw [step] at hdelta
    cases hgraph : session.graphs[graph]? with
    | none =>
      rw [hgraph] at hdelta
      exact h.deltas delta hdelta
    | some graph =>
      rw [hgraph] at hdelta
      rcases List.mem_append.mp hdelta with hold | hnew
      · exact h.deltas delta hold
      · rw [List.mem_singleton.mp hnew]
        exact wellFormed_branchFrom _ _
  | write index call =>
    intro delta hdelta
    obtain ⟨position, hposition⟩ := List.mem_iff_getElem?.mp hdelta
    simp only [step, List.getElem?_modify, Option.map_eq_map, Option.map_eq_some_iff] at hposition
    obtain ⟨old, hold, rfl⟩ := hposition
    have hold := h.deltas old (List.mem_of_getElem? hold)
    split
    · exact hold.applyCall call
    · exact hold
  | publish => exact h.deltas
  | publishBranch => exact h.deltas

/-- **Every call keeps the invariant.** -/
theorem WellFormed.step {session : Session S} (h : session.WellFormed) (call : Call S) :
    (session.step call).WellFormed where
  deltas := h.deltas_step call
  graphs graph hgraph := by
    rw [graphs_step, List.mem_append, Option.mem_toList] at hgraph
    rcases hgraph with hold | hnew
    · exact h.graphs graph hold
    · exact h.published hnew

/-- **Every run keeps the invariant.** -/
theorem wellFormed_run (calls : List (Call S)) : (run step (initial : Session S) calls).WellFormed :=
  run_invariant step WellFormed (fun _ call h => WellFormed.step h call) calls wellFormed_initial

theorem wellFormed_of_reachable {graph : Snapshot S} (h : Reachable graph) : graph.WellFormed := by
  obtain ⟨calls, hgraph⟩ := h
  exact (wellFormed_run calls).graphs graph hgraph

/-! ### Exact conditions on publications -/

/-- A condition on what a call publishes, if it passes the checks: one on the level of a root, and
one on the level of a branch and its parent. -/
def Publishes (onRoot : Level S → Prop) (onBranch : Level S → Snapshot S → Prop)
    (session : Session S) : Call S → Prop
  | .publish index generation worldline validAt knownAt =>
    ∀ delta, session.deltas[index]? = some delta → generation.isValid = true →
      worldline.isValid = true →
      onRoot { generation, worldline, validAt, knownAt, data := delta.buildIndices }
  | .publishBranch parentIndex index generation worldline validAt knownAt =>
    ∀ parent delta, session.graphs[parentIndex]? = some parent →
      session.deltas[index]? = some delta → parent.AcceptsBranch generation worldline delta →
      onBranch { generation, worldline, validAt, knownAt, data := delta.buildIndices } parent
  | _ => True

/-- A condition on the snapshot a call publishes, as one on its parts. -/
theorem forall_published_iff {good : Snapshot S → Prop} {onRoot : Level S → Prop}
    {onBranch : Level S → Snapshot S → Prop} {session : Session S} (hsession : session.WellFormed)
    (hroot : ∀ level, level.Published → (good (.root level) ↔ onRoot level))
    (hbranch : ∀ level parent, (Snapshot.branch level parent).WellFormed →
      parent ∈ session.graphs → (good (.branch level parent) ↔ onBranch level parent))
    (call : Call S) :
    (∀ graph, session.published call = some graph → good graph) ↔
      session.Publishes onRoot onBranch call := by
  cases call with
  | newDelta => exact iff_of_true (fun _ h => by cases h) trivial
  | makeBranchDelta graph => exact iff_of_true (fun _ h => by cases h) trivial
  | write delta call => exact iff_of_true (fun _ h => by cases h) trivial
  | publish index generation worldline validAt knownAt =>
    constructor
    · intro h delta hdelta hgeneration hworldline
      have hpublish : Snapshot.publish generation worldline validAt knownAt delta = .ok _ :=
        Snapshot.publish_eq_ok_iff.mpr ⟨hgeneration, hworldline, rfl⟩
      have hpublished := published_publish_iff.mpr ⟨delta, hdelta, hpublish⟩
      exact (hroot _ (hsession.published hpublished).published).mp (h _ hpublished)
    · intro h graph hgraph
      have hwf := hsession.published hgraph
      obtain ⟨delta, hdelta, hpublish⟩ := published_publish_iff.mp hgraph
      obtain ⟨hgeneration, hworldline, rfl⟩ := Snapshot.publish_eq_ok_iff.mp hpublish
      exact (hroot _ hwf.published).mpr (h delta hdelta hgeneration hworldline)
  | publishBranch parentIndex index generation worldline validAt knownAt =>
    constructor
    · intro h parent delta hparent hdelta haccepts
      have hpublish : parent.publishBranch generation worldline validAt knownAt delta = .ok _ :=
        Snapshot.publishBranch_eq_ok_iff.mpr ⟨haccepts, rfl⟩
      have hpublished :=
        published_publishBranch_iff.mpr ⟨parent, delta, hparent, hdelta, hpublish⟩
      exact (hbranch _ _ (hsession.published hpublished) (List.mem_of_getElem? hparent)).mp
        (h _ hpublished)
    · intro h graph hgraph
      have hwf := hsession.published hgraph
      obtain ⟨parent, delta, hparent, hdelta, hpublish⟩ := published_publishBranch_iff.mp hgraph
      obtain ⟨haccepts, rfl⟩ := Snapshot.publishBranch_eq_ok_iff.mp hpublish
      exact (hbranch _ _ hwf (List.mem_of_getElem? hparent)).mpr
        (h parent delta hparent hdelta haccepts)

/-- **A property of snapshots holds in a run exactly if every publication of the run meets the
condition that establishes it.**  A branch may rely on the property of its parent. -/
theorem run_graphs_iff {good : Snapshot S → Prop} {onRoot : Level S → Prop}
    {onBranch : Level S → Snapshot S → Prop}
    (hroot : ∀ level, level.Published → (good (.root level) ↔ onRoot level))
    (hbranch : ∀ level parent, (Snapshot.branch level parent).WellFormed → good parent →
      (good (.branch level parent) ↔ onBranch level parent))
    (calls : List (Call S)) :
    (∀ graph ∈ (run step (initial : Session S) calls).graphs, good graph) ↔
      Meets step (Publishes onRoot onBranch) (initial : Session S) calls := by
  rw [run_iff_meets step WellFormed (fun session => ∀ graph ∈ session.graphs, good graph)
    (Publishes onRoot onBranch) (fun _ call h => WellFormed.step h call) ?_ calls
    wellFormed_initial]
  · exact and_iff_right (fun _ h => absurd h List.not_mem_nil)
  · intro session call hsession
    have hsplit : (∀ graph ∈ (session.step call).graphs, good graph) ↔
        (∀ graph ∈ session.graphs, good graph) ∧
          ∀ graph, session.published call = some graph → good graph := by
      simp only [graphs_step, List.mem_append, Option.mem_toList, or_imp, forall_and]
    rw [hsplit]
    exact and_congr_right fun hold => forall_published_iff hsession hroot
      (fun level parent hwf hparent => hbranch level parent hwf (hold parent hparent)) call

theorem reachable_of_mem {calls : List (Call S)} {graphs : List (Snapshot S)}
    (hrun : (run step initial calls).graphs = graphs) {graph : Snapshot S}
    (hgraph : graph ∈ graphs) : Reachable graph :=
  ⟨calls, hrun ▸ hgraph⟩

end Session

/-! ### A session -/

namespace Journal

open Session

def actual : WorldlineId := ⟨1⟩

def counterfactual : WorldlineId := ⟨2⟩

/-- The metadata of a thought that is valid on [10, 20) and known from 30 on. -/
def thoughtRow (worldline : WorldlineId) : RowMetadata where
  worldline
  valid := ⟨10, 20, by decide⟩
  transaction := ⟨30, Int64.maxValue, by decide⟩
  source := .ofObservation (.singleton 106) (List.cons_ne_nil _ _)

def writeThought (worldline : WorldlineId) (rank : Int32) : DeltaCall journalSchema :=
  .appendNode thought (thoughtRow worldline) (thoughtValues rank .nan) none

def writeRecall (source target : NodeId) : DeltaCall journalSchema :=
  .appendEdge recalls source target nofun none

def rootWrites : List (DeltaCall journalSchema) :=
  [writeThought actual 3, writeThought actual 1, writeRecall ⟨0⟩ ⟨1⟩]

def branchWrites : List (DeltaCall journalSchema) :=
  [writeThought counterfactual 2, writeRecall ⟨2⟩ ⟨0⟩, writeRecall ⟨0⟩ ⟨2⟩]

/-- Two thoughts and a relation between them. -/
def rootGraph : Snapshot journalSchema :=
  .root ⟨⟨1⟩, actual, 15, 35, (run applyCall .empty rootWrites).buildIndices⟩

/-- A branch with one more thought, related to a thought of the root in both ways. -/
def branchGraph : Snapshot journalSchema :=
  .branch ⟨⟨2⟩, counterfactual, 15, 35,
    (run applyCall rootGraph.makeBranchDelta branchWrites).buildIndices⟩ rootGraph

/-- The calls that publish them. -/
def journalCalls : List (Call journalSchema) :=
  [.newDelta] ++ rootWrites.map (.write 0) ++ [.publish 0 ⟨1⟩ actual 15 35, .makeBranchDelta 0] ++
    branchWrites.map (.write 1) ++ [.publishBranch 0 1 ⟨2⟩ counterfactual 15 35]

theorem graphs_journalCalls :
    (run step initial journalCalls).graphs = [rootGraph, branchGraph] := rfl

theorem reachable_rootGraph : Reachable rootGraph :=
  reachable_of_mem graphs_journalCalls (by simp)

theorem reachable_branchGraph : Reachable branchGraph :=
  reachable_of_mem graphs_journalCalls (by simp)

end Journal

end Memorial
