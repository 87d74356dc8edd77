import Memorial.Library.Simulation
import Memorial.Query.ReadCongruence

/-!
# Kinds that a query does not name are not seen

A session may write rows and edges of many kinds.  Leaving out all that is written to the kinds
outside of a part of the schema, and the publications that were refused, gives a session of the part
alone: its snapshots hold nothing of the other kinds, and on the kinds of the part they, their
queries and their plans are the same.  The refused publications have to go: without the other kinds
a delta may fit a parent that it did not fit.

* `RestrictsTo` — of deltas, levels, snapshots and sessions: the second holds what the first holds
  of the part, and nothing else;
* `Session.callOn`, `Session.callsOn` — a run without the writes on other kinds and without the
  publications that are refused;
* `Session.follows_callOn` — **PROVED**: one call of a session is followed by its part;
* `unusedKinds_unseen` — **PROVED**: all of it, for every part and every run.
-/

namespace Memorial

open Library

variable {C : TypeSystem} {S : GraphSchema C} {part : SchemaPart S}

/-! ### Deltas -/

namespace DeltaStore

/-- The second delta has the stores of the first on a part, and is empty elsewhere. -/
structure RestrictsTo (part : SchemaPart S) (a b : DeltaStore S) : Prop where
  nodes : ∀ tag, part.nodes tag = true → a.nodes tag = b.nodes tag
  edges : ∀ edge, part.edges edge = true → a.edges edge = b.edges edge
  noNodes : ∀ tag, part.nodes tag = false → b.nodeExtent tag = 0
  noEdges : ∀ edge, part.edges edge = false → b.edgeExtent edge = 0

/-- A write on a kind of the part, or on none. -/
def DeltaCall.isOn (part : SchemaPart S) : DeltaCall S → Bool
  | .appendNode tag _ _ _ => part.nodes tag
  | .appendEdge edge _ _ _ _ => part.edges edge
  | .buildIndices => true

/-- Every append to a kind of the part returns the same, whether it is accepted, refused or throws.
-/
structure WritesAlike (part : SchemaPart S) (a b : DeltaStore S) : Prop where
  appendNode : ∀ tag, part.nodes tag = true → ∀ row values fault,
    (a.appendNode tag row values fault).2 = (b.appendNode tag row values fault).2
  appendEdge : ∀ edge, part.edges edge = true → ∀ source target values fault,
    (a.appendEdge edge source target values fault).2 =
      (b.appendEdge edge source target values fault).2

namespace RestrictsTo

variable {a b : DeltaStore S}

theorem branchFrom {nodeExtent nodeExtent' : S.Tag → ℕ} {edgeExtent edgeExtent' : S.Edge → ℕ}
    (hnodes : ∀ tag, part.nodes tag = true → nodeExtent tag = nodeExtent' tag)
    (hedges : ∀ edge, part.edges edge = true → edgeExtent edge = edgeExtent' edge)
    (hnoNodes : ∀ tag, part.nodes tag = false → nodeExtent' tag = 0)
    (hnoEdges : ∀ edge, part.edges edge = false → edgeExtent' edge = 0) :
    RestrictsTo part (.branchFrom nodeExtent edgeExtent) (.branchFrom nodeExtent' edgeExtent') where
  nodes tag htag := congrArg DeltaNodeStore.empty (hnodes tag htag)
  edges edge hedge := congrArg AdjacencyStore.empty (hedges edge hedge)
  noNodes tag htag := hnoNodes tag htag
  noEdges edge hedge := hnoEdges edge hedge

/-! ### Replacing a store -/

theorem setNodes (h : RestrictsTo part a b) {tag : S.Tag} (htag : part.nodes tag = true)
    (store : DeltaNodeStore (GraphSchema.node tag)) :
    RestrictsTo part (a.setNodes tag store) (b.setNodes tag store) where
  nodes :=
    related_update (R := fun other (store store' : DeltaNodeStore (GraphSchema.node other)) =>
      part.nodes other = true → store = store') h.nodes (fun _ => rfl)
  edges := h.edges
  noNodes := by
    apply (Function.forall_update_iff b.nodes (fun other store =>
      part.nodes other = false → store.extent = 0)).mpr
    refine ⟨fun hoff => ?_, fun other _ => h.noNodes other⟩
    rw [htag] at hoff
    cases hoff
  noEdges := h.noEdges

theorem setEdges (h : RestrictsTo part a b) {edge : S.Edge} (hedge : part.edges edge = true)
    (store : AdjacencyStore (GraphSchema.edge edge)) :
    RestrictsTo part (a.setEdges edge store) (b.setEdges edge store) where
  nodes := h.nodes
  edges :=
    related_update (R := fun other (store store' : AdjacencyStore (GraphSchema.edge other)) =>
      part.edges other = true → store = store') h.edges (fun _ => rfl)
  noNodes := h.noNodes
  noEdges := by
    apply (Function.forall_update_iff b.edges (fun other store =>
      part.edges other = false → store.extent = 0)).mpr
    refine ⟨fun hoff => ?_, fun other _ => h.noEdges other⟩
    rw [hedge] at hoff
    cases hoff

/-- A store of another kind, on the left only. -/
theorem setNodes_left (h : RestrictsTo part a b) {tag : S.Tag} (htag : part.nodes tag = false)
    (store : DeltaNodeStore (GraphSchema.node tag)) :
    RestrictsTo part (a.setNodes tag store) b where
  nodes := by
    apply (Function.forall_update_iff a.nodes (fun other store =>
      part.nodes other = true → store = b.nodes other)).mpr
    refine ⟨fun hon => ?_, fun other _ => h.nodes other⟩
    rw [htag] at hon
    cases hon
  edges := h.edges
  noNodes := h.noNodes
  noEdges := h.noEdges

theorem setEdges_left (h : RestrictsTo part a b) {edge : S.Edge} (hedge : part.edges edge = false)
    (store : AdjacencyStore (GraphSchema.edge edge)) :
    RestrictsTo part (a.setEdges edge store) b where
  nodes := h.nodes
  edges := by
    apply (Function.forall_update_iff a.edges (fun other store =>
      part.edges other = true → store = b.edges other)).mpr
    refine ⟨fun hon => ?_, fun other _ => h.edges other⟩
    rw [hedge] at hon
    cases hon
  noNodes := h.noNodes
  noEdges := h.noEdges

theorem buildIndices (h : RestrictsTo part a b) :
    RestrictsTo part a.buildIndices b.buildIndices where
  nodes tag htag := congrArg DeltaNodeStore.buildIndices (h.nodes tag htag)
  edges edge hedge := congrArg AdjacencyStore.buildStatistics (h.edges edge hedge)
  noNodes := h.noNodes
  noEdges := h.noEdges

/-! ### Writes -/

theorem endpointExists_eq (h : RestrictsTo part a b) {tag : S.Tag} (htag : part.nodes tag = true)
    (id : NodeId) : a.endpointExists tag id = b.endpointExists tag id := by
  rw [endpointExists, endpointExists, h.nodes tag htag]

/-- The checks of `append_edge` ask about the ends of the edge, which are of the part. -/
theorem checkEndpoints_eq (h : RestrictsTo part a b) {edge : S.Edge}
    (hedge : part.edges edge = true) (source target : NodeId) :
    a.checkEndpoints edge source target = b.checkEndpoints edge source target := by
  have hsource := part.source edge hedge
  have htarget := part.target edge hedge
  simp only [checkEndpoints, h.endpointExists_eq hsource, h.endpointExists_eq htarget,
    h.nodes _ hsource, h.nodes _ htarget]

theorem writesAlike (h : RestrictsTo part a b) : WritesAlike part a b where
  appendNode tag htag row values fault := by
    rw [appendNode_snd, appendNode_snd, h.nodes tag htag]
  appendEdge edge hedge source target values fault := by
    have hcheck := h.checkEndpoints_eq hedge source target
    cases hright : b.checkEndpoints edge source target with
    | error error =>
      rw [appendEdge_of_refused hright, appendEdge_of_refused (hcheck.trans hright)]
    | ok =>
      rw [appendEdge_of_checked hright, appendEdge_of_checked (hcheck.trans hright),
        h.edges edge hedge]

/-- **A write on the part, made on both.** -/
theorem applyCall (h : RestrictsTo part a b) {call : DeltaCall S} (hon : call.isOn part = true) :
    RestrictsTo part (a.applyCall call) (b.applyCall call) := by
  cases call with
  | appendNode tag row values fault =>
    rw [DeltaStore.applyCall, DeltaStore.applyCall, appendNode_fst, appendNode_fst, h.nodes tag hon]
    exact h.setNodes hon _
  | appendEdge edge source target values fault =>
    rw [DeltaStore.applyCall, DeltaStore.applyCall]
    have hcheck := h.checkEndpoints_eq hon source target
    cases hright : b.checkEndpoints edge source target with
    | error error =>
      rw [appendEdge_of_refused hright, appendEdge_of_refused (hcheck.trans hright)]
      exact h
    | ok =>
      rw [appendEdge_of_checked hright, appendEdge_of_checked (hcheck.trans hright),
        h.edges edge hon]
      exact h.setEdges hon _
  | buildIndices => exact h.buildIndices

/-- **A write on another kind, made on the left only.** -/
theorem applyCall_left (h : RestrictsTo part a b) {call : DeltaCall S}
    (hoff : call.isOn part = false) : RestrictsTo part (a.applyCall call) b := by
  cases call with
  | appendNode tag row values fault => exact h.setNodes_left hoff _
  | appendEdge edge source target values fault =>
    rw [DeltaStore.applyCall]
    rcases appendEdge_cases a edge source target values fault with heq | ⟨-, -, heq⟩
    · rw [heq]
      exact h
    · rw [heq]
      exact h.setEdges_left hoff _
  | buildIndices => cases hoff

end RestrictsTo

end DeltaStore

/-! ### Snapshots -/

/-- Equal coordinates, and the delta of the part. -/
structure Level.RestrictsTo (part : SchemaPart S) (a b : Level S) : Prop where
  generation : a.generation = b.generation
  worldline : a.worldline = b.worldline
  validAt : a.validAt = b.validAt
  knownAt : a.knownAt = b.knownAt
  data : a.data.RestrictsTo part b.data

namespace Snapshot

/-- Chains of the same length whose levels are restricted in turn. -/
inductive RestrictsTo (part : SchemaPart S) : Snapshot S → Snapshot S → Prop
  | root {a b : Level S} (level : a.RestrictsTo part b) : RestrictsTo part (.root a) (.root b)
  | branch {a b : Level S} {aParent bParent : Snapshot S} (level : a.RestrictsTo part b)
      (parent : RestrictsTo part aParent bParent) :
      RestrictsTo part (.branch a aParent) (.branch b bParent)

namespace RestrictsTo

variable {a b : Snapshot S}

theorem level (h : a.RestrictsTo part b) : a.level.RestrictsTo part b.level := by
  cases h with
  | root level => exact level
  | branch level parent => exact level

/-- And so are their parents. -/
theorem chain (h : a.RestrictsTo part b) : List.Forall₂ (RestrictsTo part) a.chain b.chain := by
  induction h with
  | root level => exact .cons (.root level) .nil
  | branch level parent ih => exact .cons (.branch level parent) ih

theorem sameOn (h : a.RestrictsTo part b) : a.SameOn part b := by
  have hlevel : ∀ {a b : Level S}, a.RestrictsTo part b → a.SameOn part b := by
    intro a b h
    refine ⟨h.generation, h.worldline, h.validAt, h.knownAt, h.data.nodes, ?_⟩
    intro edge hedge
    rw [h.data.edges edge hedge]
    exact .refl _
  induction h with
  | root level => exact .root (hlevel level)
  | branch level parent ih => exact .branch (hlevel level) ih

theorem relationAverageDegree_eq (h : a.RestrictsTo part b) {edge : S.Edge}
    (hedge : part.edges edge = true) :
    a.relationAverageDegree edge = b.relationAverageDegree edge := by
  induction h with
  | root level => rw [relationAverageDegree, relationAverageDegree, level.data.edges edge hedge]
  | branch level parent ih =>
    rw [relationAverageDegree, relationAverageDegree, level.data.edges edge hedge, ih]

theorem makeBranchDelta (h : a.RestrictsTo part b) :
    a.makeBranchDelta.RestrictsTo part b.makeBranchDelta :=
  .branchFrom h.sameOn.sameReadsOn.nodeExtent h.sameOn.sameReadsOn.edgeExtent
    h.level.data.noNodes h.level.data.noEdges

/-- A delta that is based on the parent is based on its part: on the other kinds, both start from
nothing. -/
theorem acceptsBranch {delta delta' : DeltaStore S} (h : a.RestrictsTo part b)
    (hdelta : delta.RestrictsTo part delta') {generation : GenerationId} {worldline : WorldlineId}
    (haccepts : a.AcceptsBranch generation worldline delta) :
    b.AcceptsBranch generation worldline delta' := by
  obtain ⟨hgeneration, hvalid, hworldline, hbases⟩ := haccepts
  obtain ⟨hnodes, hedges⟩ := branchBasesMatch_iff.mp hbases
  have hreads := h.sameOn.sameReadsOn
  refine ⟨hgeneration, hvalid, ?_, branchBasesMatch_iff.mpr ⟨?_, ?_⟩⟩
  · rw [← hreads.worldline]
    exact hworldline
  · intro tag
    cases htag : part.nodes tag with
    | true =>
      rw [← hdelta.nodes tag htag, ← hreads.nodeExtent tag htag]
      exact hnodes tag
    | false =>
      have hdeltaExtent : (delta'.nodes tag).extent = 0 := hdelta.noNodes tag htag
      have hparentExtent : b.nodeExtent tag = 0 := h.level.data.noNodes tag htag
      rw [hparentExtent]
      exact Nat.eq_zero_of_add_eq_zero_right hdeltaExtent
  · intro edge
    cases hedge : part.edges edge with
    | true =>
      rw [← hdelta.edges edge hedge, ← hreads.edgeExtent edge hedge]
      exact hedges edge
    | false =>
      have hdeltaExtent : (delta'.edges edge).extent = 0 := hdelta.noEdges edge hedge
      have hparentExtent : b.edgeExtent edge = 0 := h.level.data.noEdges edge hedge
      rw [hparentExtent]
      exact Nat.eq_zero_of_add_eq_zero_right hdeltaExtent

end RestrictsTo

end Snapshot

/-! ### Sessions -/

namespace Session

open DeltaStore

/-- What a call of a session is to a part of the schema: a write counts if it is on a kind of the
part, and a publication if it is accepted. -/
def callOn (part : SchemaPart S) (session : Session S) (call : Call S) : Option (Call S) :=
  match call with
  | .newDelta => some call
  | .makeBranchDelta _ => some call
  | .write _ write => if write.isOn part then some call else none
  | _ => if (session.published call).isSome then some call else none

/-- A run of calls without the writes on kinds outside of the part, and without the publications
that it refuses. -/
def callsOn (part : SchemaPart S) (calls : List (Call S)) : List (Call S) :=
  outputs step (callOn part) initial calls

/-- Restricted deltas and snapshots, in the same positions. -/
structure RestrictsTo (part : SchemaPart S) (a b : Session S) : Prop where
  deltas : List.Forall₂ (DeltaStore.RestrictsTo part) a.deltas b.deltas
  graphs : List.Forall₂ (Snapshot.RestrictsTo part) a.graphs b.graphs

namespace RestrictsTo

variable {a b : Session S}

/-- What the session publishes, the session of the part publishes, restricted. -/
theorem exists_published (h : RestrictsTo part a b) {call : Call S} {graph : Snapshot S}
    (hgraph : a.published call = some graph) :
    ∃ graph', b.published call = some graph' ∧ graph.RestrictsTo part graph' := by
  cases call with
  | newDelta => cases hgraph
  | makeBranchDelta => cases hgraph
  | write => cases hgraph
  | publish index generation worldline validAt knownAt =>
    obtain ⟨delta, hdelta, hpublish⟩ := published_publish_iff.mp hgraph
    obtain ⟨hgeneration, hworldline, rfl⟩ := Snapshot.publish_eq_ok_iff.mp hpublish
    obtain ⟨delta', hdelta', hrestricts⟩ := exists_of_forall₂ h.deltas hdelta
    exact ⟨_, published_publish_iff.mpr ⟨delta', hdelta',
      Snapshot.publish_eq_ok_iff.mpr ⟨hgeneration, hworldline, rfl⟩⟩,
      .root ⟨rfl, rfl, rfl, rfl, hrestricts.buildIndices⟩⟩
  | publishBranch parentIndex index generation worldline validAt knownAt =>
    obtain ⟨parent, delta, hparent, hdelta, hpublish⟩ := published_publishBranch_iff.mp hgraph
    obtain ⟨haccepts, rfl⟩ := Snapshot.publishBranch_eq_ok_iff.mp hpublish
    obtain ⟨parent', hparent', hrestrictsParent⟩ := exists_of_forall₂ h.graphs hparent
    obtain ⟨delta', hdelta', hrestricts⟩ := exists_of_forall₂ h.deltas hdelta
    have haccepts' := hrestrictsParent.acceptsBranch hrestricts haccepts
    exact ⟨_, published_publishBranch_iff.mpr ⟨parent', delta', hparent', hdelta',
      Snapshot.publishBranch_eq_ok_iff.mpr ⟨haccepts', rfl⟩⟩,
      .branch ⟨rfl, rfl, rfl, rfl, hrestricts.buildIndices⟩ hrestrictsParent⟩

/-- A call that publishes or is refused, followed by the publication. -/
theorem publishes (h : RestrictsTo part a b) {call : Call S}
    (hleft : (a.step call).deltas = a.deltas) (hright : (b.step call).deltas = b.deltas) :
    RestrictsTo part (a.step call)
      (run step b (if (a.published call).isSome then some call else none).toList) := by
  cases hpublished : a.published call with
  | none =>
    refine ⟨?_, ?_⟩
    · rw [hleft]
      exact h.deltas
    · rw [graphs_step, hpublished, Option.toList_none, List.append_nil]
      exact h.graphs
  | some graph =>
    obtain ⟨graph', hpublished', hrestricts⟩ := h.exists_published hpublished
    show RestrictsTo part (a.step call) (b.step call)
    refine ⟨?_, ?_⟩
    · rw [hleft, hright]
      exact h.deltas
    · rw [graphs_step, graphs_step, hpublished, hpublished']
      exact forall₂_concat h.graphs hrestricts

end RestrictsTo

/-- **A call of a session is followed by its part.** -/
theorem follows_callOn : Follows step step (callOn part) (RestrictsTo part) := by
  intro a b call h
  cases call with
  | newDelta =>
    have hempty : (DeltaStore.empty : DeltaStore S).RestrictsTo part .empty :=
      .branchFrom (fun _ _ => rfl) (fun _ _ => rfl) (fun _ _ => rfl) (fun _ _ => rfl)
    exact ⟨forall₂_concat h.deltas hempty, h.graphs⟩
  | makeBranchDelta index =>
    show RestrictsTo part (a.step (.makeBranchDelta index)) (b.step (.makeBranchDelta index))
    cases hgraph : a.graphs[index]? with
    | none =>
      have hgraph' : b.graphs[index]? = none := none_of_forall₂ h.graphs hgraph
      rw [step, step, hgraph, hgraph']
      exact h
    | some graph =>
      obtain ⟨graph', hgraph', hrestricts⟩ := exists_of_forall₂ h.graphs hgraph
      rw [step, step, hgraph, hgraph']
      exact ⟨forall₂_concat h.deltas hrestricts.makeBranchDelta, h.graphs⟩
  | write index call =>
    rw [callOn]
    cases hon : call.isOn part with
    | true =>
      refine ⟨forall₂_modify h.deltas index ?_, h.graphs⟩
      intro delta delta' _ _ hrestricts
      exact hrestricts.applyCall hon
    | false =>
      have hmodified := forall₂_modify h.deltas index (f := (applyCall · call)) (g := id)
        (fun _ _ _ _ hrestricts => hrestricts.applyCall_left hon)
      rw [List.modify_id] at hmodified
      exact ⟨hmodified, h.graphs⟩
  | publish => exact h.publishes rfl rfl
  | publishBranch => exact h.publishes rfl rfl

end Session

namespace Query

open Session

/-- **Kinds that are not named are not seen.**  For every part of the schema and every run of a
session there is its run without the writes on other kinds and without the publications that were
refused.  It makes as many deltas, in the same order, on which every append to a kind of the part
returns the same, and publishes as many snapshots, which hold nothing of the other kinds.  They and
their parents agree with those of the original run on every read of a kind of the part, estimates
included, and on the rows, errors and plans of every query that stays in the part. -/
theorem unusedKinds_unseen (part : SchemaPart S)
    (ceil : C.arithmetic.Double → C.arithmetic.Double) (cast : C.arithmetic.Double → Option ℕ)
    (calls : List (Call S)) :
    List.Forall₂ (DeltaStore.WritesAlike part)
        (run step initial calls).deltas (run step initial (callsOn part calls)).deltas ∧
      List.Forall₂
        (fun graph graph' =>
          (∀ tag, part.nodes tag = false → graph'.nodeExtent tag = 0) ∧
          (∀ edge, part.edges edge = false → graph'.edgeExtent edge = 0) ∧
          List.Forall₂ (fun a b => a.SameReadsOn part b ∧ SameEstimatesOn ceil part a b)
            graph.chain graph'.chain ∧
          ∀ query : TypedQuery S, query.StaysIn part →
            execute graph query = execute graph' query ∧
              explainCasting ceil cast graph query = explainCasting ceil cast graph' query)
        (run step initial calls).graphs (run step initial (callsOn part calls)).graphs := by
  have hinitial : Session.RestrictsTo part initial initial := ⟨.nil, .nil⟩
  have h := run_simulates follows_callOn calls hinitial
  refine ⟨h.deltas.imp fun _ _ hrestricts => hrestricts.writesAlike, h.graphs.imp ?_⟩
  intro graph graph' hrestricts
  have hagree : ∀ {a b : Snapshot S}, a.RestrictsTo part b →
      a.SameReadsOn part b ∧ SameEstimatesOn ceil part a b := fun hab =>
    ⟨hab.sameOn.sameReadsOn, .of_degrees ceil fun _ hedge => hab.relationAverageDegree_eq hedge⟩
  refine ⟨hrestricts.level.data.noNodes, hrestricts.level.data.noEdges,
    hrestricts.chain.imp fun _ _ => hagree, ?_⟩
  intro query hstays
  obtain ⟨hreads, hestimates⟩ := hagree hrestricts
  exact ⟨execute_of_sameReadsOn hreads hstays,
    explainCasting_of_sameReadsOn hreads hestimates cast hstays⟩

end Query

end Memorial
