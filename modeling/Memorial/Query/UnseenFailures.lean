import Memorial.Library.Simulation
import Memorial.Query.ReadCongruence
import Memorial.Storage.ExactDegrees

/-!
# Failed writes are not seen

A session may have any number of writes that are refused or that throw half way, and may build
indices at any time.  Leaving all of them out, and whatever else threw, gives a session whose
writes are all accepted.  It publishes the same snapshots up to what no query sees and no read but
`estimate_traversal_cardinality`, which counts the entries that an edge append leaves when it throws
late for a source without edges.

* `Session.effective`, `Session.effectiveCalls` — a run without what had no effect;
* `Session.SameSessions`, `follows_effective` — **PROVED**: one call of a session is followed by its
  effective part;
* `meets_succeeds_effectiveCalls` — **PROVED**: which is accepted, and nothing throws;
* `sameEstimates` — **PROVED**: estimates agree as well where the degrees are exact;
* `failedWrites_unseen` — **PROVED**: all of it, for every run.
-/

namespace Memorial.Session

open Library DeltaStore

variable {C : TypeSystem} {S : GraphSchema C}

/-! ### Runs without what had no effect -/

/-- What a call of a session amounts to: a write counts if it stores something, and then nothing
has to throw; building indices in between does not count. -/
def effective (session : Session S) : Call S → Option (Call S)
  | .write index call =>
    if session.deltas[index]?.any (·.stores call) then some (.write index call.withoutFault)
    else none
  | call => some call

/-- A run of calls without what had no effect. -/
def effectiveCalls (calls : List (Call S)) : List (Call S) :=
  outputs step effective initial calls

/-- Deltas and snapshots of equal contents, in the same positions. -/
structure SameSessions (a b : Session S) : Prop where
  deltas : List.Forall₂ DeltaStore.SameContents a.deltas b.deltas
  graphs : List.Forall₂ Snapshot.SameContents a.graphs b.graphs

theorem sameSessions_initial : SameSessions (initial : Session S) initial := ⟨.nil, .nil⟩

section SameSessions

variable {a b : Session S}

/-- The delta of one session stands in the other, with equal contents. -/
theorem SameSessions.symm (h : SameSessions a b) : SameSessions b a where
  deltas := (h.deltas.imp fun _ _ hsame => hsame.symm).flip
  graphs := (h.graphs.imp fun _ _ hsame => hsame.symm).flip

/-- The checks of `publish_branch` agree. -/
theorem acceptsBranch_iff {parent parent' : Snapshot S} {delta delta' : DeltaStore S}
    (hparent : parent.SameContents parent') (hdelta : delta.SameContents delta')
    (generation : GenerationId) (worldline : WorldlineId) :
    parent.AcceptsBranch generation worldline delta ↔
      parent'.AcceptsBranch generation worldline delta' := by
  have hworldline : parent.worldline = parent'.worldline := hparent.sameReads.worldline
  have hnodes : ∀ tag, (delta.nodes tag).idBase = (delta'.nodes tag).idBase := by
    intro tag
    rw [DeltaNodeStore.idBase, DeltaNodeStore.idBase, hdelta.nodes tag]
  have hedges : ∀ edge, (delta.edges edge).idBase = (delta'.edges edge).idBase :=
    fun edge => (hdelta.edges edge).idBase
  simp only [Snapshot.AcceptsBranch, Snapshot.branchBasesMatch_iff, hworldline, hnodes, hedges,
    hparent.sameReads.nodeExtent, hparent.sameReads.edgeExtent]

/-- What one session publishes, the other publishes with equal contents. -/
theorem SameSessions.exists_published (h : SameSessions a b) {call : Call S} {graph : Snapshot S}
    (hgraph : a.published call = some graph) :
    ∃ graph', b.published call = some graph' ∧ graph.SameContents graph' := by
  cases call with
  | newDelta => cases hgraph
  | makeBranchDelta => cases hgraph
  | write => cases hgraph
  | publish index generation worldline validAt knownAt =>
    obtain ⟨delta, hdelta, hpublish⟩ := published_publish_iff.mp hgraph
    obtain ⟨hgeneration, hworldline, rfl⟩ := Snapshot.publish_eq_ok_iff.mp hpublish
    obtain ⟨delta', hdelta', hsame⟩ := exists_of_forall₂ h.deltas hdelta
    exact ⟨_, published_publish_iff.mpr ⟨delta', hdelta',
      Snapshot.publish_eq_ok_iff.mpr ⟨hgeneration, hworldline, rfl⟩⟩,
      .root (hsame.level generation worldline validAt knownAt)⟩
  | publishBranch parentIndex index generation worldline validAt knownAt =>
    obtain ⟨parent, delta, hparent, hdelta, hpublish⟩ := published_publishBranch_iff.mp hgraph
    obtain ⟨haccepts, rfl⟩ := Snapshot.publishBranch_eq_ok_iff.mp hpublish
    obtain ⟨parent', hparent', hsameParent⟩ := exists_of_forall₂ h.graphs hparent
    obtain ⟨delta', hdelta', hsame⟩ := exists_of_forall₂ h.deltas hdelta
    have haccepts' := (acceptsBranch_iff hsameParent hsame generation worldline).mp haccepts
    exact ⟨_, published_publishBranch_iff.mpr ⟨parent', delta', hparent', hdelta',
      Snapshot.publishBranch_eq_ok_iff.mpr ⟨haccepts', rfl⟩⟩,
      .branch (hsame.level generation worldline validAt knownAt) hsameParent⟩

/-- Both sessions publish, or neither does. -/
theorem SameSessions.forall₂_published (h : SameSessions a b) (call : Call S) :
    List.Forall₂ Snapshot.SameContents (a.published call).toList (b.published call).toList := by
  cases hleft : a.published call with
  | some graph =>
    obtain ⟨graph', hright, hsame⟩ := h.exists_published hleft
    rw [hright]
    exact .cons hsame .nil
  | none =>
    cases hright : b.published call with
    | none => exact .nil
    | some graph' =>
      obtain ⟨graph, hpublished, -⟩ := h.symm.exists_published hright
      rw [hleft] at hpublished
      cases hpublished

theorem SameSessions.publishes (h : SameSessions a b) {call : Call S}
    (hleft : (a.step call).deltas = a.deltas) (hright : (b.step call).deltas = b.deltas) :
    SameSessions (a.step call) (b.step call) where
  deltas := by
    rw [hleft, hright]
    exact h.deltas
  graphs := by
    rw [graphs_step, graphs_step]
    exact List.rel_append h.graphs (h.forall₂_published call)

/-- A write on the left that keeps the contents of its delta. -/
theorem SameSessions.write_left (h : SameSessions a b) {index : ℕ} {call : DeltaCall S}
    (hidle : a.deltas[index]?.any (·.stores call) = false) :
    SameSessions (a.step (.write index call)) b where
  deltas := by
    have hmodified := forall₂_modify h.deltas index (f := (applyCall · call)) (g := id) ?_
    · rw [List.modify_id] at hmodified
      exact hmodified
    · intro delta delta' hdelta _ hsame
      rw [hdelta, Option.any_some] at hidle
      exact (sameContents_of_not_stores hidle).trans hsame
  graphs := h.graphs

/-- A write that stores something, and its effective part on the right. -/
theorem SameSessions.write (h : SameSessions a b) {index : ℕ} {call : DeltaCall S}
    (hstores : a.deltas[index]?.any (·.stores call) = true) :
    SameSessions (a.step (.write index call)) (b.step (.write index call.withoutFault)) where
  deltas := by
    refine forall₂_modify h.deltas index ?_
    intro delta delta' hdelta _ hsame
    rw [hdelta, Option.any_some] at hstores
    exact (hsame.applyCall_withoutFault hstores).2
  graphs := h.graphs

/-- **A call of a session is followed by its effective part.** -/
theorem follows_effective : Follows step step effective (SameSessions (S := S)) := by
  intro a b call h
  cases call with
  | newDelta => exact ⟨forall₂_concat h.deltas (.refl .empty), h.graphs⟩
  | makeBranchDelta index =>
    show SameSessions (a.step (.makeBranchDelta index)) (b.step (.makeBranchDelta index))
    cases hgraph : a.graphs[index]? with
    | none =>
      have hgraph' : b.graphs[index]? = none := none_of_forall₂ h.graphs hgraph
      rw [step, step, hgraph, hgraph']
      exact h
    | some graph =>
      obtain ⟨graph', hgraph', hsame⟩ := exists_of_forall₂ h.graphs hgraph
      have hdelta : graph.makeBranchDelta = graph'.makeBranchDelta := by
        rw [Snapshot.makeBranchDelta, Snapshot.makeBranchDelta, hsame.sameReads.nodeExtent,
          hsame.sameReads.edgeExtent]
      have hdeltas : List.Forall₂ DeltaStore.SameContents (a.deltas ++ [graph.makeBranchDelta])
          (b.deltas ++ [graph'.makeBranchDelta]) := by
        rw [hdelta]
        exact forall₂_concat h.deltas (.refl _)
      rw [step, step, hgraph, hgraph']
      exact ⟨hdeltas, h.graphs⟩
  | write index call =>
    rw [effective]
    cases hstores : a.deltas[index]?.any (·.stores call) with
    | true => exact h.write hstores
    | false => exact h.write_left hstores
  | publish => exact h.publishes rfl rfl
  | publishBranch => exact h.publishes rfl rfl

end SameSessions

/-- A call of a run with nothing that fails: a write is accepted, and nothing throws. -/
def Succeeds (session : Session S) : Call S → Prop
  | .write index call =>
    ∃ delta, session.deltas[index]? = some delta ∧ delta.stores call = true ∧
      call.withoutFault = call
  | _ => True

theorem succeeds_of_effective {a b : Session S} (h : SameSessions a b) {call call' : Call S}
    (heffective : a.effective call = some call') : b.Succeeds call' := by
  cases call with
  | write index call =>
    rw [effective] at heffective
    cases hdelta : a.deltas[index]? with
    | none =>
      rw [hdelta] at heffective
      cases heffective
    | some delta =>
      rw [hdelta, Option.any_some] at heffective
      cases hstores : delta.stores call with
      | false =>
        rw [hstores] at heffective
        cases heffective
      | true =>
        rw [hstores] at heffective
        obtain rfl := Option.some.inj heffective
        obtain ⟨delta', hdelta', hsame⟩ := exists_of_forall₂ h.deltas hdelta
        refine ⟨delta', hdelta', (hsame.applyCall_withoutFault hstores).1, ?_⟩
        cases call <;> rfl
  | newDelta => cases heffective; trivial
  | makeBranchDelta => cases heffective; trivial
  | publish => cases heffective; trivial
  | publishBranch => cases heffective; trivial

/-- **In the effective part of a run every write is accepted, and nothing throws.** -/
theorem meets_succeeds_effectiveCalls (calls : List (Call S)) :
    Meets step Succeeds initial (effectiveCalls calls) :=
  outputs_meet follows_effective (fun _ _ _ _ h heffective => succeeds_of_effective h heffective)
    calls sameSessions_initial

/-- What does not throw leaves no entry of a source without edges. -/
theorem writesOnly_of_succeeds (session : Session S) (call : Call S)
    (h : session.Succeeds call) : session.WritesOnly LeavesNoEntry call := by
  cases call with
  | write index call =>
    obtain ⟨-, -, -, hcall⟩ := h
    exact fun delta _ => delta.leavesNoEntry_of_withoutFault hcall
  | _ => trivial

end Memorial.Session

namespace Memorial.Query

open Library Session

variable {C : TypeSystem} {S : GraphSchema C}

section Estimates

variable (ceil : C.arithmetic.Double → C.arithmetic.Double) {a b : Snapshot S}

/-- Equal contents with exact degrees have equal estimates. -/
theorem sameEstimates (h : a.SameContents b) (ha : ∀ level ∈ a.levels, level.ExactDegrees)
    (hb : ∀ level ∈ b.levels, level.ExactDegrees) : SameEstimatesOn ceil .whole a b :=
  .of_degrees ceil fun edge _ => h.relationAverageDegree_eq ha hb edge

/-- And so have their parents. -/
theorem sameEstimates_chain (h : a.SameContents b) (ha : ∀ level ∈ a.levels, level.ExactDegrees)
    (hb : ∀ level ∈ b.levels, level.ExactDegrees) :
    List.Forall₂ (SameEstimatesOn ceil .whole) a.chain b.chain := by
  refine forall₂_imp_of_mem h.chain ?_
  intro other hother other' hother' hsame
  refine sameEstimates ceil hsame ?_ ?_
  · intro level hlevel
    exact ha level (Snapshot.mem_levels_of_mem_chain hother hlevel)
  · intro level hlevel
    exact hb level (Snapshot.mem_levels_of_mem_chain hother' hlevel)

end Estimates

/-- **Failed writes are not seen.**  For every run of a session there is its run without the writes
that are refused or throw and without the indices built in between.  Every write of that run is
accepted, and it publishes as many snapshots, in the same order.  They and their parents answer
every read but `estimate_traversal_cardinality` as those of the original run, and they execute every
query alike.  If no edge append of the original run throws after it created the entry of a source
that had none, the estimates agree as well, and so do the plans. -/
theorem failedWrites_unseen (ceil : C.arithmetic.Double → C.arithmetic.Double)
    (cast : C.arithmetic.Double → Option ℕ) (calls : List (Call S)) :
    Meets step Succeeds initial (effectiveCalls calls) ∧
      List.Forall₂
        (fun graph graph' => List.Forall₂ Snapshot.SameReads graph.chain graph'.chain ∧
          ∀ query : TypedQuery S, execute graph query = execute graph' query)
        (run step initial calls).graphs (run step initial (effectiveCalls calls)).graphs ∧
      (Meets step (WritesOnly DeltaStore.LeavesNoEntry) initial calls →
        List.Forall₂
          (fun graph graph' =>
            List.Forall₂ (SameEstimatesOn ceil .whole) graph.chain graph'.chain ∧
              ∀ query : TypedQuery S,
                explainCasting ceil cast graph query = explainCasting ceil cast graph' query)
          (run step initial calls).graphs (run step initial (effectiveCalls calls)).graphs) := by
  have hsame := run_simulates follows_effective calls (sameSessions_initial (S := S))
  have hsucceeds := meets_succeeds_effectiveCalls calls
  refine ⟨hsucceeds, hsame.graphs.imp ?_, ?_⟩
  · intro graph graph' hgraphs
    refine ⟨hgraphs.chain.imp fun _ _ h => h.sameReads, ?_⟩
    intro query
    exact execute_of_sameReadsOn hgraphs.sameOn.sameReadsOn (staysIn_whole query.expression)
  · intro hcalls
    have heffective := hsucceeds.imp writesOnly_of_succeeds
    refine forall₂_imp_of_mem hsame.graphs ?_
    intro graph hgraph graph' hgraph' hgraphs
    have hexact := Snapshot.exactDegrees_of_run hcalls hgraph
    have hexact' := Snapshot.exactDegrees_of_run heffective hgraph'
    refine ⟨sameEstimates_chain ceil hgraphs hexact hexact', ?_⟩
    intro query
    exact explainCasting_of_sameReadsOn hgraphs.sameOn.sameReadsOn
      (sameEstimates ceil hgraphs hexact hexact') cast (staysIn_whole query.expression)

/-- At the branch of the journal session: its estimates and those of its parent are the ones of the
effective run. -/
theorem failedWrites_unseen_branchGraph :
    ∃ graph, (run step initial (effectiveCalls Journal.journalCalls)).graphs[1]? = some graph ∧
      List.Forall₂ (SameEstimatesOn Journal.Floating.ceil .whole)
        Journal.branchGraph.chain graph.chain := by
  obtain ⟨-, -, hestimates⟩ := failedWrites_unseen Journal.Floating.ceil
    (fun double => some (Journal.Floating.arithmetic.toSize double)) Journal.journalCalls
  have hgraph : (run step initial Journal.journalCalls).graphs[1]? = some Journal.branchGraph := rfl
  obtain ⟨graph, hgraph', hestimate, -⟩ :=
    exists_of_forall₂ (hestimates Journal.leavesNoEntry_journalCalls) hgraph
  exact ⟨graph, hgraph', hestimate⟩

end Memorial.Query
