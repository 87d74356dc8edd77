import Memorial.Storage.ContentAgreement
import Memorial.Storage.DeltaInvariants
import Memorial.Storage.TraversalEstimates

/-!
# Exact degrees

The average degree of a level divides by the number of entries of an index, and an edge append that
throws may leave an entry for a source without edges.  In a run where no append does, the average
degree is that of the stored edges.

* `DeltaStore.LeavesNoEntry` — a write that leaves no such entry;
* `Level.ExactDegrees`, `exactDegrees_of_run` — **PROVED**: what a run of such writes publishes has
  an entry for every source with edges and no other;
* `Level.ExactDegrees.averageOutDegree_eq` — **PROVED**: the average degree of a level, from its
  edges;
* `SameContents.relationAverageDegree_eq` — **PROVED**: snapshots of equal contents have equal
  average degrees.
-/

namespace Memorial

open Library DeltaStore Session

variable {C : TypeSystem} {S : GraphSchema C}

/-! ### Writes that leave no entry -/

/-- If the write is an `append_edge` with accepted endpoints, it does not throw after it created the
entry of a source that had none. -/
def DeltaStore.LeavesNoEntry (delta : DeltaStore S) : DeltaCall S → Prop
  | .appendEdge edge source target values fault =>
    delta.checkEndpoints edge source target = .ok () →
      (delta.edges edge).LeavesNoEntry ⟨source, target, values, fault⟩
  | _ => True

/-- A write in which nothing throws leaves no entry. -/
theorem DeltaStore.leavesNoEntry_of_withoutFault (delta : DeltaStore S) {call : DeltaCall S}
    (hcall : call.withoutFault = call) : delta.LeavesNoEntry call := by
  cases call with
  | appendNode => trivial
  | buildIndices => trivial
  | appendEdge edge source target values fault =>
    have hnone : none = fault := by injection hcall
    subst hnone
    rintro - ⟨-, -, -, -, hfault⟩
    rcases hfault with hfault | ⟨hfault, -⟩ | hfault <;> cases hfault

theorem AdjacencyStore.NoEmptyEntries.buildStatistics {edge : EdgeSpec C}
    {store : AdjacencyStore edge} (h : store.NoEmptyEntries) :
    store.buildStatistics.NoEmptyEntries where
  wellFormed := h.wellFormed.buildStatistics
  entries := h.entries

/-- **Writes that leave no entry keep the indices exact.** -/
theorem DeltaStore.deltaInvariant_noEmptyEntries :
    DeltaInvariant LeavesNoEntry
      (fun delta : DeltaStore S => ∀ edge, (delta.edges edge).NoEmptyEntries) where
  empty _ := AdjacencyStore.noEmptyEntries_empty _
  makeBranchDelta _ _ _ := AdjacencyStore.noEmptyEntries_empty _
  applyCall delta call _ hgood hallowed := by
    cases call with
    | appendNode tag row values fault =>
      intro edge
      rw [applyCall, appendNode_fst, edges_setNodes]
      exact hgood edge
    | buildIndices => exact fun edge => (hgood edge).buildStatistics
    | appendEdge edge source target values fault =>
      rw [applyCall]
      cases hcheck : delta.checkEndpoints edge source target with
      | error error =>
        rw [appendEdge_of_refused hcheck]
        exact hgood
      | ok =>
        rw [appendEdge_of_checked hcheck]
        exact (Function.forall_update_iff delta.edges (fun _ store => store.NoEmptyEntries)).mpr
          ⟨(hgood edge).step (hallowed hcheck), fun other _ => hgood other⟩

/-! ### Levels -/

/-- The indices of the level have an entry for every source with edges and no other, and its
statistics are those of the indices. -/
structure Level.ExactDegrees (level : Level S) : Prop where
  entries : ∀ edge, (level.data.edges edge).NoEmptyEntries
  fresh : ∀ edge, (level.data.edges edge).degreeStatistics = (level.data.edges edge).statistics

/-- **What a run publishes has exact degrees**, if none of its writes leaves an entry. -/
theorem Snapshot.exactDegrees_of_run {calls : List (Call S)}
    (hcalls : Meets Session.step (WritesOnly LeavesNoEntry) initial calls) {graph : Snapshot S}
    (hgraph : graph ∈ (run Session.step initial calls).graphs) :
    ∀ level ∈ graph.levels, level.ExactDegrees := by
  intro level hlevel
  obtain ⟨delta, -, hgood, hdata⟩ :=
    DeltaStore.deltaInvariant_noEmptyEntries.of_run hcalls graph hgraph level hlevel
  constructor
  · intro edge
    rw [hdata]
    exact (hgood edge).buildStatistics
  · intro edge
    rw [hdata]
    rfl

/-- The average degree, from the edges of the level. -/
theorem Level.ExactDegrees.averageOutDegree_eq {level : Level S} (h : level.ExactDegrees)
    (edge : S.Edge) :
    (level.data.edges edge).degreeStatistics.averageOutDegree =
      if (level.data.edges edge).sourceSet.card ≠ 0 then
        C.arithmetic.div (C.arithmetic.ofSize (level.data.edges edge).storedEdges.length)
          (C.arithmetic.ofSize (level.data.edges edge).sourceSet.card)
      else C.arithmetic.zero := by
  obtain ⟨hwellFormed, hentries⟩ := h.entries edge
  rw [h.fresh edge]
  exact (hwellFormed.statisticsRight hentries).averageOutDegree

/-- Levels of equal contents have the same average degrees. -/
theorem Level.SameContents.averageOutDegree_eq {a b : Level S} (h : a.SameContents b)
    (ha : a.ExactDegrees) (hb : b.ExactDegrees) (edge : S.Edge) :
    (a.data.edges edge).degreeStatistics.averageOutDegree =
      (b.data.edges edge).degreeStatistics.averageOutDegree := by
  have hstored := (h.edges edge).storedEdges
  rw [ha.averageOutDegree_eq, hb.averageOutDegree_eq, AdjacencyStore.sourceSet,
    AdjacencyStore.sourceSet, hstored]

/-! ### Snapshots -/

/-- **Equal contents have equal average degrees** where the degrees are exact. -/
theorem Snapshot.SameContents.relationAverageDegree_eq {a b : Snapshot S} (h : a.SameContents b)
    (ha : ∀ level ∈ a.levels, level.ExactDegrees) (hb : ∀ level ∈ b.levels, level.ExactDegrees)
    (edge : S.Edge) : a.relationAverageDegree edge = b.relationAverageDegree edge := by
  induction h with
  | root level =>
    exact level.averageOutDegree_eq (ha _ List.mem_cons_self) (hb _ List.mem_cons_self) edge
  | branch level parent ih =>
    have hparent := ih (fun level hlevel => ha level (List.mem_cons_of_mem _ hlevel))
      (fun level hlevel => hb level (List.mem_cons_of_mem _ hlevel))
    rw [relationAverageDegree, relationAverageDegree, hparent,
      level.averageOutDegree_eq (ha _ List.mem_cons_self) (hb _ List.mem_cons_self) edge]

/-- No write of the journal session throws. -/
theorem Journal.leavesNoEntry_journalCalls :
    Meets Session.step (WritesOnly LeavesNoEntry) initial Journal.journalCalls := by
  refine meets_of_forall ?_ initial
  intro call hcall session
  cases call with
  | write index call =>
    have hwithoutFault : call.withoutFault = call := by
      simp only [journalCalls, rootWrites, branchWrites, List.map_cons, List.map_nil,
        List.cons_append, List.nil_append, List.mem_cons, List.not_mem_nil, Call.write.injEq,
        reduceCtorEq, false_or, or_false] at hcall
      rcases hcall with ⟨-, rfl⟩ | ⟨-, rfl⟩ | ⟨-, rfl⟩ | ⟨-, rfl⟩ | ⟨-, rfl⟩ | ⟨-, rfl⟩ <;> rfl
    exact fun delta _ => delta.leavesNoEntry_of_withoutFault hwithoutFault
  | _ => trivial

end Memorial
