import Memorial.Storage.Session

/-!
# Invariants of deltas in a session

What the writes of a run keep of a delta, from its making on, holds of the data of every level of
every snapshot that the run publishes, up to the indices that publication builds.

* `DeltaInvariant` — what a new delta meets and every allowed write keeps;
* `WritesOnly` — the calls of a session whose write, if they are one, is allowed;
* `DeltaInvariant.of_run` — **PROVED**: each level in the chain of a snapshot that a run of such
  calls publishes was built from such a delta;
* `DeltaInvariant.of_reachable` — the case where every write is allowed.
-/

namespace Memorial

open Library DeltaStore Session

variable {C : TypeSystem} {S : GraphSchema C}

/-- A new delta meets it, and every write that is allowed keeps it. -/
structure DeltaInvariant (allowed : DeltaStore S → DeltaCall S → Prop)
    (good : DeltaStore S → Prop) : Prop where
  empty : good .empty
  makeBranchDelta : ∀ graph : Snapshot S, graph.WellFormed → good graph.makeBranchDelta
  applyCall : ∀ delta call, delta.WellFormed → good delta → allowed delta call →
    good (delta.applyCall call)

/-- If the call writes a delta, the write is allowed there. -/
def Session.WritesOnly (allowed : DeltaStore S → DeltaCall S → Prop) (session : Session S) :
    Call S → Prop
  | .write index call => ∀ delta, session.deltas[index]? = some delta → allowed delta call
  | _ => True

/-- The level was built from a delta that meets the invariant. -/
def Level.BuiltFrom (good : DeltaStore S → Prop) (level : Level S) : Prop :=
  ∃ delta : DeltaStore S, delta.WellFormed ∧ good delta ∧ level.data = delta.buildIndices

namespace DeltaInvariant

variable {allowed : DeltaStore S → DeltaCall S → Prop} {good : DeltaStore S → Prop}

/-- The invariant of the session that goes with it. -/
structure Kept (good : DeltaStore S → Prop) (session : Session S) : Prop where
  wellFormed : session.WellFormed
  deltas : ∀ delta ∈ session.deltas, good delta
  levels : ∀ graph ∈ session.graphs, ∀ level ∈ graph.levels, level.BuiltFrom good

theorem kept_initial : Kept good (initial : Session S) where
  wellFormed := wellFormed_initial
  deltas _ h := absurd h List.not_mem_nil
  levels _ h := absurd h List.not_mem_nil

theorem Kept.deltas_step {session : Session S} (h : Kept good session)
    (hgood : DeltaInvariant allowed good) {call : Call S}
    (hcall : session.WritesOnly allowed call) :
    ∀ delta ∈ (session.step call).deltas, good delta := by
  cases call with
  | newDelta =>
    intro delta hdelta
    rcases List.mem_append.mp hdelta with hold | hnew
    · exact h.deltas delta hold
    · rw [List.mem_singleton.mp hnew]
      exact hgood.empty
  | makeBranchDelta index =>
    intro delta hdelta
    rw [Session.step] at hdelta
    cases hgraph : session.graphs[index]? with
    | none =>
      rw [hgraph] at hdelta
      exact h.deltas delta hdelta
    | some graph =>
      rw [hgraph] at hdelta
      rcases List.mem_append.mp hdelta with hold | hnew
      · exact h.deltas delta hold
      · rw [List.mem_singleton.mp hnew]
        exact hgood.makeBranchDelta graph
          (h.wellFormed.graphs graph (List.mem_of_getElem? hgraph))
  | write index call =>
    intro delta hdelta
    obtain ⟨position, hposition⟩ := List.mem_iff_getElem?.mp hdelta
    simp only [Session.step, List.getElem?_modify, Option.map_eq_map, Option.map_eq_some_iff]
      at hposition
    obtain ⟨old, hold, rfl⟩ := hposition
    have hmem := List.mem_of_getElem? hold
    split
    · rename_i hindex
      subst hindex
      exact hgood.applyCall old call (h.wellFormed.deltas old hmem) (h.deltas old hmem)
        (hcall old hold)
    · exact h.deltas old hmem
  | publish => exact h.deltas
  | publishBranch => exact h.deltas

/-- A publication builds its level from a delta of the session. -/
theorem Kept.levels_published {session : Session S} (h : Kept good session) {call : Call S}
    {graph : Snapshot S} (hpublished : session.published call = some graph) :
    ∀ level ∈ graph.levels, level.BuiltFrom good := by
  have hbuilt : ∀ {index : ℕ} {delta : DeltaStore S}, session.deltas[index]? = some delta →
      ∀ generation worldline validAt knownAt, Level.BuiltFrom good
        { generation, worldline, validAt, knownAt, data := delta.buildIndices } := by
    intro index delta hdelta generation worldline validAt knownAt
    have hmem := List.mem_of_getElem? hdelta
    exact ⟨delta, h.wellFormed.deltas delta hmem, h.deltas delta hmem, rfl⟩
  cases call with
  | newDelta => cases hpublished
  | makeBranchDelta => cases hpublished
  | write => cases hpublished
  | publish =>
    obtain ⟨delta, hdelta, hpublish⟩ := published_publish_iff.mp hpublished
    obtain ⟨-, -, rfl⟩ := Snapshot.publish_eq_ok_iff.mp hpublish
    intro level hlevel
    rw [List.mem_singleton.mp hlevel]
    exact hbuilt hdelta _ _ _ _
  | publishBranch =>
    obtain ⟨parent, delta, hparent, hdelta, hpublish⟩ := published_publishBranch_iff.mp hpublished
    obtain ⟨-, rfl⟩ := Snapshot.publishBranch_eq_ok_iff.mp hpublish
    intro level hlevel
    rcases List.mem_cons.mp hlevel with rfl | hinherited
    · exact hbuilt hdelta _ _ _ _
    · exact h.levels parent (List.mem_of_getElem? hparent) level hinherited

theorem Kept.step {session : Session S} (h : Kept good session)
    (hgood : DeltaInvariant allowed good) {call : Call S}
    (hcall : session.WritesOnly allowed call) : Kept good (session.step call) where
  wellFormed := h.wellFormed.step call
  deltas := h.deltas_step hgood hcall
  levels graph hgraph := by
    rw [graphs_step, List.mem_append, Option.mem_toList] at hgraph
    rcases hgraph with hold | hnew
    · exact h.levels graph hold
    · exact h.levels_published hnew

/-- **Every level of a snapshot that a run publishes was built from a delta that meets the
invariant**, if the run writes only what is allowed. -/
theorem of_run (hgood : DeltaInvariant allowed good) {calls : List (Call S)}
    (hcalls : Meets Session.step (WritesOnly allowed) initial calls) :
    ∀ graph ∈ (run Session.step initial calls).graphs, ∀ level ∈ graph.levels,
      level.BuiltFrom good := by
  have hkept : Kept good (run Session.step initial calls) :=
    run_of_meets Session.step (WritesOnly allowed) (Kept good)
      (fun _ _ h hcall => h.step hgood hcall) calls kept_initial hcalls
  exact hkept.levels

/-- What every write keeps holds of every level of a reachable snapshot. -/
theorem of_reachable (hgood : DeltaInvariant (fun _ _ => True) good) {graph : Snapshot S}
    (hgraph : Reachable graph) : ∀ level ∈ graph.levels, level.BuiltFrom good := by
  obtain ⟨calls, hmem⟩ := hgraph
  have hall : ∀ call ∈ calls, ∀ session : Session S, session.WritesOnly (fun _ _ => True) call := by
    intro call _ session
    cases call with
    | write index call => exact fun _ _ => trivial
    | _ => trivial
  exact hgood.of_run (meets_of_forall hall initial) graph hmem

end DeltaInvariant

end Memorial
