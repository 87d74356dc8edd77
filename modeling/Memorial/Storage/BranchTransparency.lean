import Memorial.Storage.Session
import Mathlib.Data.List.Chain

/-!
# Branches are transparent

A branch shares the rows and edges of its parent and adds its own above them.

* `Contiguous` — id ranges that follow one another without gap or overlap;
* `BranchTransparent` — what every read of a branch owes to its parent;
* `publishBranch_transparent` — **PROVED**: whatever is appended to a delta made from a
  reachable parent, the branch it is published as is transparent.
-/

namespace Memorial

open Library DeltaStore Session

variable {C : TypeSystem} {S : GraphSchema C}

/-! ### Id ranges of a chain -/

/-- Each range starts where the one before it ends, and no id lies in two of them. -/
structure IdRange.Contiguous (ranges : List IdRange) (width : ℕ) : Prop where
  adjacent : ranges.IsChain (fun a b => b.base = a.extent)
  disjoint : ranges.Pairwise (fun a b =>
    ∀ {Tag : Type} (id : StrongId Tag width), ¬(a.contains id = true ∧ b.contains id = true))

/-- Ranges that follow one another without a gap do not overlap either. -/
theorem IdRange.Contiguous.of_isChain {ranges : List IdRange} {width : ℕ}
    (h : ranges.IsChain (fun a b => b.base = a.extent)) : IdRange.Contiguous ranges width where
  adjacent := h
  disjoint := by
    have htrans : IsTrans IdRange (fun a b => a.extent ≤ b.base) := by
      constructor
      intro a b c hab hbc
      have hb : b.base ≤ b.extent := Nat.le_add_right _ _
      omega
    have hordered : ranges.IsChain (fun a b => a.extent ≤ b.base) :=
      h.imp (fun a b hab => hab.ge)
    apply (List.isChain_iff_pairwise.mp hordered).imp
    intro a b hab Tag id hboth
    obtain ⟨hina, hinb⟩ := hboth
    have hlt := (IdRange.bounds_of_contains hina).2
    have hle := (IdRange.bounds_of_contains hinb).1
    omega

namespace Snapshot

/-- The id ranges of the levels, the root first. -/
def nodeRanges : Snapshot S → (tag : S.Tag) → List IdRange
  | .root level, tag => [(level.data.nodes tag).nodes.ids]
  | .branch level parent, tag => parent.nodeRanges tag ++ [(level.data.nodes tag).nodes.ids]

/-- The edge id ranges of the levels, the root first. -/
def edgeRanges : Snapshot S → (edge : S.Edge) → List IdRange
  | .root level, edge => [(level.data.edges edge).ids]
  | .branch level parent, edge => parent.edgeRanges edge ++ [(level.data.edges edge).ids]

theorem getLast?_nodeRanges (graph : Snapshot S) (tag : S.Tag) :
    (graph.nodeRanges tag).getLast? = some (graph.level.data.nodes tag).nodes.ids := by
  cases graph with
  | root level => rfl
  | branch level parent => exact List.getLast?_concat

theorem getLast?_edgeRanges (graph : Snapshot S) (edge : S.Edge) :
    (graph.edgeRanges edge).getLast? = some (graph.level.data.edges edge).ids := by
  cases graph with
  | root level => rfl
  | branch level parent => exact List.getLast?_concat

/-- **The levels of a chain divide its ids among them**, for every node kind. -/
theorem WellFormed.nodeRanges_contiguous {graph : Snapshot S} (h : graph.WellFormed)
    (tag : S.Tag) : IdRange.Contiguous (graph.nodeRanges tag) 32 := by
  apply IdRange.Contiguous.of_isChain
  induction h using WellFormed.chainInduction with
  | root => exact List.isChain_singleton _
  | branch level parent h _ _ ih =>
    rw [nodeRanges, List.isChain_append]
    refine ⟨ih, List.isChain_singleton _, ?_⟩
    intro last hlast own hown
    rw [getLast?_nodeRanges, Option.mem_some_iff] at hlast
    rw [List.head?_cons, Option.mem_some_iff] at hown
    subst hlast hown
    exact h.nodeBase_eq tag

/-- **The levels of a chain divide its edge ids among them**, for every edge kind. -/
theorem WellFormed.edgeRanges_contiguous {graph : Snapshot S} (h : graph.WellFormed)
    (edge : S.Edge) : IdRange.Contiguous (graph.edgeRanges edge) 32 := by
  apply IdRange.Contiguous.of_isChain
  induction h using WellFormed.chainInduction with
  | root => exact List.isChain_singleton _
  | branch level parent h _ _ ih =>
    rw [edgeRanges, List.isChain_append]
    refine ⟨ih, List.isChain_singleton _, ?_⟩
    intro last hlast own hown
    rw [getLast?_edgeRanges, Option.mem_some_iff] at hlast
    rw [List.head?_cons, Option.mem_some_iff] at hown
    subst hlast hown
    exact h.edgeBase_eq edge

/-! ### Transparency -/

/-- What the reads of a branch owe to its parent. -/
structure BranchTransparent (parent branch : Snapshot S) : Prop where
  nodeRanges : ∀ tag, IdRange.Contiguous (branch.nodeRanges tag) 32
  edgeRanges : ∀ edge, IdRange.Contiguous (branch.edgeRanges edge) 32
  contains : ∀ tag id, id.toSize < parent.nodeExtent tag →
    branch.contains tag id = parent.contains tag id
  property : ∀ tag key id, id.toSize < parent.nodeExtent tag →
    branch.property tag key id = parent.property tag key id
  sourceCandidates : ∀ tag, ∃ inherited own, parent.sourceCandidates tag = .ok inherited ∧
    branch.sourceCandidates tag = .ok (inherited ++ own) ∧
    ∀ id ∈ own, parent.nodeExtent tag ≤ id.toSize ∧ id.toSize < branch.nodeExtent tag
  outgoing : ∀ edge source, parent.contains (GraphSchema.source edge) source = .ok true →
    ∃ inherited own, parent.outgoing edge source = .ok inherited ∧
      branch.outgoing edge source = .ok (inherited ++ own) ∧
      ∀ id ∈ own, parent.edgeExtent edge ≤ id.toSize
  edgeTarget : ∀ edge id, id.toSize < parent.edgeExtent edge →
    branch.edgeTarget edge id = parent.edgeTarget edge id
  freshNodes : ∀ tag id, (branch.level.data.nodes tag).contains id = true →
    parent.contains tag id = .ok false ∧ ∀ key, ∃ error, parent.property tag key id = .error error
  freshEdges : ∀ edge id, (branch.level.data.edges edge).contains id = true →
    ∃ error, parent.edgeTarget edge id = .error error

section Branch

variable {level : Level S} {parent : Snapshot S}

/-- Below the extent of the parent a branch checks visibility as the parent does. -/
theorem WellFormed.checkVisibility_of_lt (h : (Snapshot.branch level parent).WellFormed)
    {tag : S.Tag} {id : NodeId} (hid : id.toSize < parent.nodeExtent tag) :
    (Snapshot.branch level parent).checkVisibility tag id = parent.checkVisibility tag id := by
  rw [checkVisibility, h.not_contains_own hid]
  rfl

/-- `property` starts with `check_visibility`. -/
theorem property_of_checkVisibility_error {graph : Snapshot S} {tag : S.Tag} {id : NodeId}
    {error : GraphError} (hcheck : graph.checkVisibility tag id = .error error)
    (key : GraphSchema.Key tag) : graph.property tag key id = .error error := by
  cases graph <;> rw [property, hcheck] <;> rfl

theorem WellFormed.property_of_lt (h : (Snapshot.branch level parent).WellFormed) {tag : S.Tag}
    (key : GraphSchema.Key tag) {id : NodeId} (hid : id.toSize < parent.nodeExtent tag) :
    (Snapshot.branch level parent).property tag key id = parent.property tag key id := by
  have hcheck := h.checkVisibility_of_lt hid
  cases hparent : parent.checkVisibility tag id with
  | error error =>
    rw [property_of_checkVisibility_error hparent key]
    exact property_of_checkVisibility_error (hcheck.trans hparent) key
  | ok =>
    have hown : ¬(level.data.nodes tag).contains id = true := by
      rw [h.not_contains_own hid]
      decide
    rw [property, hcheck, hparent, ok_bind, if_neg hown]

/-- **A well-formed branch is transparent.** -/
theorem WellFormed.branchTransparent (h : (Snapshot.branch level parent).WellFormed) :
    BranchTransparent parent (.branch level parent) where
  nodeRanges := h.nodeRanges_contiguous
  edgeRanges := h.edgeRanges_contiguous
  contains tag id hid := by
    rw [h.contains_eq, h.of_branch.contains_eq, h.visible_of_lt hid]
  property _ key _ hid := h.property_of_lt key hid
  sourceCandidates tag := by
    refine ⟨_, (level.data.nodes tag).rowIds.filter (level.isActiveRow tag),
      h.of_branch.sourceCandidates_eq tag, ?_, ?_⟩
    · rw [h.sourceCandidates_eq, h.visibleIds_branch]
    · intro id hid
      have hrow := List.mem_of_mem_filter hid
      exact h.contains_own_iff.mp
        ((h.published.wellFormed.nodes tag).contains_iff_mem_rowIds.mp hrow)
  outgoing edge source hsource := by
    have hparent := h.of_branch.contains_iff.mp hsource
    have hlt := h.of_branch.lt_of_visible hparent
    have hvisible : (Snapshot.branch level parent).visible
        (nearTag .outgoing edge) source = true := (h.visible_of_lt hlt).trans hparent
    refine ⟨_, ((level.data.edges edge).storedEdges.filter (fun e => e.near .outgoing = source ∧
      (Snapshot.branch level parent).visible (farTag .outgoing edge) (e.far .outgoing))).map
        StoredEdge.id, h.of_branch.incident_eq hparent, ?_, ?_⟩
    · rw [Snapshot.outgoing, h.incident_eq hvisible, h.incidentEdges_branch, List.map_append]
    · intro id hid
      obtain ⟨e, he, rfl⟩ := List.mem_map.mp hid
      exact (h.contains_own_edge_iff.mp ((h.published.wellFormed.edges edge).contains_of_mem
        (List.mem_of_mem_filter he))).1
  edgeTarget _ _ hid := h.edgeTarget_of_lt hid
  freshNodes tag id hid := by
    have hinvisible := h.of_branch.visible_eq_false (h.contains_own_iff.mp hid).1
    refine ⟨by rw [h.of_branch.contains_eq, hinvisible], ?_⟩
    intro key
    obtain ⟨error, herror, -⟩ := h.of_branch.property_of_not_visible hinvisible key
    exact ⟨error, herror⟩
  freshEdges edge id hid := ⟨_, h.of_branch.edgeTarget_of_le (h.contains_own_edge_iff.mp hid).1⟩

end Branch

/-- **Copy-on-write transparency.**  However a delta made from a reachable snapshot was written,
the branch it is published as changes nothing of what its parent reads: the levels divide the
ids, every read below the extents returns what the parent returns, lists grow at the end by ids
of the branch, and the parent sees none of these. -/
theorem publishBranch_transparent {parent branch : Snapshot S} (hparent : Reachable parent)
    (calls : List (DeltaCall S)) {generation : GenerationId} {worldline : WorldlineId}
    {validAt knownAt : Timestamp}
    (hbranch : parent.publishBranch generation worldline validAt knownAt
      (run applyCall parent.makeBranchDelta calls) = .ok branch) :
    BranchTransparent parent branch := by
  have hwf := WellFormed.of_publishBranch (wellFormed_of_reachable hparent)
    (DeltaStore.wellFormed_run (wellFormed_branchFrom _ _) calls) hbranch
  obtain ⟨-, rfl⟩ := publishBranch_eq_ok_iff.mp hbranch
  exact hwf.branchTransparent

/-- At the journal session. -/
theorem publishBranch_transparent_journal :
    BranchTransparent Journal.rootGraph Journal.branchGraph := by
  have hbranch : Journal.rootGraph.publishBranch ⟨2⟩ Journal.counterfactual 15 35
      (run applyCall Journal.rootGraph.makeBranchDelta Journal.branchWrites) =
        .ok Journal.branchGraph := rfl
  exact publishBranch_transparent Journal.reachable_rootGraph Journal.branchWrites hbranch

end Snapshot

end Memorial
