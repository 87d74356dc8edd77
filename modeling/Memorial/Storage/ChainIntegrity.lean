import Memorial.Storage.Session

/-!
# What publication does and does not guarantee about a chain

`publish` accepts any delta and `publish_branch` compares a delta and a worldline with the direct
parent alone.  For each of three properties of published chains this file proves the exact
condition on the publications of a run under which it holds, and a run that breaks it.

* `worldlinesDistinct_run_iff` — no worldline recurs exactly if every branch also avoids the
  worldlines of the proper ancestors of its parent;
* `edgesResolve_run_iff` — every stored edge connects stored rows exactly if no published edge has an
  endpoint below the ids of the root of its chain;
* `publishBranch_binds_iff` — a delta is bound to the snapshot it was made from exactly if the ids
  below its bases denote the same rows anyway, or the extents tell the two snapshots apart.
-/

namespace Memorial

open Library DeltaStore Session

variable {C : TypeSystem} {S : GraphSchema C}

namespace Snapshot

/-! ### Worldlines -/

/-- The worldlines of the levels, the topmost first. -/
def worldlines (graph : Snapshot S) : List WorldlineId := graph.levels.map Level.worldline

/-- The worldlines of the levels are distinct, and so are the worldlines of visible rows of
different levels. -/
structure WorldlinesDistinct (graph : Snapshot S) : Prop where
  levels : graph.worldlines.Nodup
  rows : ∀ (i j : ℕ) (level other : Level S) (tag otherTag : S.Tag) (id otherId : NodeId),
    graph.levels[i]? = some level → graph.levels[j]? = some other → i ≠ j →
    (level.data.nodes tag).contains id = true →
    (other.data.nodes otherTag).contains otherId = true →
    graph.contains tag id = .ok true → graph.contains otherTag otherId = .ok true →
    (level.data.nodes tag).worldline id ≠ (other.data.nodes otherTag).worldline otherId

/-- A level that contains an id owns it. -/
theorem WellFormed.owner_of_mem_levels {graph : Snapshot S} (h : graph.WellFormed)
    {level : Level S} (hlevel : level ∈ graph.levels) {tag : S.Tag} {id : NodeId}
    (hid : (level.data.nodes tag).contains id = true) : graph.owner tag id = some level := by
  induction h using WellFormed.chainInduction with
  | root _ _ published =>
    obtain rfl := List.mem_singleton.mp hlevel
    rw [owner, if_pos hid]
  | branch _ _ h published parentWellFormed ih =>
    rcases List.mem_cons.mp hlevel with rfl | hparent
    · exact owner_of_contains hid
    · have howner := ih hparent
      rw [h.owner_of_lt (parentWellFormed.lt_nodeExtent howner)]
      exact howner

/-- A visible row carries the worldline of its level. -/
theorem WellFormed.worldline_of_visible {graph : Snapshot S} (h : graph.WellFormed)
    {level : Level S} (hlevel : level ∈ graph.levels) {tag : S.Tag} {id : NodeId}
    (hid : (level.data.nodes tag).contains id = true)
    (hvisible : graph.contains tag id = .ok true) :
    (level.data.nodes tag).worldline id = .ok level.worldline := by
  have hactive := h.contains_iff.mp hvisible
  rw [visible, h.owner_of_mem_levels hlevel hid, Option.any_some, Level.isActiveRow,
    DeltaNodeStore.isActiveRow] at hactive
  have published := h.published_of_mem_levels hlevel
  obtain ⟨row, hof, hworldline, -⟩ := (published.wellFormed.nodes tag).exists_row hid
  rw [hof, Option.any_some, RowMetadata.isActive, Bool.and_eq_true, Bool.and_eq_true,
    beq_iff_eq] at hactive
  rw [hworldline, hactive.1.1]

/-- Distinct levels are enough: a visible row carries the worldline of its level. -/
theorem WellFormed.worldlinesDistinct_iff {graph : Snapshot S} (h : graph.WellFormed) :
    graph.WorldlinesDistinct ↔ graph.worldlines.Nodup := by
  refine ⟨WorldlinesDistinct.levels, fun hnodup => ⟨hnodup, ?_⟩⟩
  intro i j level other tag otherTag id otherId hi hj hij hid hotherId hvisible hotherVisible heq
  rw [h.worldline_of_visible (List.mem_of_getElem? hi) hid hvisible,
    h.worldline_of_visible (List.mem_of_getElem? hj) hotherId hotherVisible] at heq
  have hworldlines : graph.worldlines[i]? = graph.worldlines[j]? := by
    rw [worldlines, List.getElem?_map, List.getElem?_map, hi, hj]
    exact congrArg some (Except.ok.inj heq)
  have hlength : i < graph.worldlines.length := by
    rw [worldlines, List.length_map]
    exact (List.getElem?_eq_some_iff.mp hi).1
  exact hij ((List.getElem?_inj hlength hnodup).mp hworldlines)

/-- The check `publish_branch` would need beyond the one it makes: the worldline of the branch is
none of those of the proper ancestors of its parent. -/
def AvoidsAncestors (level : Level S) (parent : Snapshot S) : Prop :=
  level.worldline ∉ parent.worldlines.tail

theorem worldlines_eq_cons (graph : Snapshot S) :
    graph.worldlines = graph.worldline :: graph.worldlines.tail := by
  cases graph <;> rfl

theorem worldlines_branch (level : Level S) (parent : Snapshot S) :
    (Snapshot.branch level parent).worldlines = level.worldline :: parent.worldlines := rfl

/-- **Worldlines do not recur in a run exactly if every branch avoids the worldlines of the proper
ancestors of its parent.**  The parent's own worldline `publish_branch` excludes itself. -/
theorem worldlinesDistinct_run_iff (calls : List (Call S)) :
    (∀ graph ∈ (run step (initial : Session S) calls).graphs, graph.WorldlinesDistinct) ↔
      Meets step (Publishes (fun _ => True) AvoidsAncestors) (initial : Session S) calls := by
  apply run_graphs_iff
  · intro level published
    rw [(WellFormed.root published).worldlinesDistinct_iff]
    exact iff_of_true (List.nodup_singleton _) trivial
  · intro level parent h hparent
    rw [h.worldlinesDistinct_iff, worldlines_branch, List.nodup_cons,
      and_iff_left hparent.levels, AvoidsAncestors, worldlines_eq_cons parent, List.mem_cons,
      not_or, List.tail_cons]
    exact and_iff_right h.worldline_ne

/-- A branch of a branch takes the worldline of the root. -/
def recurringCalls : List (Call Journal.journalSchema) :=
  [.newDelta, .write 0 (Journal.writeThought Journal.actual 3),
    .publish 0 ⟨1⟩ Journal.actual 15 35,
    .makeBranchDelta 0, .publishBranch 0 1 ⟨2⟩ Journal.counterfactual 15 35,
    .makeBranchDelta 1, .write 2 (Journal.writeThought Journal.actual 1),
    .publishBranch 1 2 ⟨3⟩ Journal.actual 15 35]

/-- **Worldlines can recur**: the chain published last has worldline 1 at both ends. -/
theorem worldlines_recur :
    ¬∀ graph ∈ (run step initial recurringCalls).graphs, graph.WorldlinesDistinct := by
  intro h
  have hlast : ∃ graph ∈ (run step initial recurringCalls).graphs,
      graph.worldlines = [⟨1⟩, ⟨2⟩, ⟨1⟩] := by
    exact ⟨_, List.mem_of_getElem? (i := 2) rfl, rfl⟩
  obtain ⟨graph, hgraph, hworldlines⟩ := hlast
  have hnodup := (h graph hgraph).levels
  rw [hworldlines] at hnodup
  exact absurd hnodup (by decide)

/-! ### Edge endpoints -/

/-- An id denotes a stored row of the snapshot's top level or of one of its ancestors. -/
def HasRow (graph : Snapshot S) (tag : S.Tag) (id : NodeId) : Prop :=
  ∃ level ∈ graph.levels, (level.data.nodes tag).contains id = true

/-- Every edge stored at any level of the chain connects rows of that level or its ancestors. -/
def EdgesResolve : Snapshot S → Prop
  | .root level => ∀ edge, ∀ e ∈ (level.data.edges edge).storedEdges,
    (Snapshot.root level).HasRow (GraphSchema.source edge) e.source ∧
      (Snapshot.root level).HasRow (GraphSchema.target edge) e.target
  | .branch level parent => (∀ edge, ∀ e ∈ (level.data.edges edge).storedEdges,
    (Snapshot.branch level parent).HasRow (GraphSchema.source edge) e.source ∧
      (Snapshot.branch level parent).HasRow (GraphSchema.target edge) e.target) ∧
    parent.EdgesResolve

/-- The first node id of a chain: the id base of its root. -/
def rootBase : Snapshot S → (tag : S.Tag) → ℕ
  | .root level, tag => (level.data.nodes tag).idBase
  | .branch _ parent, tag => parent.rootBase tag

theorem WellFormed.rootBase_le {graph : Snapshot S} (h : graph.WellFormed) (tag : S.Tag) :
    graph.rootBase tag ≤ graph.nodeExtent tag := by
  induction h using WellFormed.chainInduction with
  | root level _ _ =>
    show (level.data.nodes tag).idBase ≤ (level.data.nodes tag).extent
    exact Nat.le_add_right _ _
  | branch level parent h _ _ ih =>
    show parent.rootBase tag ≤ (Snapshot.branch level parent).nodeExtent tag
    exact ih.trans (h.nodeExtent_le tag)

/-- The rows of a chain are the ids from the base of the root up to the extent. -/
theorem WellFormed.hasRow_iff {graph : Snapshot S} (h : graph.WellFormed) {tag : S.Tag}
    {id : NodeId} :
    graph.HasRow tag id ↔ graph.rootBase tag ≤ id.toSize ∧ id.toSize < graph.nodeExtent tag := by
  induction h using WellFormed.chainInduction with
  | root level _ published =>
    simp only [HasRow, levels, List.mem_singleton, exists_eq_left]
    exact (published.wellFormed.nodes tag).nodes.contains_iff
  | branch level parent h published parentWellFormed ih =>
    have hbase : parent.rootBase tag ≤ parent.nodeExtent tag :=
      parentWellFormed.rootBase_le tag
    have hle := h.nodeExtent_le tag
    rw [HasRow, levels, List.exists_mem_cons_iff, h.contains_own_iff]
    rw [HasRow] at ih
    rw [ih, rootBase]
    omega

/-- The endpoints of the level's own edges lie at or above a base. -/
def EndpointsFrom (base : S.Tag → ℕ) (level : Level S) : Prop :=
  ∀ edge, ∀ e ∈ (level.data.edges edge).storedEdges,
    base (GraphSchema.source edge) ≤ e.source.toSize ∧
      base (GraphSchema.target edge) ≤ e.target.toSize

/-- **Edges resolve in a run exactly if no published delta has an edge endpoint below the ids of
the root of its chain**: below its own bases when it is published as a root, and below those of
the parent's root when it is published as a branch. -/
theorem edgesResolve_run_iff (calls : List (Call S)) :
    (∀ graph ∈ (run step (initial : Session S) calls).graphs, graph.EdgesResolve) ↔
      Meets step
        (Publishes (fun level => EndpointsFrom (fun tag => (level.data.nodes tag).idBase) level)
          (fun level parent => EndpointsFrom parent.rootBase level))
        (initial : Session S) calls := by
  apply run_graphs_iff
  · intro level published
    have h := WellFormed.root published
    apply forall_congr'
    intro edge
    apply forall₂_congr
    intro e he
    obtain ⟨hsource, htarget⟩ := published.wellFormed.endpoints edge e he
    rw [h.hasRow_iff, h.hasRow_iff]
    exact and_congr (and_iff_left hsource) (and_iff_left htarget)
  · intro level parent h hparent
    refine (and_iff_left hparent).trans ?_
    apply forall_congr'
    intro edge
    apply forall₂_congr
    intro e he
    obtain ⟨hsource, htarget⟩ := h.published.wellFormed.endpoints edge e he
    rw [h.hasRow_iff, h.hasRow_iff]
    exact and_congr (and_iff_left hsource) (and_iff_left htarget)

/-- A delta made for a branch is published as a root. -/
def danglingCalls : List (Call Journal.journalSchema) :=
  [.newDelta, .write 0 (Journal.writeThought Journal.actual 3),
    .publish 0 ⟨1⟩ Journal.actual 15 35,
    .makeBranchDelta 0, .write 1 (Journal.writeRecall ⟨0⟩ ⟨0⟩),
    .publish 1 ⟨2⟩ Journal.actual 15 35]

/-- **Edges can dangle**: the second root has an edge at thought 0 and no thoughts. -/
theorem edges_dangle :
    ¬∀ graph ∈ (run step initial danglingCalls).graphs, graph.EdgesResolve := by
  intro h
  have hlast : ∃ level : Level Journal.journalSchema,
      Snapshot.root level ∈ (run step initial danglingCalls).graphs ∧
      (level.data.edges Journal.recalls).storedEdges = [⟨⟨0⟩, ⟨0⟩, ⟨0⟩⟩] ∧
      (level.data.nodes Journal.thought).contains ⟨0⟩ = false :=
    ⟨_, List.mem_of_getElem? (i := 1) rfl, rfl, rfl⟩
  obtain ⟨level, hgraph, hedges, hrows⟩ := hlast
  obtain ⟨⟨found, hfound, hcontains⟩, -⟩ := h _ hgraph Journal.recalls ⟨⟨0⟩, ⟨0⟩, ⟨0⟩⟩
    (by rw [hedges]; exact List.mem_singleton_self _)
  rw [List.mem_singleton.mp hfound] at hcontains
  exact absurd (hcontains.symm.trans hrows) (by decide)

/-! ### Which parent a delta belongs to -/

/-- The ids below the bases of a delta denote the same rows in both snapshots: rows of levels with
the same data. -/
def SameRowsBelow (parent origin : Snapshot S) (delta : DeltaStore S) : Prop :=
  ∀ tag (id : NodeId), id.toSize < (delta.nodes tag).idBase →
    (parent.owner tag id).map Level.data = (origin.owner tag id).map Level.data

/-- A publication as a branch of `parent` succeeds only if the ids below the bases of the delta
denote what they denoted in the snapshot it was made from, and is refused with the conflict error
about the parent if they do not. -/
structure BindsDelta (parent origin : Snapshot S) (generation : GenerationId)
    (worldline : WorldlineId) (validAt knownAt : Timestamp) (delta : DeltaStore S) : Prop where
  accepted : ∀ branch,
    parent.publishBranch generation worldline validAt knownAt delta = .ok branch →
      SameRowsBelow parent origin delta
  refused : ¬SameRowsBelow parent origin delta →
    parent.publishBranch generation worldline validAt knownAt delta = .error notBasedOnParent

/-- When `publish_branch` reports a delta as not based on the parent. -/
theorem publishBranch_eq_notBasedOnParent_iff (parent : Snapshot S) (generation : GenerationId)
    (worldline : WorldlineId) (validAt knownAt : Timestamp) (delta : DeltaStore S) :
    parent.publishBranch generation worldline validAt knownAt delta = .error notBasedOnParent ↔
      generation.isValid = true ∧ worldline.isValid = true ∧ worldline ≠ parent.worldline ∧
        parent.branchBasesMatch delta = false := by
  rw [publishBranch]
  cases generation.isValid <;> cases worldline.isValid <;>
    cases parent.branchBasesMatch delta <;> by_cases h : worldline = parent.worldline <;>
    simp [h, notBasedOnParent]

/-- The extents of two snapshots differ for some kind. -/
def ExtentsDiffer (parent origin : Snapshot S) : Prop :=
  (∃ tag, origin.nodeExtent tag ≠ parent.nodeExtent tag) ∨
    ∃ edge, origin.edgeExtent edge ≠ parent.edgeExtent edge

/-- The bases of a delta made from a snapshot are its extents, whatever was written. -/
theorem branchBasesMatch_run_iff (parent origin : Snapshot S) (calls : List (DeltaCall S)) :
    parent.branchBasesMatch (run applyCall origin.makeBranchDelta calls) = false ↔
      parent.ExtentsDiffer origin := by
  have hbases := sameBases_run origin.makeBranchDelta calls
  have hnodes : ∀ tag, ((run applyCall origin.makeBranchDelta calls).nodes tag).idBase =
      origin.nodeExtent tag := hbases.nodes
  have hedges : ∀ edge, ((run applyCall origin.makeBranchDelta calls).edges edge).idBase =
      origin.edgeExtent edge := hbases.edges
  rw [← Bool.not_eq_true, branchBasesMatch_iff]
  simp only [hnodes, hedges, ExtentsDiffer]
  rw [not_and_or, not_forall, not_forall]

/-- **A delta is bound to the snapshot it was made from exactly if the ids below its bases denote
the same rows in the parent anyway, or the call reaches the comparison of extents and some extent
differs.** -/
theorem publishBranch_binds_iff (parent origin : Snapshot S) (calls : List (DeltaCall S))
    (generation : GenerationId) (worldline : WorldlineId) (validAt knownAt : Timestamp) :
    parent.BindsDelta origin generation worldline validAt knownAt
        (run applyCall origin.makeBranchDelta calls) ↔
      SameRowsBelow parent origin (run applyCall origin.makeBranchDelta calls) ∨
        (generation.isValid = true ∧ worldline.isValid = true ∧ worldline ≠ parent.worldline ∧
          parent.ExtentsDiffer origin) := by
  rw [← branchBasesMatch_run_iff parent origin calls,
    ← publishBranch_eq_notBasedOnParent_iff parent generation worldline validAt knownAt]
  constructor
  · intro h
    by_cases hsame : SameRowsBelow parent origin (run applyCall origin.makeBranchDelta calls)
    · exact Or.inl hsame
    · exact Or.inr (h.refused hsame)
  · rintro (hsame | hrefused)
    · exact ⟨fun _ _ => hsame, fun hnot => absurd hsame hnot⟩
    · refine ⟨?_, fun _ => hrefused⟩
      intro branch hok
      rw [hrefused] at hok
      cases hok

/-- A branch of the journal root with one thought of its own. -/
def siblingGraph (generation : GenerationId) (worldline : WorldlineId) (rank : Int32) :
    Snapshot Journal.journalSchema :=
  .branch ⟨generation, worldline, 15, 35,
    (run applyCall Journal.rootGraph.makeBranchDelta
      [Journal.writeThought worldline rank]).buildIndices⟩ Journal.rootGraph

/-- Two branches of one root, both of the same size. -/
def siblingCalls : List (Call Journal.journalSchema) :=
  Journal.journalCalls ++
    [.makeBranchDelta 0, .write 2 (Journal.writeThought ⟨3⟩ 5), .publishBranch 0 2 ⟨3⟩ ⟨3⟩ 15 35,
      .makeBranchDelta 0, .write 3 (Journal.writeThought ⟨4⟩ 7), .publishBranch 0 3 ⟨4⟩ ⟨4⟩ 15 35]

theorem graphs_siblingCalls : (run step initial siblingCalls).graphs =
    [Journal.rootGraph, Journal.branchGraph, siblingGraph ⟨3⟩ ⟨3⟩ 5, siblingGraph ⟨4⟩ ⟨4⟩ 7] := rfl

/-- **Siblings are confused**: a delta made from one branch, with an edge at that branch's thought
2, is published on another branch, whose thought 2 is a different row. -/
theorem siblings_confused :
    Reachable (siblingGraph ⟨3⟩ ⟨3⟩ 5) ∧ Reachable (siblingGraph ⟨4⟩ ⟨4⟩ 7) ∧
      ¬(siblingGraph ⟨4⟩ ⟨4⟩ 7).BindsDelta (siblingGraph ⟨3⟩ ⟨3⟩ 5) ⟨5⟩ ⟨5⟩ 15 35
        (run applyCall (siblingGraph ⟨3⟩ ⟨3⟩ 5).makeBranchDelta
          [Journal.writeThought ⟨5⟩ 9, Journal.writeRecall ⟨3⟩ ⟨2⟩]) := by
  refine ⟨reachable_of_mem graphs_siblingCalls (by simp),
    reachable_of_mem graphs_siblingCalls (by simp), ?_⟩
  intro h
  have hsame := h.accepted _ rfl Journal.thought ⟨2⟩ (by decide)
  -- the two thoughts carry different worldlines
  have hworldlines := congrArg
    (Option.map (fun data => (data.nodes Journal.thought).metadata.worldlines)) hsame
  exact absurd hworldlines (by decide)

end Snapshot

end Memorial
