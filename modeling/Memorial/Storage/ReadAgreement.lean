import Memorial.Storage.Session

/-!
# The read paths of a snapshot agree

A reachable snapshot answers the same question through an index, through a per-row check and
through the parent chain.  Stated over the reads alone:

* `readPaths_agree` — **PROVED**: listing, containment, properties and property
  candidates describe one set of rows;
* `adjacency_complete` — **PROVED**: `outgoing` and `incoming` list exactly the stored edges
  between visible nodes, once each and in id order, and describe the same edges.
-/

namespace Memorial

open Library Session

variable {C : TypeSystem} {S : GraphSchema C}

namespace Snapshot

/-- The predicate on what `property` reads, false where it fails. -/
def propertySatisfies {Value : Type} (graph : Snapshot S) (tag : S.Tag) (key : GraphSchema.Key tag)
    (value : Value) (predicate : GraphSchema.Value tag key → Value → Bool) (id : NodeId) : Bool :=
  match graph.property tag key id with
  | .ok stored => predicate stored value
  | .error _ => false

/-- On visible ids the stored value is what `property` reads. -/
theorem WellFormed.satisfies_eq {graph : Snapshot S} (h : graph.WellFormed) {tag : S.Tag}
    {id : NodeId} (hvisible : graph.visible tag id = true) (key : GraphSchema.Key tag)
    {Value : Type} (value : Value) (predicate : GraphSchema.Value tag key → Value → Bool) :
    graph.satisfies tag key value predicate id =
      graph.propertySatisfies tag key value predicate id := by
  obtain ⟨stored, hstored, hproperty⟩ := h.property_eq hvisible key
  rw [satisfies, propertySatisfies, hstored, hproperty]
  rfl

/-- What it means that the read paths of a node kind agree on a list of ids. -/
structure ReadPathsAgree (graph : Snapshot S) (tag : S.Tag) (ids : List NodeId) : Prop where
  listed : graph.sourceCandidates tag = .ok ids
  ascending : ids.Pairwise (fun a b => a.toSize < b.toSize)
  contained : ∀ id, id ∈ ids ↔ graph.contains tag id = .ok true
  readable : ∀ key id, id ∈ ids → ∃ value, graph.property tag key id = .ok value
  refused : ∀ key id, id ∉ ids → ∃ error, graph.property tag key id = .error error ∧
    (error.code = .idNotFound ∨ error.code = .worldlineMismatch)
  satisfying : ∀ (key : GraphSchema.Key tag) (Value : Type) (value : Value)
    (predicate : GraphSchema.Value tag key → Value → Bool),
    graph.propertyCandidates tag key value predicate =
      .ok (ids.filter (graph.propertySatisfies tag key value predicate))

/-- **Three read paths agree.**  `source_candidates` ascends and lists exactly the ids that
`contains` accepts; `property` succeeds on exactly these, and fails on the others with
`id_not_found` or `worldline_mismatch`; `property_candidates` lists those among them whose value
satisfies the predicate. -/
theorem readPaths_agree {graph : Snapshot S} (hgraph : Reachable graph) (tag : S.Tag) :
    ∃ ids, graph.ReadPathsAgree tag ids := by
  have h := wellFormed_of_reachable hgraph
  refine ⟨graph.visibleIds tag,
    { listed := h.sourceCandidates_eq tag
      ascending := (h.rowIds_pairwise tag).filter _
      contained := ?_
      readable := ?_
      refused := ?_
      satisfying := ?_ }⟩
  · intro id
    rw [h.mem_visibleIds, h.contains_iff]
  · intro key id hid
    obtain ⟨value, -, hproperty⟩ := h.property_eq (h.mem_visibleIds.mp hid) key
    exact ⟨value, hproperty⟩
  · intro key id hid
    rw [h.mem_visibleIds] at hid
    exact h.property_of_not_visible (by simpa using hid) key
  · intro key Value value predicate
    rw [h.propertyCandidates_eq]
    apply congrArg Except.ok
    apply List.filter_congr
    intro id hid
    exact h.satisfies_eq (h.mem_visibleIds.mp hid) key value predicate

/-- At the branch of the journal session, which lists a row of each level. -/
theorem readPaths_agree_branchGraph :
    ∃ ids, Journal.branchGraph.ReadPathsAgree Journal.thought ids :=
  readPaths_agree Journal.reachable_branchGraph Journal.thought

example : Journal.branchGraph.sourceCandidates Journal.thought = .ok [⟨0⟩, ⟨1⟩, ⟨2⟩] := by decide

/-! ### Adjacency -/

/-- Some level of the chain stores the edge with these ends, by its own reads. -/
def StoresEdge (graph : Snapshot S) (edge : S.Edge) (id : EdgeId) (source target : NodeId) :
    Prop :=
  ∃ level ∈ graph.levels, (level.data.edges edge).source id = .ok source ∧
    (level.data.edges edge).target id = .ok target

/-- `StoresEdge` is membership in the list of stored edges. -/
theorem WellFormed.storesEdge_iff {graph : Snapshot S} (h : graph.WellFormed) {edge : S.Edge}
    {id : EdgeId} {source target : NodeId} :
    graph.StoresEdge edge id source target ↔
      (⟨id, source, target⟩ : StoredEdge) ∈ graph.storedEdges edge := by
  -- one level: an id whose ends can be read is the id of a stored edge with these ends
  have hlevel : ∀ {level : Level S}, level.Published →
      ((level.data.edges edge).source id = .ok source ∧
        (level.data.edges edge).target id = .ok target ↔
        (⟨id, source, target⟩ : StoredEdge) ∈ (level.data.edges edge).storedEdges) := by
    intro level published
    have hedges := published.wellFormed.edges edge
    constructor
    · intro hreads
      obtain ⟨hsource, htarget⟩ := hreads
      obtain ⟨e, he, rfl⟩ := hedges.exists_of_contains (hedges.contains_of_source hsource)
      obtain ⟨hesource, hetarget⟩ := hedges.endpoints_of_mem he
      rw [hesource] at hsource
      rw [hetarget] at htarget
      rw [← Except.ok.inj hsource, ← Except.ok.inj htarget]
      exact he
    · intro he
      exact hedges.endpoints_of_mem he
  induction h using WellFormed.chainInduction with
  | root _ _ published => simp [StoresEdge, levels, storedEdges, hlevel published]
  | branch _ _ _ published parentWellFormed ih =>
    rw [StoresEdge, levels, storedEdges, List.exists_mem_cons_iff, hlevel published,
      List.mem_append, or_comm]
    exact or_congr ih Iff.rfl

/-- An edge id is stored once. -/
theorem WellFormed.storesEdge_unique {graph : Snapshot S} (h : graph.WellFormed) {edge : S.Edge}
    {id : EdgeId} {source source' target target' : NodeId}
    (hstored : graph.StoresEdge edge id source target)
    (hstored' : graph.StoresEdge edge id source' target') : source = source' ∧ target = target' := by
  have hne : (graph.storedEdges edge).Pairwise (fun a b => a.id ≠ b.id) :=
    (h.storedEdges_pairwise edge).imp (fun hlt heq => absurd hlt (by rw [heq]; exact lt_irrefl _))
  have heq := List.inj_on_of_nodup_map (List.pairwise_map.mpr hne)
    (h.storesEdge_iff.mp hstored) (h.storesEdge_iff.mp hstored') rfl
  exact ⟨congrArg StoredEdge.source heq, congrArg StoredEdge.target heq⟩

/-- **Adjacency is complete**, in one direction of reading: the list of a visible node ascends in
id, and holds exactly the edges stored at a level of the chain that touch the node and whose
other end is visible. -/
theorem WellFormed.mem_incident {graph : Snapshot S} (h : graph.WellFormed) {edge : S.Edge}
    (direction : AdjacencyStore.Direction) {node : NodeId}
    (hvisible : graph.visible (nearTag direction edge) node = true) :
    ∃ ids, graph.incident direction edge node = .ok ids ∧
      ids.Pairwise (fun a b => a.toSize < b.toSize) ∧
      ∀ id, id ∈ ids ↔ ∃ e : StoredEdge, graph.StoresEdge edge id e.source e.target ∧
        e.near direction = node ∧
        graph.contains (farTag direction edge) (e.far direction) = .ok true := by
  refine ⟨_, h.incident_eq hvisible, ?_, ?_⟩
  · rw [List.pairwise_map]
    exact (h.storedEdges_pairwise edge).filter _
  · intro id
    rw [List.mem_map]
    simp only [incidentEdges, List.mem_filter, decide_eq_true_eq, h.contains_iff]
    constructor
    · intro hedge
      obtain ⟨e, ⟨he, hnear, hfar⟩, rfl⟩ := hedge
      exact ⟨e, h.storesEdge_iff.mpr he, hnear, hfar⟩
    · intro hedge
      obtain ⟨e, he, hnear, hfar⟩ := hedge
      refine ⟨⟨id, e.source, e.target⟩, ⟨h.storesEdge_iff.mp he, ?_, ?_⟩, rfl⟩
      · cases direction <;> exact hnear
      · cases direction <;> exact hfar

theorem WellFormed.mem_outgoing {graph : Snapshot S} (h : graph.WellFormed) {edge : S.Edge}
    {source : NodeId} (hsource : graph.contains (GraphSchema.source edge) source = .ok true) :
    ∃ ids, graph.outgoing edge source = .ok ids ∧
      ids.Pairwise (fun a b => a.toSize < b.toSize) ∧
      ∀ id, id ∈ ids ↔ ∃ target, graph.StoresEdge edge id source target ∧
        graph.contains (GraphSchema.target edge) target = .ok true := by
  obtain ⟨ids, hids, hsorted, hmem⟩ := h.mem_incident .outgoing (h.contains_iff.mp hsource)
  refine ⟨ids, hids, hsorted, fun id => (hmem id).trans ?_⟩
  constructor
  · intro hedge
    obtain ⟨e, he, rfl, hfar⟩ := hedge
    exact ⟨e.target, he, hfar⟩
  · intro hedge
    obtain ⟨target, he, hfar⟩ := hedge
    exact ⟨⟨id, source, target⟩, he, rfl, hfar⟩

theorem WellFormed.mem_incoming {graph : Snapshot S} (h : graph.WellFormed) {edge : S.Edge}
    {target : NodeId} (htarget : graph.contains (GraphSchema.target edge) target = .ok true) :
    ∃ ids, graph.incoming edge target = .ok ids ∧
      ids.Pairwise (fun a b => a.toSize < b.toSize) ∧
      ∀ id, id ∈ ids ↔ ∃ source, graph.StoresEdge edge id source target ∧
        graph.contains (GraphSchema.source edge) source = .ok true := by
  obtain ⟨ids, hids, hsorted, hmem⟩ := h.mem_incident .incoming (h.contains_iff.mp htarget)
  refine ⟨ids, hids, hsorted, fun id => (hmem id).trans ?_⟩
  constructor
  · intro hedge
    obtain ⟨e, he, rfl, hfar⟩ := hedge
    exact ⟨e.source, he, hfar⟩
  · intro hedge
    obtain ⟨source, he, hfar⟩ := hedge
    exact ⟨⟨id, source, target⟩, he, rfl, hfar⟩

/-- A level that reads a source for an id stores the edge. -/
theorem WellFormed.exists_storesEdge {graph : Snapshot S} (h : graph.WellFormed) {edge : S.Edge}
    {id : EdgeId} {source : NodeId} {level : Level S} (hlevel : level ∈ graph.levels)
    (hsource : (level.data.edges edge).source id = .ok source) :
    ∃ target, graph.StoresEdge edge id source target := by
  have hedges := (h.published_of_mem_levels hlevel).wellFormed.edges edge
  obtain ⟨e, he, rfl⟩ := hedges.exists_of_contains (hedges.contains_of_source hsource)
  exact ⟨e.target, level, hlevel, hsource, (hedges.endpoints_of_mem he).2⟩

/-- What it means that the two adjacency reads of an edge kind are complete, and dual to each
other. -/
structure AdjacencyComplete (graph : Snapshot S) (edge : S.Edge) : Prop where
  outgoing : ∀ source, graph.contains (GraphSchema.source edge) source = .ok true →
    ∃ ids, graph.outgoing edge source = .ok ids ∧
      ids.Pairwise (fun a b => a.toSize < b.toSize) ∧
      ∀ id, id ∈ ids ↔ ∃ target, graph.StoresEdge edge id source target ∧
        graph.contains (GraphSchema.target edge) target = .ok true
  incoming : ∀ target, graph.contains (GraphSchema.target edge) target = .ok true →
    ∃ ids, graph.incoming edge target = .ok ids ∧
      ids.Pairwise (fun a b => a.toSize < b.toSize) ∧
      ∀ id, id ∈ ids ↔ ∃ source, graph.StoresEdge edge id source target ∧
        graph.contains (GraphSchema.source edge) source = .ok true
  dual : ∀ source target, graph.contains (GraphSchema.source edge) source = .ok true →
    graph.contains (GraphSchema.target edge) target = .ok true →
    ∃ out into, graph.outgoing edge source = .ok out ∧ graph.incoming edge target = .ok into ∧
      ∀ id, (id ∈ out ∧ graph.edgeTarget edge id = .ok target ↔
        id ∈ into ∧ ∃ level ∈ graph.levels, (level.data.edges edge).source id = .ok source)

/-- **Adjacency is complete and dual.**  For visible nodes `outgoing` and `incoming` list exactly
the edges stored at some level of the chain that leave the source, or enter the target, and
whose other end is visible, each once and in id order; and an edge leads from one node to the
other in `outgoing` exactly if it does in `incoming`. -/
theorem adjacency_complete {graph : Snapshot S} (hgraph : Reachable graph) (edge : S.Edge) :
    graph.AdjacencyComplete edge := by
  have h := wellFormed_of_reachable hgraph
  refine ⟨fun _ => h.mem_outgoing, fun _ => h.mem_incoming, ?_⟩
  intro source target hsource htarget
  obtain ⟨out, hout, -, houtmem⟩ := h.mem_outgoing hsource
  obtain ⟨into, hinto, -, hintomem⟩ := h.mem_incoming htarget
  refine ⟨out, into, hout, hinto, ?_⟩
  intro id
  -- both sides say that the chain stores the edge between the two nodes
  have hleft : id ∈ out ∧ graph.edgeTarget edge id = .ok target ↔
      graph.StoresEdge edge id source target := by
    constructor
    · intro hlisted
      obtain ⟨hid, hedge⟩ := hlisted
      obtain ⟨found, hstored, -⟩ := (houtmem id).mp hid
      have hfound := h.edgeTarget_eq (h.storesEdge_iff.mp hstored)
      rw [hedge] at hfound
      rw [Except.ok.inj hfound]
      exact hstored
    · intro hstored
      exact ⟨(houtmem id).mpr ⟨target, hstored, htarget⟩,
        h.edgeTarget_eq (h.storesEdge_iff.mp hstored)⟩
  have hright : (id ∈ into ∧ ∃ level ∈ graph.levels,
      (level.data.edges edge).source id = .ok source) ↔
        graph.StoresEdge edge id source target := by
    constructor
    · intro hlisted
      obtain ⟨hid, level, hlevel, hread⟩ := hlisted
      obtain ⟨found, hstored, -⟩ := (hintomem id).mp hid
      obtain ⟨other, hother⟩ := h.exists_storesEdge hlevel hread
      rw [(h.storesEdge_unique hother hstored).1]
      exact hstored
    · intro hstored
      refine ⟨(hintomem id).mpr ⟨source, hstored, hsource⟩, ?_⟩
      obtain ⟨level, hlevel, hread, -⟩ := hstored
      exact ⟨level, hlevel, hread⟩
  exact hleft.trans hright.symm

/-- At the branch of the journal session, whose thought 0 has an edge of each level. -/
theorem adjacency_complete_branchGraph :
    Journal.branchGraph.AdjacencyComplete Journal.recalls :=
  adjacency_complete Journal.reachable_branchGraph Journal.recalls

example : Journal.branchGraph.outgoing Journal.recalls ⟨0⟩ = .ok [⟨0⟩, ⟨2⟩] := by decide

end Snapshot

end Memorial
