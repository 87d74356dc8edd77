import Memorial.Storage.ExactDegrees
import Memorial.Storage.Histogram
import Memorial.Storage.History

/-!
# Reading a history

A history answers the questions of a snapshot by looking through what was written: a row is visible
if its entry was closed on its worldline, at times that its intervals contain; an edge is followed
if its far end is visible; an estimate is one of the values that were written.  A snapshot that
holds a history reads as the history does, errors included.

* `History.visibleRows`, `History.edges`, `History.incident` — the lists;
* `History.row?`, `History.check`, `History.property`, `History.edgeTarget` — the look-ups, with the
  errors of `check_visibility`;
* `History.estimate`, `History.scaledDegree` — the two estimates;
* `History.chain` — the histories it was put on top of;
* `HoldsHistory.visibleIds_eq`, `checkVisibility_eq`, `storedValue?_eq`, `incidentEdges_eq` —
  **PROVED**: the chain and the history hold the same;
* `ReadsAs`, `HoldsHistory.readsAs` — **PROVED**: every read of the snapshot is that of the history,
  but for `estimate_traversal_cardinality`;
* `EstimatesAs`, `HoldsHistory.estimatesAs` — **PROVED**: and so is that one, where the degrees are
  exact.
-/

namespace Memorial

open Library

variable {C : TypeSystem} {S : GraphSchema C}

/-! ### Rows of an entry -/

namespace Entry

/-- The entry sees a row of its own. -/
def sees (entry : Entry S) {tag : S.Tag}
    (accepted : DeltaNodeStore.AcceptedRow (GraphSchema.node tag)) : Bool :=
  accepted.row.isActive entry.worldline entry.validAt entry.knownAt

/-- The row of its batch under the id. -/
def row? (entry : Entry S) (tag : S.Tag) (id : NodeId) :
    Option (DeltaNodeStore.AcceptedRow (GraphSchema.node tag)) :=
  (entry.batch.rows tag).find? (fun accepted => decide (accepted.id = id))

/-- Why it does not see a row of its own, if so. -/
def check (entry : Entry S) {tag : S.Tag}
    (accepted : DeltaNodeStore.AcceptedRow (GraphSchema.node tag)) : Result Unit :=
  if accepted.row.worldline ≠ entry.worldline then
    .error { code := .worldlineMismatch, detail := "node belongs to another worldline" }
  else if !accepted.row.valid.contains entry.validAt ||
      !accepted.row.transaction.contains entry.knownAt then
    .error { code := .idNotFound, detail := "node is not active in this snapshot" }
  else .ok ()

/-- The values that were written under a key. -/
def column (entry : Entry S) (tag : S.Tag) (key : GraphSchema.Key tag) :
    List (GraphSchema.Value tag key) :=
  (entry.batch.rows tag).map (fun accepted => accepted.values key.index)

/-- The estimate of a histogram of the values, or their number where there is no cast. -/
def estimate {Value : Type} (entry : Entry S) (tag : S.Tag) (key : GraphSchema.Key tag)
    (value : Value) (predicate : GraphSchema.Value tag key → Value → Bool) : ℕ :=
  match C.casts ((GraphSchema.node tag).properties.get key.index).valueType with
  | none => (entry.batch.rows tag).length
  | some casts =>
    (buildPropertyHistogram (entry.column tag key)).estimateWith (entry.batch.rows tag).length
      casts.ofDouble value predicate

/-- The edges of its batch for each source that has any. -/
def averageDegree (entry : Entry S) (edge : S.Edge) : C.arithmetic.Double :=
  let edges := entry.batch.edges edge
  let sources := (edges.map AdjacencyStore.AcceptedEdge.source).toFinset
  if sources.card ≠ 0 then
    C.arithmetic.div (C.arithmetic.ofSize edges.length) (C.arithmetic.ofSize sources.card)
  else C.arithmetic.zero

/-- The average degrees of an entry and of those below it, added from the oldest on. -/
def totalDegree (edge : S.Edge) : Entry S → (below : List (Entry S)) → C.arithmetic.Double
  | entry, [] => entry.averageDegree edge
  | entry, next :: below =>
    C.arithmetic.add (entry.averageDegree edge) (next.totalDegree edge below)

end Entry

/-! ### Reads -/

namespace History

/-- The rows that their entries see, in the order in which they were written. -/
def visibleRows (history : History S) (tag : S.Tag) :
    List (DeltaNodeStore.AcceptedRow (GraphSchema.node tag)) :=
  history.entries.flatMap (fun entry => (entry.batch.rows tag).filter entry.sees)

def visibleIds (history : History S) (tag : S.Tag) : List NodeId :=
  (history.visibleRows tag).map DeltaNodeStore.AcceptedRow.id

def visible (history : History S) (tag : S.Tag) (id : NodeId) : Bool :=
  (history.visibleIds tag).any (fun seen => decide (seen = id))

/-- The row under the id, with its entry; the last entry is asked first. -/
def row? (history : History S) (tag : S.Tag) (id : NodeId) :
    Option (Entry S × DeltaNodeStore.AcceptedRow (GraphSchema.node tag)) :=
  history.entries.reverse.findSome? (fun entry =>
    (entry.row? tag id).map (fun accepted => (entry, accepted)))

/-- Why a node is not visible, if so. -/
def check (history : History S) (tag : S.Tag) (id : NodeId) : Result Unit :=
  match history.row? tag id with
  | none => .error { code := .idNotFound }
  | some (entry, accepted) => entry.check accepted

/-- The value that was written for a visible id. -/
def property (history : History S) (tag : S.Tag) (key : GraphSchema.Key tag) (id : NodeId) :
    Result (GraphSchema.Value tag key) :=
  match history.row? tag id with
  | none => .error { code := .idNotFound }
  | some (entry, accepted) => do
    entry.check accepted
    return accepted.values key.index

/-- The same, where nothing refuses it. -/
def value? (history : History S) (tag : S.Tag) (key : GraphSchema.Key tag) (id : NodeId) :
    Option (GraphSchema.Value tag key) :=
  (history.property tag key id).toOption

/-- All edges, in the order in which they were written. -/
def edges (history : History S) (edge : S.Edge) :
    List (AdjacencyStore.AcceptedEdge (GraphSchema.edge edge)) :=
  history.entries.flatMap (fun entry => entry.batch.edges edge)

/-- The edges at a node whose other end is visible. -/
def incident (history : History S) (direction : AdjacencyStore.Direction) (edge : S.Edge)
    (node : NodeId) : List (AdjacencyStore.AcceptedEdge (GraphSchema.edge edge)) :=
  (history.edges edge).filter (fun accepted => accepted.stored.near direction = node ∧
    history.visible (Snapshot.farTag direction edge) (accepted.stored.far direction))

/-- What a client reads of the edges at a node that is visible. -/
def incidentIds (history : History S) (direction : AdjacencyStore.Direction) (edge : S.Edge)
    (node : NodeId) : Result (List EdgeId) := do
  history.check (Snapshot.nearTag direction edge) node
  return (history.incident direction edge node).map AdjacencyStore.AcceptedEdge.id

/-- The target of the edge under the id. -/
def edgeTarget (history : History S) (edge : S.Edge) (id : EdgeId) : Result NodeId :=
  match (history.edges edge).find? (fun accepted => decide (accepted.id = id)) with
  | none => .error { code := .idNotFound }
  | some accepted => .ok accepted.target

/-- The estimates of the entries, added up. -/
def estimate {Value : Type} (history : History S) (tag : S.Tag) (key : GraphSchema.Key tag)
    (value : Value) (predicate : GraphSchema.Value tag key → Value → Bool) : ℕ :=
  (history.entries.map (fun entry => entry.estimate tag key value predicate)).sum

/-- The average degrees times the number of sources, rounded up. -/
def scaledDegree (ceil : C.arithmetic.Double → C.arithmetic.Double) (history : History S)
    (edge : S.Edge) (sourceCount : ℕ) : C.arithmetic.Double :=
  ceil (C.arithmetic.mul (C.arithmetic.ofSize sourceCount)
    (history.last.totalDegree edge history.earlier.reverse))

/-- The histories that end in each of some entries, which come the last one first. -/
def endingIn : List (Entry S) → List (History S)
  | [] => []
  | entry :: below => ⟨below.reverse, entry⟩ :: endingIn below

/-- The history and, in turn, those it was put on top of. -/
def chain (history : History S) : List (History S) := endingIn history.entries.reverse

theorem row?_root (entry : Entry S) (tag : S.Tag) (id : NodeId) :
    row? ⟨[], entry⟩ tag id =
      (entry.row? tag id).map (fun accepted => (entry, accepted)) := by
  rw [row?, entries, List.nil_append, List.reverse_singleton, List.findSome?_singleton]

theorem row?_branch (history : History S) (entry : Entry S) (tag : S.Tag) (id : NodeId) :
    row? ⟨history.entries, entry⟩ tag id =
      ((entry.row? tag id).map (fun accepted => (entry, accepted))).or (history.row? tag id) := by
  rw [row?, entries, List.reverse_append, List.findSome?_append, List.reverse_singleton,
    List.findSome?_singleton]
  rfl

theorem visibleRows_root (entry : Entry S) (tag : S.Tag) :
    visibleRows ⟨[], entry⟩ tag = (entry.batch.rows tag).filter entry.sees := by
  rw [visibleRows, entries, List.nil_append, List.flatMap_singleton]

theorem visibleRows_branch (history : History S) (entry : Entry S) (tag : S.Tag) :
    visibleRows ⟨history.entries, entry⟩ tag =
      history.visibleRows tag ++ (entry.batch.rows tag).filter entry.sees := by
  rw [visibleRows, entries, List.flatMap_append, List.flatMap_singleton]
  rfl

theorem edges_root (entry : Entry S) (edge : S.Edge) :
    edges ⟨[], entry⟩ edge = entry.batch.edges edge := by
  rw [edges, entries, List.nil_append, List.flatMap_singleton]

theorem edges_branch (history : History S) (entry : Entry S) (edge : S.Edge) :
    edges ⟨history.entries, entry⟩ edge = history.edges edge ++ entry.batch.edges edge := by
  rw [edges, entries, List.flatMap_append, List.flatMap_singleton]
  rfl

end History

/-! ### The chain holds the same -/

section Levels

variable {level : Level S} {entry : Entry S}

/-- A level finds a row of its own active exactly if the entry sees it. -/
theorem HoldsEntry.isActiveRow_eq (h : HoldsEntry level entry) {tag : S.Tag}
    {accepted : DeltaNodeStore.AcceptedRow (GraphSchema.node tag)}
    (haccepted : accepted ∈ entry.batch.rows tag) :
    level.isActiveRow tag accepted.id = entry.sees accepted := by
  rw [Level.isActiveRow, DeltaNodeStore.isActiveRow, (h.batch.rows tag).rowOf?_eq haccepted,
    Option.any_some, h.worldline, h.validAt, h.knownAt]
  rfl

theorem HoldsEntry.activeIds_eq (h : HoldsEntry level entry) (tag : S.Tag) :
    (level.data.nodes tag).rowIds.filter (level.isActiveRow tag) =
      ((entry.batch.rows tag).filter entry.sees).map DeltaNodeStore.AcceptedRow.id := by
  rw [(h.batch.rows tag).ids, List.filter_map]
  refine congrArg _ (List.filter_congr ?_)
  intro accepted haccepted
  exact h.isActiveRow_eq haccepted

/-- The column holds, under the id of a row, what was written. -/
theorem HoldsEntry.valueOf?_eq (h : HoldsEntry level entry) {tag : S.Tag}
    {accepted : DeltaNodeStore.AcceptedRow (GraphSchema.node tag)}
    (haccepted : accepted ∈ entry.batch.rows tag) (key : GraphSchema.Key tag) :
    (level.data.nodes tag).valueOf? key accepted.id = some (accepted.values key.index) := by
  obtain ⟨-, hrow⟩ := (h.batch.rows tag).exists_row haccepted
  rw [DeltaNodeStore.valueOf?, (h.batch.rows tag).columns, List.getElem?_map, hrow]
  rfl

/-- A row of the level is a row of the entry. -/
theorem HoldsEntry.row?_of_contains (h : HoldsEntry level entry) {tag : S.Tag} {id : NodeId}
    (hid : (level.data.nodes tag).contains id = true) :
    ∃ accepted ∈ entry.batch.rows tag, accepted.id = id ∧ entry.row? tag id = some accepted := by
  have hstores := h.batch.rows tag
  have hmem := hstores.wellFormed.contains_iff_mem_rowIds.mpr hid
  rw [hstores.ids, List.mem_map] at hmem
  obtain ⟨written, hwritten, hsame⟩ := hmem
  cases hfind : entry.row? tag id with
  | none =>
    have hnot := List.find?_eq_none.mp hfind written hwritten
    exact absurd (decide_eq_true hsame) hnot
  | some accepted =>
    exact ⟨accepted, List.mem_of_find?_eq_some hfind, by simpa using List.find?_some hfind, rfl⟩

theorem HoldsEntry.row?_of_not_contains (h : HoldsEntry level entry) {tag : S.Tag} {id : NodeId}
    (hid : ¬(level.data.nodes tag).contains id = true) : entry.row? tag id = none := by
  rw [Entry.row?, List.find?_eq_none]
  intro accepted haccepted hsame
  have hown := ((h.batch.rows tag).exists_row haccepted).1
  rw [of_decide_eq_true hsame] at hown
  exact hid hown

/-- A level says of a row of its own what the entry says. -/
theorem HoldsEntry.checkRow_eq (h : HoldsEntry level entry) {tag : S.Tag}
    {accepted : DeltaNodeStore.AcceptedRow (GraphSchema.node tag)}
    (haccepted : accepted ∈ entry.batch.rows tag) :
    level.checkRow tag accepted.id = entry.check accepted := by
  obtain ⟨-, hworldline, hvalid, htransaction, -⟩ := (h.batch.rows tag).readsBack haccepted
  rw [Level.checkRow]
  simp only [hworldline, hvalid, htransaction, ok_bind, h.worldline, h.validAt, h.knownAt]
  rfl

theorem HoldsEntry.column_eq (h : HoldsEntry level entry) (tag : S.Tag)
    (key : GraphSchema.Key tag) : (level.data.nodes tag).column key = entry.column tag key :=
  (h.batch.rows tag).columns key.index

/-- The histogram of a level is that of the values that were written. -/
theorem HoldsEntry.estimate_eq (h : HoldsEntry level entry) (hlevel : level.Published)
    (tag : S.Tag) (key : GraphSchema.Key tag) {Value : Type} (value : Value)
    (predicate : GraphSchema.Value tag key → Value → Bool) :
    (level.data.nodes tag).estimatePropertyCandidates key value predicate =
      .ok (entry.estimate tag key value predicate) := by
  have hready := hlevel.ready tag
  have hsize := (h.batch.rows tag).length_eq
  rw [Entry.estimate]
  cases hcasts : C.casts ((GraphSchema.node tag).properties.get key.index).valueType with
  | none =>
    rw [DeltaNodeStore.estimatePropertyCandidates, hready, hcasts, hsize]
    rfl
  | some casts =>
    rw [DeltaNodeStore.estimatePropertyCandidates_eq hready hcasts,
      (h.batch.rows tag).wellFormed.histogram_eq hready, h.column_eq, hsize]

/-- Where the degrees of a level are exact, they are those of the edges that were written. -/
theorem HoldsEntry.averageDegree_eq (h : HoldsEntry level entry) (hexact : level.ExactDegrees)
    (edge : S.Edge) :
    (level.data.edges edge).degreeStatistics.averageOutDegree = entry.averageDegree edge := by
  have hstored := (h.batch.edges edge).storedEdges_eq
  have hsources : (level.data.edges edge).sourceSet =
      ((entry.batch.edges edge).map AdjacencyStore.AcceptedEdge.source).toFinset := by
    rw [AdjacencyStore.sourceSet, hstored, List.map_map]
    rfl
  rw [hexact.averageOutDegree_eq, hsources, hstored, List.length_map]
  rfl

end Levels

/-- An edge id that no level stores does not resolve. -/
theorem Snapshot.WellFormed.edgeTarget_of_not_stored {graph : Snapshot S} (h : graph.WellFormed)
    {edge : S.Edge} {id : EdgeId} (hid : ∀ e ∈ graph.storedEdges edge, e.id ≠ id) :
    graph.edgeTarget edge id = .error { code := .idNotFound } := by
  have hlevel : ∀ {level : Level S}, level.Published →
      (∀ e ∈ (level.data.edges edge).storedEdges, e.id ≠ id) →
      ¬(level.data.edges edge).contains id = true := by
    intro level published hid hcontains
    obtain ⟨e, he, hsame⟩ := (published.wellFormed.edges edge).exists_of_contains hcontains
    exact hid e he hsame
  induction h using WellFormed.chainInduction with
  | root _ _ published => rw [edgeTarget, if_neg (hlevel published hid)]
  | branch _ _ _ published _ ih =>
    rw [edgeTarget, if_neg (hlevel published fun e he => hid e (List.mem_append_right _ he))]
    exact ih fun e he => hid e (List.mem_append_left _ he)

namespace HoldsHistory

variable {graph : Snapshot S} {history : History S}

/-- **The visible ids are those of the visible rows**, in the same order. -/
theorem visibleIds_eq (h : HoldsHistory graph history) (hgraph : graph.WellFormed) (tag : S.Tag) :
    graph.visibleIds tag = history.visibleIds tag := by
  induction h with
  | @root level entry holds =>
    have published : level.Published := hgraph.published
    rw [Snapshot.visibleIds_root published, holds.activeIds_eq, History.visibleIds,
      History.visibleRows_root]
  | branch holds parentHolds ih =>
    rw [hgraph.visibleIds_branch, ih hgraph.of_branch, holds.activeIds_eq, History.visibleIds,
      History.visibleIds, History.visibleRows_branch, List.map_append]

theorem visible_eq (h : HoldsHistory graph history) (hgraph : graph.WellFormed) (tag : S.Tag)
    (id : NodeId) : graph.visible tag id = history.visible tag id := by
  rw [Bool.eq_iff_iff, ← hgraph.mem_visibleIds, h.visibleIds_eq hgraph, History.visible,
    List.any_eq_true]
  simp only [decide_eq_true_eq, exists_eq_right]

/-- The stored value of a visible row is what was written. -/
theorem storedValue?_eq_some (h : HoldsHistory graph history) (hgraph : graph.WellFormed)
    {tag : S.Tag} {accepted : DeltaNodeStore.AcceptedRow (GraphSchema.node tag)}
    (haccepted : accepted ∈ history.visibleRows tag) (key : GraphSchema.Key tag) :
    graph.storedValue? tag key accepted.id = some (accepted.values key.index) := by
  induction h with
  | root holds =>
    rw [History.visibleRows_root] at haccepted
    have hrow := List.mem_of_mem_filter haccepted
    have hown := ((holds.batch.rows tag).exists_row hrow).1
    rw [Snapshot.storedValue?, Snapshot.owner_root_of_contains hown, Option.bind_some]
    exact holds.valueOf?_eq hrow key
  | @branch level entry parent earlier holds parentHolds ih =>
    rw [History.visibleRows_branch, List.mem_append] at haccepted
    rcases haccepted with hparent | hown
    · -- a row of the parent has its id below the parent's extent
      have hid : accepted.id ∈ earlier.visibleIds tag := List.mem_map_of_mem hparent
      rw [← parentHolds.visibleIds_eq hgraph.of_branch] at hid
      have hlt := hgraph.of_branch.lt_of_visible (hgraph.of_branch.mem_visibleIds.mp hid)
      rw [Snapshot.storedValue?, hgraph.owner_of_lt hlt]
      exact ih hgraph.of_branch hparent
    · have hrow := List.mem_of_mem_filter hown
      have hown := ((holds.batch.rows tag).exists_row hrow).1
      rw [Snapshot.storedValue?, Snapshot.owner_of_contains hown, Option.bind_some]
      exact holds.valueOf?_eq hrow key

/-- The level that owns an id holds the entry of its row. -/
theorem owner_cases (h : HoldsHistory graph history) (tag : S.Tag) (id : NodeId) :
    (graph.owner tag id = none ∧ history.row? tag id = none) ∨
      ∃ level entry accepted, graph.owner tag id = some level ∧
        history.row? tag id = some (entry, accepted) ∧ HoldsEntry level entry ∧
          accepted ∈ entry.batch.rows tag ∧ accepted.id = id := by
  induction h with
  | @root level entry holds =>
    rw [Snapshot.owner, History.row?_root]
    by_cases hown : (level.data.nodes tag).contains id = true
    · obtain ⟨accepted, haccepted, hid, hrow⟩ := holds.row?_of_contains hown
      rw [if_pos hown, hrow]
      exact Or.inr ⟨level, entry, accepted, rfl, rfl, holds, haccepted, hid⟩
    · rw [if_neg hown, holds.row?_of_not_contains hown]
      exact Or.inl ⟨rfl, rfl⟩
  | @branch level entry parent earlier holds parentHolds ih =>
    rw [Snapshot.owner, History.row?_branch]
    by_cases hown : (level.data.nodes tag).contains id = true
    · obtain ⟨accepted, haccepted, hid, hrow⟩ := holds.row?_of_contains hown
      rw [if_pos hown, hrow]
      exact Or.inr ⟨level, entry, accepted, rfl, rfl, holds, haccepted, hid⟩
    · rw [if_neg hown, holds.row?_of_not_contains hown]
      exact ih

/-- **`check_visibility` says what the history says**, with its error. -/
theorem checkVisibility_eq (h : HoldsHistory graph history) (tag : S.Tag) (id : NodeId) :
    graph.checkVisibility tag id = history.check tag id := by
  rw [Snapshot.checkVisibility_eq, History.check]
  rcases h.owner_cases tag id with
    ⟨howner, hrow⟩ | ⟨level, entry, accepted, howner, hrow, holds, haccepted, rfl⟩
  · rw [howner, hrow]
  · rw [howner, hrow]
    exact holds.checkRow_eq haccepted

/-- **`property` returns what was written for a visible id**, and the error of the others. -/
theorem property_eq (h : HoldsHistory graph history) (hgraph : graph.WellFormed) (tag : S.Tag)
    (key : GraphSchema.Key tag) (id : NodeId) :
    graph.property tag key id = history.property tag key id := by
  have hcheck := h.checkVisibility_eq tag id
  rw [History.check] at hcheck
  rw [History.property]
  rcases h.owner_cases tag id with
    ⟨-, hrow⟩ | ⟨level, entry, accepted, howner, hrow, holds, haccepted, rfl⟩
  · rw [hrow] at hcheck ⊢
    exact Snapshot.property_of_check hcheck key
  · rw [hrow] at hcheck ⊢
    cases hvisible : graph.visible tag accepted.id with
    | true =>
      obtain ⟨value, hstored, hproperty⟩ := hgraph.property_eq hvisible key
      rw [Snapshot.storedValue?, howner, Option.bind_some, holds.valueOf?_eq haccepted] at hstored
      rw [hgraph.checkVisibility_of_visible hvisible] at hcheck
      simp only [← hcheck, ok_bind, hproperty, Option.some.inj hstored]
      rfl
    | false =>
      obtain ⟨error, herror, -⟩ := hgraph.checkVisibility_of_not_visible hvisible
      rw [herror] at hcheck
      simp only [← hcheck, Snapshot.property_of_check herror key]
      rfl

/-- A visible id has the value that was written for it. -/
theorem storedValue?_eq (h : HoldsHistory graph history) (hgraph : graph.WellFormed) {tag : S.Tag}
    {id : NodeId} (hvisible : graph.visible tag id = true) (key : GraphSchema.Key tag) :
    graph.storedValue? tag key id = history.value? tag key id := by
  obtain ⟨value, hstored, hproperty⟩ := hgraph.property_eq hvisible key
  rw [History.value?, ← h.property_eq hgraph, hproperty, hstored]
  rfl

/-! ### Edges -/

/-- **The stored edges are those that were written**, in the same order. -/
theorem storedEdges_eq (h : HoldsHistory graph history) (edge : S.Edge) :
    graph.storedEdges edge = (history.edges edge).map AdjacencyStore.AcceptedEdge.stored := by
  induction h with
  | root holds =>
    rw [Snapshot.storedEdges, History.edges_root, (holds.batch.edges edge).storedEdges_eq]
  | branch holds parentHolds ih =>
    rw [Snapshot.storedEdges, ih, History.edges_branch, (holds.batch.edges edge).storedEdges_eq,
      List.map_append]

theorem incidentEdges_eq (h : HoldsHistory graph history) (hgraph : graph.WellFormed)
    (direction : AdjacencyStore.Direction) (edge : S.Edge) (node : NodeId) :
    graph.incidentEdges direction edge node =
      (history.incident direction edge node).map AdjacencyStore.AcceptedEdge.stored := by
  rw [Snapshot.incidentEdges, h.storedEdges_eq, List.filter_map, History.incident]
  simp only [h.visible_eq hgraph]
  rfl

/-- `edge_target` looks among the edges that were written. -/
theorem edgeTarget_eq (h : HoldsHistory graph history) (hgraph : graph.WellFormed) (edge : S.Edge)
    (id : EdgeId) : graph.edgeTarget edge id = history.edgeTarget edge id := by
  rw [History.edgeTarget]
  cases hfind : (history.edges edge).find? (fun accepted => decide (accepted.id = id)) with
  | some accepted =>
    have hsame : accepted.id = id := by simpa using List.find?_some hfind
    have hstored : accepted.stored ∈ graph.storedEdges edge := by
      rw [h.storedEdges_eq]
      exact List.mem_map_of_mem (List.mem_of_find?_eq_some hfind)
    rw [← hsame]
    exact hgraph.edgeTarget_eq hstored
  | none =>
    refine hgraph.edgeTarget_of_not_stored ?_
    intro e he hid
    rw [h.storedEdges_eq] at he
    obtain ⟨accepted, haccepted, rfl⟩ := List.mem_map.mp he
    exact List.find?_eq_none.mp hfind accepted haccepted (decide_eq_true hid)

/-- `outgoing` and `incoming` list the edges that were written, or pass on the error. -/
theorem incident_eq (h : HoldsHistory graph history) (hgraph : graph.WellFormed)
    (direction : AdjacencyStore.Direction) (edge : S.Edge) (node : NodeId) :
    graph.incident direction edge node = history.incidentIds direction edge node := by
  rw [History.incidentIds, ← h.checkVisibility_eq]
  cases hvisible : graph.visible (Snapshot.nearTag direction edge) node with
  | true =>
    rw [hgraph.incident_eq hvisible, h.incidentEdges_eq hgraph, List.map_map,
      hgraph.checkVisibility_of_visible hvisible]
    rfl
  | false =>
    obtain ⟨error, herror, -⟩ := hgraph.checkVisibility_of_not_visible hvisible
    rw [Snapshot.incident_of_check herror, herror]
    rfl

/-! ### Estimates -/

/-- The estimates of the levels add up to those of the entries. -/
theorem estimate_eq (h : HoldsHistory graph history) (hgraph : graph.WellFormed) (tag : S.Tag)
    (key : GraphSchema.Key tag) {Value : Type} (value : Value)
    (predicate : GraphSchema.Value tag key → Value → Bool) :
    graph.estimatePropertyCandidates tag key value predicate =
      .ok (history.estimate tag key value predicate) := by
  induction h with
  | root holds =>
    rw [Snapshot.estimatePropertyCandidates, holds.estimate_eq hgraph.published, History.estimate,
      History.entries, List.nil_append, List.map_singleton, List.sum_singleton, ok_bind,
      Nat.zero_add]
    rfl
  | @branch level entry parent earlier holds parentHolds ih =>
    have hsum : History.estimate ⟨earlier.entries, entry⟩ tag key value predicate =
        earlier.estimate tag key value predicate + entry.estimate tag key value predicate := by
      rw [History.estimate, History.entries, List.map_append, List.sum_append, List.map_singleton,
        List.sum_singleton]
      rfl
    rw [Snapshot.estimatePropertyCandidates, ih hgraph.of_branch,
      holds.estimate_eq hgraph.published, hsum]
    rfl

/-- Exact degrees add up to those of the edges that were written. -/
theorem relationAverageDegree_eq (h : HoldsHistory graph history)
    (hexact : ∀ level ∈ graph.levels, level.ExactDegrees) (edge : S.Edge) :
    graph.relationAverageDegree edge =
      history.last.totalDegree edge history.earlier.reverse := by
  induction h with
  | root holds => exact holds.averageDegree_eq (hexact _ List.mem_cons_self) edge
  | branch holds parentHolds ih =>
    have hparent := ih fun level hlevel => hexact level (List.mem_cons_of_mem _ hlevel)
    rw [Snapshot.relationAverageDegree, hparent,
      holds.averageDegree_eq (hexact _ List.mem_cons_self), History.entries, List.reverse_append]
    rfl

/-! ### Parents -/

/-- The parents of a snapshot hold the histories that its history was put on top of. -/
theorem chain (h : HoldsHistory graph history) :
    List.Forall₂ HoldsHistory graph.chain history.chain := by
  induction h with
  | root holds => exact .cons (.root holds) .nil
  | @branch level entry parent earlier holds parentHolds ih =>
    rw [Snapshot.chain, History.chain, History.entries, List.reverse_append,
      List.reverse_singleton, List.singleton_append, History.endingIn, List.reverse_reverse]
    exact .cons (.branch holds parentHolds) ih

end HoldsHistory

/-! ### Every read -/

/-- The reads of a snapshot are those of a history, with their errors, but for
`estimate_traversal_cardinality`. -/
structure ReadsAs (graph : Snapshot S) (history : History S) : Prop where
  generation : graph.generation = history.last.generation
  worldline : graph.worldline = history.last.worldline
  validAt : graph.validAt = history.last.validAt
  knownAt : graph.knownAt = history.last.knownAt
  nodeExtent : ∀ tag, graph.nodeExtent tag = history.last.batch.nodeExtent tag
  edgeExtent : ∀ edge, graph.edgeExtent edge = history.last.batch.edgeExtent edge
  contains : ∀ tag id, graph.contains tag id = .ok (history.visible tag id)
  sourceCandidates : ∀ tag, graph.sourceCandidates tag = .ok (history.visibleIds tag)
  property : ∀ tag key id, graph.property tag key id = history.property tag key id
  propertyCandidates : ∀ tag key (Value : Type) (value : Value) predicate,
    graph.propertyCandidates tag key value predicate =
      .ok (((history.visibleRows tag).filter
        (fun accepted => predicate (accepted.values key.index) value)).map
          DeltaNodeStore.AcceptedRow.id)
  estimatePropertyCandidates : ∀ tag key (Value : Type) (value : Value) predicate,
    graph.estimatePropertyCandidates tag key value predicate =
      .ok (history.estimate tag key value predicate)
  outgoing : ∀ edge source, graph.outgoing edge source =
    history.incidentIds .outgoing edge source
  incoming : ∀ edge target, graph.incoming edge target =
    history.incidentIds .incoming edge target
  edgeTarget : ∀ edge id, graph.edgeTarget edge id = history.edgeTarget edge id

/-- `estimate_traversal_cardinality`, and the double that it casts, are those of a history. -/
structure EstimatesAs (ceil : C.arithmetic.Double → C.arithmetic.Double) (graph : Snapshot S)
    (history : History S) : Prop where
  scaledDegree : ∀ edge sourceCount,
    graph.scaledDegree ceil edge sourceCount = history.scaledDegree ceil edge sourceCount
  traversal : ∀ edge sourceCount, graph.estimateTraversalCardinality ceil edge sourceCount =
    C.arithmetic.toSize (history.scaledDegree ceil edge sourceCount)

section Holds

variable {graph : Snapshot S} {history : History S}

/-- **A snapshot reads as the history it holds.** -/
theorem HoldsHistory.readsAs (h : HoldsHistory graph history) (hgraph : graph.WellFormed) :
    ReadsAs graph history where
  generation := h.last.generation
  worldline := h.last.worldline
  validAt := h.last.validAt
  knownAt := h.last.knownAt
  nodeExtent := h.last.batch.nodeExtent_eq
  edgeExtent := h.last.batch.edgeExtent_eq
  contains tag id := by rw [hgraph.contains_eq, h.visible_eq hgraph]
  sourceCandidates tag := by rw [hgraph.sourceCandidates_eq, h.visibleIds_eq hgraph]
  property := h.property_eq hgraph
  propertyCandidates tag key Value value predicate := by
    have hselected : ∀ accepted ∈ history.visibleRows tag,
        graph.satisfies tag key value predicate accepted.id =
          predicate (accepted.values key.index) value := by
      intro accepted haccepted
      rw [Snapshot.satisfies, h.storedValue?_eq_some hgraph haccepted, Option.any_some]
    rw [hgraph.propertyCandidates_eq, h.visibleIds_eq hgraph, History.visibleIds, List.filter_map,
      ← List.filter_congr hselected]
    rfl
  estimatePropertyCandidates tag key _ := h.estimate_eq hgraph tag key
  outgoing := h.incident_eq hgraph .outgoing
  incoming := h.incident_eq hgraph .incoming
  edgeTarget := h.edgeTarget_eq hgraph

/-- **With exact degrees, traversals are estimated as the history estimates them.** -/
theorem HoldsHistory.estimatesAs (h : HoldsHistory graph history)
    (hexact : ∀ level ∈ graph.levels, level.ExactDegrees)
    (ceil : C.arithmetic.Double → C.arithmetic.Double) : EstimatesAs ceil graph history := by
  have hscaled : ∀ edge sourceCount,
      graph.scaledDegree ceil edge sourceCount = history.scaledDegree ceil edge sourceCount := by
    intro edge sourceCount
    rw [Snapshot.scaledDegree, History.scaledDegree, h.relationAverageDegree_eq hexact]
  refine ⟨hscaled, ?_⟩
  intro edge sourceCount
  rw [Snapshot.estimateTraversalCardinality, hscaled]

end Holds

end Memorial
