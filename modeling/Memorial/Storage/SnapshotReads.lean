import Memorial.Storage.Snapshot

/-!
# What a snapshot holds, and what its reads return

The chain of a snapshot as one database: the rows and edges of all levels in id order, the level
that owns an id, and visibility as a property of the owning row.  Every read of `Snapshot` is
then an expression over these.

* `WellFormed` — published levels whose id ranges continue one another;
* `owner`, `visible`, `rowIds`, `storedValue?`, `storedEdges` — the chain as one database;
* `contains_eq`, `sourceCandidates_eq`, `property_eq`, `propertyCandidates_eq`, `incident_eq`,
  `edgeTarget_eq` — **PROVED**: what each read returns.
-/

namespace Memorial

open Library

variable {C : TypeSystem} {S : GraphSchema C}

/-! ### Published levels -/

/-- A level as publication leaves it: well formed, with its indices built. -/
structure Level.Published (level : Level S) : Prop where
  wellFormed : level.data.WellFormed
  ready : ∀ tag, (level.data.nodes tag).indicesReady = true

/-- The row of an id is one of the level's rows in its worldline, active at its coordinates. -/
def Level.isActiveRow (level : Level S) (tag : S.Tag) (id : NodeId) : Bool :=
  (level.data.nodes tag).isActiveRow level.worldline level.validAt level.knownAt id

/-- The error codes that `contains` reports as `false`. -/
def GraphError.IsInvisible (error : GraphError) : Prop :=
  error.code = .idNotFound ∨ error.code = .worldlineMismatch

theorem Level.Published.checkRow_of_active {level : Level S} (h : level.Published) {tag : S.Tag}
    {id : NodeId} (hid : (level.data.nodes tag).contains id = true)
    (hactive : level.isActiveRow tag id = true) : level.checkRow tag id = .ok () := by
  obtain ⟨row, hof, hw, hv, ht, -⟩ := (h.wellFormed.nodes tag).exists_row hid
  rw [Level.isActiveRow, DeltaNodeStore.isActiveRow, hof, Option.any_some,
    RowMetadata.isActive, Bool.and_eq_true, Bool.and_eq_true, beq_iff_eq] at hactive
  obtain ⟨⟨hworldline, hvalid⟩, htransaction⟩ := hactive
  simp [Level.checkRow, hw, hv, ht, hworldline, hvalid, htransaction]

theorem Level.Published.checkRow_of_not_active {level : Level S} (h : level.Published)
    {tag : S.Tag} {id : NodeId} (hid : (level.data.nodes tag).contains id = true)
    (hactive : level.isActiveRow tag id = false) :
    ∃ error, level.checkRow tag id = .error error ∧ error.IsInvisible := by
  obtain ⟨row, hof, hw, hv, ht, -⟩ := (h.wellFormed.nodes tag).exists_row hid
  rw [Level.isActiveRow, DeltaNodeStore.isActiveRow, hof, Option.any_some,
    RowMetadata.isActive] at hactive
  rw [Level.checkRow]
  simp only [hw, hv, ht, ok_bind]
  by_cases hworldline : row.worldline = level.worldline
  · rw [if_neg (by simpa using hworldline)]
    have htimes : (!row.valid.contains level.validAt ||
        !row.transaction.contains level.knownAt) = true := by
      cases hvalid : row.valid.contains level.validAt <;>
        cases htransaction : row.transaction.contains level.knownAt <;>
        simp_all
    rw [if_pos htimes]
    exact ⟨_, rfl, Or.inl rfl⟩
  · rw [if_pos hworldline]
    exact ⟨_, rfl, Or.inr rfl⟩

namespace Snapshot

/-! ### The chain as one database -/

/-- The levels, the topmost first. -/
def levels : Snapshot S → List (Level S)
  | .root level => [level]
  | .branch level parent => level :: parent.levels

/-- The levels of a parent are levels of the snapshot. -/
theorem mem_levels_of_mem_chain {graph other : Snapshot S} (hother : other ∈ graph.chain)
    {level : Level S} (hlevel : level ∈ other.levels) : level ∈ graph.levels := by
  induction graph with
  | root top =>
    rw [List.mem_singleton.mp hother] at hlevel
    exact hlevel
  | branch top parent ih =>
    rcases List.mem_cons.mp hother with rfl | hparent
    · exact hlevel
    · exact List.mem_cons_of_mem _ (ih hparent)

/-- The level whose rows include the id. -/
def owner : Snapshot S → (tag : S.Tag) → NodeId → Option (Level S)
  | .root level, tag, id => if (level.data.nodes tag).contains id then some level else none
  | .branch level parent, tag, id =>
    if (level.data.nodes tag).contains id then some level else parent.owner tag id

/-- The id has a row, and the level that owns it finds it active. -/
def visible (graph : Snapshot S) (tag : S.Tag) (id : NodeId) : Bool :=
  (graph.owner tag id).any (fun level => level.isActiveRow tag id)

/-- The metadata of the row of an id. -/
def storedRow? (graph : Snapshot S) (tag : S.Tag) (id : NodeId) : Option RowMetadata :=
  (graph.owner tag id).bind (fun level => (level.data.nodes tag).rowOf? id)

/-- The stored value of a property of an id. -/
def storedValue? (graph : Snapshot S) (tag : S.Tag) (key : GraphSchema.Key tag) (id : NodeId) :
    Option (GraphSchema.Value tag key) :=
  (graph.owner tag id).bind (fun level => (level.data.nodes tag).valueOf? key id)

/-- The ids of all rows, in id order. -/
def rowIds : Snapshot S → (tag : S.Tag) → List NodeId
  | .root level, tag => (level.data.nodes tag).rowIds
  | .branch level parent, tag => parent.rowIds tag ++ (level.data.nodes tag).rowIds

/-- The visible ids, in id order. -/
def visibleIds (graph : Snapshot S) (tag : S.Tag) : List NodeId :=
  (graph.rowIds tag).filter (graph.visible tag)

/-- The edges of all levels, in id order. -/
def storedEdges : Snapshot S → (edge : S.Edge) → List StoredEdge
  | .root level, edge => (level.data.edges edge).storedEdges
  | .branch level parent, edge => parent.storedEdges edge ++ (level.data.edges edge).storedEdges

/-- Published levels, each with the extents of its parent as id bases and a worldline other than
its parent's. -/
inductive WellFormed : Snapshot S → Prop
  | root {level : Level S} (published : level.Published) : WellFormed (.root level)
  | branch {level : Level S} {parent : Snapshot S} (published : level.Published)
      (parentWellFormed : WellFormed parent)
      (nodeBases : ∀ tag, (level.data.nodes tag).idBase = parent.nodeExtent tag)
      (edgeBases : ∀ edge, (level.data.edges edge).idBase = parent.edgeExtent edge)
      (worldlineNe : level.worldline ≠ parent.worldline) : WellFormed (.branch level parent)

theorem WellFormed.published {graph : Snapshot S} (h : graph.WellFormed) :
    graph.level.Published := by
  cases h with
  | root published => exact published
  | branch published => exact published

/-- **Induction on the levels of a chain.**  A level comes with the chain it tops, which is well
formed itself. -/
theorem WellFormed.chainInduction {motive : (graph : Snapshot S) → graph.WellFormed → Prop}
    (root : ∀ (level : Level S) (h : (Snapshot.root level).WellFormed), level.Published →
      motive (.root level) h)
    (branch : ∀ (level : Level S) (parent : Snapshot S)
      (h : (Snapshot.branch level parent).WellFormed), level.Published →
      ∀ parentWellFormed : parent.WellFormed, motive parent parentWellFormed →
        motive (.branch level parent) h)
    {graph : Snapshot S} (h : graph.WellFormed) : motive graph h := by
  induction h with
  | root published => exact root _ _ published
  | branch published parentWellFormed _ _ _ ih =>
    exact branch _ _ _ published parentWellFormed ih

theorem WellFormed.published_of_mem_levels {graph : Snapshot S} (h : graph.WellFormed)
    {level : Level S} (hlevel : level ∈ graph.levels) : level.Published := by
  induction h using WellFormed.chainInduction with
  | root _ _ published =>
    rw [List.mem_singleton.mp hlevel]
    exact published
  | branch _ _ _ published _ ih =>
    rcases List.mem_cons.mp hlevel with rfl | hparent
    · exact published
    · exact ih hparent

/-- So are its parents. -/
theorem WellFormed.of_mem_chain {graph : Snapshot S} (h : graph.WellFormed) {other : Snapshot S}
    (hother : other ∈ graph.chain) : other.WellFormed := by
  induction h using WellFormed.chainInduction with
  | root _ h _ =>
    rw [List.mem_singleton.mp hother]
    exact h
  | branch _ _ h _ _ ih =>
    rcases List.mem_cons.mp hother with rfl | hparent
    · exact h
    · exact ih hparent

/-! ### Where ids live -/

section Branch

variable {level : Level S} {parent : Snapshot S}

theorem WellFormed.of_branch (h : (Snapshot.branch level parent).WellFormed) :
    parent.WellFormed := by
  cases h with
  | branch _ parentWellFormed => exact parentWellFormed

theorem WellFormed.own (h : (Snapshot.branch level parent).WellFormed) : level.Published :=
  h.published

theorem WellFormed.nodeBase_eq (h : (Snapshot.branch level parent).WellFormed) (tag : S.Tag) :
    (level.data.nodes tag).idBase = parent.nodeExtent tag := by
  cases h with
  | branch _ _ nodeBases => exact nodeBases tag

theorem WellFormed.edgeBase_eq (h : (Snapshot.branch level parent).WellFormed) (edge : S.Edge) :
    (level.data.edges edge).idBase = parent.edgeExtent edge := by
  cases h with
  | branch _ _ _ edgeBases => exact edgeBases edge

theorem WellFormed.worldline_ne (h : (Snapshot.branch level parent).WellFormed) :
    level.worldline ≠ parent.worldline := by
  cases h with
  | branch _ _ _ _ worldlineNe => exact worldlineNe

/-- The level's own rows are those from the extent of the parent on. -/
theorem WellFormed.contains_own_iff (h : (Snapshot.branch level parent).WellFormed) {tag : S.Tag}
    {id : NodeId} : (level.data.nodes tag).contains id = true ↔
      parent.nodeExtent tag ≤ id.toSize ∧
        id.toSize < (Snapshot.branch level parent).nodeExtent tag := by
  rw [← h.nodeBase_eq tag]
  exact (h.own.wellFormed.nodes tag).nodes.contains_iff

theorem WellFormed.not_contains_own (h : (Snapshot.branch level parent).WellFormed) {tag : S.Tag}
    {id : NodeId} (hid : id.toSize < parent.nodeExtent tag) :
    (level.data.nodes tag).contains id = false := by
  rw [Bool.eq_false_iff, ne_eq, h.contains_own_iff]
  omega

/-- Below the extent of the parent a branch has the rows of the parent. -/
theorem WellFormed.owner_of_lt (h : (Snapshot.branch level parent).WellFormed) {tag : S.Tag}
    {id : NodeId} (hid : id.toSize < parent.nodeExtent tag) :
    (Snapshot.branch level parent).owner tag id = parent.owner tag id := by
  rw [owner, h.not_contains_own hid]
  rfl

theorem WellFormed.visible_of_lt (h : (Snapshot.branch level parent).WellFormed) {tag : S.Tag}
    {id : NodeId} (hid : id.toSize < parent.nodeExtent tag) :
    (Snapshot.branch level parent).visible tag id = parent.visible tag id := by
  rw [visible, visible, h.owner_of_lt hid]

theorem owner_of_contains {tag : S.Tag} {id : NodeId}
    (hid : (level.data.nodes tag).contains id = true) :
    (Snapshot.branch level parent).owner tag id = some level := by
  rw [owner, if_pos hid]

theorem WellFormed.nodeExtent_le (h : (Snapshot.branch level parent).WellFormed) (tag : S.Tag) :
    parent.nodeExtent tag ≤ (Snapshot.branch level parent).nodeExtent tag := by
  rw [← h.nodeBase_eq tag]
  exact Nat.le_add_right _ _

theorem WellFormed.edgeExtent_le (h : (Snapshot.branch level parent).WellFormed) (edge : S.Edge) :
    parent.edgeExtent edge ≤ (Snapshot.branch level parent).edgeExtent edge := by
  rw [← h.edgeBase_eq edge]
  exact Nat.le_add_right _ _

end Branch

theorem owner_root_of_contains {level : Level S} {tag : S.Tag} {id : NodeId}
    (hid : (level.data.nodes tag).contains id = true) :
    (Snapshot.root level).owner tag id = some level := by
  rw [owner, if_pos hid]

theorem contains_of_visible_root {level : Level S} {tag : S.Tag} {id : NodeId}
    (hvisible : (Snapshot.root level).visible tag id = true) :
    (level.data.nodes tag).contains id = true := by
  by_contra hnot
  rw [visible, owner, if_neg hnot] at hvisible
  cases hvisible

/-- Every row has its id below the extent. -/
theorem WellFormed.lt_nodeExtent {graph : Snapshot S} (h : graph.WellFormed) {tag : S.Tag}
    {id : NodeId} {level : Level S} (howner : graph.owner tag id = some level) :
    id.toSize < graph.nodeExtent tag := by
  induction h using WellFormed.chainInduction with
  | root top _ published =>
    rw [owner] at howner
    split at howner
    · rename_i hid
      exact (IdRange.bounds_of_contains hid).2
    · cases howner
  | branch top parent h published parentWellFormed ih =>
    rw [owner] at howner
    split at howner
    · rename_i hid
      exact (h.contains_own_iff.mp hid).2
    · exact (ih howner).trans_le (h.nodeExtent_le tag)

theorem WellFormed.owner_eq_none {graph : Snapshot S} (h : graph.WellFormed) {tag : S.Tag}
    {id : NodeId} (hid : graph.nodeExtent tag ≤ id.toSize) : graph.owner tag id = none := by
  cases howner : graph.owner tag id with
  | none => rfl
  | some level => exact absurd (h.lt_nodeExtent howner) (by omega)

theorem WellFormed.visible_eq_false {graph : Snapshot S} (h : graph.WellFormed) {tag : S.Tag}
    {id : NodeId} (hid : graph.nodeExtent tag ≤ id.toSize) : graph.visible tag id = false := by
  rw [visible, h.owner_eq_none hid]
  rfl

theorem WellFormed.lt_of_visible {graph : Snapshot S} (h : graph.WellFormed) {tag : S.Tag}
    {id : NodeId} (hvisible : graph.visible tag id = true) : id.toSize < graph.nodeExtent tag := by
  by_contra hid
  rw [h.visible_eq_false (not_lt.mp hid)] at hvisible
  cases hvisible

/-- The owning level is published and contains the id. -/
theorem WellFormed.published_of_owner {graph : Snapshot S} (h : graph.WellFormed) {tag : S.Tag}
    {id : NodeId} {level : Level S} (howner : graph.owner tag id = some level) :
    level.Published ∧ (level.data.nodes tag).contains id = true := by
  induction h using WellFormed.chainInduction with
  | root _ _ published =>
    rw [owner] at howner
    split at howner
    · rename_i hid
      obtain rfl := Option.some.inj howner
      exact ⟨published, hid⟩
    · cases howner
  | branch _ _ _ published _ ih =>
    rw [owner] at howner
    split at howner
    · rename_i hid
      obtain rfl := Option.some.inj howner
      exact ⟨published, hid⟩
    · exact ih howner

/-! ### Visibility -/

/-- `check_visibility` asks the owning level. -/
theorem checkVisibility_eq (graph : Snapshot S) (tag : S.Tag) (id : NodeId) :
    graph.checkVisibility tag id =
      match graph.owner tag id with
      | none => .error { code := .idNotFound }
      | some level => level.checkRow tag id := by
  induction graph with
  | root level =>
    rw [checkVisibility, owner]
    cases (level.data.nodes tag).contains id <;> rfl
  | branch level parent ih =>
    rw [checkVisibility, owner]
    cases (level.data.nodes tag).contains id with
    | true => rfl
    | false => exact ih

theorem WellFormed.checkVisibility_of_visible {graph : Snapshot S} (h : graph.WellFormed)
    {tag : S.Tag} {id : NodeId} (hvisible : graph.visible tag id = true) :
    graph.checkVisibility tag id = .ok () := by
  rw [checkVisibility_eq]
  rw [visible] at hvisible
  cases howner : graph.owner tag id with
  | none =>
    rw [howner] at hvisible
    cases hvisible
  | some level =>
    rw [howner] at hvisible
    obtain ⟨published, hid⟩ := h.published_of_owner howner
    exact published.checkRow_of_active hid hvisible

theorem WellFormed.checkVisibility_of_not_visible {graph : Snapshot S} (h : graph.WellFormed)
    {tag : S.Tag} {id : NodeId} (hvisible : graph.visible tag id = false) :
    ∃ error, graph.checkVisibility tag id = .error error ∧ error.IsInvisible := by
  rw [checkVisibility_eq]
  rw [visible] at hvisible
  cases howner : graph.owner tag id with
  | none => exact ⟨_, rfl, Or.inl rfl⟩
  | some level =>
    rw [howner] at hvisible
    obtain ⟨published, hid⟩ := h.published_of_owner howner
    exact published.checkRow_of_not_active hid hvisible

/-- **`contains` decides visibility**, and never fails. -/
theorem WellFormed.contains_eq {graph : Snapshot S} (h : graph.WellFormed) (tag : S.Tag)
    (id : NodeId) : graph.contains tag id = .ok (graph.visible tag id) := by
  rw [contains]
  cases hvisible : graph.visible tag id with
  | true => rw [h.checkVisibility_of_visible hvisible]
  | false =>
    obtain ⟨error, hcheck, hinvisible⟩ := h.checkVisibility_of_not_visible hvisible
    rw [hcheck]
    exact if_pos hinvisible

theorem WellFormed.contains_iff {graph : Snapshot S} (h : graph.WellFormed) {tag : S.Tag}
    {id : NodeId} : graph.contains tag id = .ok true ↔ graph.visible tag id = true := by
  rw [h.contains_eq, Except.ok.injEq]

/-! ### Listing the visible ids -/

theorem WellFormed.mem_rowIds {graph : Snapshot S} (h : graph.WellFormed) {tag : S.Tag}
    {id : NodeId} : id ∈ graph.rowIds tag ↔ (graph.owner tag id).isSome = true := by
  induction h using WellFormed.chainInduction with
  | root _ _ published =>
    rw [rowIds, owner, (published.wellFormed.nodes tag).contains_iff_mem_rowIds]
    split <;> simp_all
  | branch _ _ _ published _ ih =>
    rw [rowIds, owner, List.mem_append, ih,
      (published.wellFormed.nodes tag).contains_iff_mem_rowIds]
    split <;> simp_all

theorem WellFormed.lt_of_mem_rowIds {graph : Snapshot S} (h : graph.WellFormed) {tag : S.Tag}
    {id : NodeId} (hid : id ∈ graph.rowIds tag) : id.toSize < graph.nodeExtent tag := by
  obtain ⟨level, howner⟩ := Option.isSome_iff_exists.mp (h.mem_rowIds.mp hid)
  exact h.lt_nodeExtent howner

/-- The rows of the levels follow one another in id order. -/
theorem WellFormed.rowIds_pairwise {graph : Snapshot S} (h : graph.WellFormed) (tag : S.Tag) :
    (graph.rowIds tag).Pairwise (fun a b => a.toSize < b.toSize) := by
  induction h using WellFormed.chainInduction with
  | root _ _ published => exact (published.wellFormed.nodes tag).rowIds_pairwise
  | branch _ _ h published parentWellFormed ih =>
    rw [rowIds, List.pairwise_append]
    refine ⟨ih, (published.wellFormed.nodes tag).rowIds_pairwise, ?_⟩
    intro a ha b hb
    have hown := (published.wellFormed.nodes tag).contains_iff_mem_rowIds.mp hb
    exact (parentWellFormed.lt_of_mem_rowIds ha).trans_le (h.contains_own_iff.mp hown).1

theorem WellFormed.mem_visibleIds {graph : Snapshot S} (h : graph.WellFormed) {tag : S.Tag}
    {id : NodeId} : id ∈ graph.visibleIds tag ↔ graph.visible tag id = true := by
  rw [visibleIds, List.mem_filter, h.mem_rowIds, visible]
  cases graph.owner tag id <;> simp

theorem visibleIds_root {level : Level S} (published : level.Published) (tag : S.Tag) :
    (Snapshot.root level).visibleIds tag =
      (level.data.nodes tag).rowIds.filter (level.isActiveRow tag) := by
  apply List.filter_congr
  intro id hid
  have hown := (published.wellFormed.nodes tag).contains_iff_mem_rowIds.mp hid
  rw [visible, owner_root_of_contains hown, Option.any_some]

/-- A branch lists what its parent lists, and then its own active rows. -/
theorem WellFormed.visibleIds_branch {level : Level S} {parent : Snapshot S}
    (h : (Snapshot.branch level parent).WellFormed) (tag : S.Tag) :
    (Snapshot.branch level parent).visibleIds tag =
      parent.visibleIds tag ++
        (level.data.nodes tag).rowIds.filter (level.isActiveRow tag) := by
  rw [visibleIds, rowIds, List.filter_append, visibleIds]
  congr 1
  · apply List.filter_congr
    intro id hid
    exact h.visible_of_lt (h.of_branch.lt_of_mem_rowIds hid)
  · apply List.filter_congr
    intro id hid
    have hown := (h.own.wellFormed.nodes tag).contains_iff_mem_rowIds.mp hid
    rw [visible, owner_of_contains hown, Option.any_some]

/-- **`source_candidates` lists the visible ids.** -/
theorem WellFormed.sourceCandidates_eq {graph : Snapshot S} (h : graph.WellFormed) (tag : S.Tag) :
    graph.sourceCandidates tag = .ok (graph.visibleIds tag) := by
  induction h using WellFormed.chainInduction with
  | root _ _ published =>
    rw [sourceCandidates, (published.wellFormed.nodes tag).indexedCandidates_eq
      (published.ready tag), visibleIds_root published]
    rfl
  | branch _ _ h published parentWellFormed ih =>
    rw [sourceCandidates, ih, (published.wellFormed.nodes tag).indexedCandidates_eq
      (published.ready tag), h.visibleIds_branch]
    rfl

/-! ### Reading properties -/

/-- **`property` returns the stored value of a visible id.** -/
theorem WellFormed.property_eq {graph : Snapshot S} (h : graph.WellFormed) {tag : S.Tag}
    {id : NodeId} (hvisible : graph.visible tag id = true) (key : GraphSchema.Key tag) :
    ∃ value, graph.storedValue? tag key id = some value ∧
      graph.property tag key id = .ok value := by
  induction h using WellFormed.chainInduction with
  | root level h published =>
    have hcheck := h.checkVisibility_of_visible hvisible
    have hown := contains_of_visible_root hvisible
    obtain ⟨value, hread, hproperty⟩ :=
      NodeStore.property_of_contains (published.wellFormed.nodes tag).nodes hown key
    refine ⟨value, ?_, ?_⟩
    · rw [storedValue?, owner_root_of_contains hown, Option.bind_some]
      exact hread
    · rw [property, hcheck, ok_bind, if_pos hown]
      exact hproperty
  | branch level parent h published parentWellFormed ih =>
    have hcheck := h.checkVisibility_of_visible hvisible
    rw [property, hcheck, ok_bind]
    by_cases hown : (level.data.nodes tag).contains id = true
    · obtain ⟨value, hread, hproperty⟩ :=
        NodeStore.property_of_contains (published.wellFormed.nodes tag).nodes hown key
      refine ⟨value, ?_, ?_⟩
      · rw [storedValue?, owner_of_contains hown, Option.bind_some]
        exact hread
      · rw [if_pos hown]
        exact hproperty
    · have howner : (Snapshot.branch level parent).owner tag id = parent.owner tag id := by
        rw [owner, if_neg hown]
      rw [visible, howner] at hvisible
      rw [storedValue?, howner, if_neg hown]
      exact ih hvisible

/-- `property` passes on the error of `check_visibility`. -/
theorem property_of_check {graph : Snapshot S} {tag : S.Tag} {id : NodeId} {error : GraphError}
    (hcheck : graph.checkVisibility tag id = .error error) (key : GraphSchema.Key tag) :
    graph.property tag key id = .error error := by
  cases graph <;> rw [property, hcheck] <;> rfl

/-- `property` refuses every id that is not visible. -/
theorem WellFormed.property_of_not_visible {graph : Snapshot S} (h : graph.WellFormed)
    {tag : S.Tag} {id : NodeId} (hvisible : graph.visible tag id = false)
    (key : GraphSchema.Key tag) :
    ∃ error, graph.property tag key id = .error error ∧ error.IsInvisible := by
  obtain ⟨error, hcheck, hinvisible⟩ := h.checkVisibility_of_not_visible hvisible
  exact ⟨error, property_of_check hcheck key, hinvisible⟩

/-- The stored value of an id satisfies a predicate. -/
def satisfies {Value : Type} (graph : Snapshot S) (tag : S.Tag) (key : GraphSchema.Key tag)
    (value : Value) (predicate : GraphSchema.Value tag key → Value → Bool) (id : NodeId) : Bool :=
  (graph.storedValue? tag key id).any (fun stored => predicate stored value)

/-- The candidates of one level, restricted to the visible ones. -/
theorem WellFormed.filterLoop_contains {graph : Snapshot S} (h : graph.WellFormed) (tag : S.Tag)
    (ids : List NodeId) :
    filterLoop (graph.contains tag) ids = .ok (ids.filter (graph.visible tag)) :=
  filterLoop_eq_ok (fun id _ => h.contains_eq tag id)

/-- The index candidates of a level that are visible are its active rows that satisfy the
predicate. -/
theorem filter_visible_candidates {graph : Snapshot S} {level : Level S}
    (published : level.Published) {tag : S.Tag}
    (howner : ∀ id, (level.data.nodes tag).contains id = true → graph.owner tag id = some level)
    (key : GraphSchema.Key tag) {Value : Type} (value : Value)
    (predicate : GraphSchema.Value tag key → Value → Bool) :
    ((level.data.nodes tag).rowIds.filter (fun id =>
      ((level.data.nodes tag).valueOf? key id).any (fun stored => predicate stored value))).filter
        (graph.visible tag) =
      ((level.data.nodes tag).rowIds.filter (level.isActiveRow tag)).filter
        (graph.satisfies tag key value predicate) := by
  rw [List.filter_filter, List.filter_filter]
  apply List.filter_congr
  intro id hid
  have hcontains := (published.wellFormed.nodes tag).contains_iff_mem_rowIds.mp hid
  rw [visible, satisfies, storedValue?, howner id hcontains, Bool.and_comm]
  rfl

/-- What the parent lists satisfies a predicate in the branch exactly if it does in the parent. -/
theorem WellFormed.filter_satisfies_of_branch {level : Level S} {parent : Snapshot S}
    (h : (Snapshot.branch level parent).WellFormed) (tag : S.Tag) (key : GraphSchema.Key tag)
    {Value : Type} (value : Value) (predicate : GraphSchema.Value tag key → Value → Bool) :
    (parent.visibleIds tag).filter
        ((Snapshot.branch level parent).satisfies tag key value predicate) =
      (parent.visibleIds tag).filter (parent.satisfies tag key value predicate) := by
  apply List.filter_congr
  intro id hid
  have hlt := h.of_branch.lt_of_visible (h.of_branch.mem_visibleIds.mp hid)
  rw [satisfies, satisfies, storedValue?, storedValue?, h.owner_of_lt hlt]

/-- **`property_candidates` lists the visible ids whose stored value satisfies the
predicate.** -/
theorem WellFormed.propertyCandidates_eq {graph : Snapshot S} (h : graph.WellFormed)
    (tag : S.Tag) (key : GraphSchema.Key tag) {Value : Type} (value : Value)
    (predicate : GraphSchema.Value tag key → Value → Bool) :
    graph.propertyCandidates tag key value predicate =
      .ok ((graph.visibleIds tag).filter (graph.satisfies tag key value predicate)) := by
  induction h using WellFormed.chainInduction with
  | root level h published =>
    rw [propertyCandidates, (published.wellFormed.nodes tag).indexedPropertyCandidates_eq
      (published.ready tag), ok_bind, h.filterLoop_contains,
      filter_visible_candidates published (fun _ hid => owner_root_of_contains hid),
      visibleIds_root published]
  | branch level parent h published parentWellFormed ih =>
    rw [propertyCandidates, ih, (published.wellFormed.nodes tag).indexedPropertyCandidates_eq
      (published.ready tag), ok_bind, ok_bind, h.filterLoop_contains,
      filter_visible_candidates published (fun _ hid => owner_of_contains hid),
      h.visibleIds_branch, List.filter_append, h.filter_satisfies_of_branch]
    rfl

/-- An estimate never fails on a published chain. -/
theorem WellFormed.estimatePropertyCandidates_isOk {graph : Snapshot S} (h : graph.WellFormed)
    (tag : S.Tag) (key : GraphSchema.Key tag) {Value : Type} (value : Value)
    (predicate : GraphSchema.Value tag key → Value → Bool) :
    ∃ estimate, graph.estimatePropertyCandidates tag key value predicate = .ok estimate := by
  induction h using WellFormed.chainInduction with
  | root _ _ published =>
    obtain ⟨own, hown⟩ := DeltaNodeStore.estimatePropertyCandidates_isOk (published.ready tag) key
      value predicate
    exact ⟨0 + own, by rw [estimatePropertyCandidates, hown]; rfl⟩
  | branch _ _ _ published _ ih =>
    obtain ⟨inherited, hinherited⟩ := ih
    obtain ⟨own, hown⟩ := DeltaNodeStore.estimatePropertyCandidates_isOk (published.ready tag) key
      value predicate
    exact ⟨inherited + own, by rw [estimatePropertyCandidates, hinherited, hown]; rfl⟩

/-! ### Where edges live -/

/-- Endpoints lie below the node extents. -/
theorem WellFormed.endpoints_lt {graph : Snapshot S} (h : graph.WellFormed) {edge : S.Edge}
    {e : StoredEdge} (he : e ∈ graph.storedEdges edge) :
    e.source.toSize < graph.nodeExtent (GraphSchema.source edge) ∧
      e.target.toSize < graph.nodeExtent (GraphSchema.target edge) := by
  induction h using WellFormed.chainInduction with
  | root _ _ published => exact published.wellFormed.endpoints edge e he
  | branch _ _ h published parentWellFormed ih =>
    rcases List.mem_append.mp he with hparent | hown
    · obtain ⟨hsource, htarget⟩ := ih hparent
      exact ⟨hsource.trans_le (h.nodeExtent_le _), htarget.trans_le (h.nodeExtent_le _)⟩
    · exact published.wellFormed.endpoints edge e hown

/-- The level's own edges are those from the edge extent of the parent on. -/
theorem WellFormed.contains_own_edge_iff {level : Level S} {parent : Snapshot S}
    (h : (Snapshot.branch level parent).WellFormed) {edge : S.Edge} {id : EdgeId} :
    (level.data.edges edge).contains id = true ↔
      parent.edgeExtent edge ≤ id.toSize ∧
        id.toSize < (Snapshot.branch level parent).edgeExtent edge := by
  rw [← h.edgeBase_eq edge]
  exact IdRange.contains_iff (h.own.wellFormed.edges edge).fits

theorem WellFormed.id_lt_edgeExtent {graph : Snapshot S} (h : graph.WellFormed) {edge : S.Edge}
    {e : StoredEdge} (he : e ∈ graph.storedEdges edge) : e.id.toSize < graph.edgeExtent edge := by
  induction h using WellFormed.chainInduction with
  | root _ _ published =>
    exact (IdRange.bounds_of_contains
      ((published.wellFormed.edges edge).contains_of_mem he)).2
  | branch _ _ h published parentWellFormed ih =>
    rcases List.mem_append.mp he with hparent | hown
    · exact (ih hparent).trans_le (h.edgeExtent_le edge)
    · exact (h.contains_own_edge_iff.mp
        ((published.wellFormed.edges edge).contains_of_mem hown)).2

/-- The edges of the levels follow one another in id order. -/
theorem WellFormed.storedEdges_pairwise {graph : Snapshot S} (h : graph.WellFormed)
    (edge : S.Edge) :
    (graph.storedEdges edge).Pairwise (fun a b => a.id.toSize < b.id.toSize) := by
  induction h using WellFormed.chainInduction with
  | root _ _ published => exact (published.wellFormed.edges edge).storedEdges_pairwise
  | branch _ _ h published parentWellFormed ih =>
    rw [storedEdges, List.pairwise_append]
    refine ⟨ih, (published.wellFormed.edges edge).storedEdges_pairwise, ?_⟩
    intro a ha b hb
    have hown := (published.wellFormed.edges edge).contains_of_mem hb
    exact (parentWellFormed.id_lt_edgeExtent ha).trans_le (h.contains_own_edge_iff.mp hown).1

/-! ### Reading edges -/

/-- The stored edges that leave a node in a direction and end at a visible node. -/
def incidentEdges (graph : Snapshot S) (direction : AdjacencyStore.Direction) (edge : S.Edge)
    (node : NodeId) : List StoredEdge :=
  (graph.storedEdges edge).filter (fun e =>
    e.near direction = node ∧ graph.visible (farTag direction edge) (e.far direction))

theorem WellFormed.near_lt {graph : Snapshot S} (h : graph.WellFormed) {edge : S.Edge}
    {e : StoredEdge} (he : e ∈ graph.storedEdges edge) (direction : AdjacencyStore.Direction) :
    (e.near direction).toSize < graph.nodeExtent (nearTag direction edge) ∧
      (e.far direction).toSize < graph.nodeExtent (farTag direction edge) := by
  obtain ⟨hsource, htarget⟩ := h.endpoints_lt he
  cases direction with
  | outgoing => exact ⟨hsource, htarget⟩
  | incoming => exact ⟨htarget, hsource⟩

/-- The loop over the own edges of a published level. -/
theorem WellFormed.ownIncident_eq {graph : Snapshot S} (h : graph.WellFormed)
    (direction : AdjacencyStore.Direction) (edge : S.Edge) (node : NodeId) :
    graph.ownIncident direction edge node =
      .ok (((graph.level.data.edges edge).storedEdges.filter (fun e =>
        e.near direction = node ∧
          graph.visible (farTag direction edge) (e.far direction))).map StoredEdge.id) := by
  have hedges := h.published.wellFormed.edges edge
  rw [ownIncident, hedges.filed, filterLoop_map_eq_ok
    (p := fun e => graph.visible (farTag direction edge) (e.far direction)), List.filter_filter]
  · simp only [Bool.decide_and, Bool.decide_eq_true, Bool.and_comm]
  · intro e he
    have hfar := hedges.farEnd_of_mem (List.mem_of_mem_filter he) direction
    simp only [hfar, ok_bind, h.contains_eq]

/-- In a branch the parent's edges count as they do in the parent: their endpoints are rows of
the parent, where the branch sees what the parent sees. -/
theorem WellFormed.incidentEdges_branch {level : Level S} {parent : Snapshot S}
    (h : (Snapshot.branch level parent).WellFormed) (direction : AdjacencyStore.Direction)
    (edge : S.Edge) (node : NodeId) :
    (Snapshot.branch level parent).incidentEdges direction edge node =
      parent.incidentEdges direction edge node ++
        (level.data.edges edge).storedEdges.filter (fun e => e.near direction = node ∧
          (Snapshot.branch level parent).visible (farTag direction edge) (e.far direction)) := by
  rw [incidentEdges, storedEdges, List.filter_append, incidentEdges]
  congr 1
  apply List.filter_congr
  intro e he
  rw [h.visible_of_lt (h.of_branch.near_lt he direction).2]

/-- Only the rows of a snapshot have incident edges. -/
theorem WellFormed.incidentEdges_eq_nil {graph : Snapshot S} (h : graph.WellFormed)
    {direction : AdjacencyStore.Direction} {edge : S.Edge} {node : NodeId}
    (hnode : graph.nodeExtent (nearTag direction edge) ≤ node.toSize) :
    graph.incidentEdges direction edge node = [] := by
  rw [incidentEdges, List.filter_eq_nil_iff]
  intro e he hkept
  have hnear : e.near direction = node := (of_decide_eq_true hkept).1
  have hlt := (h.near_lt he direction).1
  rw [hnear] at hlt
  omega

/-- **`outgoing` and `incoming` list the incident edges** of a visible node, in id order. -/
theorem WellFormed.incident_eq {graph : Snapshot S} (h : graph.WellFormed)
    {direction : AdjacencyStore.Direction} {edge : S.Edge} {node : NodeId}
    (hvisible : graph.visible (nearTag direction edge) node = true) :
    graph.incident direction edge node =
      .ok ((graph.incidentEdges direction edge node).map StoredEdge.id) := by
  induction h using WellFormed.chainInduction with
  | root _ h published =>
    rw [incident, h.checkVisibility_of_visible hvisible, ok_bind, h.ownIncident_eq]
    rfl
  | branch level parent h published parentWellFormed ih =>
    rw [incident, h.checkVisibility_of_visible hvisible, ok_bind, parentWellFormed.contains_eq,
      ok_bind, h.ownIncident_eq, h.incidentEdges_branch, List.map_append]
    cases hparent : parent.visible (nearTag direction edge) node with
    | true =>
      rw [if_pos rfl, ih hparent]
      rfl
    | false =>
      -- a node the parent does not see is a row of the branch, so the parent has no edge at it
      have hnode : parent.nodeExtent (nearTag direction edge) ≤ node.toSize := by
        by_contra hlt
        rw [h.visible_of_lt (not_le.mp hlt), hparent] at hvisible
        cases hvisible
      rw [parentWellFormed.incidentEdges_eq_nil hnode]
      rfl

/-- `outgoing` and `incoming` pass on the error of `check_visibility`. -/
theorem incident_of_check {graph : Snapshot S} {direction : AdjacencyStore.Direction}
    {edge : S.Edge} {node : NodeId} {error : GraphError}
    (hcheck : graph.checkVisibility (nearTag direction edge) node = .error error) :
    graph.incident direction edge node = .error error := by
  cases graph <;> rw [incident, hcheck] <;> rfl

/-- **`edge_target` returns the stored target.** -/
theorem WellFormed.edgeTarget_eq {graph : Snapshot S} (h : graph.WellFormed) {edge : S.Edge}
    {e : StoredEdge} (he : e ∈ graph.storedEdges edge) :
    graph.edgeTarget edge e.id = .ok e.target := by
  induction h using WellFormed.chainInduction with
  | root level _ published =>
    have hedges := published.wellFormed.edges edge
    rw [edgeTarget, if_pos (hedges.contains_of_mem he)]
    exact (hedges.endpoints_of_mem he).2
  | branch level parent h published parentWellFormed ih =>
    have hedges := published.wellFormed.edges edge
    rcases List.mem_append.mp he with hparent | hown
    · have hnot : ¬(level.data.edges edge).contains e.id = true := by
        have hlt := parentWellFormed.id_lt_edgeExtent hparent
        rw [h.contains_own_edge_iff]
        omega
      rw [edgeTarget, if_neg hnot]
      exact ih hparent
    · rw [edgeTarget, if_pos (hedges.contains_of_mem hown)]
      exact (hedges.endpoints_of_mem hown).2

/-- Below the edge extent of the parent a branch resolves edges as the parent does. -/
theorem WellFormed.edgeTarget_of_lt {level : Level S} {parent : Snapshot S}
    (h : (Snapshot.branch level parent).WellFormed) {edge : S.Edge} {id : EdgeId}
    (hid : id.toSize < parent.edgeExtent edge) :
    (Snapshot.branch level parent).edgeTarget edge id = parent.edgeTarget edge id := by
  have hnot : ¬(level.data.edges edge).contains id = true := by
    rw [h.contains_own_edge_iff]
    omega
  rw [edgeTarget, if_neg hnot]

/-- An edge id from the extent on does not resolve. -/
theorem WellFormed.edgeTarget_of_le {graph : Snapshot S} (h : graph.WellFormed) {edge : S.Edge}
    {id : EdgeId} (hid : graph.edgeExtent edge ≤ id.toSize) :
    graph.edgeTarget edge id = .error { code := .idNotFound } := by
  induction h using WellFormed.chainInduction with
  | root _ _ published =>
    rw [edgeTarget, if_neg]
    intro hin
    exact absurd (IdRange.bounds_of_contains hin).2 (not_lt.mpr hid)
  | branch _ _ h published parentWellFormed ih =>
    have hparent := (h.edgeExtent_le edge).trans hid
    rw [edgeTarget, if_neg (by rw [h.contains_own_edge_iff]; omega)]
    exact ih hparent

end Snapshot

end Memorial
