import Memorial.Storage.SnapshotReads

/-!
# Snapshots that agree on some columns

Two snapshots with the same levels, coordinates, rows and edges, whose property columns agree
where a list says so.  What they hold elsewhere, and where a row came from, is left open.

* `Level.AgreesOn`, `Snapshot.AgreesOn` — the relation, level by level;
* `Level.AgreesOn.isActiveRow_eq`, `Snapshot.AgreesOn.owner_cases` — an id is owned by levels
  that agree, which find its row active on both sides or on neither;
* `Snapshot.AgreesOn.visible_eq`, `storedValue?_eq`, `visibleIds_eq`, `incidentEdges_eq` —
  **PROVED**: the reads that the listed columns decide.
-/

namespace Memorial

open Library

variable {C : TypeSystem} {S : GraphSchema C}

/-! ### Levels -/

/-- Two levels that differ in their unlisted columns at most. -/
structure Level.AgreesOn (listed : (tag : S.Tag) → GraphSchema.Key tag → Prop)
    (a b : Level S) : Prop where
  worldline : a.worldline = b.worldline
  validAt : a.validAt = b.validAt
  knownAt : a.knownAt = b.knownAt
  ids : ∀ tag, (a.data.nodes tag).nodes.ids = (b.data.nodes tag).nodes.ids
  worldlines : ∀ tag,
    (a.data.nodes tag).metadata.worldlines = (b.data.nodes tag).metadata.worldlines
  valids : ∀ tag, (a.data.nodes tag).metadata.valids = (b.data.nodes tag).metadata.valids
  transactions : ∀ tag,
    (a.data.nodes tag).metadata.transactions = (b.data.nodes tag).metadata.transactions
  columns : ∀ tag key, listed tag key →
    (a.data.nodes tag).nodes.columns key.index = (b.data.nodes tag).nodes.columns key.index
  edges : ∀ edge, (a.data.edges edge).storedEdges = (b.data.edges edge).storedEdges

namespace Level.AgreesOn

variable {listed : (tag : S.Tag) → GraphSchema.Key tag → Prop} {a b : Level S}

theorem contains_eq (h : a.AgreesOn listed b) (tag : S.Tag) (id : NodeId) :
    (a.data.nodes tag).contains id = (b.data.nodes tag).contains id :=
  congrArg (fun ids : IdRange => ids.contains id) (h.ids tag)

theorem rowIds_eq (h : a.AgreesOn listed b) (tag : S.Tag) :
    (a.data.nodes tag).rowIds = (b.data.nodes tag).rowIds :=
  congrArg IdRange.rowIds (h.ids tag)

theorem idBase_eq (h : a.AgreesOn listed b) (tag : S.Tag) :
    (a.data.nodes tag).idBase = (b.data.nodes tag).idBase :=
  congrArg IdRange.base (h.ids tag)

/-- A listed key has the same value in a row on both sides. -/
theorem valueOf?_eq (h : a.AgreesOn listed b) {tag : S.Tag} {key : GraphSchema.Key tag}
    (hkey : listed tag key) (id : NodeId) :
    (a.data.nodes tag).valueOf? key id = (b.data.nodes tag).valueOf? key id := by
  rw [DeltaNodeStore.valueOf?, DeltaNodeStore.valueOf?, h.columns tag key hkey, h.idBase_eq tag]

/-- A row that both sides have is active on both or on neither: its provenance may differ, and
is not asked for. -/
theorem isActiveRow_eq (h : a.AgreesOn listed b) (ha : a.Published) (hb : b.Published)
    {tag : S.Tag} {id : NodeId} (hid : (a.data.nodes tag).contains id = true) :
    a.isActiveRow tag id = b.isActiveRow tag id := by
  have hid' : (b.data.nodes tag).contains id = true := by
    rw [← h.contains_eq tag id]
    exact hid
  obtain ⟨row, hrow, hw, hv, ht, -⟩ := (ha.wellFormed.nodes tag).exists_entries hid
  obtain ⟨row', hrow', hw', hv', ht', -⟩ := (hb.wellFormed.nodes tag).exists_entries hid'
  rw [h.worldlines tag, h.idBase_eq tag, hw'] at hw
  rw [h.valids tag, h.idBase_eq tag, hv'] at hv
  rw [h.transactions tag, h.idBase_eq tag, ht'] at ht
  simp only [Level.isActiveRow, DeltaNodeStore.isActiveRow, hrow, hrow', Option.any_some,
    RowMetadata.isActive, Option.some.inj hw, Option.some.inj hv, Option.some.inj ht,
    h.worldline, h.validAt, h.knownAt]

end Level.AgreesOn

/-! ### Chains -/

/-- Two chains of the same length whose levels agree in turn. -/
inductive Snapshot.AgreesOn (listed : (tag : S.Tag) → GraphSchema.Key tag → Prop) :
    Snapshot S → Snapshot S → Prop
  | root {a b : Level S} (level : a.AgreesOn listed b) : AgreesOn listed (.root a) (.root b)
  | branch {a b : Level S} {aParent bParent : Snapshot S} (level : a.AgreesOn listed b)
      (parent : AgreesOn listed aParent bParent) :
      AgreesOn listed (.branch a aParent) (.branch b bParent)

namespace Snapshot.AgreesOn

variable {listed : (tag : S.Tag) → GraphSchema.Key tag → Prop} {a b : Snapshot S}

theorem level (h : a.AgreesOn listed b) : a.level.AgreesOn listed b.level := by
  cases h with
  | root level => exact level
  | branch level parent => exact level

theorem worldline_eq (h : a.AgreesOn listed b) : a.worldline = b.worldline := h.level.worldline

theorem validAt_eq (h : a.AgreesOn listed b) : a.validAt = b.validAt := h.level.validAt

theorem knownAt_eq (h : a.AgreesOn listed b) : a.knownAt = b.knownAt := h.level.knownAt

theorem rowIds_eq (h : a.AgreesOn listed b) (tag : S.Tag) : a.rowIds tag = b.rowIds tag := by
  induction h with
  | root level => exact level.rowIds_eq tag
  | branch level parent ih => rw [rowIds, rowIds, ih, level.rowIds_eq tag]

theorem storedEdges_eq (h : a.AgreesOn listed b) (edge : S.Edge) :
    a.storedEdges edge = b.storedEdges edge := by
  induction h with
  | root level => exact level.edges edge
  | branch level parent ih => rw [storedEdges, storedEdges, ih, level.edges edge]

/-- The owners of an id agree, or the id has none on either side. -/
theorem owner_cases (h : a.AgreesOn listed b) (tag : S.Tag) (id : NodeId) :
    (a.owner tag id = none ∧ b.owner tag id = none) ∨
      ∃ level level', a.owner tag id = some level ∧ b.owner tag id = some level' ∧
        level.AgreesOn listed level' := by
  induction h with
  | root level =>
    rw [owner, owner, level.contains_eq tag id]
    split
    · exact Or.inr ⟨_, _, rfl, rfl, level⟩
    · exact Or.inl ⟨rfl, rfl⟩
  | branch level parent ih =>
    rw [owner, owner, level.contains_eq tag id]
    split
    · exact Or.inr ⟨_, _, rfl, rfl, level⟩
    · exact ih

/-! ### Reads -/

theorem storedValue?_eq (h : a.AgreesOn listed b) {tag : S.Tag} {key : GraphSchema.Key tag}
    (hkey : listed tag key) (id : NodeId) :
    a.storedValue? tag key id = b.storedValue? tag key id := by
  rw [storedValue?, storedValue?]
  rcases h.owner_cases tag id with ⟨howner, howner'⟩ | ⟨level, level', howner, howner', hlevel⟩
  · rw [howner, howner']
  · rw [howner, howner']
    exact hlevel.valueOf?_eq hkey id

theorem visible_eq (h : a.AgreesOn listed b) (ha : a.WellFormed) (hb : b.WellFormed)
    (tag : S.Tag) (id : NodeId) : a.visible tag id = b.visible tag id := by
  rw [visible, visible]
  rcases h.owner_cases tag id with ⟨howner, howner'⟩ | ⟨level, level', howner, howner', hlevel⟩
  · rw [howner, howner']
  · obtain ⟨published, hid⟩ := ha.published_of_owner howner
    obtain ⟨published', -⟩ := hb.published_of_owner howner'
    rw [howner, howner']
    exact hlevel.isActiveRow_eq published published' hid

theorem visibleIds_eq (h : a.AgreesOn listed b) (ha : a.WellFormed) (hb : b.WellFormed)
    (tag : S.Tag) : a.visibleIds tag = b.visibleIds tag := by
  have hvisible : a.visible tag = b.visible tag := by
    funext id
    exact h.visible_eq ha hb tag id
  rw [visibleIds, visibleIds, h.rowIds_eq tag, hvisible]

theorem incidentEdges_eq (h : a.AgreesOn listed b) (ha : a.WellFormed) (hb : b.WellFormed)
    (direction : AdjacencyStore.Direction) (edge : S.Edge) (node : NodeId) :
    a.incidentEdges direction edge node = b.incidentEdges direction edge node := by
  simp only [incidentEdges, h.storedEdges_eq edge, h.visible_eq ha hb]

end Snapshot.AgreesOn

end Memorial
