import Memorial.Storage.BranchTransparency
import Memorial.Storage.ReadAgreement

/-!
# Snapshots in the chain of a snapshot

A branch of a branch still reads the rows and edges of the root as the root does.  The facts are
those of one branch and its parent, carried along the chain.

* `Extends` — the chain of a snapshot goes through another one;
* `Shares` — what a snapshot has in common with one that its chain goes through;
* `Extends.shares` — **PROVED**: all of it, at every distance.
-/

namespace Memorial

open Library

variable {C : TypeSystem} {S : GraphSchema C}

namespace Snapshot

/-- The chain of the first snapshot goes through the second. -/
inductive Extends : Snapshot S → Snapshot S → Prop
  | refl (graph : Snapshot S) : Extends graph graph
  | branch {level : Level S} {parent old : Snapshot S} (h : Extends parent old) :
      Extends (.branch level parent) old

/-- A list grew at the end, by elements with ids in a range. -/
structure GrownBy {α : Type} (before after : List α) (id : α → ℕ) (start stop : ℕ) : Prop where
  split : ∃ own, after = before ++ own ∧ ∀ a ∈ own, start ≤ id a ∧ id a < stop

/-- What a snapshot shares with one that its chain goes through: everything below the extents, with
its own rows and edges behind. -/
structure Shares (graph old : Snapshot S) : Prop where
  nodeExtent_le : ∀ tag, old.nodeExtent tag ≤ graph.nodeExtent tag
  edgeExtent_le : ∀ edge, old.edgeExtent edge ≤ graph.edgeExtent edge
  visible : ∀ tag id, id.toSize < old.nodeExtent tag → graph.visible tag id = old.visible tag id
  property : ∀ tag key id, id.toSize < old.nodeExtent tag →
    graph.property tag key id = old.property tag key id
  rows : ∀ tag, GrownBy (old.visibleIds tag) (graph.visibleIds tag) StrongId.toSize
    (old.nodeExtent tag) (graph.nodeExtent tag)
  edges : ∀ edge, GrownBy (old.storedEdges edge) (graph.storedEdges edge)
    (fun e => e.id.toSize) (old.edgeExtent edge) (graph.edgeExtent edge)

section Grown

variable {α : Type} {before middle after : List α} {id : α → ℕ} {start middleStop stop : ℕ}

theorem GrownBy.refl (list : List α) : GrownBy list list id start stop :=
  ⟨[], (List.append_nil _).symm, fun _ h => absurd h List.not_mem_nil⟩

/-- Growing twice is growing. -/
theorem GrownBy.trans (h : GrownBy before middle id start middleStop)
    (h' : GrownBy middle after id middleStop stop) (hstart : start ≤ middleStop)
    (hstop : middleStop ≤ stop) : GrownBy before after id start stop := by
  obtain ⟨first, rfl, hfirst⟩ := h.split
  obtain ⟨second, rfl, hsecond⟩ := h'.split
  refine ⟨first ++ second, List.append_assoc _ _ _, ?_⟩
  intro a ha
  rcases List.mem_append.mp ha with hmem | hmem
  · have hbounds := hfirst a hmem
    omega
  · have hbounds := hsecond a hmem
    omega

/-- What was there before is what lies below the range. -/
theorem GrownBy.mem_iff (h : GrownBy before after id start stop)
    (hbefore : ∀ a ∈ before, id a < start) {a : α} : a ∈ before ↔ a ∈ after ∧ id a < start := by
  obtain ⟨own, rfl, hown⟩ := h.split
  constructor
  · intro ha
    exact ⟨List.mem_append_left _ ha, hbefore a ha⟩
  · intro ha
    obtain ⟨ha, hlt⟩ := ha
    rcases List.mem_append.mp ha with hmem | hmem
    · exact hmem
    · have hbounds := hown a hmem
      omega

/-- A list that had no room to grow is the same. -/
theorem GrownBy.eq (h : GrownBy before after id start start) : after = before := by
  obtain ⟨own, rfl, hown⟩ := h.split
  cases own with
  | nil => exact List.append_nil _
  | cons a rest =>
    have hbounds := hown a List.mem_cons_self
    omega

end Grown

theorem Shares.refl (graph : Snapshot S) : graph.Shares graph where
  nodeExtent_le _ := le_rfl
  edgeExtent_le _ := le_rfl
  visible _ _ _ := rfl
  property _ _ _ _ := rfl
  rows _ := .refl _
  edges _ := .refl _

/-- A branch shares its parent. -/
theorem WellFormed.shares_parent {level : Level S} {parent : Snapshot S}
    (h : (Snapshot.branch level parent).WellFormed) :
    (Snapshot.branch level parent).Shares parent where
  nodeExtent_le := h.nodeExtent_le
  edgeExtent_le := h.edgeExtent_le
  visible _ _ hid := h.visible_of_lt hid
  property _ key _ hid := h.property_of_lt key hid
  rows tag := by
    refine ⟨_, h.visibleIds_branch tag, ?_⟩
    intro id hid
    have hrow := List.mem_of_mem_filter hid
    exact h.contains_own_iff.mp
      ((h.own.wellFormed.nodes tag).contains_iff_mem_rowIds.mp hrow)
  edges edge := by
    refine ⟨(level.data.edges edge).storedEdges, rfl, ?_⟩
    intro e he
    exact h.contains_own_edge_iff.mp ((h.own.wellFormed.edges edge).contains_of_mem he)

theorem Shares.trans {a b c : Snapshot S} (h : a.Shares b) (h' : b.Shares c) : a.Shares c where
  nodeExtent_le tag := (h'.nodeExtent_le tag).trans (h.nodeExtent_le tag)
  edgeExtent_le edge := (h'.edgeExtent_le edge).trans (h.edgeExtent_le edge)
  visible tag id hid :=
    (h.visible tag id (hid.trans_le (h'.nodeExtent_le tag))).trans (h'.visible tag id hid)
  property tag key id hid :=
    (h.property tag key id (hid.trans_le (h'.nodeExtent_le tag))).trans (h'.property tag key id hid)
  rows tag := (h'.rows tag).trans (h.rows tag) (h'.nodeExtent_le tag) (h.nodeExtent_le tag)
  edges edge := (h'.edges edge).trans (h.edges edge) (h'.edgeExtent_le edge) (h.edgeExtent_le edge)

/-- **A snapshot shares every snapshot of its chain.**  By induction on the distance. -/
theorem Extends.shares {graph old : Snapshot S} (h : graph.Extends old)
    (hgraph : graph.WellFormed) : old.WellFormed ∧ graph.Shares old := by
  induction h with
  | refl graph => exact ⟨hgraph, .refl graph⟩
  | branch _ ih =>
    obtain ⟨hold, hshares⟩ := ih hgraph.of_branch
    exact ⟨hold, hgraph.shares_parent.trans hshares⟩

section Shares

variable {graph old : Snapshot S}

theorem Shares.contains_eq (h : graph.Shares old) (hgraph : graph.WellFormed)
    (hold : old.WellFormed) {tag : S.Tag} {id : NodeId} (hid : id.toSize < old.nodeExtent tag) :
    graph.contains tag id = old.contains tag id := by
  rw [hgraph.contains_eq, hold.contains_eq, h.visible tag id hid]

/-- The stored values of the rows that the older snapshot sees. -/
theorem Shares.storedValue?_eq (h : graph.Shares old) (hgraph : graph.WellFormed)
    (hold : old.WellFormed) {tag : S.Tag} {id : NodeId} (hid : old.visible tag id = true)
    (key : GraphSchema.Key tag) : graph.storedValue? tag key id = old.storedValue? tag key id := by
  have hlt := hold.lt_of_visible hid
  obtain ⟨value, hstored, hproperty⟩ := hold.property_eq hid key
  obtain ⟨value', hstored', hproperty'⟩ := hgraph.property_eq ((h.visible tag id hlt).trans hid) key
  rw [h.property tag key id hlt, hproperty] at hproperty'
  rw [hstored, hstored', Except.ok.inj hproperty']

/-- An edge is stored below the extent of the older snapshot if that one stores it. -/
theorem Shares.storesEdge_iff (h : graph.Shares old) (hgraph : graph.WellFormed)
    (hold : old.WellFormed) {edge : S.Edge} {id : EdgeId} {source target : NodeId} :
    old.StoresEdge edge id source target ↔
      graph.StoresEdge edge id source target ∧ id.toSize < old.edgeExtent edge := by
  rw [hold.storesEdge_iff, hgraph.storesEdge_iff]
  refine (h.edges edge).mem_iff ?_
  intro e he
  exact hold.id_lt_edgeExtent he

end Shares

end Snapshot

end Memorial
