import Memorial.Storage.DeltaInvariants

/-!
# Edges stay in one worldline

Appending an edge between two rows of a delta checks that they are of one worldline.  Rows are never
changed, so that stays so: an edge that joins two worldlines has an end in an older level, where the
check takes it on trust.

* `worldline_append`, `contains_append` — what an append leaves of the rows before it;
* `Coherent`, `deltaInvariant_coherent` — **PROVED**: the invariant of every delta;
* `edges_within_worldlines` — **PROVED**: of every level of every reachable snapshot.
-/

namespace Memorial

open Library

variable {C : TypeSystem} {S : GraphSchema C}

namespace DeltaNodeStore

variable {node : NodeSpec C}

/-! ### Rows are never changed -/

/-- An id below the extent names a row after an append exactly if it did before. -/
theorem contains_append {store : DeltaNodeStore node} (h : store.WellFormed) (row : RowMetadata)
    (values : PropertyValues node.properties) (fault : Option ℕ) {id : NodeId}
    (hid : id.toSize < store.extent) :
    (store.append row values fault).1.contains id = store.contains id := by
  rcases append_cases store row values fault with ⟨hcapacity, -, happend⟩ | ⟨hsame | hstale, -⟩
  · have hbefore : store.contains id = true ↔ store.idBase ≤ id.toSize ∧ id.toSize < store.extent :=
      h.nodes.contains_iff
    have hafter : (store.pushRow row values).contains id = true ↔
        store.idBase ≤ id.toSize ∧ id.toSize < store.idBase + (store.size + 1) :=
      (h.pushRow hcapacity row values).nodes.contains_iff
    have hextent : store.extent = store.idBase + store.size := rfl
    rw [happend, Bool.eq_iff_iff, hafter, hbefore]
    omega
  · rw [hsame]
  · rw [hstale]
    rfl

/-- The worldline of a row is its entry in the column. -/
theorem worldline_eq {store : DeltaNodeStore node} {id : NodeId} (hid : store.contains id = true) :
    store.worldline id = vectorAt store.metadata.worldlines (id.toSize - store.idBase) := by
  have hcontains : store.nodes.contains id = true := hid
  rw [worldline, checkedRow, IdRange.isValid_of_contains hid, hcontains]
  rfl

/-- The worldline of a row is the same after an append. -/
theorem worldline_append {store : DeltaNodeStore node} (h : store.WellFormed) (row : RowMetadata)
    (values : PropertyValues node.properties) (fault : Option ℕ) {id : NodeId}
    (hid : store.contains id = true) :
    (store.append row values fault).1.worldline id = store.worldline id := by
  have hcontains := contains_append h row values fault (IdRange.bounds_of_contains hid).2
  rcases append_cases store row values fault with ⟨-, -, happend⟩ | ⟨hsame | hstale, -⟩
  · rw [happend] at hcontains ⊢
    obtain ⟨entry, -, hentry, -⟩ := h.exists_entries hid
    have hlt := (List.getElem?_eq_some_iff.mp hentry).1
    have hpushed : (store.metadata.worldlines ++ [row.worldline])[id.toSize - store.idBase]? =
        some entry.worldline := by
      rw [List.getElem?_append_left hlt, hentry]
    rw [worldline_eq hid, worldline_eq (hcontains.trans hid), vectorAt_of_getElem? hentry]
    exact vectorAt_of_getElem? hpushed
  · rw [hsame]
  · rw [hstale]
    rfl

end DeltaNodeStore

namespace DeltaStore

/-! ### The check on the endpoints -/

/-- What the check on the endpoints says of two rows of the delta. -/
theorem worldline_of_checkEndpoints {delta : DeltaStore S} (h : delta.WellFormed) {edge : S.Edge}
    {source target : NodeId} (hcheck : delta.checkEndpoints edge source target = .ok ())
    (hsource : (delta.nodes (GraphSchema.source edge)).contains source = true)
    (htarget : (delta.nodes (GraphSchema.target edge)).contains target = true) :
    (delta.nodes (GraphSchema.source edge)).worldline source =
      (delta.nodes (GraphSchema.target edge)).worldline target := by
  obtain ⟨hsourceExists, htargetExists⟩ := endpointExists_of_checkEndpoints hcheck
  obtain ⟨row, -, hrow, -⟩ := (h.nodes _).exists_row hsource
  obtain ⟨row', -, hrow', -⟩ := (h.nodes _).exists_row htarget
  rw [hrow, hrow']
  by_contra hdifferent
  have hne : row.worldline ≠ row'.worldline := fun heq => hdifferent (congrArg Except.ok heq)
  simp only [checkEndpoints, hsourceExists, htargetExists, hsource, htarget, hrow, hrow', ok_bind,
    Bool.not_true, Bool.or_self, Bool.and_self, if_true, if_pos hne, Bool.false_eq_true,
    if_false] at hcheck
  cases hcheck

/-! ### The invariant -/

/-- An edge between two rows of the delta joins rows of one worldline. -/
def Coherent (delta : DeltaStore S) : Prop :=
  ∀ edge, ∀ e ∈ (delta.edges edge).storedEdges,
    (delta.nodes (GraphSchema.source edge)).contains e.source = true →
      (delta.nodes (GraphSchema.target edge)).contains e.target = true →
        (delta.nodes (GraphSchema.source edge)).worldline e.source =
          (delta.nodes (GraphSchema.target edge)).worldline e.target

theorem coherent_branchFrom (nodeExtent : S.Tag → ℕ) (edgeExtent : S.Edge → ℕ) :
    (branchFrom nodeExtent edgeExtent).Coherent := by
  intro edge e he
  have hnone : ((branchFrom nodeExtent edgeExtent).edges edge).storedEdges = [] := rfl
  rw [hnone] at he
  cases he

/-- A row of a delta, below the extent that it had before an append. -/
theorem row_appendNode {delta : DeltaStore S} (h : delta.WellFormed) (tag : S.Tag)
    (row : RowMetadata) (values : PropertyValues (GraphSchema.node tag).properties)
    (fault : Option ℕ) {other : S.Tag} {id : NodeId} (hid : id.toSize < delta.nodeExtent other)
    (hcontains : ((delta.appendNode tag row values fault).1.nodes other).contains id = true) :
    (delta.nodes other).contains id = true ∧
      ((delta.appendNode tag row values fault).1.nodes other).worldline id =
        (delta.nodes other).worldline id := by
  rw [appendNode_fst, nodes_setNodes] at hcontains ⊢
  by_cases hother : other = tag
  · subst hother
    rw [Function.update_self] at hcontains ⊢
    rw [DeltaNodeStore.contains_append (h.nodes other) row values fault hid] at hcontains
    exact ⟨hcontains, DeltaNodeStore.worldline_append (h.nodes other) row values fault hcontains⟩
  · rw [Function.update_of_ne hother] at hcontains ⊢
    exact ⟨hcontains, rfl⟩

/-- New rows are no end of an edge that is stored already. -/
theorem Coherent.appendNode {delta : DeltaStore S} (hcoherent : delta.Coherent)
    (h : delta.WellFormed) (tag : S.Tag) (row : RowMetadata)
    (values : PropertyValues (GraphSchema.node tag).properties) (fault : Option ℕ) :
    (delta.appendNode tag row values fault).1.Coherent := by
  intro edge e he hsource htarget
  obtain ⟨hsourceLt, htargetLt⟩ := h.endpoints edge e he
  obtain ⟨hsourceOld, hsourceSame⟩ := row_appendNode h tag row values fault hsourceLt hsource
  obtain ⟨htargetOld, htargetSame⟩ := row_appendNode h tag row values fault htargetLt htarget
  rw [hsourceSame, htargetSame]
  exact hcoherent edge e he hsourceOld htargetOld

/-- A new edge has passed the check. -/
theorem Coherent.appendEdge {delta : DeltaStore S} (hcoherent : delta.Coherent)
    (h : delta.WellFormed) (edge : S.Edge) (source target : NodeId)
    (values : PropertyValues (GraphSchema.edge edge).properties) (fault : Option ℕ) :
    (delta.appendEdge edge source target values fault).1.Coherent := by
  rw [DeltaStore.appendEdge]
  cases hcheck : delta.checkEndpoints edge source target with
  | error error => exact hcoherent
  | ok =>
    intro other e he hsource htarget
    have hedges : e ∈ (Function.update delta.edges edge
        ((delta.edges edge).append source target values fault).1 other).storedEdges := he
    by_cases hother : other = edge
    · subst hother
      rw [Function.update_self] at hedges
      rcases AdjacencyStore.append_cases (delta.edges other) source target values fault with
        ⟨-, -, -, hpush⟩ | ⟨hsame, -⟩
      · rw [hpush, (h.edges other).storedEdges_pushEdge, List.mem_append,
          List.mem_singleton] at hedges
        rcases hedges with hold | rfl
        · exact hcoherent other e hold hsource htarget
        · exact worldline_of_checkEndpoints h hcheck hsource htarget
      · rw [hsame.storedEdges] at hedges
        exact hcoherent other e hedges hsource htarget
    · rw [Function.update_of_ne hother] at hedges
      exact hcoherent other e hedges hsource htarget

/-- **Every delta of a session is coherent.** -/
theorem deltaInvariant_coherent :
    DeltaInvariant (fun _ _ => True) (Coherent : DeltaStore S → Prop) where
  empty := coherent_branchFrom _ _
  makeBranchDelta _ _ := coherent_branchFrom _ _
  applyCall delta call h hcoherent _ := by
    cases call with
    | appendNode tag row values fault => exact hcoherent.appendNode h tag row values fault
    | appendEdge edge source target values fault =>
      exact hcoherent.appendEdge h edge source target values fault
    | buildIndices => exact hcoherent

end DeltaStore

/-! ### Snapshots -/

/-- **Edges stay in one worldline.**  In every level of every reachable snapshot, an edge whose ends
are both rows of that level joins rows of one worldline, whatever was written, refused or thrown on
the way. -/
theorem edges_within_worldlines {graph : Snapshot S} (hgraph : Session.Reachable graph) :
    ∀ level ∈ graph.levels, ∀ (edge : S.Edge), ∀ e ∈ (level.data.edges edge).storedEdges,
      (level.data.nodes (GraphSchema.source edge)).contains e.source = true →
        (level.data.nodes (GraphSchema.target edge)).contains e.target = true →
          ∃ worldline,
            (level.data.nodes (GraphSchema.source edge)).worldline e.source = .ok worldline ∧
              (level.data.nodes (GraphSchema.target edge)).worldline e.target = .ok worldline := by
  intro level hlevel edge e he hsource htarget
  obtain ⟨delta, hwellFormed, hcoherent, hdata⟩ :=
    DeltaStore.deltaInvariant_coherent.of_reachable hgraph level hlevel
  rw [hdata] at he hsource htarget ⊢
  obtain ⟨row, -, hrow, -⟩ := (hwellFormed.nodes _).exists_row hsource
  refine ⟨row.worldline, hrow, ?_⟩
  rw [← hrow]
  exact (hcoherent edge e he hsource htarget).symm

/-! ### An edge of the root -/

namespace Journal

open DeltaStore Session

/-- The data of the root, which has two thoughts and a relation between them. -/
def rootData : DeltaStore journalSchema := (run applyCall .empty rootWrites).buildIndices

def rootRecall : StoredEdge := ⟨⟨0⟩, ⟨0⟩, ⟨1⟩⟩

theorem storedEdges_rootData : (rootData.edges recalls).storedEdges = [rootRecall] := rfl

theorem edges_within_worldlines_branchGraph :
    ∃ worldline, (rootData.nodes thought).worldline ⟨0⟩ = .ok worldline ∧
      (rootData.nodes thought).worldline ⟨1⟩ = .ok worldline := by
  have hlevel : (⟨⟨1⟩, actual, 15, 35, rootData⟩ : Level journalSchema) ∈ branchGraph.levels :=
    List.mem_cons_of_mem _ List.mem_cons_self
  have hedge : rootRecall ∈ (rootData.edges recalls).storedEdges := by
    rw [storedEdges_rootData]
    exact List.mem_cons_self
  exact edges_within_worldlines reachable_branchGraph _ hlevel recalls rootRecall hedge rfl rfl

end Journal

end Memorial
