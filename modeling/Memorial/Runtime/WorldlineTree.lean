import Memorial.Library.RootPath
import Memorial.Library.Simulation
import Memorial.Runtime.WorldlineForest

/-!
# The worldline tree

The lineages of a registry are the paths of one tree, to which later calls only add leaves.

* `WorldlineRegistry.line` — the lineage of a worldline, as a list;
* `isRooted`, `rootPath_line` — **PROVED**: a worldline has one parent at most, and its lineage is
  its path from the root;
* `registry_run` — **PROVED**: later calls keep the records;
* `LineageTree`, `lineages_form_a_tree` — **PROVED**: a lineage never changes, ancestors are those
  with a shorter lineage that starts the same, and what two lineages share is a lineage.
-/

namespace Memorial

open Library

variable {Payload : Type} {payloadHash : Payload → UInt64}

namespace WorldlineRegistry

/-- The worldline is in the registry. -/
def Registers (registry : WorldlineRegistry) (id : WorldlineId) : Prop :=
  ∃ record, registry.find id = .ok record

/-- What `lineage` returns, and the empty list where it returns an error. -/
def line (registry : WorldlineRegistry) (id : WorldlineId) : List WorldlineId :=
  match registry.lineage (id.toSize + 1) id with
  | some (.ok path) => path
  | _ => []

/-- A registry with more records finds the same. -/
theorem find_of_grown {registry later : WorldlineRegistry}
    (hgrown : registry.records <+: later.records) (hsize : later.size ≤ StrongId.capacity 64)
    {id : WorldlineId} {record : WorldlineRecord} (hfind : registry.find id = .ok record) :
    later.find id = .ok record := by
  have hrecord := getElem?_of_find hfind
  obtain ⟨more, hmore⟩ := hgrown
  apply find_eq hsize
  rw [← hmore, List.getElem?_append_left (List.getElem?_eq_some_iff.mp hrecord).1]
  exact hrecord

/-- The parent of a worldline is the record that its own record names. -/
theorem isParentOf_iff {registry : WorldlineRegistry} {earlier id : WorldlineId} :
    IsParentOf registry earlier id ↔
      ∃ child parent record, registry.find id = .ok child ∧ child.parent = some parent ∧
        registry.find parent = .ok record ∧ record.id = earlier := by
  constructor
  · rintro ⟨record, hrecord, hid⟩
    rw [parentOf] at hrecord
    cases hfind : registry.find id with
    | error error =>
      rw [hfind] at hrecord
      cases hrecord
    | ok child =>
      rw [hfind, ok_bind] at hrecord
      cases hparent : child.parent with
      | none =>
        rw [hparent] at hrecord
        cases hrecord
      | some parent =>
        rw [hparent] at hrecord
        exact ⟨child, parent, record, rfl, hparent, hrecord, hid⟩
  · rintro ⟨child, parent, record, hfind, hparent, hrecord, hid⟩
    refine ⟨record, ?_, hid⟩
    rw [parentOf, hfind, ok_bind, hparent]
    exact hrecord

theorem isParentOf_of_grown {registry later : WorldlineRegistry}
    (hgrown : registry.records <+: later.records) (hsize : later.size ≤ StrongId.capacity 64)
    {earlier id : WorldlineId} (h : IsParentOf registry earlier id) :
    IsParentOf later earlier id := by
  obtain ⟨child, parent, record, hfind, hparent, hrecord, hid⟩ := isParentOf_iff.mp h
  exact isParentOf_iff.mpr ⟨child, parent, record, find_of_grown hgrown hsize hfind, hparent,
    find_of_grown hgrown hsize hrecord, hid⟩

end WorldlineRegistry

namespace WorldlineSession

open WorldlineRegistry

/-! ### Records are kept -/

theorem registry_step (session : WorldlineSession payloadHash) (call : Call Payload) :
    session.registry.records <+: (session.step call).registry.records := by
  rw [step]
  cases call with
  | append call => exact List.prefix_rfl
  | createRoot generation source =>
    rcases session.registry.createRoot_cases generation source with ⟨-, -, hroot⟩ | ⟨error, hroot⟩
    · rw [apply, hroot]
      exact List.prefix_append _ _
    · rw [apply, hroot]
  | fork call =>
    rcases session.registry.fork_cases session.log call with ⟨event, -, hfork⟩ | ⟨error, hfork⟩
    · rw [apply, hfork]
      exact List.prefix_append _ _
    · rw [apply, hfork]

theorem registry_run (session : WorldlineSession payloadHash) (calls : List (Call Payload)) :
    session.registry.records <+: (run step session calls).registry.records :=
  run_invariant step (fun later => session.registry.records <+: later.registry.records)
    (fun later call hgrown => hgrown.trans (registry_step later call)) calls List.prefix_rfl

/-! ### Lineages are paths -/

theorem Invariant.isRooted {session : WorldlineSession payloadHash} (h : session.Invariant) :
    IsRooted (IsParentOf session.registry) (.ofSize 0) where
  unique := by
    rintro a b child ⟨record, hrecord, rfl⟩ ⟨record', hrecord', rfl⟩
    rw [hrecord] at hrecord'
    rw [Except.ok.inj hrecord']
  root := by
    intro a hparent
    obtain ⟨record, parent, above, hfind, hof, -⟩ := isParentOf_iff.mp hparent
    have hnone := ((h.records 0 record (getElem?_of_find hfind)).root rfl).parent
    rw [hnone] at hof
    cases hof

/-- **A lineage is the path from the root.** -/
theorem Invariant.rootPath_line {session : WorldlineSession payloadHash} (h : session.Invariant)
    {id : WorldlineId} (hid : session.registry.Registers id) :
    RootPath (IsParentOf session.registry) (.ofSize 0) id (session.registry.line id) ∧
      ∀ rounds, id.toSize < rounds →
        session.registry.lineage rounds id = some (.ok (session.registry.line id)) := by
  obtain ⟨record, hfind⟩ := hid
  have hrecord := getElem?_of_find hfind
  have hid : record.id = id := StrongId.toSize_injective (h.toSize_id hrecord)
  obtain ⟨path, hpath, hloop⟩ := exists_lineagePath h id.toSize record hrecord
  have hlineage : ∀ rounds, id.toSize < rounds →
      session.registry.lineage rounds id = some (.ok path) := by
    intro rounds hrounds
    simp only [lineage, hfind]
    rw [hloop rounds [] hrounds, List.reverse_nil, List.append_nil]
  have hline : session.registry.line id = path := by
    rw [line, hlineage _ (Nat.lt_succ_self _)]
  rw [hid] at hpath
  rw [hline]
  exact ⟨.of_isChain hpath.root hpath.last hpath.parents, hlineage⟩

/-- A parent is registered. -/
theorem Invariant.registers_parent {session : WorldlineSession payloadHash} (h : session.Invariant)
    {parent id : WorldlineId} (hparent : IsParentOf session.registry parent id) :
    session.registry.Registers parent := by
  obtain ⟨child, above, record, -, -, hrecord, rfl⟩ := isParentOf_iff.mp hparent
  exact ⟨record, h.find_id (getElem?_of_find hrecord)⟩

/-- And so is whatever is on a path to a registered worldline. -/
theorem Invariant.registers_of_mem {session : WorldlineSession payloadHash} (h : session.Invariant)
    {id ancestor : WorldlineId} {path : List WorldlineId}
    (hpath : RootPath (IsParentOf session.registry) (.ofSize 0) id path)
    (hid : session.registry.Registers id) (hmem : ancestor ∈ path) :
    session.registry.Registers ancestor := by
  induction hpath with
  | root =>
    rw [List.mem_singleton.mp hmem]
    exact hid
  | child _ hparent ih =>
    rcases List.mem_append.mp hmem with hearlier | hlast
    · exact ih (h.registers_parent hparent) hearlier
    · rw [List.mem_singleton.mp hlast]
      exact hid

/-! ### The tree -/

/-- The lineages of a registry, against a later state of it. -/
structure LineageTree (session later : WorldlineSession payloadHash) : Prop where
  kept : ∀ id record, session.registry.find id = .ok record →
    later.registry.find id = .ok record ∧
      ∀ rounds, id.toSize < rounds →
        later.registry.lineage rounds id = some (.ok (session.registry.line id))
  ancestors : ∀ id other, session.registry.Registers id → session.registry.Registers other →
    (id ∈ session.registry.line other ↔
      session.registry.line id <+: session.registry.line other)
  meet : ∀ id other, session.registry.Registers id → session.registry.Registers other →
    ∃ last, session.registry.Registers last ∧
      ∀ ancestor, ancestor ∈ session.registry.line last ↔
        ancestor ∈ session.registry.line id ∧ ancestor ∈ session.registry.line other

/-- **Lineages form a tree that only grows.**  After any run of calls, and whatever is called later:
what a registered worldline's record and lineage are does not change, its ancestors are the
worldlines whose lineage starts its own, and the common ancestors of two worldlines are the lineage
of one. -/
theorem lineages_form_a_tree (calls more : List (Call Payload)) :
    LineageTree (run step (empty : WorldlineSession payloadHash) calls)
      (run step empty (calls ++ more)) := by
  have h := @invariant_run Payload payloadHash calls
  have hlater := @invariant_run Payload payloadHash (calls ++ more)
  have hgrown := registry_run (run step (empty : WorldlineSession payloadHash) calls) more
  rw [← run_append] at hgrown
  generalize run step (empty : WorldlineSession payloadHash) calls = session at h hgrown ⊢
  generalize run step (empty : WorldlineSession payloadHash) (calls ++ more) = later
    at hlater hgrown ⊢
  refine ⟨?_, ?_, ?_⟩
  · intro id record hfind
    have hfindLater := find_of_grown hgrown hlater.size_le hfind
    refine ⟨hfindLater, ?_⟩
    obtain ⟨hpath, -⟩ := h.rootPath_line ⟨record, hfind⟩
    obtain ⟨hpath', hlineage⟩ := hlater.rootPath_line ⟨record, hfindLater⟩
    have hkept := hpath.mono (isParentOf_of_grown hgrown hlater.size_le)
    rw [hkept.unique hlater.isRooted hpath']
    exact hlineage
  · intro id other hid hother
    exact (h.rootPath_line hid).1.mem_iff h.isRooted (h.rootPath_line hother).1
  · intro id other hid hother
    obtain ⟨last, common, hcommon, hmem, hboth⟩ :=
      (h.rootPath_line hid).1.exists_meet h.isRooted (h.rootPath_line hother).1
    have hlast := h.registers_of_mem (h.rootPath_line hid).1 hid hmem
    refine ⟨last, hlast, ?_⟩
    rw [(h.rootPath_line hlast).1.unique h.isRooted hcommon]
    exact hboth

end WorldlineSession

end Memorial
