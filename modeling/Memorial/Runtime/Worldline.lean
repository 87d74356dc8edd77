import Memorial.Library.FallibleLoop
import Memorial.Runtime.EventLogRuns

/-!
# Worldlines

A registry of worldlines: one actual root, and simulated forks, each of which hangs on an event that
a log recorded on its parent.

* `WorldlineRegistry.createRoot`, `WorldlineRegistry.fork` — the operations that add a worldline;
* `WorldlineRegistry.find`, `WorldlineRegistry.parentOf`, `WorldlineRegistry.lineage` — the ones
  that read;
* `createRoot_cases`, `fork_cases` — **PROVED**: what the first two can do.
-/

namespace Memorial

open Library

/-- `worldline_kind`. -/
inductive WorldlineKind
  | actual
  | simulated
deriving DecidableEq

/-- `worldline_record`. -/
structure WorldlineRecord where
  id : WorldlineId
  kind : WorldlineKind
  parent : Option WorldlineId
  forkEvent : Option EventSequence
  forkValidTime : Option Timestamp
  intervention : Option InterventionId
  generation : GenerationId
  source : Provenance
deriving DecidableEq

/-- `worldline_registry`. -/
structure WorldlineRegistry where
  records : List WorldlineRecord

namespace WorldlineRegistry

variable {Payload : Type} {payloadHash : Payload → UInt64}

/-- A new registry. -/
def empty : WorldlineRegistry := ⟨[]⟩

/-- `worldline_registry::size`. -/
def size (registry : WorldlineRegistry) : ℕ := registry.records.length

/-! ### Reading -/

/-- `worldline_registry::find`. -/
def find (registry : WorldlineRegistry) (id : WorldlineId) : Result WorldlineRecord :=
  if !id.isValid then .error { code := .invalidId }
  else if registry.size ≤ id.toSize then .error { code := .idNotFound }
  else vectorAt registry.records id.toSize

def rootHasNoParent : GraphError :=
  { code := .idNotFound, detail := "root worldline has no parent" }

/-- `worldline_registry::parent_of`. -/
def parentOf (registry : WorldlineRegistry) (id : WorldlineId) : Result WorldlineRecord := do
  let record ← registry.find id
  match record.parent with
  | none => .error rootHasNoParent
  | some parent => registry.find parent

/-- The loop of `lineage`, from the record it is at and the ids it has pushed.  The source loops
until a record has no parent; here the rounds are counted, and `none` means that they ran out. -/
def lineageLoop (registry : WorldlineRegistry) :
    ℕ → WorldlineRecord → List WorldlineId → Option (Result (List WorldlineId))
  | 0, _, _ => none
  | rounds + 1, current, pushed =>
    let pushed := pushed ++ [current.id]
    match current.parent with
    | none => some (.ok pushed.reverse)
    | some parent =>
      match registry.find parent with
      | .error error => some (.error error)
      | .ok current => lineageLoop registry rounds current pushed

/-- `worldline_registry::lineage`, with so many rounds of its loop. -/
def lineage (registry : WorldlineRegistry) (rounds : ℕ) (id : WorldlineId) :
    Option (Result (List WorldlineId)) :=
  match registry.find id with
  | .error error => some (.error error)
  | .ok current => registry.lineageLoop rounds current []

/-! ### Adding worldlines -/

def alreadyHasRoot : GraphError :=
  { code := .conflict, detail := "worldline registry already has a root" }

def rootIsSimulated : GraphError :=
  { code := .conflict, detail := "actual root worldline cannot use simulated provenance" }

def wrongEventKind : GraphError :=
  { code := .conflict, detail := "fork event has the wrong event kind" }

def notRecordedOnParent : GraphError :=
  { code := .worldlineMismatch, detail := "fork event was not recorded on the parent" }

def forkNotSimulated : GraphError :=
  { code := .missingProvenance, detail := "forked worldline requires simulated provenance" }

/-- The registry with one more record. -/
def push (registry : WorldlineRegistry) (record : WorldlineRecord) : WorldlineRegistry :=
  ⟨registry.records ++ [record]⟩

/-- The record that `create_root` adds. -/
def rootRecord (generation : GenerationId) (source : Provenance) : WorldlineRecord where
  id := .ofSize 0
  kind := .actual
  parent := none
  forkEvent := none
  forkValidTime := none
  intervention := none
  generation
  source

/-- `worldline_registry::create_root`. -/
def createRoot (registry : WorldlineRegistry) (generation : GenerationId) (source : Provenance) :
    Result WorldlineId × WorldlineRegistry :=
  if registry.size ≠ 0 then (.error alreadyHasRoot, registry)
  else if !generation.isValid then (.error { code := .invalidId }, registry)
  else if source.kind = .simulated then (.error rootIsSimulated, registry)
  else (.ok (.ofSize 0), registry.push (rootRecord generation source))

/-- The arguments of `fork` other than the log. -/
structure ForkCall where
  parent : WorldlineId
  forkEvent : EventSequence
  intervention : InterventionId
  generation : GenerationId
  simulationSource : Provenance

/-- The record that `fork` adds, where `event` is the fork event. -/
def forkRecord (registry : WorldlineRegistry) (call : ForkCall) (event : GraphEvent Payload) :
    WorldlineRecord where
  id := .ofSize registry.size
  kind := .simulated
  parent := some call.parent
  forkEvent := some call.forkEvent
  forkValidTime := some event.fields.validTime
  intervention := some call.intervention
  generation := call.generation
  source := call.simulationSource

/-- The checks of `fork` in their order, and the record that passes them. -/
def checkFork (registry : WorldlineRegistry) (log : EventLog payloadHash) (call : ForkCall) :
    Result WorldlineRecord := do
  let _ ← registry.find call.parent
  let event ← log.find call.forkEvent
  if event.fields.kind ≠ .worldlineForked then .error wrongEventKind
  else if event.fields.worldline ≠ call.parent then .error notRecordedOnParent
  else if !call.intervention.isValid || !call.generation.isValid then
    .error { code := .invalidId }
  else if call.simulationSource.kind ≠ .simulated then .error forkNotSimulated
  else if StrongId.capacity 64 ≤ registry.size then .error { code := .capacityExceeded }
  else .ok (registry.forkRecord call event)

/-- `worldline_registry::fork`. -/
def fork (registry : WorldlineRegistry) (log : EventLog payloadHash) (call : ForkCall) :
    Result WorldlineId × WorldlineRegistry :=
  match registry.checkFork log call with
  | .error error => (.error error, registry)
  | .ok record => (.ok (.ofSize registry.size), registry.push record)

/-! ### What they can do -/

/-- What `find` returns is the record at that position. -/
theorem getElem?_of_find {registry : WorldlineRegistry} {id : WorldlineId}
    {record : WorldlineRecord} (hfind : registry.find id = .ok record) :
    registry.records[id.toSize]? = some record := by
  rw [find] at hfind
  split at hfind
  · cases hfind
  · split at hfind
    · cases hfind
    · rename_i hsize
      have hlt : id.toSize < registry.records.length := Nat.lt_of_not_le hsize
      rw [vectorAt_of_getElem? (List.getElem?_eq_getElem hlt)] at hfind
      rw [← Except.ok.inj hfind]
      exact List.getElem?_eq_getElem hlt

/-- `find` returns the record at a valid position. -/
theorem find_eq {registry : WorldlineRegistry} (hsize : registry.size ≤ StrongId.capacity 64)
    {id : WorldlineId} {record : WorldlineRecord}
    (hrecord : registry.records[id.toSize]? = some record) : registry.find id = .ok record := by
  have hlt : id.toSize < registry.size := (List.getElem?_eq_some_iff.mp hrecord).1
  have hvalid : id.isValid = true := StrongId.isValid_iff.mpr (Nat.lt_of_lt_of_le hlt hsize)
  rw [find, if_neg (by simp [hvalid]), if_neg (Nat.not_le_of_lt hlt),
    vectorAt_of_getElem? hrecord]

/-- A root is added to an empty registry, and not under simulated provenance; a refused one changes
nothing. -/
theorem createRoot_cases (registry : WorldlineRegistry) (generation : GenerationId)
    (source : Provenance) :
    (registry.size = 0 ∧ source.kind ≠ .simulated ∧
      registry.createRoot generation source =
        (.ok (.ofSize 0), registry.push (rootRecord generation source))) ∨
    ∃ error, registry.createRoot generation source = (.error error, registry) := by
  rw [createRoot]
  split
  · exact Or.inr ⟨_, rfl⟩
  · rename_i hempty
    split
    · exact Or.inr ⟨_, rfl⟩
    · split
      · exact Or.inr ⟨_, rfl⟩
      · rename_i hsource
        exact Or.inl ⟨not_not.mp hempty, hsource, rfl⟩

/-- What `fork` checks. -/
structure AcceptsFork (registry : WorldlineRegistry) (log : EventLog payloadHash) (call : ForkCall)
    (event : GraphEvent Payload) : Prop where
  parent : ∃ record, registry.find call.parent = .ok record
  found : log.find call.forkEvent = .ok event
  kind : event.fields.kind = .worldlineForked
  worldline : event.fields.worldline = call.parent
  source : call.simulationSource.kind = .simulated
  capacity : registry.size < StrongId.capacity 64

theorem acceptsFork_of_checkFork {registry : WorldlineRegistry} {log : EventLog payloadHash}
    {call : ForkCall} {record : WorldlineRecord} (h : registry.checkFork log call = .ok record) :
    ∃ event, registry.AcceptsFork log call event ∧ record = registry.forkRecord call event := by
  rw [checkFork] at h
  cases hparent : registry.find call.parent with
  | error error =>
    rw [hparent] at h
    cases h
  | ok parent =>
    rw [hparent, ok_bind] at h
    cases hevent : log.find call.forkEvent with
    | error error =>
      rw [hevent] at h
      cases h
    | ok event =>
      rw [hevent, ok_bind] at h
      split at h
      · cases h
      · rename_i hkind
        split at h
        · cases h
        · rename_i hworldline
          split at h
          · cases h
          · split at h
            · cases h
            · rename_i hsource
              split at h
              · cases h
              · rename_i hcapacity
                exact ⟨event, ⟨⟨parent, hparent⟩, hevent, not_not.mp hkind,
                  not_not.mp hworldline, not_not.mp hsource, Nat.lt_of_not_le hcapacity⟩,
                  (Except.ok.inj h).symm⟩

/-- **A fork passes its checks and adds its record, or it returns an error and changes nothing.** -/
theorem fork_cases (registry : WorldlineRegistry) (log : EventLog payloadHash) (call : ForkCall) :
    (∃ event, registry.AcceptsFork log call event ∧
      registry.fork log call =
        (.ok (.ofSize registry.size), registry.push (registry.forkRecord call event))) ∨
    ∃ error, registry.fork log call = (.error error, registry) := by
  rw [fork]
  cases hcheck : registry.checkFork log call with
  | error error => exact Or.inr ⟨error, rfl⟩
  | ok record =>
    obtain ⟨event, haccepts, rfl⟩ := acceptsFork_of_checkFork hcheck
    exact Or.inl ⟨event, haccepts, rfl⟩

end WorldlineRegistry

end Memorial
