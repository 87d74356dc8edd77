import Mathlib.Data.List.Chain
import Mathlib.Data.List.Pairwise
import Memorial.Runtime.Worldline

/-!
# The worldline forest

One log and one registry, and any run of appends to the log, roots and forks, in any order, with any
arguments, the refused ones included.

* `WorldlineSession` — the log and the registry, and the calls on them;
* `RecordAt` — what holds of a record by its position, against the log;
* `Invariant`, `invariant_run` — **PROVED**: the invariant of every run;
* `LineagePath`, `exists_lineagePath` — **PROVED**: the loop of `lineage` ends, since parents come
  before their children;
* `Forest`, `forest` — **PROVED**: records, lineages and refused calls together.
-/

namespace Memorial

open Library

variable {Payload : Type} {payloadHash : Payload → UInt64}

/-- A log and a registry whose forks are made against it. -/
structure WorldlineSession {Payload : Type} (payloadHash : Payload → UInt64) where
  log : EventLog payloadHash
  registry : WorldlineRegistry

namespace WorldlineSession

open WorldlineRegistry

/-- A call on the log or on the registry. -/
inductive Call (Payload : Type)
  | append (call : AppendCall Payload)
  | createRoot (generation : GenerationId) (source : Provenance)
  | fork (call : ForkCall)

/-- A session on a new log and a new registry. -/
def empty : WorldlineSession payloadHash := ⟨.empty, .empty⟩

/-- What the call returns, a sequence or a worldline, and the session after it. -/
def apply (session : WorldlineSession payloadHash) :
    Call Payload → Result (EventSequence ⊕ WorldlineId) × WorldlineSession payloadHash
  | .append call =>
    let (result, log) := session.log.append call
    (result.map .inl, { session with log })
  | .createRoot generation source =>
    let (result, registry) := session.registry.createRoot generation source
    (result.map .inr, { session with registry })
  | .fork call =>
    let (result, registry) := session.registry.fork session.log call
    (result.map .inr, { session with registry })

def step (session : WorldlineSession payloadHash) (call : Call Payload) :
    WorldlineSession payloadHash :=
  (session.apply call).2

end WorldlineSession

/-! ### The invariant -/

/-- An actual worldline, without a parent, that is not simulated. -/
structure IsRoot (record : WorldlineRecord) : Prop where
  kind : record.kind = .actual
  parent : record.parent = none
  source : record.source.kind ≠ .simulated

/-- The log holds the event that the record was forked at: it forks the parent, at the record's
valid time. -/
structure ForkedAt (log : EventLog payloadHash) (record : WorldlineRecord) (parent : WorldlineId)
    (sequence : EventSequence) (event : GraphEvent Payload) : Prop where
  forkEvent : record.forkEvent = some sequence
  found : log.find sequence = .ok event
  kind : event.fields.kind = .worldlineForked
  worldline : event.fields.worldline = parent
  validTime : record.forkValidTime = some event.fields.validTime

/-- A simulated worldline, with a parent before its own position. -/
structure IsFork (log : EventLog payloadHash) (index : ℕ) (record : WorldlineRecord) : Prop where
  kind : record.kind = .simulated
  source : record.source.kind = .simulated
  parent : ∃ parent, record.parent = some parent ∧ parent.toSize < index ∧
    ∃ sequence event, ForkedAt log record parent sequence event

/-- What holds of a record by its position. -/
structure RecordAt (log : EventLog payloadHash) (index : ℕ) (record : WorldlineRecord) : Prop where
  id : record.id = .ofSize index
  root : index = 0 → IsRoot record
  fork : index ≠ 0 → IsFork log index record

namespace WorldlineSession

open WorldlineRegistry

/-- The invariant of a session. -/
structure Invariant (session : WorldlineSession payloadHash) : Prop where
  log : session.log.WellFormed
  size_le : session.registry.size ≤ StrongId.capacity 64
  records : ∀ index record, session.registry.records[index]? = some record →
    RecordAt session.log index record

theorem invariant_empty : (empty : WorldlineSession payloadHash).Invariant where
  log := EventLog.wellFormed_empty
  size_le := Nat.zero_le _
  records index record h := by simp [empty, WorldlineRegistry.empty] at h

/-- An append leaves the fork events where they are. -/
theorem recordAt_append {log : EventLog payloadHash} (hlog : log.WellFormed) {index : ℕ}
    {record : WorldlineRecord} (h : RecordAt log index record) (call : AppendCall Payload) :
    RecordAt (log.step call) index record where
  id := h.id
  root := h.root
  fork hindex := by
    have hfork := h.fork hindex
    obtain ⟨parent, hparent, hlt, sequence, event, hat⟩ := hfork.parent
    exact ⟨hfork.kind, hfork.source, parent, hparent, hlt, sequence, event, hat.forkEvent,
      hlog.find_step hat.found call, hat.kind, hat.worldline, hat.validTime⟩

/-- The record of an accepted fork. -/
theorem recordAt_fork {registry : WorldlineRegistry} {log : EventLog payloadHash} {call : ForkCall}
    {event : GraphEvent Payload} (h : registry.AcceptsFork log call event) :
    RecordAt log registry.size (registry.forkRecord call event) := by
  obtain ⟨parent, hparent⟩ := h.parent
  have hlt : call.parent.toSize < registry.size :=
    (List.getElem?_eq_some_iff.mp (getElem?_of_find hparent)).1
  refine ⟨rfl, ?_, ?_⟩
  · intro hzero
    omega
  · intro _
    exact ⟨rfl, h.source, call.parent, rfl, hlt, call.forkEvent, event, rfl, h.found, h.kind,
      h.worldline, rfl⟩

/-- The record of an accepted root. -/
theorem recordAt_root (log : EventLog payloadHash) {generation : GenerationId}
    {source : Provenance} (hsource : source.kind ≠ .simulated) :
    RecordAt log 0 (rootRecord generation source) := by
  refine ⟨rfl, ?_, ?_⟩
  · intro _
    exact ⟨rfl, rfl, hsource⟩
  · intro hzero
    exact absurd rfl hzero

/-- A record that holds at the end of the registry may be added. -/
theorem Invariant.push {session : WorldlineSession payloadHash} (h : session.Invariant)
    {record : WorldlineRecord} (hcapacity : session.registry.size < StrongId.capacity 64)
    (hrecord : RecordAt session.log session.registry.size record) :
    ({ session with registry := session.registry.push record } :
      WorldlineSession payloadHash).Invariant where
  log := h.log
  size_le := by
    show (session.registry.records ++ [record]).length ≤ _
    rw [List.length_append]
    exact hcapacity
  records := EventLog.forall_getElem?_concat h.records hrecord

/-- **A call adds one event or one record that holds there, or it returns an error and changes
nothing.** -/
theorem apply_cases {session : WorldlineSession payloadHash} (h : session.Invariant)
    (call : Call Payload) :
    (∃ answer, (session.apply call).1 = .ok answer ∧ (session.apply call).2.Invariant) ∨
      ∃ error, session.apply call = (.error error, session) := by
  cases call with
  | append call =>
    have happly : session.apply (.append call) =
      ((session.log.append call).1.map .inl, { session with log := session.log.step call }) := rfl
    rw [happly]
    rcases session.log.append_cases call with ⟨haccepts, happend⟩ | ⟨error, happend⟩
    · refine Or.inl ⟨.inl (.ofSize session.log.size), ?_, h.log.step call, h.size_le, ?_⟩
      · rw [happend]
        rfl
      · intro index record hrecord
        exact recordAt_append h.log (h.records index record hrecord) call
    · refine Or.inr ⟨error, ?_⟩
      rw [EventLog.step, happend]
      rfl
  | createRoot generation source =>
    rcases session.registry.createRoot_cases generation source with
      ⟨hempty, hsource, hroot⟩ | ⟨error, hroot⟩
    · refine Or.inl ⟨.inr (.ofSize 0), ?_, ?_⟩
      · rw [apply, hroot]
        rfl
      · rw [apply, hroot]
        refine h.push (by rw [hempty]; decide) ?_
        rw [hempty]
        exact recordAt_root session.log hsource
    · refine Or.inr ⟨error, ?_⟩
      rw [apply, hroot]
      rfl
  | fork call =>
    rcases session.registry.fork_cases session.log call with
      ⟨event, haccepts, hfork⟩ | ⟨error, hfork⟩
    · refine Or.inl ⟨.inr (.ofSize session.registry.size), ?_, ?_⟩
      · rw [apply, hfork]
        rfl
      · rw [apply, hfork]
        exact h.push haccepts.capacity (recordAt_fork haccepts)
    · refine Or.inr ⟨error, ?_⟩
      rw [apply, hfork]
      rfl

/-- **Every call keeps the invariant.** -/
theorem Invariant.step {session : WorldlineSession payloadHash} (h : session.Invariant)
    (call : Call Payload) : (session.step call).Invariant := by
  rw [WorldlineSession.step]
  rcases apply_cases h call with ⟨answer, -, hinvariant⟩ | ⟨error, happly⟩
  · exact hinvariant
  · rw [happly]
    exact h

/-- **Every run of calls keeps the invariant.** -/
theorem invariant_run (calls : List (Call Payload)) :
    (run step (empty : WorldlineSession payloadHash) calls).Invariant :=
  run_invariant step Invariant (fun _ call h => h.step call) calls invariant_empty

end WorldlineSession

/-! ### Lineages -/

/-- The later worldline's parent is the earlier one. -/
def IsParentOf (registry : WorldlineRegistry) (earlier later : WorldlineId) : Prop :=
  ∃ record, registry.parentOf later = .ok record ∧ record.id = earlier

/-- The path from the root to the worldline, parent by parent. -/
structure LineagePath (registry : WorldlineRegistry) (id : WorldlineId)
    (path : List WorldlineId) : Prop where
  increasing : path.Pairwise (fun earlier later => earlier.toSize < later.toSize)
  root : path.head? = some (.ofSize 0)
  last : path.getLast? = some id
  parents : path.IsChain (IsParentOf registry)

/-- The worldline is the last of its path, so none of the path is after it. -/
theorem LineagePath.toSize_le {registry : WorldlineRegistry} {id earlier : WorldlineId}
    {path : List WorldlineId} (h : LineagePath registry id path) (hearlier : earlier ∈ path) :
    earlier.toSize ≤ id.toSize := by
  have hlast : path.getLast (List.ne_nil_of_mem hearlier) = id :=
    (List.getLast_eq_iff_getLast?_eq_some _).mpr h.last
  rw [← hlast]
  exact (h.increasing.imp Nat.le_of_lt).rel_getLast_of_rel_getLast_getLast hearlier (Nat.le_refl _)

namespace WorldlineSession

open WorldlineRegistry

/-- The path of a worldline is that of its parent and then the worldline. -/
theorem lineagePath_concat {registry : WorldlineRegistry} {parent id : WorldlineId}
    {path : List WorldlineId} (h : LineagePath registry parent path)
    (hlt : parent.toSize < id.toSize) (hparent : IsParentOf registry parent id) :
    LineagePath registry id (path ++ [id]) := by
  have hne : path ≠ [] := by
    rintro rfl
    cases h.root
  refine ⟨?_, ?_, List.getLast?_concat, ?_⟩
  · refine List.pairwise_append.mpr ⟨h.increasing, List.pairwise_singleton _ _, ?_⟩
    intro earlier hearlier later hlater
    rw [List.mem_singleton.mp hlater]
    exact Nat.lt_of_le_of_lt (h.toSize_le hearlier) hlt
  · rw [List.head?_append_of_ne_nil _ hne]
    exact h.root
  · refine List.isChain_append.mpr ⟨h.parents, List.isChain_singleton id, ?_⟩
    intro earlier hearlier later hlater
    rw [h.last] at hearlier
    obtain rfl := Option.some.inj hearlier
    obtain rfl := Option.some.inj hlater
    exact hparent

/-- The position of a record's id. -/
theorem Invariant.toSize_id {session : WorldlineSession payloadHash} (h : session.Invariant)
    {index : ℕ} {record : WorldlineRecord}
    (hrecord : session.registry.records[index]? = some record) : record.id.toSize = index := by
  rw [(h.records index record hrecord).id]
  exact StrongId.toSize_ofSize
    (Nat.lt_of_lt_of_le (List.getElem?_eq_some_iff.mp hrecord).1 h.size_le)

/-- Every record is found under its own id. -/
theorem Invariant.find_id {session : WorldlineSession payloadHash} (h : session.Invariant)
    {index : ℕ} {record : WorldlineRecord}
    (hrecord : session.registry.records[index]? = some record) :
    session.registry.find record.id = .ok record := by
  refine find_eq h.size_le ?_
  rw [h.toSize_id hrecord]
  exact hrecord

/-- **The loop of `lineage` ends**: from the record at a position, more rounds than that position
are enough, and it puts the record's path before what it has pushed. -/
theorem exists_lineagePath {session : WorldlineSession payloadHash} (h : session.Invariant) :
    ∀ (index : ℕ) (record : WorldlineRecord), session.registry.records[index]? = some record →
      ∃ path, LineagePath session.registry record.id path ∧
        ∀ rounds pushed, index < rounds →
          session.registry.lineageLoop rounds record pushed =
            some (.ok (path ++ pushed.reverse)) := by
  intro index
  induction index using Nat.strong_induction_on with
  | _ index ih =>
    intro record hrecord
    have hat := h.records index record hrecord
    by_cases hzero : index = 0
    · have hnone := (hat.root hzero).parent
      refine ⟨[record.id], ⟨List.pairwise_singleton _ _, ?_, rfl, List.isChain_singleton _⟩, ?_⟩
      · rw [hat.id, hzero]
        rfl
      · intro rounds pushed hrounds
        obtain ⟨rounds, rfl⟩ := Nat.exists_eq_add_of_lt hrounds
        simp only [lineageLoop, hnone, List.reverse_append, List.reverse_singleton]
    · obtain ⟨parent, hparent, hlt, -⟩ := (hat.fork hzero).parent
      have hsize : parent.toSize < session.registry.records.length :=
        Nat.lt_trans hlt (List.getElem?_eq_some_iff.mp hrecord).1
      obtain ⟨earlier, hearlier⟩ : ∃ earlier,
          session.registry.records[parent.toSize]? = some earlier :=
        ⟨_, List.getElem?_eq_getElem hsize⟩
      have hfind : session.registry.find parent = .ok earlier := find_eq h.size_le hearlier
      have hid : earlier.id = parent := StrongId.toSize_injective (h.toSize_id hearlier)
      obtain ⟨path, hpath, hloop⟩ := ih parent.toSize hlt earlier hearlier
      rw [hid] at hpath
      refine ⟨path ++ [record.id], lineagePath_concat hpath ?_ ⟨earlier, ?_, hid⟩, ?_⟩
      · rw [h.toSize_id hrecord]
        exact hlt
      · rw [parentOf, h.find_id hrecord, ok_bind, hparent]
        exact hfind
      · intro rounds pushed hrounds
        obtain ⟨rounds, rfl⟩ := Nat.exists_eq_add_of_lt hrounds
        simp only [lineageLoop, hparent, hfind]
        rw [hloop _ _ (by omega), List.reverse_append, List.reverse_singleton, List.append_assoc]

/-! ### The forest -/

/-- The records, the lineages of the registered worldlines, and the refused calls. -/
structure Forest (session : WorldlineSession payloadHash) : Prop where
  records : ∀ index record, session.registry.records[index]? = some record →
    RecordAt session.log index record
  lineage : ∀ id record, session.registry.find id = .ok record →
    ∃ path, LineagePath session.registry id path ∧
      ∀ rounds, id.toSize < rounds → session.registry.lineage rounds id = some (.ok path)
  refused : ∀ call error, (session.apply call).1 = .error error → (session.apply call).2 = session

/-- **The worldline forest and its lineages**, after every run of calls. -/
theorem forest (calls : List (Call Payload)) :
    (run step (empty : WorldlineSession payloadHash) calls).Forest := by
  have h := @invariant_run Payload payloadHash calls
  refine ⟨h.records, ?_, ?_⟩
  · intro id record hfind
    have hrecord := getElem?_of_find hfind
    have hid : record.id = id := StrongId.toSize_injective (h.toSize_id hrecord)
    obtain ⟨path, hpath, hloop⟩ := exists_lineagePath h id.toSize record hrecord
    rw [hid] at hpath
    refine ⟨path, hpath, ?_⟩
    intro rounds hrounds
    simp only [lineage, hfind]
    rw [hloop rounds [] hrounds, List.reverse_nil, List.append_nil]
  · intro call error herror
    rcases apply_cases h call with ⟨answer, hanswer, -⟩ | ⟨error', happly⟩
    · rw [hanswer] at herror
      cases herror
    · rw [happly]

end WorldlineSession

end Memorial
