import Memorial.Library.Runs
import Memorial.Runtime.Identity

/-!
# The event log

An append-only log.  An accepted append adds one event, whose sequence number is its position and
whose checksum covers its own fields other than the provenance; a refused one changes nothing.

* `EventLog.append`, `EventLog.find` — the two operations;
* `checksumFor` — the checksum, of the fields it is given (`ChecksummedFields`);
* `append_cases` — **PROVED**: what an append can do;
* `WellFormed`, `wellFormed_of_reachable` — **PROVED**: the invariant of every run of appends.
-/

namespace Memorial

open Library

/-- `event_kind`. -/
inductive EventKind
  | entityCreated
  | stateAppended
  | edgeCreated
  | worldlineForked
  | memoryReinterpreted
  | modelInferenceRecorded
  | snapshotCompacted
  | tombstone
deriving DecidableEq

/-- `static_cast<std::uint64_t>(kind)`. -/
def EventKind.value : EventKind → UInt64
  | .entityCreated => 0
  | .stateAppended => 1
  | .edgeCreated => 2
  | .worldlineForked => 3
  | .memoryReinterpreted => 4
  | .modelInferenceRecorded => 5
  | .snapshotCompacted => 6
  | .tombstone => 7

/-! ### Events and their checksum -/

/-- The arguments of `checksum_for`. -/
@[ext]
structure ChecksummedFields (Payload : Type) where
  sequence : EventSequence
  kind : EventKind
  validTime : Timestamp
  recordedTime : Timestamp
  worldline : WorldlineId
  payload : Payload
  previous : Option EventSequence
deriving DecidableEq

/-- `graph_event<Payload>`. -/
@[ext]
structure GraphEvent (Payload : Type) where
  fields : ChecksummedFields Payload
  source : Provenance
  checksum : UInt64
deriving DecidableEq

/-- The unsigned value of an id. -/
def StrongId.toUInt64 {Tag : Type} (id : StrongId Tag 64) : UInt64 := ⟨id.value⟩

/-- `event_log::mix`. -/
def mix (seed value : UInt64) : UInt64 :=
  seed ^^^ (value + 0x9e3779b97f4a7c15 + (seed <<< (6 : UInt64)) + (seed >>> (2 : UInt64)))

variable {Payload : Type} (payloadHash : Payload → UInt64)

/-- `event_log::checksum_for`. -/
def checksumFor (fields : ChecksummedFields Payload) : UInt64 :=
  let checksum := payloadHash fields.payload
  let checksum := mix checksum fields.sequence.toUInt64
  let checksum := mix checksum fields.kind.value
  let checksum := mix checksum fields.validTime.toUInt64
  let checksum := mix checksum fields.recordedTime.toUInt64
  let checksum := mix checksum fields.worldline.toUInt64
  mix checksum (fields.previous.getD .invalid).toUInt64

/-! ### The log -/

/-- `event_log<Payload, PayloadHash>`; like the C++ type it is indexed by the hash. -/
@[ext]
structure EventLog {Payload : Type} (payloadHash : Payload → UInt64) where
  events : List (GraphEvent Payload)

/-- The arguments of `event_log::append`. -/
structure AppendCall (Payload : Type) where
  kind : EventKind
  validTime : Timestamp
  recordedTime : Timestamp
  worldline : WorldlineId
  payload : Payload
  source : Provenance
  previous : Option EventSequence := none

namespace EventLog

variable {payloadHash}

/-- A new log. -/
def empty : EventLog payloadHash := ⟨[]⟩

/-- `event_log::size`. -/
def size (log : EventLog payloadHash) : ℕ := log.events.length

def worldlineMustBeValid : GraphError :=
  { code := .invalidId, detail := "event worldline ID must be valid" }

def recordedTimeRegression : GraphError :=
  { code := .conflict, detail := "event recorded time must be monotonically non-decreasing" }

def previousMissing : GraphError :=
  { code := .idNotFound, detail := "previous event reference does not exist" }

/-- The recorded time lies before that of the last event. -/
def regresses (log : EventLog payloadHash) (recordedTime : Timestamp) : Bool :=
  log.events.getLast?.any (fun last => decide (recordedTime < last.fields.recordedTime))

/-- The reference is to no event of the log. -/
def dangles (log : EventLog payloadHash) (previous : Option EventSequence) : Bool :=
  previous.any (fun previous => !previous.isValid || decide (log.size ≤ previous.toSize))

/-- The fields that the next event would have. -/
def nextFields (log : EventLog payloadHash) (call : AppendCall Payload) :
    ChecksummedFields Payload where
  sequence := .ofSize log.size
  kind := call.kind
  validTime := call.validTime
  recordedTime := call.recordedTime
  worldline := call.worldline
  payload := call.payload
  previous := call.previous

/-- The next event. -/
def nextEvent (log : EventLog payloadHash) (call : AppendCall Payload) : GraphEvent Payload where
  fields := log.nextFields call
  source := call.source
  checksum := checksumFor payloadHash (log.nextFields call)

/-- `event_log::append`. -/
def append (log : EventLog payloadHash) (call : AppendCall Payload) :
    Result EventSequence × EventLog payloadHash :=
  if !call.worldline.isValid then (.error worldlineMustBeValid, log)
  else if StrongId.capacity 64 ≤ log.size then (.error { code := .capacityExceeded }, log)
  else if log.regresses call.recordedTime then (.error recordedTimeRegression, log)
  else if log.dangles call.previous then (.error previousMissing, log)
  else (.ok (.ofSize log.size), ⟨log.events ++ [log.nextEvent call]⟩)

/-- `event_log::find`. -/
def find (log : EventLog payloadHash) (sequence : EventSequence) : Result (GraphEvent Payload) :=
  if !sequence.isValid then .error { code := .invalidId }
  else if log.size ≤ sequence.toSize then .error { code := .idNotFound }
  else vectorAt log.events sequence.toSize

/-- The log after an append. -/
def step (log : EventLog payloadHash) (call : AppendCall Payload) : EventLog payloadHash :=
  (log.append call).2

/-- The logs that some run of appends builds. -/
def Reachable (log : EventLog payloadHash) : Prop :=
  ∃ calls : List (AppendCall Payload), run step empty calls = log

/-! ### What an append can do -/

/-- The checks of `append`. -/
structure Accepts (log : EventLog payloadHash) (call : AppendCall Payload) : Prop where
  worldline : call.worldline.isValid = true
  capacity : log.size < StrongId.capacity 64
  monotone : log.regresses call.recordedTime = false
  previous : log.dangles call.previous = false

/-- **An append passes its checks and adds the next event, or it returns an error and changes
nothing.** -/
theorem append_cases (log : EventLog payloadHash) (call : AppendCall Payload) :
    (log.Accepts call ∧
      log.append call = (.ok (.ofSize log.size), ⟨log.events ++ [log.nextEvent call]⟩)) ∨
    ∃ error, log.append call = (.error error, log) := by
  rw [append]
  by_cases hworldline : call.worldline.isValid = true
  · rw [if_neg (by simp [hworldline])]
    by_cases hcapacity : StrongId.capacity 64 ≤ log.size
    · exact Or.inr ⟨_, if_pos hcapacity⟩
    · rw [if_neg hcapacity]
      by_cases hmonotone : log.regresses call.recordedTime = true
      · exact Or.inr ⟨_, if_pos hmonotone⟩
      · rw [if_neg hmonotone]
        by_cases hprevious : log.dangles call.previous = true
        · exact Or.inr ⟨_, if_pos hprevious⟩
        · rw [if_neg hprevious]
          exact Or.inl ⟨⟨hworldline, Nat.lt_of_not_le hcapacity, by simpa using hmonotone,
            by simpa using hprevious⟩, rfl⟩
  · exact Or.inr ⟨worldlineMustBeValid, by rw [if_pos (by simp [hworldline])]⟩

/-! ### The invariant -/

/-- What every event of the log satisfies, by its position. -/
structure EventAt (payloadHash : Payload → UInt64) (index : ℕ) (event : GraphEvent Payload) :
    Prop where
  sequence : event.fields.sequence = .ofSize index
  worldline : event.fields.worldline.isValid = true
  previous : ∀ previous, event.fields.previous = some previous → previous.toSize < index
  checksum : event.checksum = checksumFor payloadHash event.fields

/-- The invariant of a log. -/
structure WellFormed (log : EventLog payloadHash) : Prop where
  size_le : log.size ≤ StrongId.capacity 64
  events : ∀ index event, log.events[index]? = some event →
    EventAt payloadHash index event
  monotone : log.events.Pairwise
    (fun earlier later => earlier.fields.recordedTime ≤ later.fields.recordedTime)

theorem wellFormed_empty : (empty : EventLog payloadHash).WellFormed where
  size_le := Nat.zero_le _
  events index event h := by simp [empty] at h
  monotone := List.Pairwise.nil

theorem Accepts.eventAt {log : EventLog payloadHash} {call : AppendCall Payload}
    (h : log.Accepts call) : EventAt payloadHash log.size (log.nextEvent call) where
  sequence := rfl
  worldline := h.worldline
  checksum := rfl
  previous previous hprevious := by
    have hcall : call.previous = some previous := hprevious
    have hdangles := h.previous
    rw [dangles, hcall, Option.any_some, Bool.or_eq_false_iff] at hdangles
    exact Nat.lt_of_not_le (of_decide_eq_false hdangles.2)

/-- A recorded time that does not regress is not before that of any event. -/
theorem WellFormed.recordedTime_le {log : EventLog payloadHash} (h : log.WellFormed)
    {recordedTime : Timestamp} (hregresses : log.regresses recordedTime = false) :
    ∀ event ∈ log.events, event.fields.recordedTime ≤ recordedTime := by
  intro event hevent
  have hne : log.events ≠ [] := List.ne_nil_of_mem hevent
  have hsplit := List.dropLast_append_getLast hne
  have hlast : (log.events.getLast hne).fields.recordedTime ≤ recordedTime := by
    rw [regresses, List.getLast?_eq_some_getLast hne, Option.any_some, decide_eq_false_iff_not,
      Int64.not_lt] at hregresses
    exact hregresses
  have hmonotone := h.monotone
  rw [← hsplit] at hevent hmonotone
  rcases List.mem_append.mp hevent with hinit | heq
  · exact Int64.le_trans ((List.pairwise_append.mp hmonotone).2.2 event hinit _
      (List.mem_singleton_self _)) hlast
  · rw [List.mem_singleton.mp heq]
    exact hlast

/-- What holds of every position of a list and of the element appended holds of every position
after the append. -/
theorem forall_getElem?_concat {α : Type} {p : ℕ → α → Prop} {l : List α} {a : α}
    (hl : ∀ index b, l[index]? = some b → p index b) (ha : p l.length a) :
    ∀ index b, (l ++ [a])[index]? = some b → p index b := by
  intro index b hb
  by_cases hold : index < l.length
  · rw [List.getElem?_append_left hold] at hb
    exact hl index b hb
  · have hle : l.length ≤ index := Nat.le_of_not_lt hold
    rw [List.getElem?_append_right hle, List.getElem?_singleton] at hb
    split at hb
    · rename_i hindex
      have hlength : index = l.length := by omega
      rw [hlength, ← Option.some.inj hb]
      exact ha
    · cases hb

/-- The next event keeps the invariant. -/
theorem WellFormed.concat {log : EventLog payloadHash} (h : log.WellFormed)
    {call : AppendCall Payload} (haccepts : log.Accepts call) :
    (⟨log.events ++ [log.nextEvent call]⟩ : EventLog payloadHash).WellFormed := by
  refine ⟨?_, forall_getElem?_concat h.events haccepts.eventAt, ?_⟩
  · rw [size, List.length_append]
    exact haccepts.capacity
  · rw [List.pairwise_append]
    refine ⟨h.monotone, List.pairwise_singleton _ _, ?_⟩
    intro earlier hearlier later hlater
    rw [List.mem_singleton.mp hlater]
    exact h.recordedTime_le haccepts.monotone earlier hearlier

/-- **Every append keeps the invariant.** -/
theorem WellFormed.step {log : EventLog payloadHash} (h : log.WellFormed)
    (call : AppendCall Payload) : (log.step call).WellFormed := by
  rw [EventLog.step]
  rcases log.append_cases call with ⟨haccepts, happend⟩ | ⟨error, happend⟩
  · rw [happend]
    exact h.concat haccepts
  · rw [happend]
    exact h

/-- **Every run of appends keeps the invariant.** -/
theorem wellFormed_of_reachable {log : EventLog payloadHash} (h : Reachable log) :
    log.WellFormed := by
  obtain ⟨calls, rfl⟩ := h
  exact run_invariant EventLog.step WellFormed (fun _ call h => h.step call) calls wellFormed_empty

/-- Later events have greater sequences. -/
theorem WellFormed.pairwise_sequence {log : EventLog payloadHash} (h : log.WellFormed) :
    log.events.Pairwise
      (fun earlier later => earlier.fields.sequence.toSize < later.fields.sequence.toSize) := by
  refine List.pairwise_iff_getElem.mpr ?_
  intro i j hi hj hlt
  have hsize := h.size_le
  have hlength : log.events.length = log.size := rfl
  rw [(h.events i _ (List.getElem?_eq_getElem hi)).sequence,
    (h.events j _ (List.getElem?_eq_getElem hj)).sequence, StrongId.toSize_ofSize (by omega),
    StrongId.toSize_ofSize (by omega)]
  exact hlt

/-! ### Finding events -/

/-- `find` returns the event at a valid position, and nothing else. -/
theorem WellFormed.find_eq {log : EventLog payloadHash} (h : log.WellFormed)
    {sequence : EventSequence} {event : GraphEvent Payload}
    (hevent : log.events[sequence.toSize]? = some event) : log.find sequence = .ok event := by
  have hlt : sequence.toSize < log.size := (List.getElem?_eq_some_iff.mp hevent).1
  have hvalid : sequence.isValid = true :=
    StrongId.isValid_iff.mpr (Nat.lt_of_lt_of_le hlt h.size_le)
  rw [find, if_neg (by simp [hvalid]), if_neg (Nat.not_le_of_lt hlt),
    vectorAt_of_getElem? hevent]

theorem find_of_le {log : EventLog payloadHash} {sequence : EventSequence}
    (hvalid : sequence.isValid = true) (hsize : log.size ≤ sequence.toSize) :
    log.find sequence = .error { code := .idNotFound } := by
  rw [find, if_neg (by simp [hvalid]), if_pos hsize]

/-- What `find` returns is the event at that position. -/
theorem getElem?_of_find {log : EventLog payloadHash} {sequence : EventSequence}
    {event : GraphEvent Payload} (hfind : log.find sequence = .ok event) :
    log.events[sequence.toSize]? = some event := by
  by_cases hvalid : sequence.isValid = true
  · by_cases hsize : log.size ≤ sequence.toSize
    · rw [find_of_le hvalid hsize] at hfind
      cases hfind
    · rw [find, if_neg (by simp [hvalid]), if_neg hsize,
        vectorAt_of_getElem? (List.getElem?_eq_getElem (Nat.lt_of_not_le hsize))] at hfind
      rw [← Except.ok.inj hfind]
      exact List.getElem?_eq_getElem _
  · rw [find, if_pos (by simp [hvalid])] at hfind
    cases hfind

/-- Every event is found under its own sequence. -/
theorem WellFormed.find_of_mem {log : EventLog payloadHash} (h : log.WellFormed)
    {event : GraphEvent Payload} (hevent : event ∈ log.events) :
    log.find event.fields.sequence = .ok event := by
  obtain ⟨index, hindex⟩ := List.mem_iff_getElem?.mp hevent
  have hlt : index < StrongId.capacity 64 :=
    Nat.lt_of_lt_of_le (List.getElem?_eq_some_iff.mp hindex).1 h.size_le
  rw [(h.events index event hindex).sequence]
  refine h.find_eq ?_
  rw [StrongId.toSize_ofSize hlt]
  exact hindex

theorem lt_size_of_find {log : EventLog payloadHash} {sequence : EventSequence}
    {event : GraphEvent Payload} (hfind : log.find sequence = .ok event) :
    sequence.toSize < log.size :=
  (List.getElem?_eq_some_iff.mp (getElem?_of_find hfind)).1

end EventLog

end Memorial
