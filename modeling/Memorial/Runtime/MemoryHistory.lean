import Mathlib.Data.List.Chain
import Memorial.Library.LastMatch
import Memorial.Runtime.EventLogRuns

/-!
# Memory histories

A memory history keeps the interpretations of memories in one event log.  The interpretations of
one key, that is of one memory from one perspective on one worldline, are its versions.

* `MemoryHistory.appendOriginal`, `MemoryHistory.reinterpret` — the operations that add to it;
* `apply_cases` — **PROVED**: what a call can do;
* `Invariant`, `invariant_run` — **PROVED**: the log is well-formed and the versions of every key
  are one chain;
* `OneChainPerKey`, `oneChainPerKey` — **PROVED**: the same, said of the events and of the calls.
-/

namespace Memorial

open Library

/-! ### Revisions and their hash -/

/-- `memory_revision<MemoryId, Value>`, for memory ids of some tag and width. -/
@[ext]
structure MemoryRevision (Tag : Type) (width : ℕ) (Value : Type) where
  memory : StrongId Tag width
  perspective : PerspectiveId
  valid : ValidInterval
  value : Value

/-- `seed ^= value + 0x9e3779b9U + (seed << 6U) + (seed >> 2U)`. -/
def combineHash (seed value : UInt64) : UInt64 :=
  seed ^^^ (value + 0x9e3779b9 + (seed <<< (6 : UInt64)) + (seed >>> (2 : UInt64)))

/-- What `memory_revision_hash` takes from the outside: `std::hash` of the unsigned types behind
the ids, and the hash of the values. -/
structure RevisionHashes (Value : Type) where
  idHash : (width : ℕ) → BitVec width → UInt64
  valueHash : Value → UInt64

/-- `memory_revision_hash`. -/
def memoryRevisionHash {Tag : Type} {width : ℕ} {Value : Type} (hashes : RevisionHashes Value)
    (revision : MemoryRevision Tag width Value) : UInt64 :=
  let seed := hashes.idHash width revision.memory.value
  let seed := combineHash seed (hashes.idHash 64 revision.perspective.value)
  let seed := combineHash seed revision.valid.fromTime.toUInt64
  let seed := combineHash seed revision.valid.toTime.toUInt64
  combineHash seed (hashes.valueHash revision.value)

/-! ### The history -/

/-- What the operations select events by: a memory, a perspective and a worldline. -/
@[ext]
structure RevisionKey (Tag : Type) (width : ℕ) where
  memory : StrongId Tag width
  perspective : PerspectiveId
  worldline : WorldlineId

instance {Tag : Type} {width : ℕ} : DecidableEq (RevisionKey Tag width) := fun a b =>
  decidable_of_iff
    (a.memory = b.memory ∧ a.perspective = b.perspective ∧ a.worldline = b.worldline)
    RevisionKey.ext_iff.symm

/-- The other arguments of `append_original` and `reinterpret`. -/
structure RevisionCall (Tag : Type) (width : ℕ) (Value : Type) where
  key : RevisionKey Tag width
  valid : ValidInterval
  recordedTime : Timestamp
  value : Value
  source : Provenance

/-- `memory_history<MemoryId, Value, ValueHash>`. -/
@[ext]
structure MemoryHistory (Tag : Type) (width : ℕ) {Value : Type} (hashes : RevisionHashes Value)
    where
  log : EventLog (@memoryRevisionHash Tag width Value hashes)

/-- `memory_history::event_type`. -/
abbrev RevisionEvent (Tag : Type) (width : ℕ) (Value : Type) :=
  GraphEvent (MemoryRevision Tag width Value)

namespace MemoryHistory

variable {Tag : Type} {width : ℕ} {Value : Type} {hashes : RevisionHashes Value}

/-- A new history. -/
def empty : MemoryHistory Tag width hashes := ⟨.empty⟩

/-- The memory and the perspective of the event's revision, and the event's worldline. -/
def keyOf (event : RevisionEvent Tag width Value) : RevisionKey Tag width where
  memory := event.fields.payload.memory
  perspective := event.fields.payload.perspective
  worldline := event.fields.worldline

def alreadyRecorded : GraphError :=
  { code := .conflict, detail := "memory already has a recorded interpretation" }

def nothingToRevise : GraphError :=
  { code := .idNotFound, detail := "memory has no earlier interpretation to revise" }

/-- `memory_history::has_revision`. -/
def hasRevision (history : MemoryHistory Tag width hashes) (key : RevisionKey Tag width) : Bool :=
  history.log.events.any (fun event => decide (keyOf event = key))

/-- `memory_history::latest_sequence`: the last event of the key that was recorded by then. -/
def latestSequence (history : MemoryHistory Tag width hashes) (key : RevisionKey Tag width)
    (recordedTime : Timestamp) : Option EventSequence :=
  lastLoop
    (fun event => decide (keyOf event = key) && decide (event.fields.recordedTime ≤ recordedTime))
    (fun event => event.fields.sequence) history.log.events

/-- What `memory_history::append` passes on to the log; the valid time is the start of the valid
interval. -/
def appendCall (kind : EventKind) (call : RevisionCall Tag width Value)
    (previous : Option EventSequence) : AppendCall (MemoryRevision Tag width Value) where
  kind
  validTime := call.valid.fromTime
  recordedTime := call.recordedTime
  worldline := call.key.worldline
  payload := ⟨call.key.memory, call.key.perspective, call.valid, call.value⟩
  source := call.source
  previous

/-- `memory_history::append`. -/
def append (history : MemoryHistory Tag width hashes) (kind : EventKind)
    (call : RevisionCall Tag width Value) (previous : Option EventSequence) :
    Result EventSequence × MemoryHistory Tag width hashes :=
  if !call.key.memory.isValid || !call.key.perspective.isValid then
    (.error { code := .invalidId }, history)
  else
    let appended := history.log.append (appendCall kind call previous)
    (appended.1, ⟨appended.2⟩)

/-- `memory_history::append_original`. -/
def appendOriginal (history : MemoryHistory Tag width hashes)
    (call : RevisionCall Tag width Value) :
    Result EventSequence × MemoryHistory Tag width hashes :=
  if history.hasRevision call.key then (.error alreadyRecorded, history)
  else history.append .entityCreated call none

/-- `memory_history::reinterpret`. -/
def reinterpret (history : MemoryHistory Tag width hashes) (call : RevisionCall Tag width Value) :
    Result EventSequence × MemoryHistory Tag width hashes :=
  match history.latestSequence call.key call.recordedTime with
  | none => (.error nothingToRevise, history)
  | some previous => history.append .memoryReinterpreted call (some previous)

/-! ### Calls -/

/-- A call that may change the history. -/
inductive HistoryCall (Tag : Type) (width : ℕ) (Value : Type)
  | appendOriginal (arguments : RevisionCall Tag width Value)
  | reinterpret (arguments : RevisionCall Tag width Value)

def HistoryCall.arguments : HistoryCall Tag width Value → RevisionCall Tag width Value
  | .appendOriginal arguments => arguments
  | .reinterpret arguments => arguments

/-- What the call returns, and the history after it. -/
def apply (history : MemoryHistory Tag width hashes) :
    HistoryCall Tag width Value → Result EventSequence × MemoryHistory Tag width hashes
  | .appendOriginal arguments => history.appendOriginal arguments
  | .reinterpret arguments => history.reinterpret arguments

def step (history : MemoryHistory Tag width hashes) (call : HistoryCall Tag width Value) :
    MemoryHistory Tag width hashes :=
  (history.apply call).2

/-! ### Versions -/

/-- The events of the key, in log order. -/
def versions (history : MemoryHistory Tag width hashes) (key : RevisionKey Tag width) :
    List (RevisionEvent Tag width Value) :=
  history.log.events.filter (fun event => decide (keyOf event = key))

/-- The later version refers to the earlier one. -/
def Revises (earlier later : RevisionEvent Tag width Value) : Prop :=
  later.fields.previous = some earlier.fields.sequence

/-- Nothing, or an original and then reinterpretations, each of which refers to the version right
before it. -/
def IsVersionChain : List (RevisionEvent Tag width Value) → Prop
  | [] => True
  | original :: revisions =>
    original.fields.kind = .entityCreated ∧ original.fields.previous = none ∧
      (∀ revision ∈ revisions, revision.fields.kind = .memoryReinterpreted) ∧
      (original :: revisions).IsChain Revises

/-- The next event of a key: an original where there is no version, and otherwise a
reinterpretation of the last version. -/
inductive Continues : List (RevisionEvent Tag width Value) → RevisionEvent Tag width Value → Prop
  | original {event : RevisionEvent Tag width Value} (hkind : event.fields.kind = .entityCreated)
      (hprevious : event.fields.previous = none) : Continues [] event
  | revision {versions : List (RevisionEvent Tag width Value)}
      {last event : RevisionEvent Tag width Value} (hlast : versions.getLast? = some last)
      (hkind : event.fields.kind = .memoryReinterpreted) (hrevises : Revises last event) :
      Continues versions event

/-- A chain that is continued is a chain. -/
theorem IsVersionChain.concat {versions : List (RevisionEvent Tag width Value)}
    {event : RevisionEvent Tag width Value} (h : IsVersionChain versions)
    (hcontinues : Continues versions event) : IsVersionChain (versions ++ [event]) := by
  cases hcontinues with
  | original hkind hprevious =>
    refine ⟨hkind, hprevious, ?_, List.isChain_singleton event⟩
    intro revision hrevision
    exact absurd hrevision List.not_mem_nil
  | @revision _ last _ hlast hkind hrevises =>
    cases versions with
    | nil => cases hlast
    | cons original revisions =>
      obtain ⟨horiginal, hfirst, hrevisions, hchain⟩ := h
      refine ⟨horiginal, hfirst, ?_, ?_⟩
      · intro revision hrevision
        rcases List.mem_append.mp hrevision with hold | hnew
        · exact hrevisions revision hold
        · rw [List.mem_singleton.mp hnew]
          exact hkind
      · refine List.isChain_append.mpr ⟨hchain, List.isChain_singleton event, ?_⟩
        intro earlier hearlier later hlater
        rw [hlast] at hearlier
        obtain rfl := Option.some.inj hearlier
        obtain rfl := Option.some.inj hlater
        exact hrevises

/-- In a chain every reference is to another version of it. -/
theorem IsVersionChain.exists_of_previous {versions : List (RevisionEvent Tag width Value)}
    (h : IsVersionChain versions) {event : RevisionEvent Tag width Value}
    (hevent : event ∈ versions) {previous : EventSequence}
    (hprevious : event.fields.previous = some previous) :
    ∃ earlier ∈ versions, earlier.fields.sequence = previous := by
  cases versions with
  | nil => cases hevent
  | cons original revisions =>
    obtain ⟨-, hfirst, -, hchain⟩ := h
    rcases List.mem_cons.mp hevent with rfl | hrevision
    · rw [hfirst] at hprevious
      cases hprevious
    · obtain ⟨before, after, rfl⟩ := List.append_of_mem hrevision
      rw [← List.cons_append] at hchain
      have hlink := (List.isChain_append.mp hchain).2.2
        ((original :: before).getLast (List.cons_ne_nil _ _))
        (List.getLast?_eq_some_getLast _) event rfl
      refine ⟨_, ?_, Option.some.inj (hlink.symm.trans hprevious)⟩
      rw [← List.cons_append]
      exact List.mem_append_left _ (List.getLast_mem _)

/-! ### What a call can do -/

theorem hasRevision_eq_false {history : MemoryHistory Tag width hashes}
    {key : RevisionKey Tag width} (h : ¬history.hasRevision key = true) :
    history.versions key = [] := by
  refine List.filter_eq_nil_iff.mpr ?_
  intro event hevent hkey
  exact h (List.any_eq_true.mpr ⟨event, hevent, hkey⟩)

/-- From a time that is not before any event on, the latest sequence is that of the last version. -/
theorem latestSequence_eq {history : MemoryHistory Tag width hashes} {recordedTime : Timestamp}
    (h : ∀ event ∈ history.log.events, event.fields.recordedTime ≤ recordedTime)
    (key : RevisionKey Tag width) :
    history.latestSequence key recordedTime =
      (history.versions key).getLast?.map (fun event => event.fields.sequence) := by
  have hfilter : history.log.events.filter (fun event => decide (keyOf event = key) &&
      decide (event.fields.recordedTime ≤ recordedTime)) = history.versions key := by
    refine List.filter_congr ?_
    intro event hevent
    rw [decide_eq_true (h event hevent), Bool.and_true]
  rw [latestSequence, lastLoop_eq, hfilter]

/-- The event is what an accepted call adds to the history. -/
structure Adds (history : MemoryHistory Tag width hashes) (call : HistoryCall Tag width Value)
    (event : RevisionEvent Tag width Value) : Prop where
  key : keyOf event = call.arguments.key
  recordedTime : event.fields.recordedTime = call.arguments.recordedTime
  continues : Continues (history.versions call.arguments.key) event
  wellFormed : (⟨history.log.events ++ [event]⟩ :
    EventLog (@memoryRevisionHash Tag width Value hashes)).WellFormed

/-- The private append passes its check on the ids and those of the log, or changes nothing. -/
theorem append_cases (history : MemoryHistory Tag width hashes) (kind : EventKind)
    (call : RevisionCall Tag width Value) (previous : Option EventSequence) :
    (history.log.Accepts (appendCall kind call previous) ∧
      history.append kind call previous =
        (.ok (.ofSize history.log.size),
          ⟨⟨history.log.events ++ [history.log.nextEvent (appendCall kind call previous)]⟩⟩)) ∨
      ∃ error, history.append kind call previous = (.error error, history) := by
  rw [append]
  split
  · exact Or.inr ⟨_, rfl⟩
  · rcases history.log.append_cases (appendCall kind call previous) with
      ⟨haccepts, happend⟩ | ⟨error, happend⟩
    · refine Or.inl ⟨haccepts, ?_⟩
      rw [happend]
    · refine Or.inr ⟨error, ?_⟩
      rw [happend]

/-- An original is the first version of a key that has none, or it is refused. -/
theorem appendOriginal_cases {history : MemoryHistory Tag width hashes}
    (h : history.log.WellFormed) (arguments : RevisionCall Tag width Value) :
    (∃ event, history.Adds (.appendOriginal arguments) event ∧
      history.appendOriginal arguments =
        (.ok (.ofSize history.log.size), ⟨⟨history.log.events ++ [event]⟩⟩)) ∨
    ∃ error, history.appendOriginal arguments = (.error error, history) := by
  by_cases hrevision : history.hasRevision arguments.key = true
  · exact Or.inr ⟨alreadyRecorded, if_pos hrevision⟩
  · have hcall : history.appendOriginal arguments =
        history.append .entityCreated arguments none := if_neg hrevision
    rw [hcall]
    rcases history.append_cases .entityCreated arguments none with
      ⟨haccepts, happend⟩ | hrefused
    · refine Or.inl ⟨_, ⟨rfl, rfl, ?_, h.concat haccepts⟩, happend⟩
      show Continues (history.versions arguments.key) _
      rw [hasRevision_eq_false hrevision]
      exact .original rfl rfl
    · exact Or.inr hrefused

/-- A reinterpretation follows the last version of its key, or it is refused. -/
theorem reinterpret_cases {history : MemoryHistory Tag width hashes}
    (h : history.log.WellFormed) (arguments : RevisionCall Tag width Value) :
    (∃ event, history.Adds (.reinterpret arguments) event ∧
      history.reinterpret arguments =
        (.ok (.ofSize history.log.size), ⟨⟨history.log.events ++ [event]⟩⟩)) ∨
    ∃ error, history.reinterpret arguments = (.error error, history) := by
  rw [reinterpret]
  cases hlatest : history.latestSequence arguments.key arguments.recordedTime with
  | none => exact Or.inr ⟨nothingToRevise, rfl⟩
  | some previous =>
    rcases history.append_cases .memoryReinterpreted arguments (some previous) with
      ⟨haccepts, happend⟩ | hrefused
    · refine Or.inl ⟨_, ⟨rfl, rfl, ?_, h.concat haccepts⟩, happend⟩
      -- the log accepts the recorded time, so no version was recorded after it
      have hrecorded : ∀ event ∈ history.log.events,
          event.fields.recordedTime ≤ arguments.recordedTime :=
        h.recordedTime_le haccepts.monotone
      rw [latestSequence_eq hrecorded] at hlatest
      obtain ⟨last, hlast, hsequence⟩ := Option.map_eq_some_iff.mp hlatest
      exact .revision hlast rfl (congrArg some hsequence.symm)
    · exact Or.inr hrefused

/-- **A call adds the next version of its key, or it returns an error and changes nothing.** -/
theorem apply_cases {history : MemoryHistory Tag width hashes} (h : history.log.WellFormed)
    (call : HistoryCall Tag width Value) :
    (∃ event, history.Adds call event ∧
      history.apply call = (.ok (.ofSize history.log.size), ⟨⟨history.log.events ++ [event]⟩⟩)) ∨
    ∃ error, history.apply call = (.error error, history) := by
  cases call with
  | appendOriginal arguments => exact appendOriginal_cases h arguments
  | reinterpret arguments => exact reinterpret_cases h arguments

/-! ### The invariant -/

/-- The invariant of a history. -/
structure Invariant (history : MemoryHistory Tag width hashes) : Prop where
  log : history.log.WellFormed
  versions : ∀ key, IsVersionChain (history.versions key)

theorem invariant_empty : (empty : MemoryHistory Tag width hashes).Invariant where
  log := EventLog.wellFormed_empty
  versions _ := trivial

/-- **Every call keeps the invariant.** -/
theorem Invariant.step {history : MemoryHistory Tag width hashes} (h : history.Invariant)
    (call : HistoryCall Tag width Value) : (history.step call).Invariant := by
  rw [MemoryHistory.step]
  rcases apply_cases h.log call with ⟨event, hadds, happly⟩ | ⟨error, happly⟩
  · rw [happly]
    refine ⟨hadds.wellFormed, ?_⟩
    intro key
    show IsVersionChain ((history.log.events ++ [event]).filter _)
    rw [filter_concat]
    by_cases hkey : keyOf event = key
    · rw [if_pos (decide_eq_true hkey)]
      have hcontinues := hadds.continues
      rw [← hadds.key, hkey] at hcontinues
      exact (h.versions key).concat hcontinues
    · rw [if_neg (by rw [decide_eq_true_eq]; exact hkey)]
      exact h.versions key
  · rw [happly]
    exact h

/-- **Every run of calls keeps the invariant.** -/
theorem invariant_run (calls : List (HistoryCall Tag width Value)) :
    (run step (empty : MemoryHistory Tag width hashes) calls).Invariant :=
  run_invariant step Invariant (fun _ call h => h.step call) calls invariant_empty

/-! ### One chain per key -/

/-- The versions of each key are one chain, no reference leaves it, and refused calls change
nothing. -/
structure OneChainPerKey (history : MemoryHistory Tag width hashes) : Prop where
  versions : ∀ key, IsVersionChain (history.versions key)
  references : ∀ event ∈ history.log.events, ∀ previous,
    event.fields.previous = some previous →
      ∃ earlier, history.log.find previous = .ok earlier ∧ keyOf earlier = keyOf event
  refused : ∀ call error, (history.apply call).1 = .error error → (history.apply call).2 = history

/-- **Memory versions form one chain per key**, after every run of calls. -/
theorem oneChainPerKey (calls : List (HistoryCall Tag width Value)) :
    (run step (empty : MemoryHistory Tag width hashes) calls).OneChainPerKey := by
  have h := @invariant_run Tag width Value hashes calls
  refine ⟨h.versions, ?_, ?_⟩
  · intro event hevent previous hprevious
    have hversion : event ∈ (run step (empty : MemoryHistory Tag width hashes) calls).versions
        (keyOf event) := List.mem_filter.mpr ⟨hevent, decide_eq_true rfl⟩
    obtain ⟨earlier, hearlier, rfl⟩ :=
      (h.versions (keyOf event)).exists_of_previous hversion hprevious
    obtain ⟨hmem, hkey⟩ := List.mem_filter.mp hearlier
    exact ⟨earlier, h.log.find_of_mem hmem, of_decide_eq_true hkey⟩
  · intro call error herror
    rcases apply_cases h.log call with ⟨event, -, happly⟩ | ⟨error', happly⟩
    · rw [happly] at herror
      cases herror
    · rw [happly]

end MemoryHistory

end Memorial
