import Memorial.Library.FallibleLoop
import Memorial.Runtime.EventLog

/-!
# Checkpoints and replay

A checkpoint holds a state together with the position and the checksum of the last event the
state includes.  Replay compares that checksum with the one of the event at the same position and
reduces the events after it.

* `makeCheckpoint`, `replay` — the two operations;
* `acceptsOnlyItsPrefix_iff` — **PROVED**: when a checkpoint is refused on every log with another
  past, exactly;
* `checkpoint_confused` — **PROVED**: two logs with different pasts that share a checkpoint.
-/

namespace Memorial

open Library

/-- `checkpoint<State>`: made by `initial` or `anchored`. -/
structure Checkpoint (State : Type) where
  state : State
  sequence : Option EventSequence
  checksum : Option UInt64

namespace Checkpoint

variable {State : Type}

/-- `checkpoint::initial`. -/
def initial (state : State) : Checkpoint State := ⟨state, none, none⟩

/-- `checkpoint::anchored`. -/
def anchored (state : State) (sequence : EventSequence) (checksum : UInt64) : Checkpoint State :=
  ⟨state, some sequence, some checksum⟩

end Checkpoint

namespace EventLog

variable {Payload State : Type} {payloadHash : Payload → UInt64}

/-- `make_checkpoint`. -/
def makeCheckpoint (log : EventLog payloadHash) (sequence : EventSequence) (state : State) :
    Result (Checkpoint State) := do
  let event ← log.find sequence
  return .anchored state sequence event.checksum

/-! ### Replay -/

def checksumMissing : GraphError :=
  { code := .conflict, detail := "anchored checkpoint is missing its checksum" }

def checkpointMismatch : GraphError :=
  { code := .conflict, detail := "checkpoint does not match the event log" }

def endPrecedesCheckpoint : GraphError :=
  { code := .conflict, detail := "replay end precedes the checkpoint sequence" }

/-- The anchor check of `replay`: the position of the first event to reduce. -/
def firstIndex (log : EventLog payloadHash) (origin : Checkpoint State) : Result ℕ :=
  match origin.sequence with
  | none => return 0
  | some sequence =>
    match origin.checksum with
    | none => .error checksumMissing
    | some checksum => do
      let anchor ← log.find sequence
      if anchor.checksum ≠ checksum then .error checkpointMismatch
      else return sequence.toSize + 1

/-- The position after the last event to reduce. -/
def lastIndex (log : EventLog payloadHash) (firstIndex : ℕ) (through : Option EventSequence) :
    Result ℕ :=
  match through with
  | none => return log.size
  | some through => do
    let _ ← log.find through
    if through.toSize + 1 < firstIndex then .error endPrecedesCheckpoint
    else return through.toSize + 1

/-- The loop of `replay`. -/
def reduceEvents (reducer : State → GraphEvent Payload → Result State) (state : State) :
    List (GraphEvent Payload) → Result State
  | [] => .ok state
  | event :: rest => do
    let state ← reducer state event
    reduceEvents reducer state rest

/-- `replay`. -/
def replay (log : EventLog payloadHash) (origin : Checkpoint State)
    (reducer : State → GraphEvent Payload → Result State) (through : Option EventSequence) :
    Result State := do
  let firstIndex ← log.firstIndex origin
  let lastIndex ← log.lastIndex firstIndex through
  reduceEvents reducer origin.state
    ((log.events.drop firstIndex).take (lastIndex - firstIndex))

/-! ### What the anchor check says about the past -/

/-- `replay` refused the checkpoint: there is no such event, or its checksum is another one. -/
def FailsAnchorCheck (result : Result State) : Prop :=
  ∃ error, result = .error error ∧ (error.code = .idNotFound ∨ error = checkpointMismatch)

/-- The logs agree on the events up to a position, in every field. -/
def SamePrefix (first second : EventLog payloadHash) (sequence : EventSequence) : Prop :=
  first.events.take (sequence.toSize + 1) = second.events.take (sequence.toSize + 1)

/-- A checkpoint of the first log passes on the second only if the logs agree up to it, whatever
is then done with the events after it. -/
def AcceptsOnlyItsPrefix (first second : EventLog payloadHash) (sequence : EventSequence)
    (state : State) : Prop :=
  ∀ origin, first.makeCheckpoint sequence state = .ok origin →
    ∀ reducer, ¬FailsAnchorCheck (second.replay origin reducer none) →
      SamePrefix first second sequence

/-- The checksum is ideal on the two logs: it tells the fields it is given apart. -/
def NoCollision (first second : EventLog payloadHash) : Prop :=
  ∀ a ∈ first.events, ∀ b ∈ second.events,
    checksumFor payloadHash a.fields = checksumFor payloadHash b.fields → a.fields = b.fields

/-- Both logs have an event at the position, with the same checksummed fields. -/
def SameAnchor (first second : EventLog payloadHash) (sequence : EventSequence) : Prop :=
  ∃ a b, first.events[sequence.toSize]? = some a ∧ second.events[sequence.toSize]? = some b ∧
    a.fields = b.fields

/-- What the checksum at the position leaves out: the earlier events, and the provenance. -/
structure SameUnchecked (first second : EventLog payloadHash) (sequence : EventSequence) :
    Prop where
  earlier : first.events.take sequence.toSize = second.events.take sequence.toSize
  source : (first.events[sequence.toSize]?).map GraphEvent.source =
    (second.events[sequence.toSize]?).map GraphEvent.source

/-- The anchor check fails, or the anchor has the checkpoint's checksum. -/
theorem anchor_of_not_failsAnchorCheck {log : EventLog payloadHash} (h : log.WellFormed)
    {state : State} {sequence : EventSequence} (hvalid : sequence.isValid = true)
    {checksum : UInt64} {reducer : State → GraphEvent Payload → Result State}
    {through : Option EventSequence}
    (hpasses : ¬FailsAnchorCheck
      (log.replay (.anchored state sequence checksum) reducer through)) :
    ∃ event, log.events[sequence.toSize]? = some event ∧ event.checksum = checksum := by
  cases hevent : log.events[sequence.toSize]? with
  | none =>
    -- there is no such event
    have hfind := find_of_le hvalid (List.getElem?_eq_none_iff.mp hevent)
    refine absurd ⟨{ code := .idNotFound }, ?_, Or.inl rfl⟩ hpasses
    rw [replay, firstIndex]
    simp only [Checkpoint.anchored, hfind, error_bind]
  | some event =>
    refine ⟨event, rfl, ?_⟩
    by_contra hchecksum
    refine hpasses ⟨checkpointMismatch, ?_, Or.inr rfl⟩
    rw [replay, firstIndex]
    simp only [Checkpoint.anchored, h.find_eq hevent, ok_bind, if_pos hchecksum, error_bind]

/-- Where the anchor has the checkpoint's checksum, replay reduces the events after it. -/
theorem replay_of_anchor {log : EventLog payloadHash} (h : log.WellFormed) (state : State)
    {sequence : EventSequence} {event : GraphEvent Payload}
    (hevent : log.events[sequence.toSize]? = some event)
    (reducer : State → GraphEvent Payload → Result State) :
    log.replay (.anchored state sequence event.checksum) reducer none =
      reduceEvents reducer state (log.events.drop (sequence.toSize + 1)) := by
  have hfirst : log.firstIndex (.anchored state sequence event.checksum) =
      .ok (sequence.toSize + 1) := by
    simp only [firstIndex, Checkpoint.anchored, h.find_eq hevent, ok_bind, ne_eq,
      not_true_eq_false, if_false]
    rfl
  have hlength : (log.events.drop (sequence.toSize + 1)).length ≤
      log.size - (sequence.toSize + 1) := by
    rw [List.length_drop]
    exact Nat.le_refl _
  have hlast : log.lastIndex (sequence.toSize + 1) none = .ok log.size := rfl
  rw [replay, hfirst, ok_bind, hlast, ok_bind, List.take_of_length_le hlength]
  rfl

theorem reduceEvents_keep (state : State) (events : List (GraphEvent Payload)) :
    reduceEvents (fun state _ => .ok state) state events = .ok state := by
  induction events with
  | nil => rfl
  | cons event rest ih => exact ih

/-- Prefixes are equal when what comes before the last event is, and the last events are. -/
theorem samePrefix_iff {first second : EventLog payloadHash} {sequence : EventSequence}
    {a b : GraphEvent Payload} (ha : first.events[sequence.toSize]? = some a)
    (hb : second.events[sequence.toSize]? = some b) :
    SamePrefix first second sequence ↔
      first.events.take sequence.toSize = second.events.take sequence.toSize ∧ a = b := by
  have hlength : (first.events.take sequence.toSize).length =
      (second.events.take sequence.toSize).length := by
    rw [List.length_take, List.length_take,
      Nat.min_eq_left (Nat.le_of_lt (List.getElem?_eq_some_iff.mp ha).1),
      Nat.min_eq_left (Nat.le_of_lt (List.getElem?_eq_some_iff.mp hb).1)]
  rw [SamePrefix, List.take_add_one, List.take_add_one, ha, hb]
  constructor
  · intro h
    obtain ⟨hearlier, hlast⟩ := List.append_inj h hlength
    exact ⟨hearlier, List.singleton_injective hlast⟩
  · rintro ⟨hearlier, rfl⟩
    rw [hearlier]

/-- Where the checksum is ideal, events with one checksum have the same checksummed fields. -/
theorem checksum_eq_iff {first second : EventLog payloadHash} (hfirst : first.WellFormed)
    (hsecond : second.WellFormed) (hideal : NoCollision first second) {index : ℕ}
    {a b : GraphEvent Payload} (ha : first.events[index]? = some a)
    (hb : second.events[index]? = some b) : b.checksum = a.checksum ↔ a.fields = b.fields := by
  rw [(hfirst.events index a ha).checksum, (hsecond.events index b hb).checksum]
  constructor
  · intro hchecksum
    exact hideal a (List.mem_of_getElem? ha) b (List.mem_of_getElem? hb) hchecksum.symm
  · intro hfields
    rw [hfields]

/-- **A checkpoint is refused on every log with another past exactly if that log's event at the
position is missing or differs in a checksummed field, or the logs also agree on what the checksum
leaves out.** -/
theorem acceptsOnlyItsPrefix_iff {first second : EventLog payloadHash} (hfirst : Reachable first)
    (hsecond : Reachable second) (hideal : NoCollision first second) {sequence : EventSequence}
    (hpresent : sequence.toSize < first.size) (state : State) :
    AcceptsOnlyItsPrefix first second sequence state ↔
      (SameAnchor first second sequence → SameUnchecked first second sequence) := by
  have hfirst := wellFormed_of_reachable hfirst
  have hsecond := wellFormed_of_reachable hsecond
  obtain ⟨a, ha⟩ : ∃ a, first.events[sequence.toSize]? = some a :=
    ⟨_, List.getElem?_eq_getElem hpresent⟩
  have horigin : first.makeCheckpoint sequence state =
      .ok (.anchored state sequence a.checksum) := by
    rw [makeCheckpoint, hfirst.find_eq ha]
    rfl
  constructor
  · rintro haccepts ⟨a', b, ha', hb, hfields⟩
    obtain rfl : a = a' := Option.some.inj (ha.symm.trans ha')
    -- the checksums agree, so a replay that changes nothing passes
    have hreplay := replay_of_anchor hsecond state hb (fun state _ => .ok state)
    rw [(checksum_eq_iff hfirst hsecond hideal ha hb).mpr hfields, reduceEvents_keep] at hreplay
    have hpasses : ¬FailsAnchorCheck (second.replay (.anchored state sequence a.checksum)
        (fun state _ => .ok state) none) := by
      rintro ⟨error, herror, -⟩
      rw [hreplay] at herror
      cases herror
    obtain ⟨hearlier, rfl⟩ := (samePrefix_iff ha hb).mp (haccepts _ horigin _ hpasses)
    exact ⟨hearlier, by rw [ha, hb]⟩
  · intro hcondition origin horigin' reducer hpasses
    obtain rfl := Except.ok.inj (horigin.symm.trans horigin')
    have hvalid : sequence.isValid = true :=
      StrongId.isValid_iff.mpr (Nat.lt_of_lt_of_le hpresent hfirst.size_le)
    obtain ⟨b, hb, hsame⟩ := anchor_of_not_failsAnchorCheck hsecond hvalid hpasses
    have hfields := (checksum_eq_iff hfirst hsecond hideal ha hb).mp hsame
    obtain ⟨hearlier, hsource⟩ := hcondition ⟨a, b, ha, hb, hfields⟩
    rw [ha, hb] at hsource
    have hevents : a = b := GraphEvent.ext hfields (Option.some.inj hsource) hsame.symm
    exact (samePrefix_iff ha hb).mpr ⟨hearlier, hevents⟩

/-! ### Two logs that share a checkpoint -/

/-- An amount is its own hash. -/
def amountHash (amount : Int32) : UInt64 := amount.toInt64.toUInt64

/-- An event that adds an amount, as some observer reports it. -/
def addAmount (amount : Int32) (recordedTime : Timestamp) (observer : UInt8) :
    AppendCall Int32 where
  kind := .stateAppended
  validTime := 10
  recordedTime
  worldline := ⟨1⟩
  payload := amount
  source := .ofObservation (.singleton observer) (List.cons_ne_nil _ _)

/-- A log of two events. -/
def twoAmounts (amount : Int32) (observer : UInt8) : EventLog amountHash :=
  run step empty [addAmount amount 20 97, addAmount 5 21 observer]

theorem noCollision_twoAmounts : NoCollision (twoAmounts 2 97) (twoAmounts 9 98) := by
  unfold NoCollision
  decide

theorem acceptsOnlyItsPrefix_iff_twoAmounts :
    AcceptsOnlyItsPrefix (twoAmounts 2 97) (twoAmounts 9 98) ⟨1⟩ (7 : Int32) ↔
      (SameAnchor (twoAmounts 2 97) (twoAmounts 9 98) ⟨1⟩ →
        SameUnchecked (twoAmounts 2 97) (twoAmounts 9 98) ⟨1⟩) :=
  acceptsOnlyItsPrefix_iff ⟨_, rfl⟩ ⟨_, rfl⟩ noCollision_twoAmounts (by decide) 7

/-- **Different pasts can share a checkpoint**: the logs differ in the payload of the first event
and in the provenance of the second, and a checkpoint of the second event passes. -/
theorem checkpoint_confused :
    Reachable (twoAmounts 2 97) ∧ Reachable (twoAmounts 9 98) ∧
      NoCollision (twoAmounts 2 97) (twoAmounts 9 98) ∧ 1 < (twoAmounts 2 97).size ∧
      ¬AcceptsOnlyItsPrefix (twoAmounts 2 97) (twoAmounts 9 98) ⟨1⟩ (7 : Int32) := by
  refine ⟨⟨_, rfl⟩, ⟨_, rfl⟩, noCollision_twoAmounts, by decide, ?_⟩
  intro haccepts
  have hpast := haccepts _ rfl (fun state _ => .ok state) (by
    rintro ⟨error, herror, -⟩
    cases herror)
  exact absurd hpast (by unfold SamePrefix; decide)

end EventLog

end Memorial
