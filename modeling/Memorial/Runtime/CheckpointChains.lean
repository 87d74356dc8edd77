import Memorial.Runtime.EventLogRuns
import Memorial.Runtime.ReplayResume

/-!
# Checkpoints of checkpoints

A checkpoint is taken where a replay ended, that replay may itself have started from a checkpoint,
and the log grows in between.  However many checkpoints lie between the start and the last one, and
whatever was appended meanwhile, a replay from the last one does what a replay from the start does.

* `Taken` — a checkpoint that some such use of the operations left, with the log of that time;
* `Holds` — it is the start, or holds what the full replay reaches at its anchor;
* `holds_of_taken` — **PROVED**: by induction on how the checkpoint was taken;
* `checkpoints_stay_good` — **PROVED**: replays from it and from the start agree.
-/

namespace Memorial

open Library

namespace EventLog

variable {Payload State : Type} {payloadHash : Payload → UInt64}

/-! ### How checkpoints are taken -/

/-- A log and a checkpoint that a reducer left on it: the start, or the end of a replay from such a
checkpoint, with any appends in between. -/
inductive Taken (reducer : State → GraphEvent Payload → Result State) (start : State) :
    EventLog payloadHash → Checkpoint State → Prop
  | initial : Taken reducer start empty (.initial start)
  | append {log : EventLog payloadHash} {origin : Checkpoint State}
      (h : Taken reducer start log origin) (call : AppendCall Payload) :
      Taken reducer start (log.step call) origin
  | anchor {log : EventLog payloadHash} {origin next : Checkpoint State}
      {sequence : EventSequence} {reached : State} (h : Taken reducer start log origin)
      (hreplay : log.replay origin reducer (some sequence) = .ok reached)
      (hnext : log.makeCheckpoint sequence reached = .ok next) : Taken reducer start log next
  | restart {log : EventLog payloadHash} {origin : Checkpoint State}
      (h : Taken reducer start log origin) : Taken reducer start log (.initial start)

/-- The checkpoint is the start, or holds what the full replay reaches at its anchor. -/
inductive Holds (reducer : State → GraphEvent Payload → Result State) (start : State)
    (log : EventLog payloadHash) : Checkpoint State → Prop
  | start : Holds reducer start log (.initial start)
  | anchored {sequence : EventSequence} {event : GraphEvent Payload} {reached : State}
      (hfind : log.find sequence = .ok event)
      (hreached : reduceEvents reducer start (log.events.take (sequence.toSize + 1)) =
        .ok reached) : Holds reducer start log (.anchored reached sequence event.checksum)

section Chains

variable {reducer : State → GraphEvent Payload → Result State} {start : State}
  {log : EventLog payloadHash}

/-- What an append leaves of the events before it. -/
theorem take_step (log : EventLog payloadHash) (call : AppendCall Payload) {count : ℕ}
    (hcount : count ≤ log.size) : (log.step call).events.take count = log.events.take count := by
  rw [EventLog.step]
  rcases log.append_cases call with ⟨-, happend⟩ | ⟨error, happend⟩
  · rw [happend]
    exact List.take_append_of_le_length hcount
  · rw [happend]

/-- **An append keeps what a checkpoint holds.** -/
theorem Holds.append {origin : Checkpoint State} (h : Holds reducer start log origin)
    (hlog : log.WellFormed) (call : AppendCall Payload) :
    Holds reducer start (log.step call) origin := by
  cases h with
  | start => exact .start
  | anchored hfind hreached =>
    have htake := take_step log call (Nat.succ_le_of_lt (lt_size_of_find hfind))
    refine .anchored (hlog.find_step hfind call) ?_
    rw [htake]
    exact hreached

/-- What a replay through a sequence from the start reaches. -/
theorem reduceEvents_of_replay {sequence : EventSequence} {reached : State}
    (hreplay : log.replay (.initial start) reducer (some sequence) = .ok reached) :
    ∃ event, log.find sequence = .ok event ∧
      reduceEvents reducer start (log.events.take (sequence.toSize + 1)) = .ok reached := by
  cases hfind : log.find sequence with
  | error error =>
    rw [replay_initial, lastIndex_some_error hfind] at hreplay
    cases hreplay
  | ok event =>
    rw [replay_initial, lastIndex_some hfind, if_neg (Nat.not_lt_zero _), ok_bind] at hreplay
    exact ⟨event, rfl, hreplay⟩

/-- The end of the replay is not before the anchor of the checkpoint. -/
def NotBefore (origin : Checkpoint State) (through : Option EventSequence) : Prop :=
  ∀ anchor, origin.sequence = some anchor →
    ∀ sequence, through = some sequence → anchor.toSize ≤ sequence.toSize

/-- **From a checkpoint that holds, a replay does what the full replay does.** -/
theorem Holds.replay_eq {origin : Checkpoint State} (h : Holds reducer start log origin)
    {through : Option EventSequence} (hthrough : NotBefore origin through) :
    log.replay origin reducer through = log.replay (.initial start) reducer through := by
  cases h with
  | start => rfl
  | @anchored sequence event reached hfind hreached =>
    have hend := hthrough sequence rfl
    cases through with
    | none => exact resumed_eq hfind hreached rfl (lt_size_of_find hfind)
    | some through =>
      have hle : sequence.toSize ≤ through.toSize := hend through rfl
      exact resumed_eq hfind hreached (lastIndex_resumed log sequence through hle)
        (Nat.succ_le_succ hle)

/-- A replay that would end before the anchor is refused. -/
theorem Holds.replay_before {origin : Checkpoint State} (h : Holds reducer start log origin)
    (hlog : log.WellFormed) {anchor through : EventSequence}
    (hanchor : origin.sequence = some anchor) (hbefore : through.toSize < anchor.toSize) :
    log.replay origin reducer (some through) = .error endPrecedesCheckpoint := by
  cases h with
  | start => cases hanchor
  | @anchored sequence event reached hfind hreached =>
    obtain rfl := Option.some.inj hanchor
    have hthrough : through.toSize < log.events.length :=
      Nat.lt_trans hbefore (lt_size_of_find hfind)
    have hevent := hlog.find_eq (List.getElem?_eq_getElem hthrough)
    rw [replay_anchored hfind, lastIndex_some hevent, if_pos (by omega), error_bind]

/-- **However a checkpoint was taken, it holds.**  By induction on how it was taken. -/
theorem holds_of_taken {origin : Checkpoint State} (h : Taken reducer start log origin) :
    Reachable log ∧ Holds reducer start log origin := by
  induction h with
  | initial => exact ⟨⟨[], rfl⟩, .start⟩
  | @append log origin _ call ih =>
    obtain ⟨⟨calls, rfl⟩, hholds⟩ := ih
    refine ⟨⟨calls ++ [call], ?_⟩, hholds.append (wellFormed_of_reachable ⟨calls, rfl⟩) call⟩
    exact List.foldl_append
  | @anchor log origin next sequence reached _ hreplay hnext ih =>
    obtain ⟨hlog, hholds⟩ := ih
    refine ⟨hlog, ?_⟩
    have hnotBefore : NotBefore origin (some sequence) := by
      intro anchor hanchor through hthrough
      obtain rfl := Option.some.inj hthrough
      by_contra hbefore
      rw [hholds.replay_before (wellFormed_of_reachable hlog) hanchor (by omega)] at hreplay
      cases hreplay
    rw [hholds.replay_eq hnotBefore] at hreplay
    obtain ⟨event, hfind, hreached⟩ := reduceEvents_of_replay hreplay
    rw [makeCheckpoint, hfind] at hnext
    obtain rfl := Except.ok.inj hnext
    exact .anchored hfind hreached
  | restart _ ih => exact ⟨ih.1, .start⟩

end Chains

/-- **Checkpoints stay good.**  A replay from a checkpoint, taken anywhere in a chain of replays
over a log that grew in between, gives what the replay of the whole log from the start gives, the
same state or the same error, and is refused exactly where it would end before the checkpoint. -/
theorem checkpoints_stay_good {reducer : State → GraphEvent Payload → Result State} {start : State}
    {log : EventLog payloadHash} {origin : Checkpoint State}
    (h : Taken reducer start log origin) :
    (∀ through, NotBefore origin through →
      log.replay origin reducer through = log.replay (.initial start) reducer through) ∧
    ∀ through, ¬NotBefore origin (some through) →
      log.replay origin reducer (some through) = .error endPrecedesCheckpoint := by
  obtain ⟨hlog, hholds⟩ := holds_of_taken h
  refine ⟨fun through => hholds.replay_eq, ?_⟩
  intro through hbefore
  rw [NotBefore] at hbefore
  push Not at hbefore
  obtain ⟨anchor, hanchor, sequence, hsequence, hlt⟩ := hbefore
  obtain rfl := Option.some.inj hsequence
  exact hholds.replay_before (wellFormed_of_reachable hlog) hanchor hlt

/-- The log with the first of two amounts only. -/
def firstAmount : EventLog amountHash := step empty (addAmount 2 20 97)

/-- A checkpoint after the first amount, and one after the second. -/
def firstCheckpoint : Checkpoint Int32 :=
  .anchored 2 ⟨0⟩ ((empty : EventLog amountHash).nextEvent (addAmount 2 20 97)).checksum

def secondCheckpoint : Checkpoint Int32 :=
  .anchored 7 ⟨1⟩ (firstAmount.nextEvent (addAmount 5 21 97)).checksum

theorem taken_firstCheckpoint : Taken (addUpTo 7) 0 firstAmount firstCheckpoint := by
  have hreplay : firstAmount.replay (.initial 0) (addUpTo 7) (some ⟨0⟩) = .ok 2 := rfl
  exact .anchor (.append .initial (addAmount 2 20 97)) hreplay rfl

theorem taken_secondCheckpoint : Taken (addUpTo 7) 0 (twoAmounts 2 97) secondCheckpoint := by
  have hreplay : (twoAmounts 2 97).replay firstCheckpoint (addUpTo 7) (some ⟨1⟩) = .ok 7 := rfl
  exact .anchor (.append taken_firstCheckpoint (addAmount 5 21 97)) hreplay rfl

theorem checkpoints_stay_good_twoAmounts :
    (twoAmounts 2 97).replay secondCheckpoint (addUpTo 7) none =
        (twoAmounts 2 97).replay (.initial 0) (addUpTo 7) none ∧
      (twoAmounts 2 97).replay secondCheckpoint (addUpTo 7) (some ⟨0⟩) =
        .error endPrecedesCheckpoint := by
  obtain ⟨hsame, hbefore⟩ := checkpoints_stay_good taken_secondCheckpoint
  refine ⟨hsame none ?_, hbefore ⟨0⟩ ?_⟩
  · intro anchor _ sequence hnone
    cases hnone
  · intro hnotBefore
    exact absurd (hnotBefore ⟨1⟩ rfl ⟨0⟩ rfl) (by decide)

end EventLog

end Memorial
