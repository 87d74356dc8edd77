import Memorial.Runtime.Replay

/-!
# Resuming a replay from a checkpoint

A full replay goes through the log from its first event.  A resumed one starts after the event that
a checkpoint is anchored to, from the state that the checkpoint holds.

* `reduceEvents_append` — the reduction of two parts in a row, errors included;
* `replay_initial`, `replay_anchored` — **PROVED**: which events each replay reduces;
* `ResumesReplay`, `resumesReplay` — **PROVED**: a checkpoint of the state that the full replay
  reaches continues exactly as the full replay does.
-/

namespace Memorial

open Library

namespace EventLog

variable {Payload State : Type} {payloadHash : Payload → UInt64}

/-! ### Reducing a log in two parts -/

/-- A reduction stops at the first error, or goes on from the state of the first part. -/
theorem reduceEvents_append (reducer : State → GraphEvent Payload → Result State) (state : State)
    (events more : List (GraphEvent Payload)) :
    reduceEvents reducer state (events ++ more) =
      (reduceEvents reducer state events >>= fun reached => reduceEvents reducer reached more) := by
  induction events generalizing state with
  | nil => rfl
  | cons event rest ih =>
    rw [List.cons_append, reduceEvents, reduceEvents]
    cases reducer state event with
    | error error => rfl
    | ok next => exact ih next

/-- The events before a position, and then those up to a later one. -/
theorem reduceEvents_split (reducer : State → GraphEvent Payload → Result State) (state : State)
    (events : List (GraphEvent Payload)) {middle last : ℕ} (hle : middle ≤ last) :
    reduceEvents reducer state (events.take last) =
      (reduceEvents reducer state (events.take middle) >>= fun reached =>
        reduceEvents reducer reached ((events.drop middle).take (last - middle))) := by
  have hlast : middle + (last - middle) = last := by omega
  rw [← reduceEvents_append, ← List.take_add, hlast]

/-! ### Which events a replay reduces -/

/-- A sequence of the log, or none, ends the replay after its event. -/
def endOf (log : EventLog payloadHash) : Option EventSequence → ℕ
  | none => log.size
  | some through => through.toSize + 1

theorem lastIndex_some {log : EventLog payloadHash} {through : EventSequence}
    {event : GraphEvent Payload} (hfind : log.find through = .ok event) (first : ℕ) :
    log.lastIndex first (some through) =
      if through.toSize + 1 < first then .error endPrecedesCheckpoint
      else .ok (through.toSize + 1) := by
  rw [lastIndex, hfind]
  rfl

theorem lastIndex_some_error {log : EventLog payloadHash} {through : EventSequence}
    {error : GraphError} (hfind : log.find through = .error error) (first : ℕ) :
    log.lastIndex first (some through) = .error error := by
  rw [lastIndex, hfind]
  rfl

/-- An end that `lastIndex` accepts is the position after the event, or that after the log. -/
theorem lastIndex_of_ok {log : EventLog payloadHash} {first last : ℕ}
    {through : Option EventSequence} (h : log.lastIndex first through = .ok last) :
    last = log.endOf through := by
  cases through with
  | none => exact (Except.ok.inj h).symm
  | some through =>
    cases hfind : log.find through with
    | error error =>
      rw [lastIndex_some_error hfind] at h
      cases h
    | ok event =>
      rw [lastIndex_some hfind] at h
      split at h
      · cases h
      · exact (Except.ok.inj h).symm

/-- A full replay reduces the events up to its end. -/
theorem replay_initial (log : EventLog payloadHash) (state : State)
    (reducer : State → GraphEvent Payload → Result State) (through : Option EventSequence) :
    log.replay (.initial state) reducer through =
      (log.lastIndex 0 through >>= fun last => reduceEvents reducer state (log.events.take last)) :=
  rfl

/-- A replay from a checkpoint of the log reduces the events after the anchor. -/
theorem replay_anchored {log : EventLog payloadHash} {sequence : EventSequence}
    {event : GraphEvent Payload} (hfind : log.find sequence = .ok event) (state : State)
    (reducer : State → GraphEvent Payload → Result State) (through : Option EventSequence) :
    log.replay (.anchored state sequence event.checksum) reducer through =
      (log.lastIndex (sequence.toSize + 1) through >>= fun last =>
        reduceEvents reducer state ((log.events.drop (sequence.toSize + 1)).take
          (last - (sequence.toSize + 1)))) := by
  have hfirst : log.firstIndex (.anchored state sequence event.checksum) =
      .ok (sequence.toSize + 1) := by
    simp only [firstIndex, Checkpoint.anchored, hfind, ok_bind, ne_eq, not_true_eq_false, if_false]
    rfl
  rw [replay, hfirst, ok_bind]
  rfl

/-! ### Resuming -/

/-- The replay resumed after `sequence` does what the full replay from `state` does, where the full
replay reaches `reached` there. -/
structure ResumesReplay (log : EventLog payloadHash) (state : State)
    (reducer : State → GraphEvent Payload → Result State) (sequence : EventSequence)
    (reached : State) (origin : Checkpoint State) : Prop where
  through : ∀ through : EventSequence, sequence.toSize ≤ through.toSize →
    log.replay origin reducer (some through) =
      log.replay (.initial state) reducer (some through)
  toEnd : log.replay origin reducer none = log.replay (.initial state) reducer none
  earlier : ∀ through : EventSequence, through.toSize < sequence.toSize →
    log.replay origin reducer (some through) = .error endPrecedesCheckpoint
  unchanged : log.replay origin reducer (some sequence) = .ok reached

/-- The end of a replay through a sequence that is not before the anchor does not depend on where
the replay starts. -/
theorem lastIndex_resumed (log : EventLog payloadHash) (sequence through : EventSequence)
    (hle : sequence.toSize ≤ through.toSize) :
    log.lastIndex (sequence.toSize + 1) (some through) = log.lastIndex 0 (some through) := by
  cases hfind : log.find through with
  | error error => rw [lastIndex_some_error hfind, lastIndex_some_error hfind]
  | ok event =>
    have hend : ¬through.toSize + 1 < sequence.toSize + 1 := by omega
    rw [lastIndex_some hfind, lastIndex_some hfind, if_neg hend, if_neg (Nat.not_lt_zero _)]

/-- What the full replay reaches at the anchor, reduced on, is what the full replay reaches. -/
theorem resumed_eq {log : EventLog payloadHash} {sequence : EventSequence}
    {event : GraphEvent Payload} (hfind : log.find sequence = .ok event) {state reached : State}
    {reducer : State → GraphEvent Payload → Result State}
    (hreached : reduceEvents reducer state (log.events.take (sequence.toSize + 1)) = .ok reached)
    {through : Option EventSequence}
    (hlast : log.lastIndex (sequence.toSize + 1) through = log.lastIndex 0 through)
    (hle : sequence.toSize + 1 ≤ log.endOf through) :
    log.replay (.anchored reached sequence event.checksum) reducer through =
      log.replay (.initial state) reducer through := by
  rw [replay_anchored hfind, replay_initial, hlast]
  cases hend : log.lastIndex 0 through with
  | error error => rfl
  | ok last =>
    -- the full replay passes through the anchor
    rw [ok_bind, ok_bind, lastIndex_of_ok hend, reduceEvents_split reducer state log.events hle,
      hreached, ok_bind]

/-- **Checkpoint replay equals full replay.** -/
theorem resumesReplay {log : EventLog payloadHash} (hlog : Reachable log) {state reached : State}
    {reducer : State → GraphEvent Payload → Result State} {sequence : EventSequence}
    (hreplay : log.replay (.initial state) reducer (some sequence) = .ok reached) :
    ∃ origin, log.makeCheckpoint sequence reached = .ok origin ∧
      log.ResumesReplay state reducer sequence reached origin := by
  have hwf := wellFormed_of_reachable hlog
  cases hfind : log.find sequence with
  | error error =>
    rw [replay_initial, lastIndex_some_error hfind] at hreplay
    cases hreplay
  | ok event =>
    rw [replay_initial, lastIndex_some hfind, if_neg (Nat.not_lt_zero _), ok_bind] at hreplay
    have hsize : sequence.toSize < log.size := lt_size_of_find hfind
    refine ⟨.anchored reached sequence event.checksum, ?_, ?_, ?_, ?_, ?_⟩
    · rw [makeCheckpoint, hfind]
      rfl
    · intro through hle
      exact resumed_eq hfind hreplay (lastIndex_resumed log sequence through hle)
        (Nat.succ_le_succ hle)
    · exact resumed_eq hfind hreplay rfl hsize
    · intro through hlt
      have hthrough : through.toSize < log.events.length := Nat.lt_trans hlt hsize
      have hevent := hwf.find_eq (List.getElem?_eq_getElem hthrough)
      rw [replay_anchored hfind, lastIndex_some hevent, if_pos (by omega), error_bind]
    · rw [replay_anchored hfind, lastIndex_some hfind, if_neg (Nat.lt_irrefl _), ok_bind,
        Nat.sub_self, List.take_zero]
      rfl

/-- Amounts are added up, up to a limit. -/
def addUpTo (limit : Int32) (sum : Int32) (event : GraphEvent Int32) : Result Int32 :=
  if limit < sum + event.fields.payload then .error { code := .conflict }
  else .ok (sum + event.fields.payload)

theorem resumesReplay_twoAmounts :
    ∃ origin, (twoAmounts 2 97).makeCheckpoint ⟨0⟩ 3 = .ok origin ∧
      (twoAmounts 2 97).ResumesReplay 1 (addUpTo 7) ⟨0⟩ 3 origin :=
  resumesReplay ⟨_, rfl⟩ rfl

end EventLog

end Memorial
