import Memorial.Runtime.EventLog

/-!
# Runs of the event log

Every run of appends, with any arguments, in any order, the refused calls included.

* `acceptedSequences` — what the accepted appends of a run return;
* `ReferencesEnd` — following the previous references from an event comes to an end;
* `RunFacts`, `runFacts` — **PROVED**: what holds of the log that a run builds, and of what the run
  returned.
-/

namespace Memorial

open Library

namespace EventLog

variable {Payload : Type} {payloadHash : Payload → UInt64}

/-- The sequence that an append returns, if it is accepted. -/
def accepted (log : EventLog payloadHash) (call : AppendCall Payload) : Option EventSequence :=
  (log.append call).1.toOption

/-- The sequences that the accepted appends of a run on a new log return, in order. -/
def acceptedSequences (payloadHash : Payload → UInt64) (calls : List (AppendCall Payload)) :
    List EventSequence :=
  outputs step accepted (empty : EventLog payloadHash) calls

/-- An append adds exactly one event, after the ones the log has. -/
def Extends (log later : EventLog payloadHash) : Prop :=
  ∃ event, later = ⟨log.events ++ [event]⟩

/-- Following the previous references from the event, looking each one up, comes to an end. -/
inductive ReferencesEnd (log : EventLog payloadHash) : GraphEvent Payload → Prop
  | first {event : GraphEvent Payload} (hprevious : event.fields.previous = none) :
      ReferencesEnd log event
  | next {event earlier : GraphEvent Payload} {previous : EventSequence}
      (hprevious : event.fields.previous = some previous)
      (hfind : log.find previous = .ok earlier) (hend : ReferencesEnd log earlier) :
      ReferencesEnd log event

/-! ### One step -/

/-- The sequences of the events, by position. -/
def sequences (log : EventLog payloadHash) : List EventSequence :=
  (List.range log.size).map .ofSize

/-- An append that is accepted returns the sequence of the event it adds. -/
theorem sequences_step (log : EventLog payloadHash) (call : AppendCall Payload) :
    (log.step call).sequences = log.sequences ++ (log.accepted call).toList := by
  rw [EventLog.step, accepted]
  rcases log.append_cases call with ⟨haccepts, happend⟩ | ⟨error, happend⟩
  · rw [happend]
    show List.map _ (List.range (log.events ++ [log.nextEvent call]).length) = _
    rw [List.length_append, List.length_singleton, List.range_succ, List.map_append]
    rfl
  · rw [happend]
    exact (List.append_nil _).symm

/-- An append that is accepted adds one event; one that is refused changes nothing. -/
theorem append_extends (log : EventLog payloadHash) (call : AppendCall Payload) :
    (∃ sequence, (log.append call).1 = .ok sequence ∧ log.Extends (log.append call).2) ∨
      ∃ error, log.append call = (.error error, log) := by
  rcases log.append_cases call with ⟨haccepts, happend⟩ | hrefused
  · refine Or.inl ⟨.ofSize log.size, ?_, log.nextEvent call, ?_⟩
    · rw [happend]
    · rw [happend]
  · exact Or.inr hrefused

/-- What is found stays found, whatever is appended. -/
theorem WellFormed.find_step {log : EventLog payloadHash} (h : log.WellFormed)
    {sequence : EventSequence} {event : GraphEvent Payload}
    (hfind : log.find sequence = .ok event) (call : AppendCall Payload) :
    (log.step call).find sequence = .ok event := by
  refine (h.step call).find_eq ?_
  have hevent := getElem?_of_find hfind
  rw [EventLog.step]
  rcases log.append_cases call with ⟨haccepts, happend⟩ | ⟨error, happend⟩
  · rw [happend]
    exact (List.getElem?_append_left (lt_size_of_find hfind)).trans hevent
  · rw [happend]
    exact hevent

/-! ### The references of an event -/

/-- In a well-formed log the references end: each one is to an earlier position. -/
theorem WellFormed.referencesEnd {log : EventLog payloadHash} (h : log.WellFormed) :
    ∀ (index : ℕ) (event : GraphEvent Payload), log.events[index]? = some event →
      log.ReferencesEnd event := by
  intro index
  induction index using Nat.strong_induction_on with
  | _ index ih =>
    intro event hevent
    cases hprevious : event.fields.previous with
    | none => exact .first hprevious
    | some previous =>
      have hlt : previous.toSize < index := (h.events index event hevent).previous _ hprevious
      have hsize : previous.toSize < log.events.length :=
        Nat.lt_trans hlt (List.getElem?_eq_some_iff.mp hevent).1
      have hearlier := List.getElem?_eq_getElem hsize
      exact .next hprevious (h.find_eq hearlier) (ih _ hlt _ hearlier)

/-- In a well-formed log `find` succeeds exactly for the sequences of its events. -/
theorem WellFormed.find_iff {log : EventLog payloadHash} (h : log.WellFormed)
    (sequence : EventSequence) :
    (∃ event, log.find sequence = .ok event) ↔ sequence ∈ log.sequences := by
  rw [sequences, List.mem_map]
  constructor
  · intro hfound
    obtain ⟨event, hfind⟩ := hfound
    exact ⟨sequence.toSize, List.mem_range.mpr (lt_size_of_find hfind),
      StrongId.ofSize_toSize sequence⟩
  · intro hmem
    obtain ⟨index, hindex, rfl⟩ := hmem
    have hlt : index < log.size := List.mem_range.mp hindex
    have hsequence : (StrongId.ofSize index : EventSequence).toSize = index :=
      StrongId.toSize_ofSize (Nat.lt_of_lt_of_le hlt h.size_le)
    refine ⟨log.events[index], h.find_eq ?_⟩
    rw [hsequence]
    exact List.getElem?_eq_getElem hlt

/-! ### The whole run -/

/-- What holds of a log and of the sequences that the run building it returned. -/
structure RunFacts (log : EventLog payloadHash) (returned : List EventSequence) : Prop where
  events : ∀ index event, log.events[index]? = some event → EventAt payloadHash index event
  monotone : log.events.Pairwise
    (fun earlier later => earlier.fields.recordedTime ≤ later.fields.recordedTime)
  previous_lt : ∀ event ∈ log.events, ∀ previous, event.fields.previous = some previous →
    previous.toSize < event.fields.sequence.toSize
  referencesEnd : ∀ event ∈ log.events, log.ReferencesEnd event
  find_iff : ∀ sequence, (∃ event, log.find sequence = .ok event) ↔ sequence ∈ returned
  append : ∀ call, (∃ sequence, (log.append call).1 = .ok sequence ∧
      log.Extends (log.append call).2) ∨
    ∃ error, log.append call = (.error error, log)

/-- The run returns the sequences of the events, in order. -/
theorem acceptedSequences_eq (calls : List (AppendCall Payload)) :
    acceptedSequences payloadHash calls =
      (run step (empty : EventLog payloadHash) calls).sequences := by
  have hempty : ([] : List EventSequence) = (empty : EventLog payloadHash).sequences := rfl
  have hrun := run_outputs_invariant step accepted
    (fun (log : EventLog payloadHash) returned => returned = log.sequences)
    (fun log returned call h => by rw [h, sequences_step]) calls hempty
  rw [List.nil_append] at hrun
  exact hrun

/-- **The invariant of the event log over whole runs.** -/
theorem runFacts (payloadHash : Payload → UInt64) (calls : List (AppendCall Payload)) :
    RunFacts (run step (empty : EventLog payloadHash) calls)
      (acceptedSequences payloadHash calls) := by
  have h : (run step (empty : EventLog payloadHash) calls).WellFormed :=
    wellFormed_of_reachable ⟨calls, rfl⟩
  refine ⟨h.events, h.monotone, ?_, ?_, ?_, append_extends _⟩
  · intro event hevent previous hprevious
    obtain ⟨index, hindex⟩ := List.mem_iff_getElem?.mp hevent
    have hat := h.events index event hindex
    have hsize : index < StrongId.capacity 64 :=
      Nat.lt_of_lt_of_le (List.getElem?_eq_some_iff.mp hindex).1 h.size_le
    rw [hat.sequence, StrongId.toSize_ofSize hsize]
    exact hat.previous previous hprevious
  · intro event hevent
    obtain ⟨index, hindex⟩ := List.mem_iff_getElem?.mp hevent
    exact h.referencesEnd index event hindex
  · intro sequence
    rw [acceptedSequences_eq]
    exact h.find_iff sequence

end EventLog

end Memorial
