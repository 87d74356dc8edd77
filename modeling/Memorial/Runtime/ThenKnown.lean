import Memorial.Runtime.MemoryHistory

/-!
# What was known then

A history answers what was known at one time about another.  It goes through all of its events and
keeps the one that was recorded last, and of those recorded at one time the one with the greatest
sequence.

* `MemoryHistory.revisionAt` — the answer (`memory_history::at`; `at` is a word of Lean's own);
* `revisionAt_eq` — **PROVED**: the answer is the last visible event in log order;
* `visible_step`, `visible_run` — calls recorded after the time that was asked for, or about
  another key, add nothing visible;
* `ThenKnown`, `thenKnown` — **PROVED**: the answer, and that no run of such calls changes it.
-/

namespace Memorial

open Library

/-- The check on the ids in `memory_history::at`. -/
def RevisionKey.isValid {Tag : Type} {width : ℕ} (key : RevisionKey Tag width) : Bool :=
  key.memory.isValid && key.perspective.isValid && key.worldline.isValid

namespace MemoryHistory

variable {Tag : Type} {width : ℕ} {Value : Type} {hashes : RevisionHashes Value}

def notVisible : GraphError :=
  { code := .idNotFound, detail := "memory is not visible at the requested times" }

/-- The event has the key, was known at `knownAt` and holds at `validAt`. -/
def isVisible (key : RevisionKey Tag width) (validAt knownAt : Timestamp)
    (event : RevisionEvent Tag width Value) : Bool :=
  decide (keyOf event = key) && decide (event.fields.recordedTime ≤ knownAt) &&
    event.fields.payload.valid.contains validAt

/-- The event was recorded after the selected one, or at the same time with a greater sequence. -/
def supersedes (event selected : RevisionEvent Tag width Value) : Bool :=
  decide (selected.fields.recordedTime < event.fields.recordedTime) ||
    (decide (selected.fields.recordedTime = event.fields.recordedTime) &&
      decide (selected.fields.sequence.toSize < event.fields.sequence.toSize))

/-- `memory_history::at`. -/
def revisionAt (history : MemoryHistory Tag width hashes) (key : RevisionKey Tag width)
    (validAt knownAt : Timestamp) : Result (RevisionEvent Tag width Value) :=
  if !key.isValid then .error { code := .invalidId }
  else
    match bestLoop (isVisible key validAt knownAt) supersedes history.log.events with
    | none => .error notVisible
    | some selected => .ok selected

/-! ### The answer -/

/-- The visible events, in log order. -/
def visible (history : MemoryHistory Tag width hashes) (key : RevisionKey Tag width)
    (validAt knownAt : Timestamp) : List (RevisionEvent Tag width Value) :=
  history.log.events.filter (isVisible key validAt knownAt)

/-- The last visible event, or the error that there is none. -/
def lastVisible (history : MemoryHistory Tag width hashes) (key : RevisionKey Tag width)
    (validAt knownAt : Timestamp) : Result (RevisionEvent Tag width Value) :=
  match (history.visible key validAt knownAt).getLast? with
  | none => .error notVisible
  | some event => .ok event

/-- In a well-formed log every event supersedes the ones before it. -/
theorem pairwise_supersedes {history : MemoryHistory Tag width hashes}
    (h : history.log.WellFormed) :
    history.log.events.Pairwise (fun earlier later => supersedes later earlier = true) := by
  refine List.Pairwise.imp₂ ?_ h.monotone h.pairwise_sequence
  intro earlier later hrecorded hsequence
  rw [supersedes, Bool.or_eq_true, Bool.and_eq_true, decide_eq_true_eq, decide_eq_true_eq,
    decide_eq_true_eq]
  by_cases hequal : earlier.fields.recordedTime = later.fields.recordedTime
  · exact Or.inr ⟨hequal, hsequence⟩
  · exact Or.inl (Int64.lt_of_le_of_ne hrecorded hequal)

/-- **`at` returns the last visible event in log order**, or the error that there is none. -/
theorem revisionAt_eq {history : MemoryHistory Tag width hashes} (h : history.log.WellFormed)
    {key : RevisionKey Tag width} (hkey : key.isValid = true) (validAt knownAt : Timestamp) :
    history.revisionAt key validAt knownAt = history.lastVisible key validAt knownAt := by
  have hbest : bestLoop (isVisible key validAt knownAt) supersedes history.log.events =
      (history.visible key validAt knownAt).getLast? :=
    bestLoop_eq ((pairwise_supersedes h).filter _)
  rw [revisionAt, if_neg (by simp [hkey]), hbest, lastVisible]

/-! ### Later calls -/

/-- The call cannot change what was known at `knownAt` about the key. -/
def CannotChange (key : RevisionKey Tag width) (knownAt : Timestamp)
    (call : HistoryCall Tag width Value) : Prop :=
  knownAt < call.arguments.recordedTime ∨ call.arguments.key ≠ key

theorem visible_step {history : MemoryHistory Tag width hashes} (h : history.log.WellFormed)
    {key : RevisionKey Tag width} {knownAt : Timestamp} {call : HistoryCall Tag width Value}
    (hcall : CannotChange key knownAt call) (validAt : Timestamp) :
    (history.step call).visible key validAt knownAt = history.visible key validAt knownAt := by
  rw [step]
  rcases apply_cases h call with ⟨event, hadds, happly⟩ | ⟨error, happly⟩
  · have hinvisible : ¬isVisible key validAt knownAt event = true := by
      rw [isVisible, Bool.and_eq_true, Bool.and_eq_true, decide_eq_true_eq, decide_eq_true_eq,
        hadds.key, hadds.recordedTime]
      intro hvisible
      rcases hcall with hlater | hother
      · exact Int64.not_lt.mpr hvisible.1.2 hlater
      · exact hother hvisible.1.1
    rw [happly]
    show (history.log.events ++ [event]).filter _ = _
    rw [filter_concat, if_neg hinvisible]
    rfl
  · rw [happly]

theorem visible_run {history : MemoryHistory Tag width hashes} (h : history.Invariant)
    {key : RevisionKey Tag width} {knownAt : Timestamp} (validAt : Timestamp)
    (more : List (HistoryCall Tag width Value))
    (hmore : ∀ call ∈ more, CannotChange key knownAt call) :
    (run step history more).visible key validAt knownAt =
      history.visible key validAt knownAt := by
  induction more generalizing history with
  | nil => rfl
  | cons call rest ih =>
    have hcall : CannotChange key knownAt call := hmore call List.mem_cons_self
    have hrest : ∀ later ∈ rest, CannotChange key knownAt later :=
      fun later hlater => hmore later (List.mem_cons_of_mem _ hlater)
    rw [run_cons, ih (h.step call) hrest, visible_step h.log hcall validAt]

/-- The answer is the last visible event, now and after any run of calls that are recorded later or
concern another key. -/
structure ThenKnown (history : MemoryHistory Tag width hashes) (key : RevisionKey Tag width)
    (validAt knownAt : Timestamp) : Prop where
  answer : history.revisionAt key validAt knownAt = history.lastVisible key validAt knownAt
  stable : ∀ more : List (HistoryCall Tag width Value),
    (∀ call ∈ more, CannotChange key knownAt call) →
      (run step history more).revisionAt key validAt knownAt =
        history.revisionAt key validAt knownAt

/-- **Then-known answers are stable.** -/
theorem thenKnown (calls : List (HistoryCall Tag width Value)) {key : RevisionKey Tag width}
    (hkey : key.isValid = true) (validAt knownAt : Timestamp) :
    (run step (empty : MemoryHistory Tag width hashes) calls).ThenKnown key validAt knownAt := by
  have h := @invariant_run Tag width Value hashes calls
  refine ⟨revisionAt_eq h.log hkey validAt knownAt, ?_⟩
  intro more hmore
  have hlater :
      (run step (run step (empty : MemoryHistory Tag width hashes) calls) more).Invariant :=
    run_invariant step Invariant (fun _ call h => h.step call) more h
  rw [revisionAt_eq hlater.log hkey, revisionAt_eq h.log hkey, lastVisible, lastVisible,
    visible_run h validAt more hmore]

/-- Values of one byte, each its own hash, and ids that are their own hash. -/
def byteHashes : RevisionHashes UInt8 := ⟨fun _ id => .ofNat id.toNat, UInt8.toUInt64⟩

/-- An account of memory 7 from perspective 1, of the times from 100 to 200. -/
def account (recordedTime : Timestamp) (value : UInt8) : RevisionCall NodeIdTag 32 UInt8 where
  key := ⟨⟨7⟩, ⟨1⟩, ⟨1⟩⟩
  valid := ⟨100, 200, by decide⟩
  recordedTime
  value
  source := .ofObservation (.singleton 109) (List.cons_ne_nil _ _)

theorem thenKnown_account :
    (run step (empty : MemoryHistory NodeIdTag 32 byteHashes)
      [.appendOriginal (account 110 1), .reinterpret (account 150 2)]).ThenKnown
        (account 110 1).key 120 120 :=
  thenKnown _ (by decide) 120 120

/-- The first account is what was known at 120, and the second what was known at 180. -/
example : ([120, 180].map fun knownAt =>
    ((run step (empty : MemoryHistory NodeIdTag 32 byteHashes)
      [.appendOriginal (account 110 1), .reinterpret (account 150 2)]).revisionAt
        (account 110 1).key 120 knownAt).toOption.map (fun event => event.fields.payload.value)) =
    [some 1, some 2] := by
  decide

end MemoryHistory

end Memorial
