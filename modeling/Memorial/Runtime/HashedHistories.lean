import Memorial.Library.Simulation
import Memorial.Runtime.CanonicalFloats
import Memorial.Runtime.Chronicle

/-!
# Histories that hash alike

The bytes that a canonical hash is of say all that later calls can show.  Two logs that feed the
same bytes may differ in checksums and in what floating point forgets; whatever is called on both
afterwards returns the same, and leaves logs that feed the same bytes again.

* `SameLog` — what equal canonical bytes say of two logs;
* `SameLog.append` — **PROVED**: one append to both;
* `SameHistory`, `SameHistory.apply` — **PROVED**: one call on both histories, by the parts of the
  history that a call reads;
* `same_bytes_same_future` — **PROVED**: every run of calls, and every answer after it.
-/

namespace Memorial

open Library

/-! ### Logs -/

section Events

variable {Payload : Type} {same : Payload → Payload → Prop} {a b : GraphEvent Payload}

theorem SameEvent.sequence_eq (h : SameEvent same a b) : a.fields.sequence = b.fields.sequence :=
  by rw [← h.fields]; rfl

theorem SameEvent.recordedTime_eq (h : SameEvent same a b) :
    a.fields.recordedTime = b.fields.recordedTime :=
  by rw [← h.fields]; rfl

theorem SameEvent.worldline_eq (h : SameEvent same a b) :
    a.fields.worldline = b.fields.worldline :=
  by rw [← h.fields]; rfl

end Events

namespace EventLog

variable {Payload : Type} {hash hash' : Payload → UInt64} {same : Payload → Payload → Prop}

/-- Logs whose events agree in what the canonical bytes keep. -/
def SameLog (same : Payload → Payload → Prop) (first : EventLog hash) (second : EventLog hash') :
    Prop :=
  List.Forall₂ (SameEvent same) first.events second.events

variable {first : EventLog hash} {second : EventLog hash'}

theorem SameLog.size_eq (h : SameLog same first second) : first.size = second.size := h.length_eq

theorem SameLog.regresses_eq (h : SameLog same first second) (recordedTime : Timestamp) :
    first.regresses recordedTime = second.regresses recordedTime := by
  -- the last events are the first of the reversed logs
  have hreverse := List.forall₂_reverse_iff.mpr h
  rw [regresses, regresses, List.getLast?_eq_head?_reverse, List.getLast?_eq_head?_reverse]
  generalize first.events.reverse = earlier at hreverse ⊢
  generalize second.events.reverse = earlier' at hreverse ⊢
  cases hreverse with
  | nil => rfl
  | cons hlast _ => simp only [List.head?_cons, Option.any_some, hlast.recordedTime_eq]

/-- **One append to both logs** returns the same, and leaves logs that agree. -/
theorem SameLog.append (h : SameLog same first second) {call : AppendCall Payload}
    (hpayload : same call.payload call.payload) :
    (first.append call).1 = (second.append call).1 ∧
      SameLog same (first.append call).2 (second.append call).2 := by
  have hdangles : first.dangles call.previous = second.dangles call.previous := by
    rw [dangles, dangles, h.size_eq]
  rw [EventLog.append, EventLog.append, h.size_eq, h.regresses_eq, hdangles]
  split_ifs
  · exact ⟨rfl, h⟩
  · exact ⟨rfl, h⟩
  · exact ⟨rfl, h⟩
  · exact ⟨rfl, h⟩
  · refine ⟨rfl, List.rel_append h (.cons ⟨hpayload, ?_, rfl⟩ .nil)⟩
    show _ = second.nextFields call
    rw [nextFields, ← h.size_eq]
    rfl

end EventLog

/-! ### Histories -/

namespace MemoryHistory

variable {Tag : Type} {width : ℕ} {Value : Type} {hashes hashes' : RevisionHashes Value}
  {same : Value → Value → Prop}

/-- Histories whose events agree in what the canonical bytes keep. -/
def SameHistory (same : Value → Value → Prop) (first : MemoryHistory Tag width hashes)
    (second : MemoryHistory Tag width hashes') : Prop :=
  EventLog.SameLog (SameRevision same) first.log second.log

theorem keyOf_eq {a b : RevisionEvent Tag width Value} (h : SameEvent (SameRevision same) a b) :
    keyOf a = keyOf b := by
  rw [keyOf, keyOf, h.payload.memory, h.payload.perspective, h.worldline_eq]

section SameHistory

variable {first : MemoryHistory Tag width hashes} {second : MemoryHistory Tag width hashes'}

theorem SameHistory.hasRevision_eq (h : SameHistory same first second)
    (key : RevisionKey Tag width) : first.hasRevision key = second.hasRevision key := by
  refine any_rel h ?_
  intro a b hab
  rw [keyOf_eq hab]

theorem SameHistory.latestSequence_eq (h : SameHistory same first second)
    (key : RevisionKey Tag width) (recordedTime : Timestamp) :
    first.latestSequence key recordedTime = second.latestSequence key recordedTime := by
  refine lastLoop_rel h ?_ ?_
  · intro a b hab
    rw [keyOf_eq hab, hab.recordedTime_eq]
  · intro a b hab
    exact hab.sequence_eq

theorem SameHistory.append (h : SameHistory same first second) (kind : EventKind)
    {call : RevisionCall Tag width Value} (hvalue : same call.value call.value)
    (previous : Option EventSequence) :
    (first.append kind call previous).1 = (second.append kind call previous).1 ∧
      SameHistory same (first.append kind call previous).2
        (second.append kind call previous).2 := by
  rw [MemoryHistory.append, MemoryHistory.append]
  split_ifs
  · exact ⟨rfl, h⟩
  · exact EventLog.SameLog.append h ⟨rfl, rfl, rfl, hvalue⟩

/-- **One call on both histories** returns the same, and leaves histories that agree. -/
theorem SameHistory.apply (h : SameHistory same first second) {call : HistoryCall Tag width Value}
    (hvalue : same call.arguments.value call.arguments.value) :
    (first.apply call).1 = (second.apply call).1 ∧
      SameHistory same (first.apply call).2 (second.apply call).2 := by
  cases call with
  | appendOriginal arguments =>
    rw [MemoryHistory.apply, MemoryHistory.apply, appendOriginal, appendOriginal, h.hasRevision_eq]
    split_ifs
    · exact ⟨rfl, h⟩
    · exact h.append _ hvalue _
  | reinterpret arguments =>
    rw [MemoryHistory.apply, MemoryHistory.apply, reinterpret, reinterpret, h.latestSequence_eq]
    split
    · exact ⟨rfl, h⟩
    · exact h.append _ hvalue _

/-- **A run of calls on both histories.**  By induction on the calls. -/
theorem SameHistory.run (hsame : ∀ value, same value value)
    (calls : List (HistoryCall Tag width Value)) {first : MemoryHistory Tag width hashes}
    {second : MemoryHistory Tag width hashes'} (h : SameHistory same first second) :
    first.returns calls = second.returns calls ∧
      SameHistory same (Library.run step first calls) (Library.run step second calls) := by
  induction calls generalizing first second with
  | nil => exact ⟨rfl, h⟩
  | cons call rest ih =>
    obtain ⟨hreturned, hstep⟩ := h.apply (hsame call.arguments.value)
    obtain ⟨hreturns, hrun⟩ := ih hstep
    refine ⟨?_, hrun⟩
    show [(first.apply call).1] ++ (first.step call).returns rest =
      [(second.apply call).1] ++ (second.step call).returns rest
    rw [hreturned]
    exact congrArg _ hreturns

/-- The same error, or values that correspond. -/
inductive SameAnswer {α β : Type} (rel : α → β → Prop) : Result α → Result β → Prop
  | error (error : GraphError) : SameAnswer rel (.error error) (.error error)
  | ok {a : α} {b : β} (h : rel a b) : SameAnswer rel (.ok a) (.ok b)

/-- **Both histories give the same answers.** -/
theorem SameHistory.revisionAt (h : SameHistory same first second) (key : RevisionKey Tag width)
    (validAt knownAt : Timestamp) :
    SameAnswer (SameEvent (SameRevision same)) (first.revisionAt key validAt knownAt)
      (second.revisionAt key validAt knownAt) := by
  have hbest : Option.Rel (SameEvent (SameRevision same))
      (bestLoop (isVisible key validAt knownAt) supersedes first.log.events)
      (bestLoop (isVisible key validAt knownAt) supersedes second.log.events) := by
    refine bestLoop_rel h ?_ ?_
    · intro a b hab
      rw [isVisible, isVisible, keyOf_eq hab, hab.recordedTime_eq, hab.payload.valid]
    · intro a b a' b' hab hab'
      rw [supersedes, supersedes, hab.recordedTime_eq, hab'.recordedTime_eq, hab.sequence_eq,
        hab'.sequence_eq]
  rw [MemoryHistory.revisionAt, MemoryHistory.revisionAt]
  split_ifs
  · exact .error _
  · generalize bestLoop (isVisible key validAt knownAt) supersedes first.log.events =
      selected at hbest
    generalize bestLoop (isVisible key validAt knownAt) supersedes second.log.events =
      selected' at hbest
    cases hbest with
    | none => exact .error _
    | some hselected => exact .ok hselected

end SameHistory

/-- **Histories that hash alike behave alike.**  If two histories, kept under any hashes of the
values, feed the same canonical bytes, then whatever is called on both afterwards returns the same,
and every question is answered by the same error or by events that agree but for their checksums,
and for the signs of zeros and the bits of NaNs in their values. -/
theorem same_bytes_same_future {size : ℕ} (hsize : size ≤ 8) {valueBytes : Value → List UInt8}
    (h : FloatingEncoding Value valueBytes same)
    (calls calls' more : List (HistoryCall Tag (8 * size) Value))
    (hbytes : (run step (empty : MemoryHistory Tag (8 * size) hashes) calls).log.canonicalBytes
        (memoryRevisionBytes size valueBytes) =
      (run step (empty : MemoryHistory Tag (8 * size) hashes') calls').log.canonicalBytes
        (memoryRevisionBytes size valueBytes)) :
    (run step (empty : MemoryHistory Tag (8 * size) hashes) calls).returns more =
        (run step (empty : MemoryHistory Tag (8 * size) hashes') calls').returns more ∧
      ∀ (key : RevisionKey Tag (8 * size)) (validAt knownAt : Timestamp),
        SameAnswer (SameEvent (SameRevision same))
          ((run step (empty : MemoryHistory Tag (8 * size) hashes) (calls ++ more)).revisionAt key
            validAt knownAt)
          ((run step (empty : MemoryHistory Tag (8 * size) hashes') (calls' ++ more)).revisionAt key
            validAt knownAt) := by
  have hsame : ∀ value, same value value :=
    fun value => ((h.isCodeUpTo value value [] []).mp rfl).1
  have hencode := (FloatingEncoding.memoryRevision Tag hsize h).isCodeUpTo
  have hhistories := (EventLog.canonicalBytes_iff hencode (invariant_run calls).log
    (invariant_run calls').log).mp hbytes
  obtain ⟨hreturns, hrun⟩ := SameHistory.run hsame more hhistories
  rw [run_append, run_append]
  exact ⟨hreturns, hrun.revisionAt⟩

/-! ### A zero for the other -/

/-- The same hash for values that are fed alike, and ids that are their own hash. -/
def measureHashes : RevisionHashes EventLog.usualDouble.Carrier :=
  ⟨fun _ id => .ofNat id.toNat, fun value => .ofNat (FloatingPointType.canonical value).toNat⟩

/-- A measurement of memory 7 from perspective 1, of the times from 300 to 400. -/
def measured (value : EventLog.usualDouble.Carrier) :
    RevisionCall NodeIdTag (8 * 4) EventLog.usualDouble.Carrier where
  key := ⟨⟨7⟩, ⟨1⟩, ⟨1⟩⟩
  valid := ⟨300, 400, by decide⟩
  recordedTime := 110
  value
  source := .ofObservation (.singleton 117) (List.cons_ne_nil _ _)

/-- The history of one measurement. -/
def measuredHistory (value : EventLog.usualDouble.Carrier) :
    MemoryHistory NodeIdTag (8 * 4) measureHashes :=
  run step empty [.appendOriginal (measured value)]

/-- Histories of the two zeros feed the same bytes. -/
theorem canonicalBytes_zeros :
    (measuredHistory 0x8000000000000000).log.canonicalBytes
        (memoryRevisionBytes 4 EventLog.usualDouble.bytes) =
      (measuredHistory 0).log.canonicalBytes
        (memoryRevisionBytes 4 EventLog.usualDouble.bytes) := by
  have hencode := (FloatingEncoding.memoryRevision NodeIdTag (by decide : 4 ≤ 8)
    (.floating EventLog.usualDouble)).isCodeUpTo
  have hzero : FloatingPointType.Same (0x8000000000000000 : EventLog.usualDouble.Carrier) 0 :=
    Or.inl (FloatingPointType.equals_zero_iff.mpr (by decide))
  refine (EventLog.canonicalBytes_iff hencode (invariant_run _).log (invariant_run _).log).mpr ?_
  exact .cons ⟨⟨rfl, rfl, rfl, hzero⟩, rfl, rfl⟩ .nil

theorem same_bytes_same_future_zeros :
    (measuredHistory 0x8000000000000000).returns
        [.reinterpret (measured 0x3FF0000000000000), .appendOriginal (measured 0)] =
      (measuredHistory 0).returns
        [.reinterpret (measured 0x3FF0000000000000), .appendOriginal (measured 0)] :=
  (same_bytes_same_future (by decide) (.floating EventLog.usualDouble) _ _ _
    canonicalBytes_zeros).1

end MemoryHistory

end Memorial
