import Memorial.Library.Bitemporal
import Memorial.Runtime.ThenKnown

/-!
# Memory histories as beliefs in two times

What a memory history is for, without its log: for every key there is a map from two times, when
something holds and when it is known, to the interpretation that is believed there.  A call that is
accepted repaints the times that its interval covers, from its recorded time on.  No operation
looks at more than the key it is about, and none goes through a list of events.

* `Recollection`, `Chapter`, `Chronicle` — an interpretation, what is known of a key, and of all
  keys;
* `Chronicle.apply`, `Chronicle.tell` — the calls and the question, with the errors of the source;
* `MemoryHistory.chronicle` — what a history says, as a chronicle;
* `chronicle_apply` — **PROVED**: a call returns the same and does the same to both;
* `histories_tell_chronicles` — **PROVED**: every run of calls returns what the chronicle returns,
  and every answer after it is the chronicle's.
-/

namespace Memorial

open Library

/-! ### Chronicles -/

/-- An interpretation of a memory. -/
structure Account (Value : Type) where
  kind : EventKind
  valid : ValidInterval
  recordedTime : Timestamp
  value : Value
  source : Provenance

/-- An interpretation with its place among the others: what an event says about its key, but for its
checksum. -/
structure Recollection (Value : Type) extends Account Value where
  sequence : EventSequence
  previous : Option EventSequence

/-- The interpretation holds on its interval, and is known once it is recorded. -/
def Recollection.revision {Value : Type} (recollection : Recollection Value) :
    Revision Timestamp Timestamp (Recollection Value) :=
  ⟨recollection.valid.contains, recollection.recordedTime, recollection⟩

/-- What is known of one key: since when, the last interpretation of it, and what is believed. -/
structure Chapter (Value : Type) where
  since : Timestamp
  latest : EventSequence
  beliefs : Timestamp → Timestamp → Option (Recollection Value)

/-- The chapter with one more interpretation, or a new chapter. -/
def Chapter.extend {Value : Type} (chapter : Option (Chapter Value))
    (recollection : Recollection Value) : Chapter Value where
  since := chapter.elim recollection.recordedTime Chapter.since
  latest := recollection.sequence
  beliefs := revise (chapter.elim (fun _ _ => none) Chapter.beliefs) recollection.revision

/-- A chapter for each key, with the number of interpretations and the time of the last one. -/
@[ext]
structure Chronicle (Tag : Type) (width : ℕ) (Value : Type) where
  length : ℕ
  clock : Option Timestamp
  chapters : RevisionKey Tag width → Option (Chapter Value)

namespace Chronicle

variable {Tag : Type} {width : ℕ} {Value : Type}

def blank : Chronicle Tag width Value := ⟨0, none, fun _ => none⟩

/-- One more interpretation of the key. -/
def add (chronicle : Chronicle Tag width Value) (key : RevisionKey Tag width)
    (recollection : Recollection Value) : Chronicle Tag width Value where
  length := chronicle.length + 1
  clock := some recollection.recordedTime
  chapters := Function.update chronicle.chapters key
    (some (.extend (chronicle.chapters key) recollection))

theorem chapters_add (chronicle : Chronicle Tag width Value) (key : RevisionKey Tag width)
    (recollection : Recollection Value) :
    (chronicle.add key recollection).chapters = Function.update chronicle.chapters key
      (some (.extend (chronicle.chapters key) recollection)) := rfl

/-- The interpretation that a call adds. -/
def recollection (chronicle : Chronicle Tag width Value) (kind : EventKind)
    (call : RevisionCall Tag width Value) (previous : Option EventSequence) :
    Recollection Value where
  sequence := .ofSize chronicle.length
  kind
  valid := call.valid
  recordedTime := call.recordedTime
  value := call.value
  source := call.source
  previous

/-- An interpretation is added if the ids are valid, there is an id left, and it is not recorded
before another one. -/
def record (chronicle : Chronicle Tag width Value) (kind : EventKind)
    (call : RevisionCall Tag width Value) (previous : Option EventSequence) :
    Result EventSequence × Chronicle Tag width Value :=
  if !call.key.memory.isValid || !call.key.perspective.isValid then
    (.error { code := .invalidId }, chronicle)
  else if !call.key.worldline.isValid then (.error EventLog.worldlineMustBeValid, chronicle)
  else if StrongId.capacity 64 ≤ chronicle.length then
    (.error { code := .capacityExceeded }, chronicle)
  else if chronicle.clock.any (fun clock => decide (call.recordedTime < clock)) then
    (.error EventLog.recordedTimeRegression, chronicle)
  else
    (.ok (.ofSize chronicle.length),
      chronicle.add call.key (chronicle.recollection kind call previous))

/-- An original opens the chapter of its key; a reinterpretation continues it, where it was open at
the time. -/
def apply (chronicle : Chronicle Tag width Value) : MemoryHistory.HistoryCall Tag width Value →
    Result EventSequence × Chronicle Tag width Value
  | .appendOriginal call =>
    if (chronicle.chapters call.key).isSome then (.error MemoryHistory.alreadyRecorded, chronicle)
    else chronicle.record .entityCreated call none
  | .reinterpret call =>
    match chronicle.chapters call.key with
    | none => (.error MemoryHistory.nothingToRevise, chronicle)
    | some chapter =>
      if call.recordedTime < chapter.since then (.error MemoryHistory.nothingToRevise, chronicle)
      else chronicle.record .memoryReinterpreted call (some chapter.latest)

def step (chronicle : Chronicle Tag width Value)
    (call : MemoryHistory.HistoryCall Tag width Value) : Chronicle Tag width Value :=
  (chronicle.apply call).2

/-- What is believed of the key at two times. -/
def believed (chronicle : Chronicle Tag width Value) (key : RevisionKey Tag width)
    (validAt knownAt : Timestamp) : Option (Recollection Value) :=
  (chronicle.chapters key).bind (fun chapter => chapter.beliefs validAt knownAt)

/-- The answer to what is believed. -/
def tell (chronicle : Chronicle Tag width Value) (key : RevisionKey Tag width)
    (validAt knownAt : Timestamp) : Result (Recollection Value) :=
  if !key.isValid then .error { code := .invalidId }
  else
    match chronicle.believed key validAt knownAt with
    | none => .error MemoryHistory.notVisible
    | some recollection => .ok recollection

end Chronicle

/-! ### What a history says -/

namespace MemoryHistory

variable {Tag : Type} {width : ℕ} {Value : Type} {hashes : RevisionHashes Value}

/-- What an event says about its key. -/
def recollect (event : RevisionEvent Tag width Value) : Recollection Value where
  sequence := event.fields.sequence
  kind := event.fields.kind
  valid := event.fields.payload.valid
  recordedTime := event.fields.recordedTime
  value := event.fields.payload.value
  source := event.source
  previous := event.fields.previous

/-- The chapter that some versions make. -/
def chapterOf (versions : List (RevisionEvent Tag width Value)) : Option (Chapter Value) :=
  versions.foldl (fun chapter event => some (.extend chapter (recollect event))) none

/-- What a history says. -/
def chronicle (history : MemoryHistory Tag width hashes) : Chronicle Tag width Value where
  length := history.log.size
  clock := history.log.events.getLast?.map (fun event => event.fields.recordedTime)
  chapters key := chapterOf (history.versions key)

theorem chapterOf_concat (versions : List (RevisionEvent Tag width Value))
    (event : RevisionEvent Tag width Value) :
    chapterOf (versions ++ [event]) = some (.extend (chapterOf versions) (recollect event)) := by
  simp only [chapterOf, List.foldl_append, List.foldl_cons, List.foldl_nil]

/-- A chapter opens with the first version, and knows the last one and what all of them say. -/
structure TellsOf (chapter : Chapter Value)
    (versions : List (RevisionEvent Tag width Value)) : Prop where
  since : versions.head?.map (fun event => event.fields.recordedTime) = some chapter.since
  latest : versions.getLast?.map (fun event => event.fields.sequence) = some chapter.latest
  beliefs : chapter.beliefs = believe (versions.map (fun event => (recollect event).revision))

/-- No versions make no chapter, and versions make one that tells of them. -/
theorem chapterOf_cases (versions : List (RevisionEvent Tag width Value)) :
    (versions = [] ∧ chapterOf versions = none) ∨
      ∃ chapter, chapterOf versions = some chapter ∧ TellsOf chapter versions := by
  induction versions using List.reverseRecOn with
  | nil => exact Or.inl ⟨rfl, rfl⟩
  | append_singleton versions event ih =>
    refine Or.inr ⟨_, chapterOf_concat versions event, ?_⟩
    rcases ih with ⟨rfl, hnone⟩ | ⟨chapter, hchapter, htells⟩
    · rw [hnone]
      exact ⟨rfl, rfl, rfl⟩
    · rw [hchapter]
      refine ⟨?_, ?_, ?_⟩
      · rw [List.head?_append]
        cases hhead : versions.head? with
        | none =>
          have hsince := htells.since
          rw [hhead] at hsince
          cases hsince
        | some first =>
          have hsince := htells.since
          rw [hhead] at hsince
          exact hsince
      · rw [List.getLast?_concat]
        rfl
      · show revise chapter.beliefs _ = _
        rw [htells.beliefs, List.map_append, List.map_singleton, believe_concat]

/-- One more event is one more interpretation. -/
theorem chronicle_concat (history : MemoryHistory Tag width hashes)
    (event : RevisionEvent Tag width Value) :
    (⟨⟨history.log.events ++ [event]⟩⟩ : MemoryHistory Tag width hashes).chronicle =
      history.chronicle.add (keyOf event) (recollect event) := by
  apply Chronicle.ext
  · show (history.log.events ++ [event]).length = history.log.events.length + 1
    simp
  · show (history.log.events ++ [event]).getLast?.map _ = _
    rw [List.getLast?_concat]
    rfl
  · funext key
    rw [Chronicle.chapters_add]
    show chapterOf ((history.log.events ++ [event]).filter _) = _
    rw [filter_concat]
    by_cases hkey : keyOf event = key
    · subst hkey
      rw [if_pos (decide_eq_true rfl), chapterOf_concat, Function.update_self]
      rfl
    · rw [if_neg (by simp [hkey]), Function.update_of_ne (Ne.symm hkey)]
      rfl

/-! ### Calls -/

/-- The log and the clock refuse the same recorded times. -/
theorem clock_any (history : MemoryHistory Tag width hashes) (recordedTime : Timestamp) :
    history.chronicle.clock.any (fun clock => decide (recordedTime < clock)) =
      history.log.regresses recordedTime := by
  rw [chronicle, EventLog.regresses, Option.any_map]

/-- What the private append does, in a chronicle.  The previous reference matters only if the log
does not refuse the recorded time. -/
theorem append_chronicle (history : MemoryHistory Tag width hashes) (kind : EventKind)
    (call : RevisionCall Tag width Value) {previous previous' : Option EventSequence}
    (hprevious : history.log.regresses call.recordedTime = false →
      previous = previous' ∧ history.log.dangles previous = false) :
    Prod.map id chronicle (history.append kind call previous) =
      history.chronicle.record kind call previous' := by
  have hlength : history.chronicle.length = history.log.size := rfl
  simp only [append, Chronicle.record, EventLog.append, appendCall, clock_any, hlength]
  by_cases hids : (!call.key.memory.isValid || !call.key.perspective.isValid) = true
  · simp only [hids, if_true]
    rfl
  by_cases hworldline : (!call.key.worldline.isValid) = true
  · simp only [hids, hworldline, if_true]
    rfl
  by_cases hcapacity : StrongId.capacity 64 ≤ history.log.size
  · simp only [hids, hworldline, hcapacity, if_true]
    rfl
  by_cases hregresses : history.log.regresses call.recordedTime = true
  · simp only [hids, hworldline, hcapacity, hregresses, if_true]
    rfl
  obtain ⟨rfl, hdangles⟩ := hprevious (eq_false_of_ne_true hregresses)
  simp only [hids, hworldline, hcapacity, hregresses, hdangles, if_false, Bool.false_eq_true]
  exact Prod.ext rfl (chronicle_concat history _)

/-- There is no last version by a time exactly if every version was recorded after it. -/
theorem latestSequence_eq_none_iff {history : MemoryHistory Tag width hashes}
    {key : RevisionKey Tag width} {recordedTime : Timestamp} :
    history.latestSequence key recordedTime = none ↔
      ∀ event ∈ history.versions key, recordedTime < event.fields.recordedTime := by
  rw [latestSequence, lastLoop_eq, Option.map_eq_none_iff, List.getLast?_eq_none_iff,
    List.filter_eq_nil_iff]
  constructor
  · intro hnone event hevent
    obtain ⟨hmem, hkey⟩ := List.mem_filter.mp hevent
    have hlater := hnone event hmem
    rw [hkey, Bool.true_and, decide_eq_true_eq] at hlater
    exact Int64.not_le.mp hlater
  · intro hlater event hmem hboth
    obtain ⟨hkey, hrecorded⟩ := (Bool.and_eq_true _ _).mp hboth
    exact Int64.not_le.mpr (hlater event (List.mem_filter.mpr ⟨hmem, hkey⟩))
      (of_decide_eq_true hrecorded)

/-- That is so if the first version was. -/
theorem forall_later_iff {history : MemoryHistory Tag width hashes} (h : history.log.WellFormed)
    {key : RevisionKey Tag width} {first : RevisionEvent Tag width Value}
    (hfirst : (history.versions key).head? = some first) (recordedTime : Timestamp) :
    (∀ event ∈ history.versions key, recordedTime < event.fields.recordedTime) ↔
      recordedTime < first.fields.recordedTime := by
  obtain ⟨rest, hversions⟩ := List.head?_eq_some_iff.mp hfirst
  have hmonotone : (history.versions key).Pairwise
      (fun earlier later => earlier.fields.recordedTime ≤ later.fields.recordedTime) :=
    h.monotone.filter _
  rw [hversions] at hmonotone ⊢
  constructor
  · intro hlater
    exact hlater first List.mem_cons_self
  · intro hlater event hevent
    rcases List.mem_cons.mp hevent with rfl | hmem
    · exact hlater
    · exact Int64.lt_of_lt_of_le hlater ((List.pairwise_cons.mp hmonotone).1 event hmem)

/-- The reference to an event of the log does not dangle. -/
theorem dangles_eq_false {log : EventLog (@memoryRevisionHash Tag width Value hashes)}
    (h : log.WellFormed) {event : RevisionEvent Tag width Value} (hevent : event ∈ log.events) :
    log.dangles (some event.fields.sequence) = false := by
  obtain ⟨index, hindex⟩ := List.mem_iff_getElem?.mp hevent
  have hlt : index < log.size := (List.getElem?_eq_some_iff.mp hindex).1
  have hcapacity : index < StrongId.capacity 64 := Nat.lt_of_lt_of_le hlt h.size_le
  have hsize : event.fields.sequence.toSize = index := by
    rw [(h.events index event hindex).sequence]
    exact StrongId.toSize_ofSize hcapacity
  have hvalid : event.fields.sequence.isValid = true := by
    rw [StrongId.isValid_iff, hsize]
    exact hcapacity
  rw [EventLog.dangles, Option.any_some, hvalid, hsize]
  simpa using hlt

/-- **A call returns the same and does the same to the chronicle.** -/
theorem chronicle_apply {history : MemoryHistory Tag width hashes} (h : history.log.WellFormed)
    (call : HistoryCall Tag width Value) :
    Prod.map id chronicle (history.apply call) = history.chronicle.apply call := by
  cases call with
  | appendOriginal arguments =>
    show Prod.map id chronicle (history.appendOriginal arguments) =
      if (chapterOf (history.versions arguments.key)).isSome then _ else _
    rw [appendOriginal]
    rcases chapterOf_cases (history.versions arguments.key) with
      ⟨hnil, hnone⟩ | ⟨chapter, hchapter, htells⟩
    · have hrevision : history.hasRevision arguments.key = false := by
        rw [hasRevision, List.any_eq_false]
        exact List.filter_eq_nil_iff.mp hnil
      rw [hrevision, hnone]
      exact append_chronicle history _ _ fun _ => ⟨rfl, rfl⟩
    · have hrevision : history.hasRevision arguments.key = true := by
        by_contra hnone
        rw [hasRevision_eq_false hnone] at hchapter
        cases hchapter
      rw [hrevision, hchapter]
      rfl
  | reinterpret arguments =>
    rw [apply, reinterpret, Chronicle.apply]
    rcases chapterOf_cases (history.versions arguments.key) with
      ⟨hnil, hnone⟩ | ⟨chapter, hchapter, htells⟩
    · have hlatest : history.latestSequence arguments.key arguments.recordedTime = none := by
        rw [latestSequence_eq_none_iff, hnil]
        exact List.forall_mem_nil _
      have hchapters : history.chronicle.chapters arguments.key = none := hnone
      rw [hlatest, hchapters]
      rfl
    · obtain ⟨first, hfirst, hsince⟩ := Option.map_eq_some_iff.mp htells.since
      obtain ⟨last, hlast, hsequence⟩ := Option.map_eq_some_iff.mp htells.latest
      have hchapters : history.chronicle.chapters arguments.key = some chapter := hchapter
      have hnone : history.latestSequence arguments.key arguments.recordedTime = none ↔
          arguments.recordedTime < chapter.since := by
        rw [latestSequence_eq_none_iff, forall_later_iff h hfirst, hsince]
      rw [hchapters]
      by_cases hearlier : arguments.recordedTime < chapter.since
      · rw [hnone.mpr hearlier]
        exact (if_pos hearlier).symm
      · obtain ⟨previous, hprevious⟩ := Option.ne_none_iff_exists'.mp (mt hnone.mp hearlier)
        rw [hprevious]
        refine Eq.trans ?_ (if_neg hearlier).symm
        apply append_chronicle
        intro hregresses
        -- the log accepts the recorded time, so no version was recorded after it
        rw [latestSequence_eq (h.recordedTime_le hregresses), hlast] at hprevious
        have hlastMem : last ∈ history.log.events :=
          List.mem_of_mem_filter (List.mem_of_getLast? hlast)
        obtain rfl := Option.some.inj hprevious
        exact ⟨congrArg some hsequence, dangles_eq_false h hlastMem⟩

/-! ### Answers -/

/-- The visible events are the versions that are known and hold at the two times. -/
theorem visible_eq (history : MemoryHistory Tag width hashes) (key : RevisionKey Tag width)
    (validAt knownAt : Timestamp) :
    history.visible key validAt knownAt = (history.versions key).filter
      (fun event => (recollect event).revision.concerns validAt knownAt) := by
  rw [visible, versions, List.filter_filter]
  apply List.filter_congr
  intro event _
  show (decide (keyOf event = key) && decide (event.fields.recordedTime ≤ knownAt) &&
    event.fields.payload.valid.contains validAt) =
      (event.fields.payload.valid.contains validAt &&
        decide (event.fields.recordedTime ≤ knownAt) && decide (keyOf event = key))
  ac_rfl

/-- What the chronicle believes is what the last visible event says. -/
theorem believed_chronicle (history : MemoryHistory Tag width hashes)
    (key : RevisionKey Tag width) (validAt knownAt : Timestamp) :
    history.chronicle.believed key validAt knownAt =
      (history.visible key validAt knownAt).getLast?.map recollect := by
  have hchapters : history.chronicle.chapters key = chapterOf (history.versions key) := rfl
  rw [Chronicle.believed, hchapters, visible_eq]
  rcases chapterOf_cases (history.versions key) with ⟨hnil, -⟩ | ⟨chapter, hchapter, htells⟩
  · rw [hnil]
    rfl
  · rw [hchapter, Option.bind_some, htells.beliefs, believe_apply, List.filter_map,
      List.getLast?_map, Option.map_map]
    rfl

/-- **Every answer is the chronicle's.** -/
theorem tell_chronicle {history : MemoryHistory Tag width hashes} (h : history.log.WellFormed)
    (key : RevisionKey Tag width) (validAt knownAt : Timestamp) :
    (history.revisionAt key validAt knownAt).map recollect =
      history.chronicle.tell key validAt knownAt := by
  rw [Chronicle.tell, believed_chronicle]
  by_cases hkey : key.isValid = true
  · rw [revisionAt_eq h hkey, lastVisible, if_neg (by simp [hkey])]
    cases (history.visible key validAt knownAt).getLast? with
    | none => rfl
    | some event => rfl
  · rw [revisionAt, if_pos (by simp [hkey]), if_pos (by simp [hkey])]
    rfl

/-! ### Runs -/

/-- What the calls of a run return. -/
def returns (history : MemoryHistory Tag width hashes)
    (calls : List (HistoryCall Tag width Value)) : List (Result EventSequence) :=
  outputs step (fun history call => some (history.apply call).1) history calls

/-- And in the chronicle. -/
def chronicleReturns (chronicle : Chronicle Tag width Value)
    (calls : List (HistoryCall Tag width Value)) : List (Result EventSequence) :=
  outputs Chronicle.step (fun chronicle call => some (chronicle.apply call).1) chronicle calls

/-- **A run of calls returns the same and does the same to the chronicle.** -/
theorem run_chronicle {history : MemoryHistory Tag width hashes} (h : history.Invariant)
    (calls : List (HistoryCall Tag width Value)) :
    history.returns calls = chronicleReturns history.chronicle calls ∧
      (run step history calls).chronicle = run Chronicle.step history.chronicle calls := by
  induction calls generalizing history with
  | nil => exact ⟨rfl, rfl⟩
  | cons call rest ih =>
    have happly := chronicle_apply h.log call
    have hreturned : (history.apply call).1 = (history.chronicle.apply call).1 :=
      congrArg Prod.fst happly
    have hstep : (history.step call).chronicle = history.chronicle.step call :=
      congrArg Prod.snd happly
    obtain ⟨hreturns, hrun⟩ := ih (h.step call)
    rw [hstep] at hreturns hrun
    refine ⟨?_, hrun⟩
    show [(history.apply call).1] ++ (history.step call).returns rest = _
    rw [hreturned, hreturns]
    rfl

/-- **Memory histories tell chronicles.**  Whatever calls are made, in whatever order, with whatever
ids and times, each returns what it returns in the chronicle, the sequence or the error, and
afterwards every question is answered as the chronicle answers it. -/
theorem histories_tell_chronicles (calls : List (HistoryCall Tag width Value)) :
    returns (empty : MemoryHistory Tag width hashes) calls = chronicleReturns .blank calls ∧
      ∀ (key : RevisionKey Tag width) (validAt knownAt : Timestamp),
        ((run step (empty : MemoryHistory Tag width hashes) calls).revisionAt key validAt
          knownAt).map recollect = (run Chronicle.step .blank calls).tell key validAt knownAt := by
  have hempty : (empty : MemoryHistory Tag width hashes).Invariant := invariant_empty
  obtain ⟨hreturns, hrun⟩ := run_chronicle hempty calls
  refine ⟨hreturns, ?_⟩
  intro key validAt knownAt
  rw [tell_chronicle (invariant_run calls).log, hrun]
  rfl

end MemoryHistory

end Memorial
