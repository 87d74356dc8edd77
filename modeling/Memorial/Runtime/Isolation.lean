import Memorial.Library.Simulation
import Memorial.Runtime.Chronicle

/-!
# Keys do not interfere

The interpretations of all memories, perspectives and worldlines are in one log, under one count and
one clock.  Leaving out everything about the other keys, and everything that was refused, changes
none of the answers about a key: what is left is accepted again, and says the same.

* `Chronicle.Accepts`, `apply_cases` — what a call can do to a chronicle;
* `changes_exactly` — **PROVED**: a call changes the answers on its own times and no others;
* `Abridges` — a chronicle that says the same of one key, and is no longer and no later;
* `Abridges.both`, `Abridges.longer` — **PROVED**: each call keeps it, made on both or on one;
* `keys_isolated` — **PROVED**: the calls on one key, alone, are accepted and give its answers.
-/

namespace Memorial

open Library

namespace Chronicle

variable {Tag : Type} {width : ℕ} {Value : Type}

/-! ### What a call can do -/

/-- The checks on every interpretation. -/
structure Accepts (chronicle : Chronicle Tag width Value) (call : RevisionCall Tag width Value) :
    Prop where
  memory : call.key.memory.isValid = true
  perspective : call.key.perspective.isValid = true
  worldline : call.key.worldline.isValid = true
  capacity : chronicle.length < StrongId.capacity 64
  clock : ∀ time, chronicle.clock = some time → time ≤ call.recordedTime

theorem record_of_accepts {chronicle : Chronicle Tag width Value}
    {call : RevisionCall Tag width Value} (h : chronicle.Accepts call) (kind : EventKind)
    (previous : Option EventSequence) :
    chronicle.record kind call previous = (.ok (.ofSize chronicle.length),
      chronicle.add call.key (chronicle.recollection kind call previous)) := by
  have hclock : chronicle.clock.any (fun clock => decide (call.recordedTime < clock)) = false := by
    cases htime : chronicle.clock with
    | none => rfl
    | some time => exact decide_eq_false (Int64.not_lt.mpr (h.clock time htime))
  rw [record, if_neg (by simp [h.memory, h.perspective]), if_neg (by simp [h.worldline]),
    if_neg (Nat.not_le_of_lt h.capacity), if_neg (by simp [hclock])]

theorem record_cases (chronicle : Chronicle Tag width Value) (kind : EventKind)
    (call : RevisionCall Tag width Value) (previous : Option EventSequence) :
    chronicle.Accepts call ∨
      ∃ error, chronicle.record kind call previous = (.error error, chronicle) := by
  by_cases hids : (!call.key.memory.isValid || !call.key.perspective.isValid) = true
  · exact Or.inr ⟨_, if_pos hids⟩
  by_cases hworldline : (!call.key.worldline.isValid) = true
  · exact Or.inr ⟨EventLog.worldlineMustBeValid, by rw [record, if_neg hids, if_pos hworldline]⟩
  by_cases hcapacity : StrongId.capacity 64 ≤ chronicle.length
  · refine Or.inr ⟨{ code := .capacityExceeded }, ?_⟩
    rw [record, if_neg hids, if_neg hworldline, if_pos hcapacity]
  by_cases hclock : chronicle.clock.any (fun clock => decide (call.recordedTime < clock)) = true
  · refine Or.inr ⟨EventLog.recordedTimeRegression, ?_⟩
    rw [record, if_neg hids, if_neg hworldline, if_neg hcapacity, if_pos hclock]
  · simp only [Bool.or_eq_true, Bool.not_eq_true', not_or, Bool.not_eq_false] at hids hworldline
    refine Or.inl ⟨hids.1, hids.2, hworldline, Nat.lt_of_not_le hcapacity, ?_⟩
    intro time htime
    rw [htime, Option.any_some, decide_eq_true_eq, Int64.not_lt] at hclock
    exact hclock

/-- An original where there is no chapter, or a reinterpretation of the last interpretation. -/
inductive Continues : Option (Chapter Value) → MemoryHistory.HistoryCall Tag width Value →
    EventKind → Option EventSequence → Prop
  | original (call : RevisionCall Tag width Value) :
      Continues none (.appendOriginal call) .entityCreated none
  | revision {chapter : Chapter Value} {call : RevisionCall Tag width Value}
      (hsince : ¬call.recordedTime < chapter.since) :
      Continues (some chapter) (.reinterpret call) .memoryReinterpreted (some chapter.latest)

section Apply

variable {chronicle : Chronicle Tag width Value} {call : MemoryHistory.HistoryCall Tag width Value}

theorem apply_of_continues {kind : EventKind} {previous : Option EventSequence}
    (hcontinues : Continues (chronicle.chapters call.arguments.key) call kind previous)
    (haccepts : chronicle.Accepts call.arguments) :
    chronicle.apply call = (.ok (.ofSize chronicle.length), chronicle.add call.arguments.key
      (chronicle.recollection kind call.arguments previous)) := by
  rw [← record_of_accepts haccepts]
  generalize hchapter : chronicle.chapters call.arguments.key = chapter at hcontinues
  cases hcontinues with
  | original arguments =>
    have hnone : chronicle.chapters arguments.key = none := hchapter
    rw [apply, hnone]
    rfl
  | @revision chapter arguments hsince =>
    have hsome : chronicle.chapters arguments.key = some chapter := hchapter
    rw [apply, hsome]
    exact if_neg hsince

/-- **A call continues the chapter of its key, or it returns an error and changes nothing.** -/
theorem apply_cases (chronicle : Chronicle Tag width Value)
    (call : MemoryHistory.HistoryCall Tag width Value) :
    (∃ kind previous, Continues (chronicle.chapters call.arguments.key) call kind previous ∧
      chronicle.Accepts call.arguments) ∨
    ∃ error, chronicle.apply call = (.error error, chronicle) := by
  cases call with
  | appendOriginal arguments =>
    cases hchapter : chronicle.chapters arguments.key with
    | some chapter => exact Or.inr ⟨MemoryHistory.alreadyRecorded, by rw [apply, hchapter]; rfl⟩
    | none =>
      rcases chronicle.record_cases .entityCreated arguments none with haccepts | ⟨error, herror⟩
      · refine Or.inl ⟨.entityCreated, none, ?_, haccepts⟩
        show Continues (chronicle.chapters arguments.key) _ _ _
        rw [hchapter]
        exact .original arguments
      · refine Or.inr ⟨error, ?_⟩
        rw [apply, hchapter]
        exact herror
  | reinterpret arguments =>
    cases hchapter : chronicle.chapters arguments.key with
    | none => exact Or.inr ⟨MemoryHistory.nothingToRevise, by rw [apply, hchapter]⟩
    | some chapter =>
      by_cases hsince : arguments.recordedTime < chapter.since
      · refine Or.inr ⟨MemoryHistory.nothingToRevise, ?_⟩
        rw [apply, hchapter]
        exact if_pos hsince
      · rcases chronicle.record_cases .memoryReinterpreted arguments (some chapter.latest) with
          haccepts | ⟨error, herror⟩
        · refine Or.inl ⟨.memoryReinterpreted, some chapter.latest, ?_, haccepts⟩
          show Continues (chronicle.chapters arguments.key) _ _ _
          rw [hchapter]
          exact .revision hsince
        · refine Or.inr ⟨error, ?_⟩
          rw [apply, hchapter]
          exact (if_neg hsince).trans herror

end Apply

/-! ### What a call changes -/

/-- An interpretation is believed where it says something, and nothing else changes. -/
theorem believed_add (chronicle : Chronicle Tag width Value) (key other : RevisionKey Tag width)
    (recollection : Recollection Value) (validAt knownAt : Timestamp) :
    (chronicle.add key recollection).believed other validAt knownAt =
      if other = key ∧ recollection.valid.contains validAt = true ∧
          recollection.recordedTime ≤ knownAt then some recollection
      else chronicle.believed other validAt knownAt := by
  rw [believed, chapters_add]
  by_cases hkey : other = key
  · subst hkey
    rw [Function.update_self, Option.bind_some]
    show (if (recollection.valid.contains validAt &&
      decide (recollection.recordedTime ≤ knownAt)) = true then some recollection
        else (chronicle.chapters other).elim (fun _ _ => none) Chapter.beliefs validAt knownAt) = _
    simp only [Bool.and_eq_true, decide_eq_true_eq, true_and]
    congr 1
    cases hchapter : chronicle.chapters other with
    | none => simp [believed, hchapter]
    | some chapter => simp [believed, hchapter]
  · rw [Function.update_of_ne hkey, if_neg (fun h => hkey h.1)]
    rfl

/-- The answers after an interpretation was added. -/
theorem tell_add {chronicle : Chronicle Tag width Value} {call : RevisionCall Tag width Value}
    (h : chronicle.Accepts call) (kind : EventKind) (previous : Option EventSequence)
    (key : RevisionKey Tag width) (validAt knownAt : Timestamp) :
    (chronicle.add call.key (chronicle.recollection kind call previous)).tell key validAt
        knownAt =
      if key = call.key ∧ call.valid.contains validAt = true ∧ call.recordedTime ≤ knownAt then
        .ok (chronicle.recollection kind call previous)
      else chronicle.tell key validAt knownAt := by
  have hvalid : call.key.isValid = true := by
    rw [RevisionKey.isValid, h.memory, h.perspective, h.worldline]
    rfl
  have hadded : (chronicle.add call.key (chronicle.recollection kind call previous)).believed key
      validAt knownAt =
      if key = call.key ∧ call.valid.contains validAt = true ∧ call.recordedTime ≤ knownAt then
        some (chronicle.recollection kind call previous)
      else chronicle.believed key validAt knownAt := believed_add ..
  rw [tell, tell, hadded]
  by_cases hconcerns :
      key = call.key ∧ call.valid.contains validAt = true ∧ call.recordedTime ≤ knownAt
  · rw [if_pos hconcerns, if_pos hconcerns, if_neg (by simp [hconcerns.1, hvalid])]
  · rw [if_neg hconcerns, if_neg hconcerns]

/-! ### The same chronicle, abridged -/

/-- The chapters say the same at all times, apart from the place of what they say. -/
structure SameChapter (own full : Chapter Value) : Prop where
  since : own.since = full.since
  beliefs : ∀ validAt knownAt, (own.beliefs validAt knownAt).map Recollection.toAccount =
    (full.beliefs validAt knownAt).map Recollection.toAccount

/-- The first chronicle says the same about the key, and is no longer and no later. -/
structure Abridges (key : RevisionKey Tag width) (own full : Chronicle Tag width Value) : Prop where
  length : own.length ≤ full.length
  clock : ∀ time, own.clock = some time → ∃ later, full.clock = some later ∧ time ≤ later
  chapters : Option.Rel SameChapter (own.chapters key) (full.chapters key)

theorem abridges_blank (key : RevisionKey Tag width) :
    Abridges key (blank : Chronicle Tag width Value) blank where
  length := Nat.le_refl _
  clock time htime := by cases htime
  chapters := .none

section Abridged

variable {key : RevisionKey Tag width} {own full : Chronicle Tag width Value}

/-- What the longer chronicle accepts, the abridged one accepts. -/
theorem Abridges.accepts (h : Abridges key own full) {call : RevisionCall Tag width Value}
    (haccepts : full.Accepts call) : own.Accepts call where
  memory := haccepts.memory
  perspective := haccepts.perspective
  worldline := haccepts.worldline
  capacity := Nat.lt_of_le_of_lt h.length haccepts.capacity
  clock time htime := by
    obtain ⟨later, hlater, hle⟩ := h.clock time htime
    exact Int64.le_trans hle (haccepts.clock later hlater)

/-- Chapters that say the same are continued alike. -/
theorem Continues.abridged {own full : Option (Chapter Value)}
    (h : Option.Rel SameChapter own full) {call : MemoryHistory.HistoryCall Tag width Value}
    {kind : EventKind} {previous : Option EventSequence}
    (hcontinues : Continues full call kind previous) :
    ∃ previous', Continues own call kind previous' := by
  cases hcontinues with
  | original call =>
    cases h
    exact ⟨_, .original call⟩
  | revision hsince =>
    cases h with
    | some hsame =>
      rw [← hsame.since] at hsince
      exact ⟨_, .revision hsince⟩

/-- One more interpretation in both, with the same account. -/
theorem SameChapter.extend {own full : Option (Chapter Value)}
    (h : Option.Rel SameChapter own full) {recollection recollection' : Recollection Value}
    (haccount : recollection.toAccount = recollection'.toAccount) :
    SameChapter (Chapter.extend own recollection) (Chapter.extend full recollection') := by
  have hrecorded : recollection.recordedTime = recollection'.recordedTime :=
    congrArg Account.recordedTime haccount
  have hvalid : recollection.valid = recollection'.valid := congrArg Account.valid haccount
  refine ⟨?_, ?_⟩
  · cases h with
    | none => exact hrecorded
    | some hsame => exact hsame.since
  · intro validAt knownAt
    have hconcerns : recollection.revision.concerns validAt knownAt =
        recollection'.revision.concerns validAt knownAt := by
      show (recollection.valid.contains validAt && decide (recollection.recordedTime ≤ knownAt)) = _
      rw [hrecorded, hvalid]
      rfl
    show (if recollection.revision.concerns validAt knownAt = true then some recollection
        else own.elim (fun _ _ => none) Chapter.beliefs validAt knownAt).map _ =
      (if recollection'.revision.concerns validAt knownAt = true then some recollection'
        else full.elim (fun _ _ => none) Chapter.beliefs validAt knownAt).map _
    rw [hconcerns]
    split
    · exact congrArg some haccount
    · cases h with
      | none => rfl
      | some hsame => exact hsame.beliefs validAt knownAt

/-- Where the clock shows no later time than a call that is accepted, it does so afterwards. -/
theorem clock_le_of_accepts {call : RevisionCall Tag width Value} (h : Abridges key own full)
    (haccepts : full.Accepts call) :
    ∀ time, own.clock = some time → ∃ later, some call.recordedTime = some later ∧ time ≤ later :=
  fun time htime => ⟨_, rfl, (h.accepts haccepts).clock time htime⟩

/-- **An accepted call on the key, made on both.** -/
theorem Abridges.both (h : Abridges key own full)
    {call : MemoryHistory.HistoryCall Tag width Value} (hkey : call.arguments.key = key)
    {kind : EventKind} {previous : Option EventSequence}
    (hcontinues : Continues (full.chapters call.arguments.key) call kind previous)
    (haccepts : full.Accepts call.arguments) :
    (own.apply call).1 = .ok (.ofSize own.length) ∧
      Abridges key (own.step call) (full.step call) := by
  subst hkey
  obtain ⟨previous', hcontinues'⟩ := hcontinues.abridged h.chapters
  have hown := apply_of_continues hcontinues' (h.accepts haccepts)
  have hfull := apply_of_continues hcontinues haccepts
  rw [step, step, hown, hfull]
  refine ⟨rfl, Nat.succ_le_succ h.length, ?_, ?_⟩
  · intro time htime
    exact ⟨time, htime, Int64.le_refl _⟩
  · rw [chapters_add, chapters_add, Function.update_self, Function.update_self]
    exact .some (SameChapter.extend h.chapters rfl)

/-- **Any other call, made on the longer one only.** -/
theorem Abridges.longer (h : Abridges key own full)
    {call : MemoryHistory.HistoryCall Tag width Value}
    (hother : call.arguments.key ≠ key ∨ ∃ error, (full.apply call).1 = .error error) :
    Abridges key own (full.step call) := by
  rcases full.apply_cases call with ⟨kind, previous, hcontinues, haccepts⟩ | ⟨error, herror⟩
  · have hfull := apply_of_continues hcontinues haccepts
    rw [hfull] at hother
    rcases hother with hother | ⟨error, herror⟩
    · rw [step, hfull]
      refine ⟨Nat.le_succ_of_le h.length, clock_le_of_accepts h haccepts, ?_⟩
      rw [chapters_add, Function.update_of_ne (Ne.symm hother)]
      exact h.chapters
    · cases herror
  · rw [step, herror]
    exact h

/-- What is believed of the key is the same. -/
theorem Abridges.tell (h : Abridges key own full) (validAt knownAt : Timestamp) :
    (own.tell key validAt knownAt).map Recollection.toAccount =
      (full.tell key validAt knownAt).map Recollection.toAccount := by
  have hbelieved : (own.believed key validAt knownAt).map Recollection.toAccount =
      (full.believed key validAt knownAt).map Recollection.toAccount := by
    have hchapters := h.chapters
    rw [believed, believed]
    generalize own.chapters key = chapter at hchapters ⊢
    generalize full.chapters key = chapter' at hchapters ⊢
    cases hchapters with
    | none => rfl
    | some hsame => exact hsame.beliefs validAt knownAt
  rw [Chronicle.tell, Chronicle.tell]
  split
  · rfl
  · cases hown : own.believed key validAt knownAt with
    | none =>
      rw [hown] at hbelieved
      rw [Option.map_eq_none_iff.mp hbelieved.symm]
    | some recollection =>
      rw [hown] at hbelieved
      obtain ⟨recollection', hfull, haccount⟩ := Option.map_eq_some_iff.mp hbelieved.symm
      rw [hfull]
      exact congrArg Except.ok haccount.symm

end Abridged

end Chronicle

/-! ### Histories -/

namespace MemoryHistory

variable {Tag : Type} {width : ℕ} {Value : Type} {hashes : RevisionHashes Value}

/-- The interpretation that a call is about. -/
def HistoryCall.account : HistoryCall Tag width Value → Account Value
  | .appendOriginal call => ⟨.entityCreated, call.valid, call.recordedTime, call.value, call.source⟩
  | .reinterpret call =>
    ⟨.memoryReinterpreted, call.valid, call.recordedTime, call.value, call.source⟩

theorem account_of_continues {chapter : Option (Chapter Value)}
    {call : HistoryCall Tag width Value} {kind : EventKind} {previous : Option EventSequence}
    (h : Chronicle.Continues chapter call kind previous) (chronicle : Chronicle Tag width Value) :
    (chronicle.recollection kind call.arguments previous).toAccount = call.account := by
  cases h with
  | original call => rfl
  | revision hsince => rfl

/-- **A call changes the answers on its own times.**  After any run of calls, a further one is
refused and changes nothing, or it becomes the answer about its key at all times of its interval, as
known from its recorded time on, and no other answer changes. -/
theorem changes_exactly (calls : List (HistoryCall Tag width Value))
    (call : HistoryCall Tag width Value) :
    (∃ error, (run step (empty : MemoryHistory Tag width hashes) calls).apply call =
      (.error error, run step empty calls)) ∨
    ∃ recollection : Recollection Value, recollection.toAccount = call.account ∧
      ((run step (empty : MemoryHistory Tag width hashes) calls).apply call).1 =
        .ok recollection.sequence ∧
      ∀ (key : RevisionKey Tag width) (validAt knownAt : Timestamp),
        ((run step (empty : MemoryHistory Tag width hashes) (calls ++ [call])).revisionAt key
            validAt knownAt).map recollect =
          if key = call.arguments.key ∧ call.arguments.valid.contains validAt = true ∧
              call.arguments.recordedTime ≤ knownAt then .ok recollection
          else ((run step (empty : MemoryHistory Tag width hashes) calls).revisionAt key validAt
            knownAt).map recollect := by
  have h := @invariant_run Tag width Value hashes calls
  rw [run_append, run_cons, run_nil]
  generalize run step (empty : MemoryHistory Tag width hashes) calls = history at h ⊢
  have happly := chronicle_apply h.log call
  rcases apply_cases h.log call with ⟨event, -, hadded⟩ | ⟨error, herror⟩
  · right
    rcases history.chronicle.apply_cases call with
      ⟨kind, previous, hcontinues, haccepts⟩ | ⟨error, herror⟩
    · have hchronicle := Chronicle.apply_of_continues hcontinues haccepts
      refine ⟨history.chronicle.recollection kind call.arguments previous, ?_, ?_, ?_⟩
      · exact account_of_continues hcontinues history.chronicle
      · rw [hadded]
        rfl
      · intro key validAt knownAt
        have hstep : (history.step call).chronicle = history.chronicle.step call :=
          congrArg Prod.snd happly
        rw [tell_chronicle (h.step call).log, tell_chronicle h.log, hstep, Chronicle.step,
          hchronicle]
        exact Chronicle.tell_add haccepts kind previous key validAt knownAt
    · have hreturned := congrArg Prod.fst happly
      rw [hadded, herror] at hreturned
      cases hreturned
  · exact Or.inl ⟨error, herror⟩

/-- What an event says, wherever it stands. -/
def recount (event : RevisionEvent Tag width Value) : Account Value := (recollect event).toAccount

theorem map_recount (answer : Result (RevisionEvent Tag width Value)) :
    answer.map recount = (answer.map recollect).map Recollection.toAccount := by
  cases answer <;> rfl

/-- The call, if it is on the key and is accepted. -/
def acceptedOn (key : RevisionKey Tag width) (history : MemoryHistory Tag width hashes)
    (call : HistoryCall Tag width Value) : Option (HistoryCall Tag width Value) :=
  if call.arguments.key = key ∧ (history.apply call).1.isOk = true then some call else none

/-- The history of one key: the calls on it that were accepted. -/
def callsOn (hashes : RevisionHashes Value) (key : RevisionKey Tag width)
    (calls : List (HistoryCall Tag width Value)) : List (HistoryCall Tag width Value) :=
  outputs step (acceptedOn key) (empty : MemoryHistory Tag width hashes) calls

/-- Two histories, the second of one key alone. -/
structure Isolates (key : RevisionKey Tag width) (history own : MemoryHistory Tag width hashes) :
    Prop where
  fullInvariant : history.Invariant
  ownInvariant : own.Invariant
  abridges : Chronicle.Abridges key own.chronicle history.chronicle

/-- A call that is accepted on the key is accepted in the history of the key alone. -/
theorem Isolates.accepted {key : RevisionKey Tag width}
    {history own : MemoryHistory Tag width hashes} (h : Isolates key history own)
    {call : HistoryCall Tag width Value} (hkey : call.arguments.key = key)
    (hok : (history.apply call).1.isOk = true) :
    (own.apply call).1.isOk = true ∧ Isolates key (history.step call) (own.step call) := by
  have hfull := chronicle_apply h.fullInvariant.log call
  have hown := chronicle_apply h.ownInvariant.log call
  have hreturned : (history.apply call).1 = (history.chronicle.apply call).1 :=
    congrArg Prod.fst hfull
  rcases history.chronicle.apply_cases call with
    ⟨kind, previous, hcontinues, haccepts⟩ | ⟨error, herror⟩
  · obtain ⟨hreturns, habridges⟩ := h.abridges.both hkey hcontinues haccepts
    have hreturnedOwn : (own.apply call).1 = (own.chronicle.apply call).1 := congrArg Prod.fst hown
    refine ⟨?_, h.fullInvariant.step call, h.ownInvariant.step call, ?_⟩
    · rw [hreturnedOwn, hreturns]
      rfl
    · have hfullStep : (history.step call).chronicle = history.chronicle.step call :=
        congrArg Prod.snd hfull
      have hownStep : (own.step call).chronicle = own.chronicle.step call := congrArg Prod.snd hown
      rw [hfullStep, hownStep]
      exact habridges
  · rw [hreturned, herror] at hok
    cases hok

/-- Any other call leaves what is said of the key. -/
theorem Isolates.other {key : RevisionKey Tag width}
    {history own : MemoryHistory Tag width hashes} (h : Isolates key history own)
    {call : HistoryCall Tag width Value}
    (hother : ¬(call.arguments.key = key ∧ (history.apply call).1.isOk = true)) :
    Isolates key (history.step call) own := by
  have hfull := chronicle_apply h.fullInvariant.log call
  have hreturned : (history.apply call).1 = (history.chronicle.apply call).1 :=
    congrArg Prod.fst hfull
  have hstep : (history.step call).chronicle = history.chronicle.step call :=
    congrArg Prod.snd hfull
  refine ⟨h.fullInvariant.step call, h.ownInvariant, ?_⟩
  rw [hstep]
  apply h.abridges.longer
  by_cases hkey : call.arguments.key = key
  · right
    rw [← hreturned]
    cases hresult : (history.apply call).1 with
    | error error => exact ⟨error, rfl⟩
    | ok sequence => exact absurd ⟨hkey, by rw [hresult]; rfl⟩ hother
  · exact Or.inl hkey

theorem follows_acceptedOn (key : RevisionKey Tag width) :
    Follows step (step : MemoryHistory Tag width hashes → _ → _) (acceptedOn key)
      (Isolates key) := by
  intro history own call h
  by_cases haccepted : call.arguments.key = key ∧ (history.apply call).1.isOk = true
  · rw [acceptedOn, if_pos haccepted]
    exact (h.accepted haccepted.1 haccepted.2).2
  · rw [acceptedOn, if_neg haccepted]
    exact h.other haccepted

theorem isolates_empty (key : RevisionKey Tag width) :
    Isolates key (empty : MemoryHistory Tag width hashes) empty :=
  ⟨invariant_empty, invariant_empty, Chronicle.abridges_blank key⟩

/-- **Keys do not interfere.**  Whatever calls are made, those on one key that were accepted are
accepted when they are made alone, and every question about the key has then the same answer: the
same error, or the same interpretation, of the same kind and with the same times, value and
provenance. -/
theorem keys_isolated (calls : List (HistoryCall Tag width Value)) (key : RevisionKey Tag width) :
    Meets step (fun history call => (history.apply call).1.isOk = true)
        (empty : MemoryHistory Tag width hashes) (callsOn hashes key calls) ∧
      ∀ validAt knownAt : Timestamp,
        ((run step (empty : MemoryHistory Tag width hashes)
            (callsOn hashes key calls)).revisionAt key validAt knownAt).map recount =
          ((run step (empty : MemoryHistory Tag width hashes) calls).revisionAt key validAt
            knownAt).map recount := by
  have hfollows : Follows step (step : MemoryHistory Tag width hashes → _ → _) (acceptedOn key)
      (Isolates key) := follows_acceptedOn key
  have h := run_simulates hfollows calls (isolates_empty key)
  refine ⟨?_, ?_⟩
  · apply outputs_meet hfollows _ calls (isolates_empty key)
    intro history own call call' h hcall
    rw [acceptedOn] at hcall
    split at hcall
    · rename_i haccepted
      obtain rfl := Option.some.inj hcall
      exact (h.accepted haccepted.1 haccepted.2).1
    · cases hcall
  · intro validAt knownAt
    have hanswer := h.abridges.tell validAt knownAt
    rw [← tell_chronicle h.fullInvariant.log, ← tell_chronicle h.ownInvariant.log,
      ← map_recount, ← map_recount] at hanswer
    exact hanswer

end MemoryHistory

end Memorial
