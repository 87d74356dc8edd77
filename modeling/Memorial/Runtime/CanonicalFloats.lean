import Memorial.Library.CodeUpTo
import Memorial.Library.InterchangeFormat
import Memorial.Runtime.CanonicalEncoding

/-!
# Canonical floating point

The overload of `canonical_hash_append` for floating-point values feeds one pattern for the two
zeros and one for all NaNs.  Comparison is what it goes by: values that compare equal feed the same
bytes, NaNs do too, and nothing else does.

* `FloatingPointType`, `FloatingPointType.bytes` — a type with IEC 559 representation, and the
  overload;
* `canonical_eq_iff` — **PROVED**: two values are fed as one pattern exactly if they compare equal
  or are both NaN;
* `FloatingEncoding`, `isCodeUpTo` — **PROVED**: floating point below optionals and memory
  revisions;
* `canonical_bytes_forget` — **PROVED**: logs feed the same bytes exactly if they have the same
  events but for this.
-/

namespace Memorial

open Library

/-! ### The overload for floating-point values -/

/-- A floating-point type of that many bytes: IEC 559 representation, and a quiet NaN. -/
structure FloatingPointType where
  size : ℕ
  size_eq : size = 4 ∨ size = 8
  interchange : InterchangeFormat
  width_eq : interchange.width = 8 * size
  quietNan : BitVec interchange.width
  isNan_quietNan : (InterchangeFormat.value quietNan).isNan = true

namespace FloatingPointType

/-- A value of the type, by its representation. -/
abbrev Carrier (type : FloatingPointType) : Type := BitVec type.interchange.width

variable {type : FloatingPointType}

/-- `std::isnan`. -/
def isNan (value : type.Carrier) : Bool := (InterchangeFormat.value value).isNan

/-- `operator==`, which is false when an operand is NaN and does not tell the zeros apart. -/
def equals (a b : type.Carrier) : Bool :=
  Floating.compare (fun x y => decide (x = y)) (InterchangeFormat.value a)
    (InterchangeFormat.value b)

/-- The value that is fed in place of a value: `static_cast<Value>(0)` has no bit set. -/
def canonical (value : type.Carrier) : type.Carrier :=
  if equals value 0 then 0
  else if isNan value then type.quietNan
  else value

/-- The overload for floating-point types. -/
def bytes (type : FloatingPointType) (value : type.Carrier) : List UInt8 :=
  0x03 :: .ofNat type.size :: unsignedBytes type.size (.ofNat (canonical value).toNat)

/-- `float`, with whatever quiet NaN the platform has. -/
def float (quietNan : BitVec InterchangeFormat.single.width)
    (h : (InterchangeFormat.value quietNan).isNan = true) : FloatingPointType :=
  ⟨4, Or.inl rfl, .single, rfl, quietNan, h⟩

/-- `double`. -/
def double (quietNan : BitVec InterchangeFormat.double.width)
    (h : (InterchangeFormat.value quietNan).isNan = true) : FloatingPointType :=
  ⟨8, Or.inr rfl, .double, rfl, quietNan, h⟩

/-! ### What is kept of a value -/

/-- Values that compare equal, or that are both NaN. -/
def Same (a b : type.Carrier) : Prop := equals a b = true ∨ isNan a = true ∧ isNan b = true

theorem equals_iff {a b : type.Carrier} :
    equals a b = true ↔ isNan a = false ∧ isNan b = false ∧
      (InterchangeFormat.value a).extended = (InterchangeFormat.value b).extended := by
  rw [equals, Floating.compare]
  simp only [Bool.and_eq_true, Bool.not_eq_true', decide_eq_true_eq, and_assoc]
  rfl

theorem isNan_zero : isNan (0 : type.Carrier) = false := by
  have h := @InterchangeFormat.isNan_value type.interchange 0
  have hmagnitude : InterchangeFormat.magnitude (0 : type.Carrier) = 0 := Nat.zero_mod _
  rw [hmagnitude] at h
  rw [Bool.eq_false_iff]
  exact fun hnan => Nat.not_lt_zero _ (h.mp hnan)

theorem same_symm {a b : type.Carrier} (h : Same a b) : Same b a := by
  rcases h with h | ⟨ha, hb⟩
  · rw [equals_iff] at h
    exact Or.inl (equals_iff.mpr ⟨h.2.1, h.1, h.2.2.symm⟩)
  · exact Or.inr ⟨hb, ha⟩

theorem same_trans {a b c : type.Carrier} (h : Same a b) (h' : Same b c) : Same a c := by
  rcases h with h | ⟨ha, hb⟩
  · rw [equals_iff] at h
    rcases h' with h' | ⟨hb, -⟩
    · rw [equals_iff] at h'
      exact Or.inl (equals_iff.mpr ⟨h.1, h'.2.1, h.2.2.trans h'.2.2⟩)
    · rw [h.2.1] at hb
      cases hb
  · rcases h' with h' | ⟨-, hc⟩
    · rw [equals_iff, hb] at h'
      cases h'.1
    · exact Or.inr ⟨ha, hc⟩

/-- **What is fed in place of a value is the same as the value.** -/
theorem same_canonical (value : type.Carrier) : Same value (canonical value) := by
  rw [canonical]
  split
  · rename_i hzero
    exact Or.inl hzero
  · split
    · rename_i hnan
      exact Or.inr ⟨hnan, type.isNan_quietNan⟩
    · rename_i hnan
      rw [Bool.not_eq_true] at hnan
      exact Or.inl (equals_iff.mpr ⟨hnan, hnan, rfl⟩)

/-- A zero is a value that compares equal to zero. -/
theorem equals_zero_iff {value : type.Carrier} :
    equals value 0 = true ↔ InterchangeFormat.magnitude value = 0 := by
  have hmagnitude : InterchangeFormat.magnitude (0 : type.Carrier) = 0 := Nat.zero_mod _
  constructor
  · intro h
    obtain ⟨hvalue, hzero, hplace⟩ := equals_iff.mp h
    rcases (InterchangeFormat.extended_value_inj hvalue hzero).mp hplace with rfl | h
    · exact hmagnitude
    · exact h.1
  · intro h
    have hnan : isNan value = false := by
      have hvalue := InterchangeFormat.isNan_value value
      rw [h] at hvalue
      rw [Bool.eq_false_iff]
      exact fun hnan => Nat.not_lt_zero _ (hvalue.mp hnan)
    refine equals_iff.mpr ⟨hnan, isNan_zero, ?_⟩
    exact (InterchangeFormat.extended_value_inj hnan isNan_zero).mpr (Or.inr ⟨h, hmagnitude⟩)

/-- **Two values are fed as one** exactly if they compare equal or are both NaN. -/
theorem canonical_eq_iff {a b : type.Carrier} : canonical a = canonical b ↔ Same a b := by
  constructor
  · intro h
    have hb := same_symm (same_canonical b)
    rw [← h] at hb
    exact same_trans (same_canonical a) hb
  · rintro (h | ⟨ha, hb⟩)
    · obtain ⟨ha, hb, hplace⟩ := equals_iff.mp h
      rcases (InterchangeFormat.extended_value_inj ha hb).mp hplace with rfl | ⟨hzeroA, hzeroB⟩
      · rfl
      · rw [canonical, canonical, if_pos (equals_zero_iff.mpr hzeroA),
          if_pos (equals_zero_iff.mpr hzeroB)]
    · have hnotZero : ∀ value : type.Carrier, isNan value = true → ¬equals value 0 = true := by
        intro value hnan hzero
        rw [equals_iff, hnan] at hzero
        cases hzero.1
      rw [canonical, canonical, if_neg (hnotZero a ha), if_neg (hnotZero b hb), if_pos ha,
        if_pos hb]

theorem bytes_isCodeUpTo (type : FloatingPointType) :
    IsCodeUpTo (Same : type.Carrier → type.Carrier → Prop) type.bytes := by
  have hsize : type.size ≤ 8 := by
    rcases type.size_eq with h | h <;> omega
  have hpatterns := ((patternBytes_isPrefixCode hsize).isCodeUpTo.comap
    (fun value : type.Carrier => (canonical value).cast type.width_eq)).const_append
      [0x03, .ofNat type.size]
  refine hpatterns.congr ?_
  intro a b
  rw [← canonical_eq_iff, ← BitVec.toNat_inj, BitVec.toNat_cast, BitVec.toNat_cast,
    BitVec.toNat_inj]

end FloatingPointType

/-! ### Encodings over floating point -/

theorem optionalBytes_isCodeUpTo {α : Type} {valueBytes : α → List UInt8} {same : α → α → Prop}
    (h : IsCodeUpTo same valueBytes) : IsCodeUpTo (Option.Rel same) (optionalBytes valueBytes) := by
  have hflag := (boolBytes_isPrefixCode.const_append [0x07]).isCodeUpTo
  intro a b rest rest'
  show (0x07 :: boolBytes a.isSome ++ a.elim [] valueBytes) ++ rest =
    (0x07 :: boolBytes b.isSome ++ b.elim [] valueBytes) ++ rest' ↔ _
  rw [List.append_assoc, List.append_assoc]
  refine (hflag a.isSome b.isSome _ _).trans ?_
  cases a with
  | none =>
    cases b with
    | none => exact ⟨fun heq => ⟨.none, heq.2⟩, fun heq => ⟨rfl, heq.2⟩⟩
    | some b =>
      refine iff_of_false ?_ ?_
      · rintro ⟨hsome, -⟩
        cases hsome
      · rintro ⟨hrel, -⟩
        cases hrel
  | some a =>
    cases b with
    | none =>
      refine iff_of_false ?_ ?_
      · rintro ⟨hsome, -⟩
        cases hsome
      · rintro ⟨hrel, -⟩
        cases hrel
    | some b =>
      show true = true ∧ valueBytes a ++ rest = valueBytes b ++ rest' ↔ _
      rw [h a b rest rest']
      constructor
      · rintro ⟨-, hsame, hrest⟩
        exact ⟨.some hsame, hrest⟩
      · rintro ⟨hsome, hrest⟩
        cases hsome with
        | some hsame => exact ⟨rfl, hsame, hrest⟩

/-- Memory revisions that agree but for their values, which agree in what is kept. -/
structure SameRevision {Tag Value : Type} {width : ℕ} (same : Value → Value → Prop)
    (a b : MemoryRevision Tag width Value) : Prop where
  memory : a.memory = b.memory
  perspective : a.perspective = b.perspective
  valid : a.valid = b.valid
  value : same a.value b.value

theorem memoryRevisionBytes_isCodeUpTo {Tag Value : Type} {size : ℕ} (hsize : size ≤ 8)
    {valueBytes : Value → List UInt8} {same : Value → Value → Prop}
    (h : IsCodeUpTo same valueBytes) :
    IsCodeUpTo (SameRevision same)
      (fun revision : MemoryRevision Tag (8 * size) Value =>
        memoryRevisionBytes size valueBytes revision) := by
  have hfields := (((((strongIdBytes_isPrefixCode Tag hsize).const_append
    (tagBytes "memorial.memory_revision.v1")).append
      (strongIdBytes_isPrefixCode PerspectiveIdTag (Nat.le_refl 8))).append
        timestampBytes_isPrefixCode).append timestampBytes_isPrefixCode).isCodeUpTo.append h
  refine (hfields.comap (fun revision : MemoryRevision Tag (8 * size) Value =>
    ((((revision.memory, revision.perspective), revision.valid.fromTime), revision.valid.toTime),
      revision.value))).congr ?_
  intro a b
  constructor
  · rintro ⟨hheader, hvalue⟩
    injection hheader with hheader hto
    injection hheader with hheader hfrom
    injection hheader with hmemory hperspective
    exact ⟨hmemory, hperspective, TemporalInterval.ext hfrom hto, hvalue⟩
  · rintro ⟨hmemory, hperspective, hvalid, hvalue⟩
    refine ⟨?_, hvalue⟩
    show (((a.memory, a.perspective), a.valid.fromTime), a.valid.toTime) = _
    rw [hmemory, hperspective, hvalid]

/-- The library's own encodings, and those of floating point below optionals and memory revisions,
with what each keeps. -/
inductive FloatingEncoding : (α : Type) → (α → List UInt8) → (α → α → Prop) → Prop
  | exact {α : Type} {encode : α → List UInt8} (h : LibraryEncoding α encode) :
      FloatingEncoding α encode Eq
  | floating (type : FloatingPointType) :
      FloatingEncoding type.Carrier type.bytes FloatingPointType.Same
  | optional {α : Type} {valueBytes : α → List UInt8} {same : α → α → Prop}
      (h : FloatingEncoding α valueBytes same) :
      FloatingEncoding (Option α) (optionalBytes valueBytes) (Option.Rel same)
  | memoryRevision (Tag : Type) {size : ℕ} (hsize : size ≤ 8) {Value : Type}
      {valueBytes : Value → List UInt8} {same : Value → Value → Prop}
      (h : FloatingEncoding Value valueBytes same) :
      FloatingEncoding (MemoryRevision Tag (8 * size) Value) (memoryRevisionBytes size valueBytes)
        (SameRevision same)

/-- **What the encodings keep.**  By induction on the type. -/
theorem FloatingEncoding.isCodeUpTo {α : Type} {encode : α → List UInt8} {same : α → α → Prop}
    (h : FloatingEncoding α encode same) : IsCodeUpTo same encode := by
  induction h with
  | exact h => exact h.isPrefixCode.isCodeUpTo
  | floating type => exact type.bytes_isCodeUpTo
  | optional _ ih => exact optionalBytes_isCodeUpTo ih
  | memoryRevision Tag hsize _ ih => exact memoryRevisionBytes_isCodeUpTo hsize ih

/-! ### Logs -/

/-- The fields with another payload. -/
def ChecksummedFields.replacePayload {Payload : Type} (fields : ChecksummedFields Payload)
    (payload : Payload) : ChecksummedFields Payload :=
  { fields with payload }

/-- Events that agree but for their checksums, and for what is not kept of their payloads. -/
structure SameEvent {Payload : Type} (same : Payload → Payload → Prop) (a b : GraphEvent Payload) :
    Prop where
  payload : same a.fields.payload b.fields.payload
  fields : a.fields.replacePayload b.fields.payload = b.fields
  source : a.source = b.source

theorem canonicalBytes_isCodeUpTo {Payload : Type} {payloadBytes : Payload → List UInt8}
    {same : Payload → Payload → Prop} (h : IsCodeUpTo same payloadBytes) :
    IsCodeUpTo (SameEvent same) (GraphEvent.canonicalBytes payloadBytes) := by
  have hkind : Function.Injective EventKind.underlying := by
    intro a b
    cases a <;> cases b <;> decide
  have hsequence := strongIdBytes_isPrefixCode EventSequenceTag (Nat.le_refl 8)
  have hbefore := (((((hsequence.const_append (tagBytes "memorial.graph_event.v1")).append
    (enumBytes_isPrefixCode IntegerType.uint8.bytes_isPrefixCode hkind)).append
      timestampBytes_isPrefixCode).append timestampBytes_isPrefixCode).append
        (strongIdBytes_isPrefixCode WorldlineIdTag (Nat.le_refl 8))).isCodeUpTo
  have hfields := (((hbefore.append h).append
    (optionalBytes_isPrefixCode hsequence).isCodeUpTo).append
      provenanceBytes_isPrefixCode.isCodeUpTo)
  refine (hfields.comap (fun event : GraphEvent Payload =>
    (((((((event.fields.sequence, event.fields.kind), event.fields.validTime),
      event.fields.recordedTime), event.fields.worldline), event.fields.payload),
        event.fields.previous), event.source))).congr ?_
  intro a b
  constructor
  · rintro ⟨⟨⟨hheader, hpayload⟩, hprevious⟩, hsource⟩
    injection hheader with hheader hworldline
    injection hheader with hheader hrecorded
    injection hheader with hheader hvalid
    injection hheader with hsequence hkind
    exact ⟨hpayload,
      ChecksummedFields.ext hsequence hkind hvalid hrecorded hworldline rfl hprevious, hsource⟩
  · rintro ⟨hpayload, hfields, hsource⟩
    rw [← hfields]
    exact ⟨⟨⟨rfl, hpayload⟩, rfl⟩, hsource⟩

namespace EventLog

variable {Payload : Type}

/-- **Logs feed the same bytes** exactly if their events agree in what is kept. -/
theorem canonicalBytes_iff {payloadBytes : Payload → List UInt8} {same : Payload → Payload → Prop}
    (h : IsCodeUpTo same payloadBytes) {hash hash' : Payload → UInt64} {first : EventLog hash}
    {second : EventLog hash'} (hfirst : first.WellFormed) (hsecond : second.WellFormed) :
    first.canonicalBytes payloadBytes = second.canonicalBytes payloadBytes ↔
      List.Forall₂ (SameEvent same) first.events second.events := by
  have hcapacity : StrongId.capacity 64 < 2 ^ 64 := StrongId.capacity_lt 64
  have hevents : ∀ hlength : first.events.length = second.events.length,
      first.events.flatMap (GraphEvent.canonicalBytes payloadBytes) =
        second.events.flatMap (GraphEvent.canonicalBytes payloadBytes) ↔
          List.Forall₂ (SameEvent same) first.events second.events := by
    intro hlength
    have hiff := (canonicalBytes_isCodeUpTo h).flatMap_iff hlength [] []
    rw [List.append_nil, List.append_nil] at hiff
    rw [hiff]
    exact and_iff_left rfl
  rw [canonicalBytes, canonicalBytes, List.append_assoc, List.append_assoc, List.append_right_inj]
  refine (IntegerType.uint64.bytes_isPrefixCode.isCodeUpTo _ _ _ _).trans ?_
  constructor
  · rintro ⟨hlengths, hbytes⟩
    -- a log is too short for its length to wrap
    have hnat := congrArg UInt64.toNat hlengths
    rw [UInt64.toNat_ofNat_of_lt' (Nat.lt_of_le_of_lt hfirst.size_le hcapacity),
      UInt64.toNat_ofNat_of_lt' (Nat.lt_of_le_of_lt hsecond.size_le hcapacity)] at hnat
    exact (hevents hnat).mp hbytes
  · intro hforall
    have hlength := hforall.length_eq
    refine ⟨?_, (hevents hlength).mpr hforall⟩
    rw [size, size, hlength]

/-- **What canonical bytes forget.**  Two logs, recorded under any hashes, feed the same bytes
exactly if they have the same events up to checksums, the sign of zeros and the bits of NaNs: every
other part of a payload is kept, however deep in optionals and memory revisions. -/
theorem canonical_bytes_forget {payloadBytes : Payload → List UInt8}
    {same : Payload → Payload → Prop} (h : FloatingEncoding Payload payloadBytes same)
    {hash hash' : Payload → UInt64} {first : EventLog hash} {second : EventLog hash'}
    (hfirst : Reachable first) (hsecond : Reachable second) :
    first.canonicalBytes payloadBytes = second.canonicalBytes payloadBytes ↔
      List.Forall₂ (SameEvent same) first.events second.events :=
  canonicalBytes_iff h.isCodeUpTo (wellFormed_of_reachable hfirst)
    (wellFormed_of_reachable hsecond)

/-! ### Zeros and NaNs -/

/-- `double` with the usual quiet NaN. -/
def usualDouble : FloatingPointType := .double 0x7FF8000000000000 (by decide)

/-- A log of one optional measurement. -/
def oneMeasurement (measurement : usualDouble.Carrier) :
    EventLog (fun _ : Option usualDouble.Carrier => 0) :=
  run step empty
    [{ kind := .stateAppended, validTime := 10, recordedTime := 20, worldline := ⟨1⟩,
       payload := some measurement,
       source := .ofObservation (.singleton 116) (List.cons_ne_nil _ _) }]

theorem reachable_oneMeasurement (measurement : usualDouble.Carrier) :
    Reachable (oneMeasurement measurement) := ⟨_, rfl⟩

theorem floatingEncoding_measurement :
    FloatingEncoding (Option usualDouble.Carrier) (optionalBytes usualDouble.bytes)
      (Option.Rel FloatingPointType.Same) :=
  .optional (.floating usualDouble)

/-- The zeros feed the same bytes, and 1 others. -/
theorem canonical_bytes_forget_zeros :
    (oneMeasurement 0x8000000000000000).canonicalBytes (optionalBytes usualDouble.bytes) =
        (oneMeasurement 0).canonicalBytes (optionalBytes usualDouble.bytes) ∧
      (oneMeasurement 0x3FF0000000000000).canonicalBytes (optionalBytes usualDouble.bytes) ≠
        (oneMeasurement 0).canonicalBytes (optionalBytes usualDouble.bytes) := by
  have hiff : ∀ measurement : usualDouble.Carrier,
      (oneMeasurement measurement).canonicalBytes (optionalBytes usualDouble.bytes) =
        (oneMeasurement 0).canonicalBytes (optionalBytes usualDouble.bytes) ↔
          List.Forall₂ (SameEvent (Option.Rel FloatingPointType.Same))
            (oneMeasurement measurement).events (oneMeasurement 0).events :=
    fun measurement => canonical_bytes_forget floatingEncoding_measurement
      (reachable_oneMeasurement measurement) (reachable_oneMeasurement 0)
  constructor
  · have hzero : FloatingPointType.Same (0x8000000000000000 : usualDouble.Carrier) 0 :=
      Or.inl (FloatingPointType.equals_zero_iff.mpr (by decide))
    exact (hiff _).mpr (.cons ⟨.some hzero, rfl, rfl⟩ .nil)
  · intro hbytes
    obtain ⟨hevent, -⟩ := List.forall₂_cons.mp ((hiff _).mp hbytes)
    have hsame : FloatingPointType.Same (0x3FF0000000000000 : usualDouble.Carrier) 0 := by
      cases hevent.payload with
      | some hsame => exact hsame
    rcases hsame with hzero | ⟨hnan, -⟩
    · exact absurd (FloatingPointType.equals_zero_iff.mp hzero) (by decide)
    · exact absurd hnan (by decide)

end EventLog

end Memorial
