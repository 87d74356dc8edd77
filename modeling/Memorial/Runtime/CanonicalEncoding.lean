import Memorial.Runtime.CanonicalHash

/-!
# The canonical encoding is injective

* `unsignedBytes_injective` — **PROVED**: an unsigned value that fits is read back from its bytes;
* `exists_unsignedBytes` — **PROVED**: any bytes are those of a value;
* `LibraryEncoding`, `LibraryEncoding.isPrefixCode` — **PROVED**: the library's own encodings are
  prefix codes;
* `eventBytes_isPrefixCode` — **PROVED**: so is that of an event, over a prefix code for payloads;
* `SameEvents`, `canonicalEncoding_injective` — **PROVED**: logs that feed the same bytes have the
  same events.
-/

namespace Memorial

open Library

/-! ### Unsigned values -/

theorem unsignedBytes_length (size : ℕ) (value : UInt64) :
    (unsignedBytes size value).length = size := by
  induction size generalizing value with
  | zero => rfl
  | succ size ih => rw [unsignedBytes, List.length_cons, ih]

theorem toNat_lowByte (value : UInt64) : (value &&& 0xFF).toUInt8.toNat = value.toNat % 256 := by
  rw [UInt64.toNat_toUInt8, UInt64.toNat_and]
  show (value.toNat &&& (2 ^ 8 - 1)) % 2 ^ 8 = _
  rw [Nat.and_two_pow_sub_one_eq_mod, Nat.mod_mod]

theorem toNat_shiftRight_byte (value : UInt64) : (value >>> 8).toNat = value.toNat / 256 := by
  rw [UInt64.toNat_shiftRight]
  exact Nat.shiftRight_eq_div_pow value.toNat 8

/-- Values that agree in their lowest digit, and in the digits above it, agree in all of them. -/
theorem mod_pow_succ_eq {base count x y : ℕ} (hlow : x % base = y % base)
    (hhigh : x / base % base ^ count = y / base % base ^ count) :
    x % base ^ (count + 1) = y % base ^ (count + 1) := by
  rw [pow_succ, Nat.mul_comm, Nat.mod_mul, Nat.mod_mul, hlow, hhigh]

/-- The bytes tell values apart up to the size of the type. -/
theorem mod_of_unsignedBytes (size : ℕ) {x y : UInt64}
    (h : unsignedBytes size x = unsignedBytes size y) :
    x.toNat % 256 ^ size = y.toNat % 256 ^ size := by
  induction size generalizing x y with
  | zero => rw [pow_zero, Nat.mod_one, Nat.mod_one]
  | succ size ih =>
    obtain ⟨hbyte, hrest⟩ := List.cons_eq_cons.mp h
    have hlow : x.toNat % 256 = y.toNat % 256 := by
      have hbytes := congrArg UInt8.toNat hbyte
      rw [toNat_lowByte, toNat_lowByte] at hbytes
      exact hbytes
    have hhigh : x.toNat / 256 % 256 ^ size = y.toNat / 256 % 256 ^ size := by
      have hrests := ih hrest
      rw [toNat_shiftRight_byte, toNat_shiftRight_byte] at hrests
      exact hrests
    exact mod_pow_succ_eq hlow hhigh

/-- Any bytes are those of some value, by induction on the bytes. -/
theorem exists_unsignedBytes (bytes : List UInt8) (h : bytes.length ≤ 8) :
    ∃ value : UInt64, value.toNat < 256 ^ bytes.length ∧
      unsignedBytes bytes.length value = bytes := by
  induction bytes with
  | nil => exact ⟨0, by decide, rfl⟩
  | cons byte bytes ih =>
    rw [List.length_cons] at h
    obtain ⟨high, hhigh, hbytes⟩ := ih (by omega)
    have hbyte : byte.toNat < 256 := byte.toNat_lt
    have hlt : byte.toNat + 256 * high.toNat < 256 ^ (bytes.length + 1) := by
      rw [pow_succ]
      omega
    have hbound : 256 ^ (bytes.length + 1) ≤ 2 ^ 64 := by
      calc 256 ^ (bytes.length + 1) ≤ 256 ^ 8 := Nat.pow_le_pow_right (by decide) h
        _ = 2 ^ 64 := by decide
    have hvalue : (UInt64.ofNat (byte.toNat + 256 * high.toNat)).toNat =
        byte.toNat + 256 * high.toNat := UInt64.toNat_ofNat_of_lt' (Nat.lt_of_lt_of_le hlt hbound)
    refine ⟨.ofNat (byte.toNat + 256 * high.toNat), by rw [hvalue]; exact hlt, ?_⟩
    have hlow : (UInt64.ofNat (byte.toNat + 256 * high.toNat) &&& 0xFF).toUInt8 = byte := by
      refine UInt8.toNat_inj.mp ?_
      rw [toNat_lowByte, hvalue]
      omega
    have hrest : UInt64.ofNat (byte.toNat + 256 * high.toNat) >>> 8 = high := by
      refine UInt64.toNat_inj.mp ?_
      rw [toNat_shiftRight_byte, hvalue]
      omega
    rw [List.length_cons, unsignedBytes, hlow, hrest, hbytes]

/-- **An unsigned value that fits in its bytes is read back from them.** -/
theorem unsignedBytes_injective {size x y : ℕ} (hsize : size ≤ 8) (hx : x < 256 ^ size)
    (hy : y < 256 ^ size)
    (h : unsignedBytes size (.ofNat x) = unsignedBytes size (.ofNat y)) : x = y := by
  have hbound : 256 ^ size ≤ 2 ^ 64 := by
    calc 256 ^ size ≤ 256 ^ 8 := Nat.pow_le_pow_right (by decide) hsize
      _ = 2 ^ 64 := by decide
  have hmod := mod_of_unsignedBytes size h
  rw [UInt64.toNat_ofNat_of_lt' (Nat.lt_of_lt_of_le hx hbound),
    UInt64.toNat_ofNat_of_lt' (Nat.lt_of_lt_of_le hy hbound), Nat.mod_eq_of_lt hx,
    Nat.mod_eq_of_lt hy] at hmod
  exact hmod

/-- The bytes of bit patterns of one size. -/
theorem patternBytes_isPrefixCode {size : ℕ} (hsize : size ≤ 8) :
    IsPrefixCode
      (fun pattern : BitVec (8 * size) => unsignedBytes size (.ofNat pattern.toNat)) := by
  have hpow : (2 ^ 8) ^ size = 2 ^ (8 * size) := (pow_mul 2 8 size).symm
  refine .of_length (fun _ => unsignedBytes_length size _) ?_
  intro x y h
  refine BitVec.eq_of_toNat_eq (unsignedBytes_injective hsize ?_ ?_ h)
  · show x.toNat < (2 ^ 8) ^ size
    rw [hpow]
    exact x.isLt
  · show y.toNat < (2 ^ 8) ^ size
    rw [hpow]
    exact y.isLt

/-- The lengths of strings and logs, as eight bytes. -/
theorem lengthBytes_isPrefixCode :
    IsPrefixCode (fun length : Fin (2 ^ 64) => unsignedBytes 8 (.ofNat length.val)) := by
  refine .of_length (fun _ => unsignedBytes_length 8 _) ?_
  intro x y h
  exact Fin.ext (unsignedBytes_injective (Nat.le_refl 8) x.isLt y.isLt h)

/-! ### The library's own encodings -/

theorem boolBytes_isPrefixCode : IsPrefixCode boolBytes := by
  have hlength : ∀ value, (boolBytes value).length = 2 := fun _ => rfl
  refine .of_length hlength ?_
  intro a b
  cases a <;> cases b <;> decide

theorem IntegerType.bytes_isPrefixCode {α : Type} (type : IntegerType α) :
    IsPrefixCode type.bytes :=
  ((patternBytes_isPrefixCode type.size_le).comap type.bitCast_injective).const_append
    [0x02, .ofNat type.size]

theorem enumBytes_isPrefixCode {α υ : Type} {underlyingBytes : υ → List UInt8}
    (h : IsPrefixCode underlyingBytes) {toUnderlying : α → υ}
    (hinjective : Function.Injective toUnderlying) :
    IsPrefixCode (enumBytes underlyingBytes toUnderlying) :=
  h.comap hinjective

theorem stringBytes_isPrefixCode : IsPrefixCode stringBytes := by
  refine (lengthBytes_isPrefixCode.const_append [0x04]).keyed
    (fun value : ByteString => ⟨value.bytes.length, value.length_lt⟩)
    (fun value => value.bytes) ?_
  intro a b rest rest' hlength heq
  exact ByteString.ext (List.append_inj heq (congrArg Fin.val hlength)).1

theorem strongIdBytes_isPrefixCode (Tag : Type) {size : ℕ} (hsize : size ≤ 8) :
    IsPrefixCode (fun id : StrongId Tag (8 * size) => strongIdBytes size id) :=
  ((patternBytes_isPrefixCode hsize).comap (f := fun id : StrongId Tag (8 * size) => id.value)
    (fun _ _ => StrongId.ext)).const_append [0x05]

theorem timestampBytes_isPrefixCode : IsPrefixCode timestampBytes :=
  IntegerType.int64.bytes_isPrefixCode.const_append [0x06]

theorem optionalBytes_isPrefixCode {α : Type} {valueBytes : α → List UInt8}
    (h : IsPrefixCode valueBytes) : IsPrefixCode (optionalBytes valueBytes) := by
  refine (boolBytes_isPrefixCode.const_append [0x07]).keyed Option.isSome
    (fun value => value.elim [] valueBytes) ?_
  intro a b rest rest' hsome heq
  cases a with
  | none =>
    cases b with
    | none => rfl
    | some b => cases hsome
  | some a =>
    cases b with
    | none => cases hsome
    | some b => exact congrArg some (h.unique heq).1

theorem provenanceBytes_isPrefixCode : IsPrefixCode provenanceBytes := by
  have hkind : Function.Injective ProvenanceKind.underlying := by
    intro a b
    cases a <;> cases b <;> decide
  have hfields := (((enumBytes_isPrefixCode IntegerType.int32.bytes_isPrefixCode hkind).const_append
    (tagBytes "memorial.provenance.v1")).append stringBytes_isPrefixCode).append
      (optionalBytes_isPrefixCode (strongIdBytes_isPrefixCode ModelRunIdTag
        (Nat.le_refl 8)))
  refine hfields.comap (f := fun value : Provenance => ((value.kind, value.source), value.modelRun))
    ?_
  intro a b h
  injection h with hfirst hrun
  injection hfirst with hkind hsource
  exact Provenance.ext hkind hsource hrun

theorem memoryRevisionBytes_isPrefixCode {Tag Value : Type} {size : ℕ} (hsize : size ≤ 8)
    {valueBytes : Value → List UInt8} (h : IsPrefixCode valueBytes) :
    IsPrefixCode (fun revision : MemoryRevision Tag (8 * size) Value =>
      memoryRevisionBytes size valueBytes revision) := by
  have hfields := (((((strongIdBytes_isPrefixCode Tag hsize).const_append
    (tagBytes "memorial.memory_revision.v1")).append
      (strongIdBytes_isPrefixCode PerspectiveIdTag (Nat.le_refl 8))).append
        timestampBytes_isPrefixCode).append timestampBytes_isPrefixCode).append h
  refine hfields.comap (f := fun revision : MemoryRevision Tag (8 * size) Value =>
    ((((revision.memory, revision.perspective), revision.valid.fromTime), revision.valid.toTime),
      revision.value)) ?_
  intro a b h
  injection h with h hvalue
  injection h with h hto
  injection h with h hfrom
  injection h with hmemory hperspective
  exact MemoryRevision.ext hmemory hperspective (TemporalInterval.ext hfrom hto) hvalue

/-- The library's own encodings: of `bool`, integers, enumerations, strings, strong ids and
timestamps, and of optionals and memory revisions over these. -/
inductive LibraryEncoding : (α : Type) → (α → List UInt8) → Prop
  | bool : LibraryEncoding Bool boolBytes
  | integer {α : Type} (type : IntegerType α) : LibraryEncoding α type.bytes
  | enumeration {α υ : Type} {underlyingBytes : υ → List UInt8}
      (h : LibraryEncoding υ underlyingBytes) {toUnderlying : α → υ}
      (hinjective : Function.Injective toUnderlying) :
      LibraryEncoding α (enumBytes underlyingBytes toUnderlying)
  | string : LibraryEncoding ByteString stringBytes
  | strongId (Tag : Type) {size : ℕ} (hsize : size ≤ 8) :
      LibraryEncoding (StrongId Tag (8 * size)) (strongIdBytes size)
  | timestamp : LibraryEncoding Timestamp timestampBytes
  | optional {α : Type} {valueBytes : α → List UInt8} (h : LibraryEncoding α valueBytes) :
      LibraryEncoding (Option α) (optionalBytes valueBytes)
  | memoryRevision (Tag : Type) {size : ℕ} (hsize : size ≤ 8) {Value : Type}
      {valueBytes : Value → List UInt8} (h : LibraryEncoding Value valueBytes) :
      LibraryEncoding (MemoryRevision Tag (8 * size) Value) (memoryRevisionBytes size valueBytes)

/-- **The library's own encodings are injective and prefix-free.** -/
theorem LibraryEncoding.isPrefixCode {α : Type} {encode : α → List UInt8}
    (h : LibraryEncoding α encode) : IsPrefixCode encode := by
  induction h with
  | bool => exact boolBytes_isPrefixCode
  | integer type => exact type.bytes_isPrefixCode
  | enumeration _ hinjective ih => exact enumBytes_isPrefixCode ih hinjective
  | string => exact stringBytes_isPrefixCode
  | strongId Tag hsize => exact strongIdBytes_isPrefixCode Tag hsize
  | timestamp => exact timestampBytes_isPrefixCode
  | optional _ ih => exact optionalBytes_isPrefixCode ih
  | memoryRevision Tag hsize _ ih => exact memoryRevisionBytes_isPrefixCode hsize ih

/-! ### Events and logs -/

/-- What an event's bytes are about: everything but the checksum. -/
def GraphEvent.contents {Payload : Type} (event : GraphEvent Payload) :
    ChecksummedFields Payload × Provenance :=
  (event.fields, event.source)

/-- The bytes of an event, as those of its contents. -/
def contentsBytes {Payload : Type} (payloadBytes : Payload → List UInt8)
    (contents : ChecksummedFields Payload × Provenance) : List UInt8 :=
  GraphEvent.canonicalBytes payloadBytes ⟨contents.1, contents.2, 0⟩

theorem flatMap_canonicalBytes {Payload : Type} (payloadBytes : Payload → List UInt8)
    (events : List (GraphEvent Payload)) :
    events.flatMap (GraphEvent.canonicalBytes payloadBytes) =
      (events.map GraphEvent.contents).flatMap (contentsBytes payloadBytes) := by
  rw [List.flatMap_map]
  rfl

theorem contentsBytes_isPrefixCode {Payload : Type} {payloadBytes : Payload → List UInt8}
    (h : IsPrefixCode payloadBytes) : IsPrefixCode (contentsBytes payloadBytes) := by
  have hkind : Function.Injective EventKind.underlying := by
    intro a b
    cases a <;> cases b <;> decide
  have hsequence := (strongIdBytes_isPrefixCode EventSequenceTag (Nat.le_refl 8))
  have hfields := (((((((hsequence.const_append (tagBytes "memorial.graph_event.v1")).append
    (enumBytes_isPrefixCode IntegerType.uint8.bytes_isPrefixCode hkind)).append
      timestampBytes_isPrefixCode).append timestampBytes_isPrefixCode).append
        (strongIdBytes_isPrefixCode WorldlineIdTag (Nat.le_refl 8))).append h).append
          (optionalBytes_isPrefixCode hsequence)).append provenanceBytes_isPrefixCode
  refine hfields.comap (f := fun contents : ChecksummedFields Payload × Provenance =>
    (((((((contents.1.sequence, contents.1.kind), contents.1.validTime), contents.1.recordedTime),
      contents.1.worldline), contents.1.payload), contents.1.previous), contents.2)) ?_
  intro a b h
  injection h with h hsource
  injection h with h hprevious
  injection h with h hpayload
  injection h with h hworldline
  injection h with h hrecorded
  injection h with h hvalid
  injection h with hsequence hkind
  exact Prod.ext (ChecksummedFields.ext hsequence hkind hvalid hrecorded hworldline hpayload
    hprevious) hsource

namespace EventLog

variable {Payload : Type}

/-- Logs of one length whose events agree in everything but the checksum, which also depends on the
hash of each log. -/
structure SameEvents {hash hash' : Payload → UInt64} (first : EventLog hash)
    (second : EventLog hash') : Prop where
  size : first.size = second.size
  events : ∀ (index : ℕ) (a b : GraphEvent Payload), first.events[index]? = some a →
    second.events[index]? = some b → a.fields = b.fields ∧ a.source = b.source

/-- Logs that feed the same bytes have the same events, where payloads are told apart. -/
theorem sameEvents_of_canonicalBytes {payloadBytes : Payload → List UInt8}
    (h : IsPrefixCode payloadBytes) {hash hash' : Payload → UInt64} {first : EventLog hash}
    {second : EventLog hash'} (hfirst : first.WellFormed) (hsecond : second.WellFormed)
    (hbytes : first.canonicalBytes payloadBytes = second.canonicalBytes payloadBytes) :
    SameEvents first second := by
  have hcapacity : StrongId.capacity 64 < 2 ^ 64 := StrongId.capacity_lt 64
  rw [canonicalBytes, canonicalBytes, List.append_assoc, List.append_assoc] at hbytes
  obtain ⟨hlengths, hevents⟩ :=
    IntegerType.uint64.bytes_isPrefixCode.unique (List.append_cancel_left hbytes)
  -- a log is too short for its length to wrap
  have hsize : first.size = second.size := by
    have hnat := congrArg UInt64.toNat hlengths
    rw [UInt64.toNat_ofNat_of_lt' (Nat.lt_of_le_of_lt hfirst.size_le hcapacity),
      UInt64.toNat_ofNat_of_lt' (Nat.lt_of_le_of_lt hsecond.size_le hcapacity)] at hnat
    exact hnat
  have hcontents : first.events.map GraphEvent.contents =
      second.events.map GraphEvent.contents := by
    rw [flatMap_canonicalBytes, flatMap_canonicalBytes] at hevents
    refine ((contentsBytes_isPrefixCode h).flatMap_unique [] [] ?_ ?_).1
    · rw [List.length_map, List.length_map]
      exact hsize
    · rw [hevents]
  refine ⟨hsize, ?_⟩
  intro index a b ha hb
  have hindex := congrArg (fun contents => contents[index]?) hcontents
  simp only [List.getElem?_map, ha, hb, Option.map_some, Option.some.injEq] at hindex
  exact Prod.mk.inj hindex

/-- **The canonical encoding of logs is injective**, over any payloads with an injective and
prefix-free encoding, and the library's own encodings are such. -/
theorem canonicalEncoding_injective :
    (∀ (Payload : Type) (payloadBytes : Payload → List UInt8), IsPrefixCode payloadBytes →
      ∀ (hash hash' : Payload → UInt64) (first : EventLog hash) (second : EventLog hash'),
        Reachable first → Reachable second →
          first.canonicalBytes payloadBytes = second.canonicalBytes payloadBytes →
            SameEvents first second) ∧
    (∀ (α : Type) (encode : α → List UInt8), LibraryEncoding α encode → IsPrefixCode encode) := by
  constructor
  · intro Payload payloadBytes h hash hash' first second hfirst hsecond hbytes
    exact sameEvents_of_canonicalBytes h (wellFormed_of_reachable hfirst)
      (wellFormed_of_reachable hsecond) hbytes
  · intro α encode h
    exact h.isPrefixCode

/-- A log of one amount, under any hash. -/
def oneAmount (hash : Int32 → UInt64) : EventLog hash :=
  run step empty
    [{ kind := .stateAppended, validTime := 10, recordedTime := 20, worldline := ⟨1⟩, payload := 2,
       source := .ofObservation (.singleton 97) (List.cons_ne_nil _ _) }]

theorem canonicalEncoding_injective_oneAmount :
    IsPrefixCode IntegerType.int32.bytes ∧
      SameEvents (oneAmount fun _ => 0) (oneAmount fun amount => amount.toInt64.toUInt64) := by
  have h : IsPrefixCode IntegerType.int32.bytes :=
    canonicalEncoding_injective.2 Int32 _ (.integer .int32)
  exact ⟨h, canonicalEncoding_injective.1 Int32 _ h _ _ _ _ ⟨_, rfl⟩ ⟨_, rfl⟩ rfl⟩

end EventLog

end Memorial
