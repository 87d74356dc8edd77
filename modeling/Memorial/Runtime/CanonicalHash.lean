import Memorial.Library.PrefixCode
import Memorial.Runtime.MemoryHistory

/-!
# The canonical hash

A canonical hash is that of the bytes which the overloads of `canonical_hash_append` feed, one by
one, to a hasher.  Here every overload is the list of the bytes that it feeds.

* `CanonicalHasher` — the hasher itself;
* `boolBytes`, `IntegerType.bytes`, `enumBytes`, `stringBytes`, `strongIdBytes`, `timestampBytes`,
  `optionalBytes`, `provenanceBytes`, `memoryRevisionBytes` — the overloads, without the one for
  floating-point values;
* `EventLog.canonicalBytes`, `EventLog.canonicalHashOf` — the bytes of a log, and their hash.
-/

namespace Memorial

/-! ### The hasher -/

/-- `canonical_hasher`. -/
structure CanonicalHasher where
  value : UInt64

namespace CanonicalHasher

/-- A new hasher: `offset_basis`. -/
def initial : CanonicalHasher := ⟨14695981039346656037⟩

/-- `canonical_hasher::append_byte`. -/
def appendByte (hasher : CanonicalHasher) (byte : UInt8) : CanonicalHasher :=
  ⟨(hasher.value ^^^ byte.toUInt64) * 1099511628211⟩

/-- `canonical_hasher::append_bytes`. -/
def appendBytes (hasher : CanonicalHasher) (bytes : List UInt8) : CanonicalHasher :=
  bytes.foldl appendByte hasher

/-- The hasher is fed the bytes of one value and then those of the next. -/
theorem appendBytes_append (hasher : CanonicalHasher) (bytes more : List UInt8) :
    hasher.appendBytes (bytes ++ more) = (hasher.appendBytes bytes).appendBytes more :=
  List.foldl_append

/-- `canonical_hasher::finish`. -/
def finish (hasher : CanonicalHasher) : UInt64 := hasher.value

end CanonicalHasher

/-- The bytes of `canonical_hasher::append_unsigned` on a value of that many bytes. -/
def unsignedBytes : ℕ → UInt64 → List UInt8
  | 0, _ => []
  | size + 1, remaining => (remaining &&& 0xFF).toUInt8 :: unsignedBytes size (remaining >>> 8)

/-- The bytes of `canonical_hasher::append_tag`; tags are plain ASCII. -/
def tagBytes (tag : String) : List UInt8 :=
  0xF0 :: unsignedBytes 8 (.ofNat tag.length) ++ tag.toList.map (fun c => c.toNat.toUInt8)

/-! ### The overloads of `canonical_hash_append` -/

/-- The overload for `bool`. -/
def boolBytes (value : Bool) : List UInt8 := [0x01, if value then 1 else 0]

/-- An integral type other than `bool`: its size in bytes, and `std::bit_cast` to the unsigned type
of that size. -/
structure IntegerType (α : Type) where
  size : ℕ
  size_le : size ≤ 8
  bitCast : α → BitVec (8 * size)
  bitCast_injective : Function.Injective bitCast

namespace IntegerType

variable {α : Type}

/-- The overload for integral types. -/
def bytes (type : IntegerType α) (value : α) : List UInt8 :=
  0x02 :: .ofNat type.size :: unsignedBytes type.size (.ofNat (type.bitCast value).toNat)

/-- `std::uint8_t`. -/
def uint8 : IntegerType UInt8 := ⟨1, by decide, UInt8.toBitVec, fun _ _ => UInt8.toBitVec_inj.mp⟩
/-- `std::uint16_t`. -/
def uint16 : IntegerType UInt16 :=
  ⟨2, by decide, UInt16.toBitVec, fun _ _ => UInt16.toBitVec_inj.mp⟩
/-- `std::uint32_t`. -/
def uint32 : IntegerType UInt32 :=
  ⟨4, by decide, UInt32.toBitVec, fun _ _ => UInt32.toBitVec_inj.mp⟩
/-- `std::uint64_t`. -/
def uint64 : IntegerType UInt64 :=
  ⟨8, by decide, UInt64.toBitVec, fun _ _ => UInt64.toBitVec_inj.mp⟩
/-- `std::int8_t`. -/
def int8 : IntegerType Int8 := ⟨1, by decide, Int8.toBitVec, fun _ _ => Int8.toBitVec_inj.mp⟩
/-- `std::int16_t`. -/
def int16 : IntegerType Int16 := ⟨2, by decide, Int16.toBitVec, fun _ _ => Int16.toBitVec_inj.mp⟩
/-- `std::int32_t`. -/
def int32 : IntegerType Int32 := ⟨4, by decide, Int32.toBitVec, fun _ _ => Int32.toBitVec_inj.mp⟩
/-- `std::int64_t`. -/
def int64 : IntegerType Int64 := ⟨8, by decide, Int64.toBitVec, fun _ _ => Int64.toBitVec_inj.mp⟩

end IntegerType

/-- The overload for enumerations: that of the underlying type, which may be `bool`. -/
def enumBytes {α υ : Type} (underlyingBytes : υ → List UInt8) (toUnderlying : α → υ) (value : α) :
    List UInt8 :=
  underlyingBytes (toUnderlying value)

/-- The overload for strings. -/
def stringBytes (value : ByteString) : List UInt8 :=
  0x04 :: unsignedBytes 8 (.ofNat value.bytes.length) ++ value.bytes

/-- The overload for strong ids, of a value type of that many bytes. -/
def strongIdBytes {Tag : Type} (size : ℕ) (id : StrongId Tag (8 * size)) : List UInt8 :=
  0x05 :: unsignedBytes size (.ofNat id.value.toNat)

/-- The overload for timestamps. -/
def timestampBytes (value : Timestamp) : List UInt8 := 0x06 :: IntegerType.int64.bytes value

/-- The overload for `std::optional`, over that for its values. -/
def optionalBytes {α : Type} (valueBytes : α → List UInt8) (value : Option α) : List UInt8 :=
  0x07 :: boolBytes value.isSome ++ value.elim [] valueBytes

/-- `static_cast<int>(kind)`. -/
def ProvenanceKind.underlying : ProvenanceKind → Int32
  | .observed => 0
  | .selfReported => 1
  | .imported => 2
  | .inferred => 3
  | .simulated => 4

/-- The overload for `provenance`. -/
def provenanceBytes (value : Provenance) : List UInt8 :=
  tagBytes "memorial.provenance.v1" ++
    enumBytes IntegerType.int32.bytes ProvenanceKind.underlying value.kind ++
    stringBytes value.source ++ optionalBytes (strongIdBytes 8) value.modelRun

/-- The overload for `memory_revision`, over that for its values; the memory ids have that many
bytes. -/
def memoryRevisionBytes {Tag Value : Type} (size : ℕ) (valueBytes : Value → List UInt8)
    (revision : MemoryRevision Tag (8 * size) Value) : List UInt8 :=
  tagBytes "memorial.memory_revision.v1" ++ strongIdBytes size revision.memory ++
    strongIdBytes 8 revision.perspective ++ timestampBytes revision.valid.fromTime ++
    timestampBytes revision.valid.toTime ++ valueBytes revision.value

/-! ### Logs -/

/-- `static_cast<std::uint8_t>(kind)`. -/
def EventKind.underlying (kind : EventKind) : UInt8 := kind.value.toUInt8

/-- What `canonical_hash_of` feeds for one event of a log. -/
def GraphEvent.canonicalBytes {Payload : Type} (payloadBytes : Payload → List UInt8)
    (event : GraphEvent Payload) : List UInt8 :=
  tagBytes "memorial.graph_event.v1" ++ strongIdBytes 8 event.fields.sequence ++
    enumBytes IntegerType.uint8.bytes EventKind.underlying event.fields.kind ++
    timestampBytes event.fields.validTime ++ timestampBytes event.fields.recordedTime ++
    strongIdBytes 8 event.fields.worldline ++ payloadBytes event.fields.payload ++
    optionalBytes (strongIdBytes 8) event.fields.previous ++ provenanceBytes event.source

/-- What `canonical_hash_of` feeds for a log. -/
def EventLog.canonicalBytes {Payload : Type} {payloadHash : Payload → UInt64}
    (payloadBytes : Payload → List UInt8) (log : EventLog payloadHash) : List UInt8 :=
  tagBytes "memorial.event_log.v1" ++ IntegerType.uint64.bytes (.ofNat log.size) ++
    log.events.flatMap (GraphEvent.canonicalBytes payloadBytes)

/-- `canonical_hash_of` on a log. -/
def EventLog.canonicalHashOf {Payload : Type} {payloadHash : Payload → UInt64}
    (payloadBytes : Payload → List UInt8) (log : EventLog payloadHash) : UInt64 :=
  (CanonicalHasher.initial.appendBytes (log.canonicalBytes payloadBytes)).finish

end Memorial
