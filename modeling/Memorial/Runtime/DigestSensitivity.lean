import Memorial.Library.OneDifference
import Memorial.Runtime.CanonicalEncoding

/-!
# One byte always changes the digest

The hasher multiplies by an odd constant modulo `2 ^ 64`, so that neither its state nor the byte
it is fed can be lost in one step.  Nothing is said here about several bytes.

* `CanonicalDigest`, `CanonicalDigest.hex` — a digest and its sixteen digits;
* `appendByte_injectiveStep` — **PROVED**: a step forgets neither the state nor the byte;
* `CanonicalDigest.hex_injective` — **PROVED**: the digits tell digests apart;
* `oneByte_changes_digest` — **PROVED**: values whose encodings differ in one byte, and logs whose
  events differ in one byte of one payload, have different digests.
-/

namespace Memorial

open Library

/-! ### The step of the hasher -/

namespace CanonicalHasher

/-- The multiplication is undone by the inverse of the prime modulo `2 ^ 64`. -/
theorem mul_prime_injective : Function.Injective (fun value : UInt64 => value * 1099511628211) := by
  intro x y h
  have hinverse : (1099511628211 : UInt64) * 14886173955864302971 = 1 := by decide
  have hx := congrArg (fun value : UInt64 => value * 14886173955864302971) h
  simpa only [UInt64.mul_assoc, hinverse, UInt64.mul_one] using hx

theorem appendByte_injectiveStep : InjectiveStep appendByte where
  state byte := by
    intro x y h
    have hvalue := mul_prime_injective (congrArg CanonicalHasher.value h)
    cases x
    cases y
    exact congrArg mk (UInt64.xor_left_inj _ |>.mp hvalue)
  symbol hasher := by
    intro a b h
    have hvalue := mul_prime_injective (congrArg CanonicalHasher.value h)
    have hwide : a.toUInt64 = b.toUInt64 := (UInt64.xor_right_inj _).mp hvalue
    exact UInt8.toUInt64_inj.mp hwide

/-- Fed from one state, sequences that differ in one byte finish apart. -/
theorem finish_appendBytes_ne (hasher : CanonicalHasher) {bytes bytes' : List UInt8}
    (h : DifferInOnePosition bytes bytes') :
    (hasher.appendBytes bytes).finish ≠ (hasher.appendBytes bytes').finish := by
  intro heq
  have hstates := appendByte_injectiveStep.foldl_ne h hasher
  generalize hx : hasher.appendBytes bytes = x at heq
  generalize hy : hasher.appendBytes bytes' = y at heq
  apply hstates
  show hasher.appendBytes bytes = hasher.appendBytes bytes'
  rw [hx, hy]
  cases x
  cases y
  exact congrArg mk heq

end CanonicalHasher

/-! ### Digests -/

/-- `canonical_digest`. -/
@[ext]
structure CanonicalDigest where
  value : UInt64
deriving DecidableEq

namespace CanonicalDigest

/-- The characters of `digits`. -/
def digits : List Char :=
  ['0', '1', '2', '3', '4', '5', '6', '7', '8', '9', 'a', 'b', 'c', 'd', 'e', 'f']

/-- `digits[remaining & 0xFU]`. -/
def digit (remaining : UInt64) : Char := digits.getD (remaining &&& 0xF).toNat '0'

/-- The loop of `hex`: it fills the output from its end. -/
def fillHex : (index : ℕ) → (remaining : UInt64) → (output : List Char) → List Char
  | 0, _, output => output
  | index + 1, remaining, output =>
    fillHex index (remaining >>> 4) (output.set index (digit remaining))

/-- `canonical_digest::hex`. -/
def hex (digest : CanonicalDigest) : String :=
  .ofList (fillHex 16 digest.value (List.replicate 16 '0'))

/-- The lowest digits of a value, the lowest last. -/
def lowDigits : ℕ → UInt64 → List Char
  | 0, _ => []
  | count + 1, remaining => lowDigits count (remaining >>> 4) ++ [digit remaining]

/-- What the loop has not reached keeps what was there. -/
theorem fillHex_eq (index : ℕ) (remaining : UInt64) (output : List Char)
    (h : index ≤ output.length) :
    fillHex index remaining output = lowDigits index remaining ++ output.drop index := by
  induction index generalizing remaining output with
  | zero => rfl
  | succ index ih =>
    rw [fillHex, ih _ _ (by rw [List.length_set]; omega), lowDigits, List.append_assoc]
    have hdrop : (output.set index (digit remaining)).drop index =
        digit remaining :: output.drop (index + 1) := by
      rw [List.drop_set, if_neg (by omega), Nat.sub_self, List.drop_eq_getElem_cons h]
      rfl
    rw [hdrop]
    rfl

theorem digit_eq {x y : UInt64} (h : digit x = digit y) : x.toNat % 16 = y.toNat % 16 := by
  have hmask : ∀ z : UInt64, (z &&& 0xF).toNat = z.toNat % 16 := by
    intro z
    rw [UInt64.toNat_and]
    exact Nat.and_two_pow_sub_one_eq_mod z.toNat 4
  have hdigits : ∀ i < 16, ∀ j < 16, digits.getD i '0' = digits.getD j '0' → i = j := by decide
  rw [digit, digit, hmask, hmask] at h
  exact hdigits _ (Nat.mod_lt _ (by decide)) _ (Nat.mod_lt _ (by decide)) h

/-- The digits tell values apart up to their number. -/
theorem mod_of_lowDigits (count : ℕ) {x y : UInt64} (h : lowDigits count x = lowDigits count y) :
    x.toNat % 16 ^ count = y.toNat % 16 ^ count := by
  induction count generalizing x y with
  | zero => rw [pow_zero, Nat.mod_one, Nat.mod_one]
  | succ count ih =>
    obtain ⟨hrest, hdigit⟩ := List.append_inj' h rfl
    have hlow := digit_eq (List.singleton_inj.mp hdigit)
    have hhigh : x.toNat / 16 % 16 ^ count = y.toNat / 16 % 16 ^ count := by
      have hshift : ∀ z : UInt64, (z >>> 4).toNat = z.toNat / 16 := by
        intro z
        rw [UInt64.toNat_shiftRight]
        exact Nat.shiftRight_eq_div_pow z.toNat 4
      have hrests := ih hrest
      rw [hshift, hshift] at hrests
      exact hrests
    exact mod_pow_succ_eq hlow hhigh

theorem hex_eq (digest : CanonicalDigest) : hex digest = .ofList (lowDigits 16 digest.value) := by
  rw [hex, fillHex_eq 16 digest.value (List.replicate 16 '0') (Nat.le_refl 16)]
  exact congrArg String.ofList (List.append_nil _)

/-- **The digits tell digests apart.** -/
theorem hex_injective : Function.Injective hex := by
  intro x y h
  rw [hex_eq, hex_eq] at h
  have hmod := mod_of_lowDigits 16 (String.ofList_injective h)
  have hbound : ∀ z : UInt64, z.toNat % 16 ^ 16 = z.toNat := fun z => Nat.mod_eq_of_lt z.toNat_lt
  rw [hbound, hbound] at hmod
  exact CanonicalDigest.ext (UInt64.toNat_inj.mp hmod)

end CanonicalDigest

/-- `canonical_hash_of` on a value, over the overload for its type. -/
def canonicalHashOf {Value : Type} (valueBytes : Value → List UInt8) (value : Value) :
    CanonicalDigest :=
  ⟨(CanonicalHasher.initial.appendBytes (valueBytes value)).finish⟩

/-- Values whose encodings differ in one byte have different digests. -/
theorem canonicalHashOf_ne {Value : Type} {valueBytes : Value → List UInt8} {value value' : Value}
    (h : DifferInOnePosition (valueBytes value) (valueBytes value')) :
    canonicalHashOf valueBytes value ≠ canonicalHashOf valueBytes value' := by
  intro heq
  exact CanonicalHasher.initial.finish_appendBytes_ne h (congrArg CanonicalDigest.value heq)

/-! ### Logs -/

namespace EventLog

variable {Payload : Type}

/-- `canonical_hash_of` on a log, as a digest. -/
def canonicalDigestOf {payloadHash : Payload → UInt64} (payloadBytes : Payload → List UInt8)
    (log : EventLog payloadHash) : CanonicalDigest :=
  ⟨log.canonicalHashOf payloadBytes⟩

/-- The contents of an event with another payload. -/
def withPayload (contents : ChecksummedFields Payload × Provenance) (payload : Payload) :
    ChecksummedFields Payload × Provenance :=
  ({ contents.1 with payload := payload }, contents.2)

/-- One byte of one payload of one event is all that tells the two logs apart. -/
structure DifferInOnePayloadByte (payloadBytes : Payload → List UInt8)
    {hash hash' : Payload → UInt64} (first : EventLog hash) (second : EventLog hash') : Prop where
  events : ∃ before contents payload after,
    first.events.map GraphEvent.contents = before ++ contents :: after ∧
      second.events.map GraphEvent.contents = before ++ withPayload contents payload :: after ∧
        DifferInOnePosition (payloadBytes contents.1.payload) (payloadBytes payload)

/-- Around the payload, an event feeds the same bytes. -/
theorem contentsBytes_differ {payloadBytes : Payload → List UInt8}
    {contents : ChecksummedFields Payload × Provenance} {payload : Payload}
    (h : DifferInOnePosition (payloadBytes contents.1.payload) (payloadBytes payload)) :
    DifferInOnePosition (contentsBytes payloadBytes contents)
      (contentsBytes payloadBytes (withPayload contents payload)) := by
  have haround := h.append_append
    (tagBytes "memorial.graph_event.v1" ++ strongIdBytes 8 contents.1.sequence ++
      enumBytes IntegerType.uint8.bytes EventKind.underlying contents.1.kind ++
      timestampBytes contents.1.validTime ++ timestampBytes contents.1.recordedTime ++
      strongIdBytes 8 contents.1.worldline)
    (optionalBytes (strongIdBytes 8) contents.1.previous ++ provenanceBytes contents.2)
  simpa only [contentsBytes, GraphEvent.canonicalBytes, withPayload, List.append_assoc]
    using haround

/-- Around the event, the logs feed the same bytes. -/
theorem canonicalBytes_differ {payloadBytes : Payload → List UInt8} {hash hash' : Payload → UInt64}
    {first : EventLog hash} {second : EventLog hash'}
    (h : DifferInOnePayloadByte payloadBytes first second) :
    DifferInOnePosition (first.canonicalBytes payloadBytes)
      (second.canonicalBytes payloadBytes) := by
  obtain ⟨before, contents, payload, after, hfirst, hsecond, hpayload⟩ := h.events
  have hsize : first.size = second.size := by
    have hlengths := congrArg List.length hfirst
    have hlengths' := congrArg List.length hsecond
    simp only [List.length_map, List.length_append, List.length_cons] at hlengths hlengths'
    exact hlengths.trans hlengths'.symm
  have haround := (contentsBytes_differ hpayload).append_append
    (tagBytes "memorial.event_log.v1" ++ IntegerType.uint64.bytes (.ofNat second.size) ++
      before.flatMap (contentsBytes payloadBytes))
    (after.flatMap (contentsBytes payloadBytes))
  simpa only [canonicalBytes, flatMap_canonicalBytes, hfirst, hsecond, hsize,
    List.flatMap_append, List.flatMap_cons, List.append_assoc] using haround

end EventLog

/-- **One-byte differences always change the digest**: of byte sequences fed from any state, of
values, and of logs; and the digits show it. -/
theorem oneByte_changes_digest :
    (∀ (hasher : CanonicalHasher) (bytes bytes' : List UInt8), DifferInOnePosition bytes bytes' →
      (hasher.appendBytes bytes).finish ≠ (hasher.appendBytes bytes').finish) ∧
    Function.Injective CanonicalDigest.hex ∧
    (∀ (Value : Type) (valueBytes : Value → List UInt8) (value value' : Value),
      DifferInOnePosition (valueBytes value) (valueBytes value') →
        canonicalHashOf valueBytes value ≠ canonicalHashOf valueBytes value') ∧
    (∀ (Payload : Type) (payloadBytes : Payload → List UInt8) (hash hash' : Payload → UInt64)
      (first : EventLog hash) (second : EventLog hash'),
      DifferInOnePosition (first.canonicalBytes payloadBytes)
          (second.canonicalBytes payloadBytes) ∨
        EventLog.DifferInOnePayloadByte payloadBytes first second →
      first.canonicalDigestOf payloadBytes ≠ second.canonicalDigestOf payloadBytes) := by
  refine ⟨fun hasher _ _ h => hasher.finish_appendBytes_ne h, CanonicalDigest.hex_injective,
    fun _ _ _ _ h => canonicalHashOf_ne h, ?_⟩
  intro Payload payloadBytes hash hash' first second h
  have hbytes : DifferInOnePosition (first.canonicalBytes payloadBytes)
      (second.canonicalBytes payloadBytes) := by
    rcases h with hbytes | hpayload
    · exact hbytes
    · exact EventLog.canonicalBytes_differ hpayload
  intro heq
  exact CanonicalHasher.initial.finish_appendBytes_ne hbytes
    (congrArg CanonicalDigest.value heq)

/-- A log of one amount. -/
def amountLog (amount : Int32) : EventLog (fun amount : Int32 => amount.toInt64.toUInt64) :=
  run EventLog.step EventLog.empty
    [{ kind := .stateAppended, validTime := 1, recordedTime := 2, worldline := ⟨1⟩,
       payload := amount, source := .ofObservation (.singleton 98) (List.cons_ne_nil _ _) }]

theorem oneByte_changes_digest_amountLog :
    (amountLog 2).canonicalDigestOf IntegerType.int32.bytes ≠
      (amountLog 3).canonicalDigestOf IntegerType.int32.bytes := by
  have hbytes : DifferInOnePosition (IntegerType.int32.bytes 2) (IntegerType.int32.bytes 3) :=
    .of_split [2, 4] (a := 2) (b := 3) (by decide) [0, 0, 0]
  exact oneByte_changes_digest.2.2.2 Int32 _ _ _ _ _ (.inr ⟨[], _, 3, [], rfl, rfl, hbytes⟩)

end Memorial
