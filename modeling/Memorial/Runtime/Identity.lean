import Mathlib.Algebra.Ring.Nat
import Mathlib.Data.List.Basic
import Mathlib.Tactic.Common

/-!
# Identities, errors, time and provenance

The value types every other part of the library carries around:

* `StrongId` — an unsigned value of fixed width under a tag, whose maximum is the invalid id;
* `GraphError`, `Result` — the error codes with their texts, and `std::expected`;
* `Timestamp`, `TemporalInterval` — 64-bit nanosecond counts and half-open intervals, which
  carry the proof that they are not empty;
* `Provenance` — where a value comes from, carrying the checks of its only constructor.
-/

namespace Memorial

/-! ### Errors -/

/-- `graph_errc`. -/
inductive GraphErrc
  | invalidId
  | idNotFound
  | invalidInterval
  | worldlineMismatch
  | probabilityOutOfDomain
  | missingProvenance
  | conflict
  | capacityExceeded
deriving DecidableEq, Repr

/-- `graph_error`: a code and a text, which is empty when the source gives none. -/
structure GraphError where
  code : GraphErrc
  detail : String := ""
deriving DecidableEq, Repr

/-- `result<T>`, that is `std::expected<T, graph_error>`. -/
abbrev Result (α : Type) := Except GraphError α

/-- `values[row]` on a vector.  Reading past the end is undefined in C++; the model answers it
with an error, so that a theorem that a read succeeds also excludes it. -/
def vectorAt {α : Type} (values : List α) (row : ℕ) : Result α :=
  match values[row]? with
  | some value => .ok value
  | none => .error { code := .idNotFound }

theorem vectorAt_of_getElem? {α : Type} {values : List α} {row : ℕ} {value : α}
    (h : values[row]? = some value) : vectorAt values row = .ok value := by
  rw [vectorAt, h]

/-! ### Strong ids -/

/-- `strong_id<Tag, Value>` for an unsigned `Value` of the given width. -/
@[ext]
structure StrongId (Tag : Type) (width : ℕ) where
  value : BitVec width

namespace StrongId

variable {Tag : Type} {width : ℕ}

instance : DecidableEq (StrongId Tag width) := fun a b =>
  decidable_of_iff (a.value = b.value) StrongId.ext_iff.symm

/-- `strong_id::invalid_value`: the maximum of the value type. -/
def invalidValue (width : ℕ) : BitVec width := BitVec.allOnes width

/-- `strong_id::invalid()`. -/
def invalid : StrongId Tag width := ⟨invalidValue width⟩

/-- `strong_id::is_valid`. -/
def isValid (id : StrongId Tag width) : Bool := id.value != invalidValue width

/-- `static_cast<std::size_t>(id.value())`. -/
def toSize (id : StrongId Tag width) : ℕ := id.value.toNat

/-- `strong_id{static_cast<value_type>(n)}`. -/
def ofSize (n : ℕ) : StrongId Tag width := ⟨BitVec.ofNat width n⟩

/-- `static_cast<std::size_t>(id_type::invalid_value)`. -/
def capacity (width : ℕ) : ℕ := (invalidValue width).toNat

theorem capacity_eq (width : ℕ) : capacity width = 2 ^ width - 1 :=
  BitVec.toNat_allOnes

theorem capacity_lt (width : ℕ) : capacity width < 2 ^ width := by
  have := Nat.two_pow_pos width
  rw [capacity_eq]
  omega

theorem toSize_injective : Function.Injective (toSize : StrongId Tag width → ℕ) := by
  rintro ⟨x⟩ ⟨y⟩ h
  exact congrArg StrongId.mk (BitVec.eq_of_toNat_eq h)

theorem toSize_lt (id : StrongId Tag width) : id.toSize < 2 ^ width := id.value.isLt

theorem isValid_iff {id : StrongId Tag width} :
    id.isValid = true ↔ id.toSize < capacity width := by
  have hlt := id.toSize_lt
  rw [isValid, bne_iff_ne, ne_eq, ← BitVec.toNat_inj]
  change ¬id.toSize = capacity width ↔ _
  rw [capacity_eq]
  omega

theorem toSize_ofSize {n : ℕ} (h : n < capacity width) :
    (ofSize n : StrongId Tag width).toSize = n := by
  have := capacity_lt width
  exact Nat.mod_eq_of_lt (by omega)

theorem ofSize_toSize (id : StrongId Tag width) : ofSize id.toSize = id := by
  apply toSize_injective
  exact Nat.mod_eq_of_lt id.toSize_lt

end StrongId

/-- `worldline_id_tag`. -/
inductive WorldlineIdTag
/-- `generation_id_tag`. -/
inductive GenerationIdTag
/-- `model_run_id_tag`. -/
inductive ModelRunIdTag
/-- `event_sequence_tag`. -/
inductive EventSequenceTag
/-- `perspective_id_tag`. -/
inductive PerspectiveIdTag
/-- `intervention_id_tag`. -/
inductive InterventionIdTag
/-- The tag of node ids.  C++ gives every node kind its own phantom tag; here each operation
takes the node kind as an argument instead. -/
inductive NodeIdTag
/-- The tag of edge ids, likewise. -/
inductive EdgeIdTag

abbrev WorldlineId := StrongId WorldlineIdTag 64
abbrev GenerationId := StrongId GenerationIdTag 64
abbrev ModelRunId := StrongId ModelRunIdTag 64
abbrev EventSequence := StrongId EventSequenceTag 64
abbrev PerspectiveId := StrongId PerspectiveIdTag 64
abbrev InterventionId := StrongId InterventionIdTag 64
abbrev NodeId := StrongId NodeIdTag 32
abbrev EdgeId := StrongId EdgeIdTag 32

/-! ### Time -/

/-- `timestamp`: a signed 64-bit count of nanoseconds. -/
abbrev Timestamp := Int64

/-- `valid_time_domain`. -/
inductive ValidTimeDomain
/-- `transaction_time_domain`. -/
inductive TransactionTimeDomain

/-- `temporal_interval<Domain>`: half-open, and never empty, since `make` is the only way to
one. -/
@[ext]
structure TemporalInterval (Domain : Type) where
  fromTime : Timestamp
  toTime : Timestamp
  nonempty : fromTime < toTime

namespace TemporalInterval

variable {Domain : Type}

instance : DecidableEq (TemporalInterval Domain) := fun a b =>
  decidable_of_iff (a.fromTime = b.fromTime ∧ a.toTime = b.toTime) TemporalInterval.ext_iff.symm

/-- `temporal_interval::make`. -/
def make (fromTime toTime : Timestamp) : Result (TemporalInterval Domain) :=
  if h : fromTime < toTime then .ok ⟨fromTime, toTime, h⟩
  else .error { code := .invalidInterval, detail := "interval must satisfy from < to" }

/-- `temporal_interval::open_ended`: the end is the largest timestamp. -/
def openEnded (fromTime : Timestamp) : Result (TemporalInterval Domain) :=
  make fromTime Int64.maxValue

/-- `temporal_interval::contains`. -/
def contains (interval : TemporalInterval Domain) (point : Timestamp) : Bool :=
  decide (interval.fromTime ≤ point) && decide (point < interval.toTime)

end TemporalInterval

abbrev ValidInterval := TemporalInterval ValidTimeDomain
abbrev TransactionInterval := TemporalInterval TransactionTimeDomain

/-! ### Strings -/

/-- The bytes of a `std::string`, whose length is a `size_t`. -/
@[ext]
structure ByteString where
  bytes : List UInt8
  length_lt : bytes.length < 2 ^ 64
deriving DecidableEq

/-- A string of one byte. -/
def ByteString.singleton (byte : UInt8) : ByteString := ⟨[byte], Nat.one_lt_two_pow (by decide)⟩

/-! ### Provenance -/

/-- `provenance_kind`. -/
inductive ProvenanceKind
  | observed
  | selfReported
  | imported
  | inferred
  | simulated
deriving DecidableEq

/-- `provenance::requires_model_run`. -/
def ProvenanceKind.requiresModelRun : ProvenanceKind → Bool
  | .inferred => true
  | .simulated => true
  | _ => false

/-- `provenance`.  The three laws are the checks of `make`, its only constructor. -/
@[ext]
structure Provenance where
  kind : ProvenanceKind
  source : ByteString
  modelRun : Option ModelRunId
  source_ne_nil : source.bytes ≠ []
  modelRun_isSome : kind.requiresModelRun = true → modelRun.isSome = true
  modelRun_isValid : ∀ run, modelRun = some run → run.isValid = true

namespace Provenance

instance : DecidableEq Provenance := fun a b =>
  decidable_of_iff (a.kind = b.kind ∧ a.source = b.source ∧ a.modelRun = b.modelRun)
    Provenance.ext_iff.symm

/-- `provenance::make`. -/
def make (kind : ProvenanceKind) (source : ByteString) (modelRun : Option ModelRunId) :
    Result Provenance :=
  if hsource : source.bytes = [] then
    .error { code := .missingProvenance, detail := "provenance source must not be empty" }
  else if hrequired : kind.requiresModelRun && !modelRun.any StrongId.isValid then
    .error
      { code := .missingProvenance
        detail := "inferred and simulated provenance require a valid model run ID" }
  else if hrun : modelRun.isSome && !modelRun.any StrongId.isValid then
    .error { code := .invalidId, detail := "provenance model run ID must be valid" }
  else
    .ok
      { kind, source, modelRun
        source_ne_nil := hsource
        modelRun_isSome := by
          intro hkind
          cases modelRun with
          | none => simp [hkind] at hrequired
          | some run => rfl
        modelRun_isValid := by
          rintro run rfl
          simpa using hrun }

/-- An observation, which needs no model run. -/
def ofObservation (source : ByteString) (source_ne_nil : source.bytes ≠ []) : Provenance :=
  ⟨.observed, source, none, source_ne_nil, nofun, nofun⟩

end Provenance

end Memorial
