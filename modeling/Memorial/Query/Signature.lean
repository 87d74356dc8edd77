import Memorial.Query.NormalForm
import Memorial.Runtime.CanonicalEncoding

/-!
# Query signatures

`expression_signature` hashes the shape of a query: the bytes of its source and of its stages go
one by one into a running FNV-1a hash.  Integers go in as eight bytes, the lowest one first, and
keys as their characters, with neither a terminator nor a length.

* `signatureMix`, `operationSignature`, `expressionSignature` — the hash, as the program runs it;
* `expressionBytes`, `expressionSignature_eq` — **PROVED**: the bytes that it feeds;
* `StageShape`, `Expression.stageShapes`, `SameShape` — what a signature should tell apart;
* `expressionBytes_eq` — **PROVED**: the bytes are those of the shape, stage by stage.
-/

namespace Memorial.Query

open Library Meta

variable {C : TypeSystem} {S : GraphSchema C}

/-! ### The running hash -/

/-- `plan_operation_kind`. -/
inductive PlanOperationKind
  | sourceScan
  | validTimeSelector
  | transactionTimeSelector
  | worldlineSelector
  | predicateFilter
  | adjacencyTraversal
  | projection
  | topK
  | limit
deriving DecidableEq

/-- `static_cast<std::uint64_t>(kind)`. -/
def PlanOperationKind.value : PlanOperationKind → UInt64
  | .sourceScan => 0
  | .validTimeSelector => 1
  | .transactionTimeSelector => 2
  | .worldlineSelector => 3
  | .predicateFilter => 4
  | .adjacencyTraversal => 5
  | .projection => 6
  | .topK => 7
  | .limit => 8

/-- `operation_kind`. -/
def Operation.kind {current next : S.Tag} : Operation S current next → PlanOperationKind
  | .activeAt _ => .validTimeSelector
  | .knownAt _ => .transactionTimeSelector
  | .inWorldline _ => .worldlineSelector
  | .where_ _ => .predicateFilter
  | .fusedWhere _ => .predicateFilter
  | .traverse _ => .adjacencyTraversal
  | .project _ => .projection
  | .topK _ => .topK
  | .limit _ => .limit

/-- `comparison_signature`. -/
def ComparisonOp.signature : ComparisonOp → UInt64
  | .greaterThan => 1
  | .greaterEqual => 2
  | .lessThan => 3
  | .lessEqual => 4
  | .equalTo => 5

/-- `signature_offset`. -/
def signatureOffset : UInt64 := 14695981039346656037

/-- `signature_prime`. -/
def signaturePrime : UInt64 := 1099511628211

/-- `signature_mix` on an integer. -/
def signatureMix (hash value : UInt64) : UInt64 :=
  (List.range 8).foldl
    (fun hash byte => (hash ^^^ ((value >>> (.ofNat byte * 8)) &&& 0xFF)) * signaturePrime) hash

/-- `signature_mix` on a string view. -/
def signatureMixView (hash : UInt64) (value : List UInt8) : UInt64 :=
  value.foldl (fun hash character => (hash ^^^ character.toUInt64) * signaturePrime) hash

/-- `operation_signature`, `apply` or `apply_with_schema`. -/
def operationSignature (hash : UInt64) {current next : S.Tag}
    (operation : Operation S current next) : UInt64 :=
  let hash := signatureMix hash operation.kind.value
  match operation with
  | .where_ predicate =>
    signatureMix (signatureMixView hash predicate.key.key) predicate.operator.signature
  | .fusedWhere predicates =>
    predicates.foldl (fun hash predicate =>
      signatureMix (signatureMixView hash predicate.key.key) predicate.operator.signature) hash
  | .project keys => keys.foldl (fun hash key => signatureMixView hash key.key) hash
  | .topK ranking => signatureMix (signatureMixView hash ranking.key.key) (.ofNat ranking.count)
  | .traverse edge => signatureMix hash (.ofNat (typeListIndex edge S.signatures))
  | _ => hash

/-- `expression_signature`. -/
def expressionSignature : {tag : S.Tag} → Expression S tag → UInt64
  | _, .source tag =>
    signatureMix (signatureMix signatureOffset 1) (.ofNat (typeListIndex tag S.tags))
  | _, .pipeline previous operation => operationSignature (expressionSignature previous) operation

/-! ### The bytes that it is fed -/

/-- The bytes of `signature_mix` on an integer. -/
def mixBytes (value : UInt64) : List UInt8 := unsignedBytes 8 value

/-- The bytes of a predicate. -/
def Comparison.bytes {tag : S.Tag} (predicate : Comparison tag) : List UInt8 :=
  predicate.key.key ++ mixBytes predicate.operator.signature

/-- The bytes of `operation_signature` after those of the kind. -/
def Operation.bodyBytes {current next : S.Tag} : Operation S current next → List UInt8
  | .where_ predicate => predicate.bytes
  | .fusedWhere predicates => predicates.flatMap Comparison.bytes
  | .project keys => keys.flatMap PropertyKey.key
  | .topK ranking => ranking.key.key ++ mixBytes (.ofNat ranking.count)
  | .traverse edge => mixBytes (.ofNat (typeListIndex edge S.signatures))
  | _ => []

/-- The bytes of `operation_signature`. -/
def operationBytes {current next : S.Tag} (operation : Operation S current next) : List UInt8 :=
  mixBytes operation.kind.value ++ operation.bodyBytes

/-- The bytes of `expression_signature`. -/
def expressionBytes : {tag : S.Tag} → Expression S tag → List UInt8
  | _, .source tag => mixBytes 1 ++ mixBytes (.ofNat (typeListIndex tag S.tags))
  | _, .pipeline previous operation => expressionBytes previous ++ operationBytes operation

theorem signatureMixView_append (hash : UInt64) (first second : List UInt8) :
    signatureMixView hash (first ++ second) =
      signatureMixView (signatureMixView hash first) second :=
  List.foldl_append

/-- A masked byte comes back as it was. -/
theorem toUInt64_lowByte (value : UInt64) :
    (value &&& 0xFF).toUInt8.toUInt64 = value &&& 0xFF := by
  refine UInt64.toNat_inj.mp ?_
  rw [UInt8.toNat_toUInt64, toNat_lowByte, UInt64.toNat_and]
  exact (Nat.and_two_pow_sub_one_eq_mod value.toNat 8).symm

theorem shiftRight_succ (value : UInt64) {byte : ℕ} (h : byte < 7) :
    value >>> (.ofNat byte * 8) >>> 8 = value >>> (.ofNat (byte + 1) * 8) := by
  refine UInt64.toNat_inj.mp ?_
  have hcases : byte = 0 ∨ byte = 1 ∨ byte = 2 ∨ byte = 3 ∨ byte = 4 ∨ byte = 5 ∨ byte = 6 := by
    omega
  rcases hcases with rfl | rfl | rfl | rfl | rfl | rfl | rfl <;> simp [← Nat.shiftRight_add]

/-- By induction on the bytes that are left. -/
theorem signatureMixView_unsignedBytes (value : UInt64) {size start : ℕ} (h : start + size ≤ 8)
    (hash : UInt64) :
    signatureMixView hash (unsignedBytes size (value >>> (.ofNat start * 8))) =
      (List.range' start size).foldl
        (fun hash byte => (hash ^^^ ((value >>> (.ofNat byte * 8)) &&& 0xFF)) * signaturePrime)
        hash := by
  induction size generalizing start hash with
  | zero => rfl
  | succ size ih =>
    have hstep : signatureMixView hash (unsignedBytes (size + 1) (value >>> (.ofNat start * 8))) =
        signatureMixView ((hash ^^^ ((value >>> (.ofNat start * 8)) &&& 0xFF)) * signaturePrime)
          (unsignedBytes size (value >>> (.ofNat start * 8) >>> 8)) := by
      rw [← toUInt64_lowByte]
      rfl
    rw [hstep, List.range'_succ, List.foldl_cons]
    cases size with
    | zero => rfl
    | succ size =>
      rw [shiftRight_succ value (by omega)]
      exact ih (by omega) _

/-- An integer goes in byte by byte, the lowest byte first. -/
theorem signatureMix_eq (hash value : UInt64) :
    signatureMix hash value = signatureMixView hash (mixBytes value) := by
  have hstart : (0 : ℕ) + 8 ≤ 8 := Nat.le_refl 8
  have hzero : value >>> (UInt64.ofNat 0 * 8) = value := UInt64.shiftRight_zero
  have hmix := signatureMixView_unsignedBytes value hstart hash
  rw [hzero] at hmix
  rw [signatureMix, List.range_eq_range', mixBytes, hmix]

/-- A hash that is mixed with the parts of a list in turn is fed their bytes in turn. -/
theorem foldl_signatureMixView {α : Type} {mix : UInt64 → α → UInt64} {bytes : α → List UInt8}
    (h : ∀ hash part, mix hash part = signatureMixView hash (bytes part)) (parts : List α)
    (hash : UInt64) : parts.foldl mix hash = signatureMixView hash (parts.flatMap bytes) := by
  induction parts generalizing hash with
  | nil => rfl
  | cons part parts ih => rw [List.foldl_cons, ih, h, List.flatMap_cons, signatureMixView_append]

theorem operationSignature_eq (hash : UInt64) {current next : S.Tag}
    (operation : Operation S current next) :
    operationSignature hash operation = signatureMixView hash (operationBytes operation) := by
  have hpredicate : ∀ {tag : S.Tag} (hash : UInt64) (predicate : Comparison tag),
      signatureMix (signatureMixView hash predicate.key.key) predicate.operator.signature =
        signatureMixView hash predicate.bytes := by
    intro tag hash predicate
    rw [signatureMix_eq, ← signatureMixView_append, Comparison.bytes]
  rw [operationBytes, signatureMixView_append, ← signatureMix_eq]
  cases operation with
  | where_ predicate => exact hpredicate _ predicate
  | fusedWhere predicates => exact foldl_signatureMixView hpredicate predicates _
  | project keys => exact foldl_signatureMixView (fun _ _ => rfl) keys _
  | topK ranking =>
    rw [Operation.bodyBytes, signatureMixView_append, ← signatureMix_eq]
    rfl
  | traverse edge =>
    rw [Operation.bodyBytes, ← signatureMix_eq]
    rfl
  | _ => simp only [operationSignature, Operation.bodyBytes, signatureMixView, List.foldl_nil]

/-- **A signature is the running hash over the bytes of the pipeline.** -/
theorem expressionSignature_eq {tag : S.Tag} (expression : Expression S tag) :
    expressionSignature expression =
      signatureMixView signatureOffset (expressionBytes expression) := by
  induction expression with
  | source tag =>
    rw [expressionBytes, signatureMixView_append, ← signatureMix_eq, ← signatureMix_eq]
    rfl
  | pipeline previous operation ih =>
    rw [expressionSignature, operationSignature_eq, ih, expressionBytes, signatureMixView_append]

/-! ### Shapes -/

/-- What the signature is to tell of a stage: not its operands, its direction or the count of a
limit.  Keys stand for themselves by their spelling. -/
inductive StageShape (S : GraphSchema C)
  | activeAt
  | knownAt
  | inWorldline
  | filter (predicates : List (FixedString × ComparisonOp))
  | traverse (edge : S.Edge)
  | project (keys : List FixedString)
  | topK (key : FixedString) (count : ℕ)
  | limit

def Comparison.shape {tag : S.Tag} (predicate : Comparison tag) : FixedString × ComparisonOp :=
  (predicate.key.key, predicate.operator)

def Operation.shape {current next : S.Tag} : Operation S current next → StageShape S
  | .activeAt _ => .activeAt
  | .knownAt _ => .knownAt
  | .inWorldline _ => .inWorldline
  | .where_ predicate => .filter [predicate.shape]
  | .fusedWhere predicates => .filter (predicates.map Comparison.shape)
  | .traverse edge => .traverse edge
  | .project keys => .project (keys.map PropertyKey.key)
  | .topK ranking => .topK ranking.key.key ranking.count
  | .limit _ => .limit

/-- The shapes of the stages, from the first to the last. -/
def Expression.stageShapes : {tag : S.Tag} → Expression S tag → List (StageShape S)
  | _, .source _ => []
  | _, .pipeline previous operation => previous.stageShapes ++ [operation.shape]

/-- The same source node, and stage by stage the same kind, keys, operators, count and edge. -/
structure SameShape {tag tag' : S.Tag} (expression : Expression S tag)
    (other : Expression S tag') : Prop where
  sourceTag : expression.sourceTag = other.sourceTag
  stageShapes : expression.stageShapes = other.stageShapes

/-! ### The bytes of a shape -/

namespace StageShape

def kind : StageShape S → PlanOperationKind
  | activeAt => .validTimeSelector
  | knownAt => .transactionTimeSelector
  | inWorldline => .worldlineSelector
  | filter _ => .predicateFilter
  | traverse _ => .adjacencyTraversal
  | project _ => .projection
  | topK _ _ => .topK
  | limit => .limit

/-- The bytes of a key and an operator. -/
def predicateBytes (predicate : FixedString × ComparisonOp) : List UInt8 :=
  predicate.1 ++ mixBytes predicate.2.signature

/-- The bytes of a stage after those of its kind. -/
def bodyBytes : StageShape S → List UInt8
  | filter predicates => predicates.flatMap predicateBytes
  | traverse edge => mixBytes (.ofNat (typeListIndex edge S.signatures))
  | project keys => keys.flatten
  | topK key count => key ++ mixBytes (.ofNat count)
  | _ => []

end StageShape

/-- The bytes of stages, one after another. -/
def stagesBytes (stages : List (StageShape S)) : List UInt8 :=
  stages.flatMap (fun stage => mixBytes stage.kind.value ++ stage.bodyBytes)

theorem operationBytes_eq {current next : S.Tag} (operation : Operation S current next) :
    operationBytes operation =
      mixBytes operation.shape.kind.value ++ operation.shape.bodyBytes := by
  have hkind : operation.kind = operation.shape.kind := by cases operation <;> rfl
  have hbody : operation.bodyBytes = operation.shape.bodyBytes := by
    cases operation with
    | where_ predicate => exact (List.append_nil _).symm
    | fusedWhere predicates =>
      exact (List.flatMap_map Comparison.shape StageShape.predicateBytes predicates).symm
    | project keys => exact List.flatMap_def
    | _ => rfl
  rw [operationBytes, hkind, hbody]

/-- **The bytes of a pipeline are those of its source and of the shapes of its stages.** -/
theorem expressionBytes_eq {tag : S.Tag} (expression : Expression S tag) :
    expressionBytes expression =
      mixBytes 1 ++ (mixBytes (.ofNat (typeListIndex expression.sourceTag S.tags)) ++
        stagesBytes expression.stageShapes) := by
  induction expression with
  | source tag =>
    rw [Expression.stageShapes, stagesBytes, List.flatMap_nil, List.append_nil]
    rfl
  | pipeline previous operation ih =>
    rw [expressionBytes, ih, operationBytes_eq, Expression.stageShapes, stagesBytes, stagesBytes,
      List.flatMap_append, List.flatMap_singleton, Expression.sourceTag]
    simp only [List.append_assoc]

end Memorial.Query
