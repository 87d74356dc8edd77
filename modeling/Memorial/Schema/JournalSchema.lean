import Memorial.Schema.GraphSchema
import Mathlib.Data.Rat.Defs
import Mathlib.Data.Rat.Floor

/-!
# A schema to run on

A small program over the library: thoughts with an integer and a floating-point property, and
one relation between them.  It shows that schemas exist, and the concrete runs of this
development use it.
-/

namespace Memorial.Journal

open Library

/-- Floating-point values: a NaN, or a number.  Rounding is not modelled; the runs use values on
which it plays no part. -/
inductive Floating
  | nan
  | number (value : ℚ)
deriving DecidableEq

namespace Floating

/-- A comparison, which is false when an operand is NaN. -/
def compare (holds : ℚ → ℚ → Bool) : Floating → Floating → Bool
  | .number a, .number b => holds a b
  | _, _ => false

/-- An operation, which is NaN when an operand is. -/
def combine (operation : ℚ → ℚ → ℚ) : Floating → Floating → Floating
  | .number a, .number b => .number (operation a b)
  | _, _ => .nan

def isFinite : Floating → Bool
  | .nan => false
  | .number _ => true

def truncate : Floating → ℤ
  | .nan => 0
  | .number value => if 0 ≤ value then ⌊value⌋ else ⌈value⌉

/-- `std::ceil`. -/
def ceil : Floating → Floating
  | .nan => .nan
  | .number value => .number ⌈value⌉

/-- `double`. -/
def arithmetic : DoubleArithmetic where
  Double := Floating
  zero := .number 0
  half := .number (1 / 2)
  fourFifths := .number (4 / 5)
  ofSize n := .number n
  toSize value := value.truncate.toNat
  isFinite := isFinite
  lessThan := compare (fun a b => decide (a < b))
  equalTo := compare (fun a b => decide (a = b))
  add := combine (· + ·)
  sub := combine (· - ·)
  mul := combine (· * ·)
  div := combine (· / ·)

end Floating

inductive JournalName
  | thought
  | cognitionLayer
  | recalls
deriving DecidableEq

inductive JournalValue
  | int32
  | float
deriving DecidableEq

def carrier : JournalValue → Type
  | .int32 => Int32
  | .float => Floating

/-- The usual arithmetic conversions. -/
def toFloating : (type : JournalValue) → carrier type → Floating
  | .int32, value => .number (Int32.toInt value)
  | .float, value => value

/-- A comparison of two values, after the conversions. -/
def compare (holds : ℚ → ℚ → Bool) {left right : JournalValue} (a : carrier left)
    (b : carrier right) : Bool :=
  Floating.compare holds (toFloating left a) (toFloating right b)

/-- The types of the journal program. -/
def journalTypes : TypeSystem where
  Name := JournalName
  nameDecidableEq := inferInstance
  ValueType := JournalValue
  valueTypeDecidableEq := inferInstance
  carrier := carrier
  greaterThan := compare (fun a b => decide (b < a))
  greaterEqual := compare (fun a b => decide (b ≤ a))
  lessThan := compare (fun a b => decide (a < b))
  lessEqual := compare (fun a b => decide (a ≤ b))
  equalTo := compare (fun a b => decide (a = b))
  arithmetic := Floating.arithmetic
  casts
    | .int32 => some
        { toDouble := toFloating .int32
          ofDouble := fun value => Int32.ofInt value.truncate }
    | .float => some { toDouble := id, ofDouble := id }
  rangesSort := stableSortAlgorithm

/-- A key from its characters. -/
def ascii (characters : List Char) : FixedString := characters.map (fun c => c.val.toUInt8)

def rankKey : FixedString := ascii ['r', 'a', 'n', 'k']

def confidenceKey : FixedString := ascii ['c', 'o', 'n', 'f']

def thoughtNode : NodeSpec journalTypes where
  tag := JournalName.thought
  layer := JournalName.cognitionLayer
  properties :=
    [ { key := rankKey, valueType := JournalValue.int32, key_ne_nil := by decide },
      { key := confidenceKey, valueType := JournalValue.float, key_ne_nil := by decide } ]
  keysUnique := by decide

def recallsEdge : EdgeSpec journalTypes where
  source := JournalName.thought
  relation := JournalName.recalls
  target := JournalName.thought
  properties := []
  keysUnique := by decide

def journalSchema : GraphSchema journalTypes where
  nodes := [thoughtNode]
  edges := [recallsEdge]
  relationRules := .unrestricted
  nodeTagsUnique := by decide
  edgeSignaturesUnique := by decide
  endpointsKnown := by decide
  layersAllowed := by decide
  nodes_length_lt := by decide
  edges_length_lt := by decide

def thought : journalSchema.Tag := ⟨JournalName.thought, by decide⟩

def recalls : journalSchema.Edge :=
  ⟨⟨JournalName.thought, JournalName.recalls, JournalName.thought⟩, by decide⟩

def rank : GraphSchema.Key thought := ⟨rankKey, ⟨0, by decide⟩, by decide⟩

def confidence : GraphSchema.Key thought := ⟨confidenceKey, ⟨1, by decide⟩, by decide⟩

/-- The values of a thought. -/
def thoughtValues (rank : Int32) (confidence : Floating) :
    PropertyValues (GraphSchema.node thought).properties
  | ⟨0, _⟩ => rank
  | ⟨1, _⟩ => confidence

end Memorial.Journal
