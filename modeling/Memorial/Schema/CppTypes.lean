import Memorial.Library.FloatingPoint
import Memorial.Schema.GraphSchema

/-!
# The built-in types

The arithmetic types a C++ program stores in its columns, with the conversions between them and
the built-in comparisons: the usual 64-bit platform, with binary32, binary64 and 80-bit extended
floating point.

* `ArithmeticType`, `ArithmeticType.carrier` — the types and their values;
* `staticCast` — the conversions; from a floating-point value outside the range of an integer type
  the language leaves the result open, and here it is some value of the type;
* `commonType`, `compareValues` — the usual arithmetic conversions, and a comparison after them;
* `ProgramTypes`, `cppTypes` — the type system of a program: these types, and whatever names,
  class types and sorting algorithm the program brings.
-/

namespace Memorial

open Library

/-! ### Floating point -/

/-- `float` -/
def binary32 : BinaryFormat := ⟨24, -149, 128, by decide⟩

/-- `double` -/
def binary64 : BinaryFormat := ⟨53, -1074, 1024, by decide⟩

/-- `long double` -/
def extended80 : BinaryFormat := ⟨64, -16445, 16384, by decide⟩

/-- The floating-point types. -/
inductive FloatingType
  | float
  | double
  | longDouble
deriving DecidableEq

def FloatingType.format : FloatingType → BinaryFormat
  | .float => binary32
  | .double => binary64
  | .longDouble => extended80

/-- The arithmetic of `double`. -/
abbrev doubleArithmetic : DoubleArithmetic where
  Double := Floating binary64
  zero := .ofRat false 0
  half := .ofRat false (1 / 2)
  fourFifths := .ofRat false (4 / 5)
  ofSize n := .ofRat false n
  toSize value := (value.truncate?.getD 0).toNat
  isFinite := Floating.isFinite
  lessThan := Floating.compare (fun a b => decide (a < b))
  equalTo := Floating.compare (fun a b => decide (a = b))
  add := Floating.add
  sub := Floating.sub
  mul := Floating.mul
  div := Floating.div

theorem lessThan_of_isNumber {a b : Floating binary64} {x y : ℚ} (ha : a.IsNumber x)
    (hb : b.IsNumber y) : doubleArithmetic.lessThan a b = decide (x < y) := by
  show Floating.compare (fun a b => decide (a < b)) a b = _
  rw [Floating.compare_of_isNumber ha hb]
  simp only [WithBot.coe_lt_coe, WithTop.coe_lt_coe]

theorem equalTo_of_isNumber {a b : Floating binary64} {x y : ℚ} (ha : a.IsNumber x)
    (hb : b.IsNumber y) : doubleArithmetic.equalTo a b = decide (x = y) := by
  show Floating.compare (fun a b => decide (a = b)) a b = _
  rw [Floating.compare_of_isNumber ha hb]
  simp only [WithBot.coe_inj, WithTop.coe_inj]

/-! ### Integers -/

/-- The widths of the integer types. -/
inductive IntegerWidth
  | bits8
  | bits16
  | bits32
  | bits64
deriving DecidableEq

def IntegerWidth.bits : IntegerWidth → ℕ
  | .bits8 => 8
  | .bits16 => 16
  | .bits32 => 32
  | .bits64 => 64

/-- `std::numeric_limits<T>::digits`. -/
def integerDigits (signed : Bool) (width : IntegerWidth) : ℕ :=
  if signed then width.bits - 1 else width.bits

/-- `std::numeric_limits<T>::min()`. -/
def integerMinimum (signed : Bool) (width : IntegerWidth) : ℤ :=
  if signed then -2 ^ integerDigits signed width else 0

/-- The integer is a value of the type. -/
def IntegerInRange (signed : Bool) (width : IntegerWidth) (n : ℤ) : Prop :=
  integerMinimum signed width ≤ n ∧ n < 2 ^ integerDigits signed width

instance (signed : Bool) (width : IntegerWidth) (n : ℤ) :
    Decidable (IntegerInRange signed width n) :=
  inferInstanceAs (Decidable (_ ∧ _))

/-- The values of an integer type. -/
abbrev Integer (signed : Bool) (width : IntegerWidth) : Type :=
  { n : ℤ // IntegerInRange signed width n }

/-- The integer of the type that is congruent to a given one. -/
def wrapInteger (signed : Bool) (width : IntegerWidth) (n : ℤ) : ℤ :=
  integerMinimum signed width +
    (n - integerMinimum signed width) %
      (2 ^ integerDigits signed width - integerMinimum signed width)

theorem integerMinimum_nonpos (signed : Bool) (width : IntegerWidth) :
    integerMinimum signed width ≤ 0 := by
  have hpower : (0 : ℤ) < 2 ^ integerDigits signed width := by positivity
  rw [integerMinimum]
  split <;> omega

theorem integerInRange_wrapInteger (signed : Bool) (width : IntegerWidth) (n : ℤ) :
    IntegerInRange signed width (wrapInteger signed width n) := by
  have hminimum := integerMinimum_nonpos signed width
  have hpower : (0 : ℤ) < 2 ^ integerDigits signed width := by positivity
  have hnonneg := Int.emod_nonneg (n - integerMinimum signed width)
    (by omega : 2 ^ integerDigits signed width - integerMinimum signed width ≠ 0)
  have hlt := Int.emod_lt_of_pos (n - integerMinimum signed width)
    (by omega : 0 < 2 ^ integerDigits signed width - integerMinimum signed width)
  rw [IntegerInRange, wrapInteger]
  omega

/-- An integer of the type is its own. -/
theorem wrapInteger_of_inRange {signed : Bool} {width : IntegerWidth} {n : ℤ}
    (h : IntegerInRange signed width n) : wrapInteger signed width n = n := by
  obtain ⟨hlow, hhigh⟩ := h
  rw [wrapInteger, Int.emod_eq_of_lt (by omega) (by omega)]
  omega

/-- The value of the type that is congruent to an integer. -/
def Integer.wrap (signed : Bool) (width : IntegerWidth) (n : ℤ) : Integer signed width :=
  ⟨wrapInteger signed width n, integerInRange_wrapInteger signed width n⟩

/-! ### Arithmetic types -/

/-- The arithmetic types. -/
inductive ArithmeticType
  | boolean
  | integral (signed : Bool) (width : IntegerWidth)
  | floating (type : FloatingType)
deriving DecidableEq

namespace ArithmeticType

/-- The values of a type. -/
def carrier : ArithmeticType → Type
  | .boolean => Bool
  | .integral signed width => Integer signed width
  | .floating type => Floating type.format

/-- The value is a NaN. -/
def isNan : {type : ArithmeticType} → type.carrier → Bool
  | .boolean, _ => false
  | .integral _ _, _ => false
  | .floating _, value => Floating.isNan value

/-- The place of a value that is not NaN among the rationals and the two infinities. -/
def extended : {type : ArithmeticType} → type.carrier → WithBot (WithTop ℚ)
  | .boolean, value => (((Bool.toInt value : ℚ) : WithTop ℚ) : WithBot (WithTop ℚ))
  | .integral _ _, value => (((value.1 : ℚ) : WithTop ℚ) : WithBot (WithTop ℚ))
  | .floating _, value => Floating.extended value

/-- The integral promotions. -/
def promote : ArithmeticType → ArithmeticType
  | .boolean | .integral _ .bits8 | .integral _ .bits16 => .integral true .bits32
  | type => type

end ArithmeticType

/-- `static_cast<Target>`. -/
def staticCast : (target : ArithmeticType) → {source : ArithmeticType} →
    source.carrier → target.carrier
  | .boolean, .boolean, value => value
  | .boolean, .integral _ _, value => decide (value.1 ≠ 0)
  | .boolean, .floating _, value => !(Floating.isFinite value && decide (Floating.toRat value = 0))
  | .integral signed width, .boolean, value => Integer.wrap signed width (Bool.toInt value)
  | .integral signed width, .integral _ _, value => Integer.wrap signed width value.1
  | .integral signed width, .floating _, value =>
    Integer.wrap signed width ((Floating.truncate? value).getD 0)
  | .floating _, .boolean, value => Floating.ofRat false (Bool.toInt value)
  | .floating _, .integral _ _, value => Floating.ofRat false value.1
  | .floating _, .floating _, value => Floating.convert value

/-! ### Comparisons -/

/-- The floating-point type of greater rank. -/
def higherRank : FloatingType → FloatingType → FloatingType
  | .longDouble, _ | _, .longDouble => .longDouble
  | .double, _ | _, .double => .double
  | .float, .float => .float

/-- The wider of two integer widths. -/
def widerOf (a b : IntegerWidth) : IntegerWidth := if a.bits < b.bits then b else a

/-- The usual arithmetic conversions of two promoted types. -/
def commonType (a b : ArithmeticType) : ArithmeticType :=
  match a.promote, b.promote with
  | .floating f, .floating g => .floating (higherRank f g)
  | .floating f, _ => .floating f
  | _, .floating g => .floating g
  | .integral true v, .integral false w =>
    if v.bits ≤ w.bits then .integral false w else .integral true v
  | .integral false v, .integral true w =>
    if w.bits ≤ v.bits then .integral false v else .integral true w
  | .integral signed v, .integral _ w => .integral signed (widerOf v w)
  | a, _ => a

/-- A built-in comparison. -/
def compareValues (holds : WithBot (WithTop ℚ) → WithBot (WithTop ℚ) → Bool)
    {left right : ArithmeticType} (a : left.carrier) (b : right.carrier) : Bool :=
  let a := staticCast (commonType left right) a
  let b := staticCast (commonType left right) b
  !ArithmeticType.isNan a && !ArithmeticType.isNan b &&
    holds (ArithmeticType.extended a) (ArithmeticType.extended b)

/-- The value keeps its place when its operand has the same type: a promotion of an integer loses
nothing, and a floating-point type is its own. -/
theorem commonType_self (type : ArithmeticType) (value : type.carrier) :
    ArithmeticType.isNan (staticCast (commonType type type) value) = ArithmeticType.isNan value ∧
      ArithmeticType.extended (staticCast (commonType type type) value) =
        ArithmeticType.extended value := by
  have hwrap : ∀ {signed : Bool} {width : IntegerWidth} {n : ℤ},
      IntegerInRange signed width n →
      @ArithmeticType.extended (.integral signed width) (Integer.wrap signed width n) =
        (((n : ℚ) : WithTop ℚ) : WithBot (WithTop ℚ)) := by
    intro signed width n hn
    show (((wrapInteger signed width n : ℚ) : WithTop ℚ) : WithBot (WithTop ℚ)) = _
    rw [wrapInteger_of_inRange hn]
  have hnarrow : ∀ {signed : Bool} {width : IntegerWidth} {n : ℤ}, width.bits ≤ 16 →
      IntegerInRange signed width n → IntegerInRange true .bits32 n := by
    intro signed width n hwidth hn
    cases signed <;> cases width <;>
      simp [IntegerInRange, integerMinimum, integerDigits, IntegerWidth.bits] at hwidth hn ⊢ <;>
      omega
  cases type with
  | boolean =>
    have hboolean : IntegerInRange true .bits32 (Bool.toInt value) := by
      cases value <;> decide
    exact ⟨rfl, hwrap hboolean⟩
  | integral signed width =>
    cases width with
    | bits8 => exact ⟨rfl, hwrap (hnarrow (by decide) value.2)⟩
    | bits16 => exact ⟨rfl, hwrap (hnarrow (by decide) value.2)⟩
    | bits32 => cases signed <;> exact ⟨rfl, hwrap value.2⟩
    | bits64 => cases signed <;> exact ⟨rfl, hwrap value.2⟩
  | floating type =>
    have hembeds := BinaryFormat.Embeds.refl type.format
    cases type <;>
      exact ⟨Floating.isNan_convert value, Floating.extended_convert hembeds value⟩

/-- **A comparison of two values of one type** compares their places, and is false on a NaN. -/
theorem compareValues_self (holds : WithBot (WithTop ℚ) → WithBot (WithTop ℚ) → Bool)
    {type : ArithmeticType} (a b : type.carrier) :
    compareValues holds a b =
      (!ArithmeticType.isNan a && !ArithmeticType.isNan b &&
        holds (ArithmeticType.extended a) (ArithmeticType.extended b)) := by
  rw [compareValues, (commonType_self type a).1, (commonType_self type a).2,
    (commonType_self type b).1, (commonType_self type b).2]

/-! ### Programs -/

/-- A type of a program: an arithmetic type, or a class. -/
inductive CppType (Object : Type)
  | arithmetic (type : ArithmeticType)
  | object (type : Object)
deriving DecidableEq

/-- The values of a type of a program. -/
def CppType.carrier {Object : Type} (values : Object → Type) : CppType Object → Type
  | .arithmetic type => type.carrier
  | .object type => values type

/-- What a program adds to the built-in types: its names, its classes with the operators it
overloads for them, and the sorting algorithm of its standard library. -/
structure ProgramTypes where
  Name : Type
  nameDecidableEq : DecidableEq Name
  Object : Type
  objectDecidableEq : DecidableEq Object
  values : Object → Type
  greaterThan : {left right : CppType Object} → left.carrier values → right.carrier values → Bool
  greaterEqual : {left right : CppType Object} → left.carrier values → right.carrier values → Bool
  lessThan : {left right : CppType Object} → left.carrier values → right.carrier values → Bool
  lessEqual : {left right : CppType Object} → left.carrier values → right.carrier values → Bool
  equalTo : {left right : CppType Object} → left.carrier values → right.carrier values → Bool
  rangesSort : UnstableSort

/-- An operator of a program: the built-in comparison of arithmetic operands, an overload of the
program otherwise. -/
def resolveOperator {Object : Type} {values : Object → Type}
    (holds : WithBot (WithTop ℚ) → WithBot (WithTop ℚ) → Bool)
    (overloaded : {left right : CppType Object} → left.carrier values → right.carrier values →
      Bool) :
    {left right : CppType Object} → left.carrier values → right.carrier values → Bool
  | .arithmetic _, .arithmetic _, a, b => compareValues holds a b
  | .arithmetic _, .object _, a, b => overloaded a b
  | .object _, .arithmetic _, a, b => overloaded a b
  | .object _, .object _, a, b => overloaded a b

/-- The casts of the arithmetic types other than `bool`. -/
def arithmeticCasts {Object : Type} (values : Object → Type) :
    (type : CppType Object) → Option (ArithmeticCasts (Floating binary64) (type.carrier values))
  | .arithmetic .boolean => none
  | .arithmetic (.integral signed width) =>
    some
      { toDouble := @staticCast (.floating .double) (.integral signed width)
        ofDouble := @staticCast (.integral signed width) (.floating .double) }
  | .arithmetic (.floating type) =>
    some
      { toDouble := @staticCast (.floating .double) (.floating type)
        ofDouble := @staticCast (.floating type) (.floating .double) }
  | .object _ => none

/-- The type system of a program. -/
abbrev cppTypes (P : ProgramTypes) : TypeSystem where
  Name := P.Name
  nameDecidableEq := P.nameDecidableEq
  ValueType := CppType P.Object
  valueTypeDecidableEq :=
    have := P.objectDecidableEq
    inferInstance
  carrier := CppType.carrier P.values
  greaterThan := resolveOperator (fun a b => decide (b < a)) P.greaterThan
  greaterEqual := resolveOperator (fun a b => decide (b ≤ a)) P.greaterEqual
  lessThan := resolveOperator (fun a b => decide (a < b)) P.lessThan
  lessEqual := resolveOperator (fun a b => decide (a ≤ b)) P.lessEqual
  equalTo := resolveOperator (fun a b => decide (a = b)) P.equalTo
  arithmetic := doubleArithmetic
  casts := arithmeticCasts P.values
  rangesSort := P.rangesSort

end Memorial
