import Memorial.Library.Rounding
import Mathlib.Algebra.Order.Ring.WithTop

/-!
# Floating-point values

The values of a binary format and their arithmetic: one NaN, two infinities, the two zeros and the
other numbers of the format.  An operation on numbers is the exact one, rounded.

* `Floating` — the values; a finite one carries the proof that the format holds it;
* `Floating.extended`, `Floating.compare` — the order of the values that are not NaN, and the
  comparisons, which are false as soon as an operand is NaN;
* `Floating.ofRat`, `Floating.add`, … — rounding with overflow, and the four operations;
* `Floating.IsNumber` — a value is the rational; **PROVED** (`isNumber_ofRat` and the lemmas after
  it): an operation on numbers whose rounded result does not overflow is that result.
-/

namespace Memorial.Library

/-- The numbers of a format, below its largest exponent. -/
def BinaryFormat.Holds (format : BinaryFormat) (value : ℚ) : Prop :=
  format.Representable value ∧ |value| < 2 ^ format.maxExponent

/-- Every number of the one format is one of the other. -/
structure BinaryFormat.Embeds (format other : BinaryFormat) : Prop where
  precision : format.precision ≤ other.precision
  minExponent : other.minExponent ≤ format.minExponent
  maxExponent : format.maxExponent ≤ other.maxExponent

theorem BinaryFormat.Embeds.refl (format : BinaryFormat) : format.Embeds format :=
  ⟨le_rfl, le_rfl, le_rfl⟩

theorem BinaryFormat.Embeds.holds {format other : BinaryFormat} (h : format.Embeds other)
    {value : ℚ} (hvalue : format.Holds value) : other.Holds value := by
  obtain ⟨⟨j, i, hj, hi, rfl⟩, hbound⟩ := hvalue
  refine ⟨⟨j, i, hj.trans ?_, h.minExponent.trans hi, rfl⟩, hbound.trans_le ?_⟩
  · exact pow_le_pow_right₀ (by norm_num) h.precision
  · exact zpow_le_zpow_right₀ (by norm_num) h.maxExponent

/-- The values of a format.  NaNs are not told apart. -/
inductive Floating (format : BinaryFormat)
  | nan
  | infinity (negative : Bool)
  | negativeZero
  | finite (value : ℚ) (held : format.Holds value)

namespace Floating

variable {format : BinaryFormat}

/-! ### Reading a value -/

def isNan : Floating format → Bool
  | .nan => true
  | _ => false

def isFinite : Floating format → Bool
  | .nan | .infinity _ => false
  | .negativeZero | .finite _ _ => true

/-- The sign. -/
def isNegative : Floating format → Bool
  | .nan => false
  | .infinity negative => negative
  | .negativeZero => true
  | .finite value _ => decide (value < 0)

/-- The number a finite value stands for. -/
def toRat : Floating format → ℚ
  | .finite value _ => value
  | _ => 0

/-- The place of a value that is not NaN among the rationals and the two infinities. -/
def extended : Floating format → WithBot (WithTop ℚ)
  | .infinity true => ⊥
  | .infinity false => ((⊤ : WithTop ℚ) : WithBot (WithTop ℚ))
  | value => ((value.toRat : WithTop ℚ) : WithBot (WithTop ℚ))

/-- A comparison, which is false when an operand is NaN. -/
def compare {other : BinaryFormat} (holds : WithBot (WithTop ℚ) → WithBot (WithTop ℚ) → Bool)
    (a : Floating format) (b : Floating other) : Bool :=
  !a.isNan && !b.isNan && holds a.extended b.extended

/-- The value without its fraction, when it is finite. -/
def truncate? : Floating format → Option ℤ
  | .nan | .infinity _ => none
  | .negativeZero => some 0
  | .finite value _ => some (if 0 ≤ value then ⌊value⌋ else ⌈value⌉)

/-! ### Arithmetic -/

/-- The exact result of an operation, rounded; the sign is the one of a zero result. -/
def ofRat (negative : Bool) (q : ℚ) : Floating format :=
  if h : |format.round q| < 2 ^ format.maxExponent then
    if format.round q = 0 ∧ (negative = true ∨ q < 0) then .negativeZero
    else .finite (format.round q) ⟨BinaryFormat.representable_round q, h⟩
  else .infinity (decide (q < 0))

/-- Conversion from another format. -/
def convert {other : BinaryFormat} : Floating other → Floating format
  | .nan => .nan
  | .infinity negative => .infinity negative
  | value => ofRat value.isNegative value.toRat

def neg : Floating format → Floating format
  | .nan => .nan
  | .infinity negative => .infinity (!negative)
  | value => ofRat (!value.isNegative) (-value.toRat)

def add : Floating format → Floating format → Floating format
  | .nan, _ | _, .nan => .nan
  | .infinity a, .infinity b => if a = b then .infinity a else .nan
  | .infinity a, _ => .infinity a
  | _, .infinity b => .infinity b
  | a, b => ofRat (a.isNegative && b.isNegative) (a.toRat + b.toRat)

def sub (a b : Floating format) : Floating format := add a b.neg

def mul : Floating format → Floating format → Floating format
  | .nan, _ | _, .nan => .nan
  | .infinity a, b | b, .infinity a =>
    if b.isFinite ∧ b.toRat = 0 then .nan else .infinity (a != b.isNegative)
  | a, b => ofRat (a.isNegative != b.isNegative) (a.toRat * b.toRat)

def div : Floating format → Floating format → Floating format
  | .nan, _ | _, .nan => .nan
  | .infinity _, .infinity _ => .nan
  | .infinity a, b => .infinity (a != b.isNegative)
  | a, .infinity b => ofRat (a.isNegative != b) 0
  | a, b =>
    if b.toRat = 0 then if a.toRat = 0 then .nan else .infinity (a.isNegative != b.isNegative)
    else ofRat (a.isNegative != b.isNegative) (a.toRat / b.toRat)

/-- The least integer that is not below, as a value; the integers of the format are exact. -/
def ceil : Floating format → Floating format
  | .finite value _ => ofRat (decide (value < 0)) ⌈value⌉
  | value => value

/-! ### Values that are not NaN -/

@[simp]
theorem isNan_convert {other : BinaryFormat} (a : Floating other) :
    (a.convert : Floating format).isNan = a.isNan := by
  have hrounded : ∀ negative q, (ofRat negative q : Floating format).isNan = false := by
    intro negative q
    rw [ofRat]
    split_ifs <;> rfl
  cases a with
  | nan => rfl
  | infinity negative => rfl
  | negativeZero => exact hrounded _ _
  | finite value held => exact hrounded _ _

theorem isNan_of_isFinite {a : Floating format} (h : a.isFinite = true) : a.isNan = false := by
  cases a with
  | nan => cases h
  | infinity negative => cases h
  | negativeZero => rfl
  | finite value held => rfl

theorem extended_of_isFinite {a : Floating format} (h : a.isFinite = true) :
    a.extended = ((a.toRat : WithTop ℚ) : WithBot (WithTop ℚ)) := by
  cases a with
  | nan => cases h
  | infinity negative => cases h
  | negativeZero => rfl
  | finite value held => rfl

/-! ### Values that are numbers -/

/-- The value is the number. -/
def IsNumber (a : Floating format) (q : ℚ) : Prop := a.isFinite = true ∧ a.toRat = q

theorem isNumber_of_isFinite {a : Floating format} (h : a.isFinite = true) :
    a.IsNumber a.toRat := ⟨h, rfl⟩

theorem IsNumber.holds {a : Floating format} {q : ℚ} (h : a.IsNumber q) : format.Holds q := by
  obtain ⟨hfinite, rfl⟩ := h
  cases a with
  | nan => cases hfinite
  | infinity negative => cases hfinite
  | negativeZero =>
    exact ⟨BinaryFormat.representable_zero, by
      show |(0 : ℚ)| < _
      rw [abs_zero]
      exact BinaryFormat.two_zpow_pos _⟩
  | finite value held => exact held

theorem compare_of_isNumber {other : BinaryFormat}
    {holds : WithBot (WithTop ℚ) → WithBot (WithTop ℚ) → Bool} {a : Floating format}
    {b : Floating other} {x y : ℚ} (ha : a.IsNumber x) (hb : b.IsNumber y) :
    compare holds a b = holds ((x : WithTop ℚ) : WithBot (WithTop ℚ))
      ((y : WithTop ℚ) : WithBot (WithTop ℚ)) := by
  rw [compare, isNan_of_isFinite ha.1, isNan_of_isFinite hb.1, extended_of_isFinite ha.1,
    extended_of_isFinite hb.1, ha.2, hb.2]
  rfl

theorem isNumber_ofRat {negative : Bool} {q : ℚ}
    (h : |format.round q| < 2 ^ format.maxExponent) :
    (ofRat negative q : Floating format).IsNumber (format.round q) := by
  rw [ofRat, dif_pos h]
  split
  · rename_i hzero
    exact ⟨rfl, hzero.1.symm⟩
  · exact ⟨rfl, rfl⟩

theorem isNumber_neg {a : Floating format} {x : ℚ} (ha : a.IsNumber x)
    (h : |format.round (-x)| < 2 ^ format.maxExponent) : a.neg.IsNumber (format.round (-x)) := by
  obtain ⟨hfinite, rfl⟩ := ha
  cases a with
  | nan => cases hfinite
  | infinity negative => cases hfinite
  | negativeZero => exact isNumber_ofRat h
  | finite value held => exact isNumber_ofRat h

theorem isNumber_add {a b : Floating format} {x y : ℚ} (ha : a.IsNumber x) (hb : b.IsNumber y)
    (h : |format.round (x + y)| < 2 ^ format.maxExponent) :
    (a.add b).IsNumber (format.round (x + y)) := by
  obtain ⟨hfinite, rfl⟩ := ha
  obtain ⟨hfinite', rfl⟩ := hb
  cases a <;> cases hfinite <;> cases b <;> cases hfinite' <;> exact isNumber_ofRat h

theorem isNumber_mul {a b : Floating format} {x y : ℚ} (ha : a.IsNumber x) (hb : b.IsNumber y)
    (h : |format.round (x * y)| < 2 ^ format.maxExponent) :
    (a.mul b).IsNumber (format.round (x * y)) := by
  obtain ⟨hfinite, rfl⟩ := ha
  obtain ⟨hfinite', rfl⟩ := hb
  cases a <;> cases hfinite <;> cases b <;> cases hfinite' <;> exact isNumber_ofRat h

/-- Dividing numbers, apart from the case of a zero divisor. -/
theorem div_of_isFinite {a b : Floating format} (ha : a.isFinite = true) (hb : b.isFinite = true)
    (hzero : b.toRat ≠ 0) :
    a.div b = ofRat (a.isNegative != b.isNegative) (a.toRat / b.toRat) := by
  cases a <;> cases ha <;> cases b <;> cases hb <;> exact if_neg hzero

theorem isNumber_div {a b : Floating format} {x y : ℚ} (ha : a.IsNumber x) (hb : b.IsNumber y)
    (hy : y ≠ 0) (h : |format.round (x / y)| < 2 ^ format.maxExponent) :
    (a.div b).IsNumber (format.round (x / y)) := by
  obtain ⟨hfinite, rfl⟩ := ha
  obtain ⟨hfinite', rfl⟩ := hb
  rw [div_of_isFinite hfinite hfinite' hy]
  exact isNumber_ofRat h

/-- The least integer above a number of the format is a number of the format. -/
theorem representable_ceil {q : ℚ} (hexponent : format.minExponent ≤ 0)
    (hq : format.Representable q) : format.Representable ⌈q⌉ := by
  obtain ⟨j, i, hj, hi, rfl⟩ := hq
  rcases le_or_gt 0 i with hwhole | hfraction
  · have hinteger : (j : ℚ) * 2 ^ i = ((j * 2 ^ i.toNat : ℤ) : ℚ) := by
      obtain ⟨n, rfl⟩ := Int.eq_ofNat_of_zero_le hwhole
      push_cast
      rw [Int.toNat_natCast, zpow_natCast]
    refine ⟨j, i, hj, hi, ?_⟩
    rw [hinteger, Int.ceil_intCast]
  · -- a number with a fraction is so small that all integers near it are exact
    have hpower : (2 : ℚ) ^ i ≤ 1 := by
      rw [← zpow_zero (2 : ℚ)]
      exact zpow_le_zpow_right₀ (by norm_num) hfraction.le
    have hbound : |(j : ℚ) * 2 ^ i| ≤ (2 ^ format.precision : ℤ) := by
      rw [abs_mul, abs_of_pos (BinaryFormat.two_zpow_pos i)]
      have hj' : |(j : ℚ)| ≤ (2 ^ format.precision : ℤ) := by exact_mod_cast hj
      calc |(j : ℚ)| * 2 ^ i ≤ |(j : ℚ)| * 1 := mul_le_mul_of_nonneg_left hpower (abs_nonneg _)
        _ ≤ (2 ^ format.precision : ℤ) := by rw [mul_one]; exact hj'
    obtain ⟨hlow, hhigh⟩ := abs_le.mp hbound
    refine ⟨⌈(j : ℚ) * 2 ^ i⌉, 0, abs_le.mpr ⟨?_, Int.ceil_le.mpr hhigh⟩, hexponent, by simp⟩
    have hceil : ((-(2 ^ format.precision : ℤ) : ℤ) : ℚ) ≤ ⌈(j : ℚ) * 2 ^ i⌉ := by
      push_cast
      push_cast at hlow
      exact hlow.trans (Int.le_ceil _)
    exact_mod_cast hceil

theorem isNumber_ceil {a : Floating format} {x : ℚ} (ha : a.IsNumber x)
    (hexponent : format.minExponent ≤ 0) (h : |(⌈x⌉ : ℚ)| < 2 ^ format.maxExponent) :
    a.ceil.IsNumber ⌈x⌉ := by
  have hround := BinaryFormat.round_of_representable (representable_ceil hexponent ha.holds.1)
  obtain ⟨hfinite, rfl⟩ := ha
  cases a with
  | nan => cases hfinite
  | infinity negative => cases hfinite
  | negativeZero =>
    refine ⟨rfl, ?_⟩
    show (0 : ℚ) = ⌈(0 : ℚ)⌉
    rw [Int.ceil_zero, Int.cast_zero]
  | finite value held =>
    have hexact : format.round ⌈value⌉ = ⌈value⌉ := hround
    have hnumber : (ofRat (decide (value < 0)) ⌈value⌉ : Floating format).IsNumber
        (format.round ⌈value⌉) := isNumber_ofRat (by rw [hexact]; exact h)
    rw [hexact] at hnumber
    exact hnumber

theorem isNumber_convert {other : BinaryFormat} {a : Floating other} {x : ℚ} (ha : a.IsNumber x)
    (h : |format.round x| < 2 ^ format.maxExponent) :
    (a.convert : Floating format).IsNumber (format.round x) := by
  obtain ⟨hfinite, rfl⟩ := ha
  cases a with
  | nan => cases hfinite
  | infinity negative => cases hfinite
  | negativeZero => exact isNumber_ofRat h
  | finite value held => exact isNumber_ofRat h

/-- A conversion that loses nothing. -/
theorem isNumber_convert_of_embeds {other : BinaryFormat} (h : other.Embeds format)
    {a : Floating other} {x : ℚ} (ha : a.IsNumber x) :
    (a.convert : Floating format).IsNumber x := by
  have hheld : format.Holds x := h.holds ha.holds
  have hround := BinaryFormat.round_of_representable hheld.1
  have hnumber : (a.convert : Floating format).IsNumber (format.round x) :=
    isNumber_convert ha (by rw [hround]; exact hheld.2)
  rwa [hround] at hnumber

/-- It keeps the place of the value. -/
theorem extended_convert {other : BinaryFormat} (h : other.Embeds format) (a : Floating other) :
    (a.convert : Floating format).extended = a.extended := by
  by_cases hfinite : a.isFinite = true
  · have hnumber := isNumber_convert_of_embeds h (isNumber_of_isFinite hfinite)
    rw [extended_of_isFinite hnumber.1, extended_of_isFinite hfinite, hnumber.2]
  · cases a with
    | nan => rfl
    | infinity negative => cases negative <;> rfl
    | negativeZero => exact absurd rfl hfinite
    | finite value held => exact absurd rfl hfinite

end Floating

end Memorial.Library
