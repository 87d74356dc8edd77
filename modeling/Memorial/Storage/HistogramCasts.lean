import Memorial.Storage.SelectivityEstimates

/-!
# Casts of a histogram

The doubles that an estimate casts back to an integer property.  The column was rounded on its way
into the histogram, so the largest double may lie one above the largest value of a 64-bit type, and
casting it back is undefined.

* `midpointOf` — a midpoint as a rational, with its six roundings;
* `midpointOf_le`, `le_midpointOf`, `top_le_midpointOf_iff` — **PROVED**: midpoints stay between
  the two ends, and where the last one comes out as the power of two above the type;
* `castDefined` — the casts back to a property type, where they are defined;
* `TopHeavy` — the columns of a wide type that lie next to its upper end;
* `estimate_defined_iff` — **PROVED**: the casts are defined exactly outside those columns.
-/

namespace Memorial

open Library BinaryFormat

/-! ### Rounding at 53 bits -/

theorem representable_mul_pow {j k : ℤ} (hj : |j| ≤ 2 ^ 53) (hk : -1074 ≤ k) :
    binary64.Representable (j * 2 ^ k) :=
  ⟨j, k, hj, hk, rfl⟩

theorem representable_intCast {j : ℤ} (hj : |j| ≤ 2 ^ 53) : binary64.Representable j := by
  have hrepresentable := representable_mul_pow hj (by norm_num : -1074 ≤ (0 : ℤ))
  rwa [zpow_zero, mul_one] at hrepresentable

theorem representable_two_pow {k : ℤ} (hk : -1074 ≤ k) : binary64.Representable (2 ^ k) := by
  have hrepresentable := representable_mul_pow (j := 1) (by norm_num) hk
  rwa [Int.cast_one, one_mul] at hrepresentable

/-- Nothing of the size of a 64-bit integer overflows. -/
theorem abs_round_lt {q : ℚ} (h : |q| ≤ 2 ^ (70 : ℤ)) :
    |binary64.round q| < 2 ^ binary64.maxExponent := by
  have hround := abs_round_le (representable_two_pow (by norm_num)) h
  refine hround.trans_lt (zpow_lt_zpow_right₀ (by norm_num) ?_)
  show (70 : ℤ) < 1024
  norm_num

/-- The relative error of a number that is not tiny. -/
theorem round_le_mul {q : ℚ} (h : 1 / 16 ≤ q) : binary64.round q ≤ q * (10001 / 10000) := by
  have hpos : 0 < q := lt_of_lt_of_le (by norm_num) h
  have hlog : -4 ≤ Int.log 2 q := by
    rw [← Int.zpow_le_iff_le_log (by norm_num) hpos]
    exact le_trans (by norm_num) h
  have hnormal : binary64.minExponent ≤ Int.log 2 q + 1 - binary64.precision := by
    show (-1074 : ℤ) ≤ Int.log 2 q + 1 - ((53 : ℕ) : ℤ)
    omega
  refine (round_le_of_pos hpos hnormal).trans (mul_le_mul_of_nonneg_left ?_ hpos.le)
  norm_num [binary64]

/-! ### Midpoints -/

/-- The distance of a midpoint from the minimum. -/
def offsetOf (m M : ℚ) (bucket : ℕ) : ℚ :=
  binary64.round ((bucket + 1 / 2) * binary64.round (binary64.round (M - m) / 16))

/-- The midpoint of a bucket between the two ends of a column. -/
def midpointOf (m M : ℚ) (bucket : ℕ) : ℚ := binary64.round (m + offsetOf m M bucket)

section Midpoints

variable {m M : ℚ} {bucket : ℕ}

theorem offsetOf_nonneg (h : m ≤ M) : 0 ≤ offsetOf m M bucket := by
  have hrange : 0 ≤ binary64.round (M - m) := round_nonneg (sub_nonneg.mpr h)
  have hwidth : 0 ≤ binary64.round (binary64.round (M - m) / 16) :=
    round_nonneg (div_nonneg hrange (by norm_num))
  exact round_nonneg (mul_nonneg (by positivity) hwidth)

/-- The offset of the last midpoint is at most 32/33 of the range: three roundings cannot make up
for the half bucket that is missing. -/
theorem offsetOf_lt (h : 1 ≤ M - m) (hbucket : bucket ≤ 15) :
    offsetOf m M bucket < (M - m) * (32 / 33) := by
  have hone : binary64.Representable (1 : ℚ) := by
    exact_mod_cast representable_intCast (j := 1) (by norm_num)
  have hsixteenth : binary64.Representable (1 / 16 : ℚ) := by
    have hpower := representable_two_pow (k := -4) (by norm_num)
    norm_num at hpower ⊢
    exact hpower
  have hrange : (1 : ℚ) ≤ binary64.round (M - m) := le_round hone h
  have hrangeLe := round_le_mul (by linarith : 1 / 16 ≤ M - m)
  have hwidth : (1 / 16 : ℚ) ≤ binary64.round (binary64.round (M - m) / 16) :=
    le_round hsixteenth (by linarith)
  have hwidthLe := round_le_mul (by linarith : 1 / 16 ≤ binary64.round (M - m) / 16)
  have hlast : offsetOf m M bucket ≤
      binary64.round (31 / 2 * binary64.round (binary64.round (M - m) / 16)) := by
    apply round_mono
    apply mul_le_mul_of_nonneg_right _ (by linarith)
    have hcast : (bucket : ℚ) ≤ 15 := by exact_mod_cast hbucket
    linarith
  have hoffsetLe := round_le_mul
    (by linarith : 1 / 16 ≤ 31 / 2 * binary64.round (binary64.round (M - m) / 16))
  linarith

/-- Sixteen units below the power of two, the offset of the last midpoint is exact. -/
theorem offsetOf_exact {units k : ℤ} (hnonneg : 0 ≤ units) (hunits : units ≤ 16) (hk : -1000 ≤ k)
    {M : ℚ} (hrange : M - m = units * 2 ^ k) :
    offsetOf m M 15 = 31 / 32 * (M - m) := by
  have hwidth : (units : ℚ) * 2 ^ k / 16 = units * 2 ^ (k - 4) := by
    rw [zpow_sub₀ (by norm_num)]
    norm_num
    ring
  have hoffset : (((15 : ℕ) : ℚ) + 1 / 2) * (units * 2 ^ (k - 4)) =
      ((31 * units : ℤ) : ℚ) * 2 ^ (k - 5) := by
    rw [zpow_sub₀ (by norm_num), zpow_sub₀ (by norm_num)]
    push_cast
    norm_num
    ring
  have habs : |units| ≤ 16 := abs_le.mpr ⟨by omega, hunits⟩
  have habs' : |31 * units| ≤ 2 ^ 53 := abs_le.mpr ⟨by omega, by omega⟩
  rw [offsetOf, hrange, round_of_representable (representable_mul_pow (by omega) (by omega)),
    hwidth, round_of_representable (representable_mul_pow (by omega) (by omega)), hoffset,
    round_of_representable (representable_mul_pow habs' (by omega)), zpow_sub₀ (by norm_num)]
  push_cast
  norm_num
  ring

theorem le_midpointOf (hm : binary64.Representable m) (h : m ≤ M) : m ≤ midpointOf m M bucket :=
  le_round hm (le_add_of_nonneg_right (offsetOf_nonneg h))

theorem midpointOf_mono (h : m ≤ M) {later : ℕ} (hle : bucket ≤ later) :
    midpointOf m M bucket ≤ midpointOf m M later := by
  have hrange : 0 ≤ binary64.round (M - m) := round_nonneg (sub_nonneg.mpr h)
  have hwidth : 0 ≤ binary64.round (binary64.round (M - m) / 16) :=
    round_nonneg (div_nonneg hrange (by norm_num))
  have hcast : (bucket : ℚ) ≤ later := by exact_mod_cast hle
  have hoffset : offsetOf m M bucket ≤ offsetOf m M later :=
    round_mono (mul_le_mul_of_nonneg_right (by linarith) hwidth)
  exact round_mono (by linarith)

theorem midpointOf_le (hM : binary64.Representable M) (h : 1 ≤ M - m) (hbucket : bucket ≤ 15) :
    midpointOf m M bucket ≤ M := by
  have hoffset := offsetOf_lt h hbucket
  exact round_le hM (by linarith)

end Midpoints

/-! ### The last midpoint below a power of two -/

section Top

/-- The power of two, in units of the last place below it. -/
theorem two_pow_eq (digits : ℕ) :
    (2 : ℚ) ^ digits = ((2 ^ 53 : ℤ) : ℚ) * 2 ^ ((digits : ℤ) - 53) := by
  have hsplit : ((digits : ℕ) : ℤ) = 53 + ((digits : ℤ) - 53) := by ring
  rw [← zpow_natCast, hsplit, zpow_add₀ (by norm_num)]
  norm_num

variable {digits : ℕ} (hdigits : 54 ≤ digits) {m : ℚ}

include hdigits

/-- What is rounded up to the power of two. -/
theorem two_pow_le_round_iff (q : ℚ) :
    2 ^ digits ≤ binary64.round q ↔ 2 ^ digits - 2 ^ ((digits : ℤ) - 53) / 2 ≤ q := by
  rw [two_pow_eq digits, le_round_iff_of_even (by norm_num) (by show (-1074 : ℤ) ≤ _; omega)
    (by norm_num [binary64]) (by norm_num [binary64])]
  constructor <;> intro h <;> linarith

/-- What is rounded to within sixteen units of it. -/
theorem sub_units_le_round_iff (q : ℚ) :
    2 ^ digits - 16 * 2 ^ ((digits : ℤ) - 53) ≤ binary64.round q ↔
      2 ^ digits - 33 / 2 * 2 ^ ((digits : ℤ) - 53) ≤ q := by
  have hunits : (2 : ℚ) ^ digits - 16 * 2 ^ ((digits : ℤ) - 53) =
      ((2 ^ 53 - 16 : ℤ) : ℚ) * 2 ^ ((digits : ℤ) - 53) := by
    rw [two_pow_eq digits]
    push_cast
    ring
  rw [hunits, two_pow_eq digits, le_round_iff_of_even (by norm_num)
    (by show (-1074 : ℤ) ≤ _; omega) (by norm_num [binary64]) (by norm_num [binary64])]
  push_cast
  constructor <;> intro h <;> linarith

/-- **The last midpoint comes out as the power of two exactly when the minimum is at most sixteen
units below.**  Nearer than that every step is exact; further away the missing half bucket is more
than half a unit. -/
theorem top_le_midpointOf_iff (hm : binary64.Representable m) (hbelow : m < 2 ^ digits)
    (hone : 1 ≤ 2 ^ digits - m) :
    2 ^ digits ≤ midpointOf m (2 ^ digits) 15 ↔
      2 ^ digits - 16 * 2 ^ ((digits : ℤ) - 53) ≤ m := by
  have hunit := two_zpow_pos ((digits : ℤ) - 53)
  rw [midpointOf, two_pow_le_round_iff hdigits]
  constructor
  · intro hreached
    rw [← round_of_representable hm, sub_units_le_round_iff hdigits]
    by_contra hfar
    have hoffset := offsetOf_lt hone (le_refl 15)
    rw [not_le] at hfar
    linarith
  · intro hnear
    have hhigh : m < ((2 ^ 53 : ℤ) : ℚ) * 2 ^ ((digits : ℤ) - 53) := by
      rw [← two_pow_eq digits]
      exact hbelow
    have hlow : (2 : ℚ) ^ (53 - 1) * 2 ^ ((digits : ℤ) - 53) ≤ m := by
      rw [two_pow_eq digits] at hnear
      push_cast at hnear
      norm_num
      linarith
    obtain ⟨j, hj⟩ := exists_eq_mul_of_representable hm (by show (-1074 : ℤ) ≤ _; omega) hlow
      (by exact_mod_cast hhigh)
    -- the distance in units: between 1 and 16
    have hunits : (2 : ℚ) ^ digits - m = ((2 ^ 53 - j : ℤ) : ℚ) * 2 ^ ((digits : ℤ) - 53) := by
      rw [two_pow_eq, hj]
      push_cast
      ring
    have hnear' : ((2 ^ 53 - j : ℤ) : ℚ) ≤ ((16 : ℤ) : ℚ) := by
      apply le_of_mul_le_mul_right _ hunit
      rw [← hunits]
      push_cast
      linarith
    have hpos : ((0 : ℤ) : ℚ) < ((2 ^ 53 - j : ℤ) : ℚ) := by
      apply lt_of_mul_lt_mul_right _ hunit.le
      rw [← hunits]
      push_cast
      linarith
    have hnear' := Int.cast_le.mp hnear'
    have hpos := Int.cast_lt.mp hpos
    rw [offsetOf_exact hpos.le hnear' (by omega) hunits]
    have hnearQ : ((2 ^ 53 - j : ℤ) : ℚ) ≤ 16 := by exact_mod_cast hnear'
    have hscaled := mul_le_mul_of_nonneg_right hnearQ hunit.le
    rw [← hunits] at hscaled
    linarith

end Top

/-! ### The midpoints of a histogram -/

/-- A small number of the format is produced exactly. -/
theorem isNumber_ofRat_exact {q : ℚ} (hq : binary64.Representable q) (hbound : |q| ≤ 16) :
    (Floating.ofRat false q : Floating binary64).IsNumber q := by
  have hround := round_of_representable hq
  have hnumber : (Floating.ofRat false q : Floating binary64).IsNumber (binary64.round q) :=
    Floating.isNumber_ofRat (abs_round_lt (hbound.trans (by norm_num)))
  rwa [hround] at hnumber

theorem isNumber_ofSize {n : ℕ} (hn : n ≤ 16) : (doubleArithmetic.ofSize n).IsNumber n := by
  have hcast : binary64.Representable ((n : ℤ) : ℚ) :=
    representable_intCast (abs_le.mpr ⟨by omega, by omega⟩)
  have hle : (n : ℚ) ≤ 16 := by exact_mod_cast hn
  apply isNumber_ofRat_exact (by exact_mod_cast hcast)
  rw [abs_of_nonneg (Nat.cast_nonneg n)]
  exact hle

theorem isNumber_half : doubleArithmetic.half.IsNumber (1 / 2) := by
  have hpower := representable_two_pow (k := -1) (by norm_num)
  apply isNumber_ofRat_exact
  · norm_num at hpower ⊢
    exact hpower
  · norm_num

/-- The center of a bucket, in widths. -/
theorem isNumber_center {bucket : ℕ} (hbucket : bucket ≤ 15) :
    (doubleArithmetic.add (doubleArithmetic.ofSize bucket) doubleArithmetic.half).IsNumber
      (bucket + 1 / 2) := by
  have hle : (bucket : ℚ) ≤ 15 := by exact_mod_cast hbucket
  have hnonneg : (0 : ℚ) ≤ bucket := Nat.cast_nonneg bucket
  have hrepresentable : binary64.Representable ((bucket : ℚ) + 1 / 2) := by
    have hodd := representable_mul_pow (j := 2 * bucket + 1) (k := -1)
      (abs_le.mpr ⟨by omega, by omega⟩) (by norm_num)
    have heq : (bucket : ℚ) + 1 / 2 = ((2 * bucket + 1 : ℤ) : ℚ) * 2 ^ (-1 : ℤ) := by
      push_cast
      norm_num
      ring
    rw [heq]
    exact hodd
  have hround := round_of_representable hrepresentable
  have hnumber := Floating.isNumber_add (isNumber_ofSize (by omega : bucket ≤ 16)) isNumber_half
    (abs_round_lt (by rw [abs_of_nonneg (by linarith)]; norm_num; linarith))
  rwa [hround] at hnumber

/-- **A midpoint of the histogram is the rational one.** -/
theorem isNumber_midpoint {histogram : PropertyHistogram doubleArithmetic} {m M : ℚ}
    (hminimum : histogram.minimum.IsNumber m) (hmaximum : histogram.maximum.IsNumber M)
    (hm : |m| ≤ 2 ^ (64 : ℤ)) (hM : |M| ≤ 2 ^ (64 : ℤ)) (hrange : 1 ≤ M - m)
    (bucket : Fin propertyHistogramBucketCount) :
    (histogram.midpoint bucket).IsNumber (midpointOf m M bucket) := by
  obtain ⟨hmlow, hmhigh⟩ := abs_le.mp hm
  obtain ⟨hMlow, hMhigh⟩ := abs_le.mp hM
  have hbucket : (bucket : ℕ) ≤ 15 := Nat.le_of_lt_succ bucket.2
  have hneg : histogram.minimum.neg.IsNumber (-m) := by
    have hnumber := Floating.isNumber_neg hminimum
      (abs_round_lt (by rw [abs_neg]; exact hm.trans (by norm_num)))
    rwa [round_of_representable hminimum.holds.1.neg] at hnumber
  have hdifference : M + -m = M - m := (sub_eq_add_neg M m).symm
  have hspan : |M - m| ≤ 2 ^ (65 : ℤ) := by
    rw [abs_of_nonneg (by linarith)]
    norm_num at hmlow hMhigh ⊢
    linarith
  have hsub : (doubleArithmetic.sub histogram.maximum histogram.minimum).IsNumber
      (binary64.round (M - m)) := by
    rw [← hdifference] at hspan ⊢
    exact Floating.isNumber_add hmaximum hneg (abs_round_lt (hspan.trans (by norm_num)))
  have hround := abs_round_le (representable_two_pow (by norm_num)) hspan
  have hquotient : |binary64.round (M - m) / 16| ≤ 2 ^ (61 : ℤ) := by
    rw [abs_div, div_le_iff₀ (by norm_num)]
    norm_num at hround ⊢
    linarith
  have hwidth : histogram.width.IsNumber (binary64.round (binary64.round (M - m) / 16)) :=
    Floating.isNumber_div hsub (isNumber_ofSize (le_refl 16)) (by norm_num)
      (abs_round_lt (hquotient.trans (by norm_num)))
  have hwidthLe := abs_round_le (representable_two_pow (by norm_num)) hquotient
  have hoffset := offsetOf_lt hrange hbucket
  have hproduct : |((bucket : ℕ) + 1 / 2 : ℚ) * binary64.round (binary64.round (M - m) / 16)| ≤
      2 ^ (70 : ℤ) := by
    have hle : ((bucket : ℕ) : ℚ) ≤ 15 := by exact_mod_cast hbucket
    have hcenter : |((bucket : ℕ) + 1 / 2 : ℚ)| ≤ 16 := by
      rw [abs_of_nonneg (by positivity)]
      linarith
    rw [abs_mul]
    calc _ ≤ 16 * 2 ^ (61 : ℤ) := mul_le_mul hcenter hwidthLe (abs_nonneg _) (by norm_num)
      _ ≤ 2 ^ (70 : ℤ) := by norm_num
  have hmul : (doubleArithmetic.mul (doubleArithmetic.add (doubleArithmetic.ofSize bucket)
      doubleArithmetic.half) histogram.width).IsNumber (offsetOf m M bucket) :=
    Floating.isNumber_mul (isNumber_center hbucket) hwidth (abs_round_lt hproduct)
  have hnonneg : 0 ≤ offsetOf m M bucket := offsetOf_nonneg (by linarith)
  have hsum : |m + offsetOf m M bucket| ≤ 2 ^ (70 : ℤ) := by
    rw [abs_le]
    norm_num at hmlow hMhigh hmhigh ⊢
    constructor <;> linarith
  exact Floating.isNumber_add hminimum hmul (abs_round_lt hsum)

/-! ### Casts back to the property type -/

/-- `static_cast` from `double`, where it is defined: to an integer type when the value without its
fraction is one of the type. -/
def castDefined {Object : Type} (values : Object → Type) :
    (type : CppType Object) → Floating binary64 → Option (type.carrier values)
  | .arithmetic .boolean, double => some (@staticCast .boolean (.floating .double) double)
  | .arithmetic (.integral signed width), double =>
    double.truncate?.bind
      (fun n => if h : IntegerInRange signed width n then some ⟨n, h⟩ else none)
  | .arithmetic (.floating type), double =>
    some (@staticCast (.floating type) (.floating .double) double)
  | .object _, _ => none

/-- The integer a value is; 0 for a value of another type. -/
def integerValue {Object : Type} {values : Object → Type} :
    {type : CppType Object} → type.carrier values → ℤ
  | .arithmetic (.integral _ _), value => value.1
  | .arithmetic .boolean, _ => 0
  | .arithmetic (.floating _), _ => 0
  | .object _, _ => 0

section Integral

variable {signed : Bool} {width : IntegerWidth}

theorem abs_le_of_inRange {n : ℤ} (h : IntegerInRange signed width n) : |n| ≤ 2 ^ 64 := by
  obtain ⟨hlow, hhigh⟩ := h
  have hdigits : integerDigits signed width ≤ 64 := by
    cases signed <;> cases width <;> decide
  have hpower : (2 : ℤ) ^ integerDigits signed width ≤ 2 ^ 64 :=
    pow_le_pow_right₀ (by norm_num) hdigits
  have hminimum : -(2 : ℤ) ^ integerDigits signed width ≤ integerMinimum signed width := by
    have hpos : (0 : ℤ) < 2 ^ integerDigits signed width := by positivity
    rw [integerMinimum]
    split <;> omega
  exact abs_le.mpr ⟨by omega, by omega⟩

/-- An integer becomes the nearest double. -/
theorem isNumber_toDouble (value : Integer signed width) :
    (@staticCast (.floating .double) (.integral signed width) value).IsNumber
      (binary64.round value.1) := by
  apply Floating.isNumber_ofRat
  apply abs_round_lt
  have hbound : |(value.1 : ℚ)| ≤ 2 ^ 64 := by exact_mod_cast abs_le_of_inRange value.2
  exact hbound.trans (by norm_num)

/-- Where a cast to the type is defined, it is the one that the model makes. -/
theorem staticCast_of_castDefined {Object : Type} {values : Object → Type}
    {double : Floating binary64} {value : Integer signed width}
    (h : castDefined values (.arithmetic (.integral signed width)) double = some value) :
    @staticCast (.integral signed width) (.floating .double) double = value := by
  obtain ⟨n, htruncate, hn⟩ := Option.bind_eq_some_iff.mp h
  by_cases hrange : IntegerInRange signed width n
  · rw [dif_pos hrange] at hn
    obtain rfl := Option.some.inj hn
    apply Subtype.ext
    show wrapInteger signed width (double.truncate?.getD 0) = n
    rw [htruncate]
    exact wrapInteger_of_inRange hrange
  · rw [dif_neg hrange] at hn
    cases hn

/-- A double above the minimum of the type is cast back exactly if it is below the upper end. -/
theorem castDefined_isSome_iff {Object : Type} {values : Object → Type}
    {double : Floating binary64} {q : ℚ} (hdouble : double.IsNumber q)
    (hq : (integerMinimum signed width : ℚ) ≤ q) :
    (castDefined values (.arithmetic (.integral signed width)) double).isSome = true ↔
      q < 2 ^ integerDigits signed width := by
  have hpower : ((2 ^ integerDigits signed width : ℤ) : ℚ) = 2 ^ integerDigits signed width := by
    push_cast
    rfl
  have hpos : (0 : ℤ) < 2 ^ integerDigits signed width := by positivity
  have htruncate : double.truncate? = some (if 0 ≤ q then ⌊q⌋ else ⌈q⌉) := by
    obtain ⟨hfinite, rfl⟩ := hdouble
    cases double with
    | nan => cases hfinite
    | infinity negative => cases hfinite
    | negativeZero => rfl
    | finite value held => rfl
  have hrange : IntegerInRange signed width (if 0 ≤ q then ⌊q⌋ else ⌈q⌉) ↔
      q < 2 ^ integerDigits signed width := by
    rw [IntegerInRange, ← hpower]
    by_cases hsign : 0 ≤ q
    · rw [if_pos hsign, Int.floor_lt]
      refine and_iff_right ?_
      exact (integerMinimum_nonpos signed width).trans (Int.floor_nonneg.mpr hsign)
    · rw [if_neg hsign]
      have hceil : ⌈q⌉ ≤ 0 := Int.ceil_le.mpr (by simpa using (not_le.mp hsign).le)
      have hlow : integerMinimum signed width ≤ ⌈q⌉ := by
        exact_mod_cast hq.trans (Int.le_ceil q)
      refine iff_of_true ⟨hlow, by omega⟩ ?_
      have hpos' : (0 : ℚ) < ((2 ^ integerDigits signed width : ℤ) : ℚ) := by exact_mod_cast hpos
      linarith
  rw [castDefined, htruncate, Option.bind_some, ← hrange]
  by_cases hin : IntegerInRange signed width (if 0 ≤ q then ⌊q⌋ else ⌈q⌉)
  · rw [dif_pos hin]
    exact iff_of_true rfl hin
  · rw [dif_neg hin]
    exact iff_of_false (by simp) hin

/-! ### Rounded integers of a type -/

/-- The rounded integer lies between the ends of the type, the upper one included. -/
theorem round_mem_range (value : Integer signed width) :
    (integerMinimum signed width : ℚ) ≤ binary64.round value.1 ∧
      binary64.round value.1 ≤ 2 ^ integerDigits signed width := by
  obtain ⟨hlow, hhigh⟩ := value.2
  have hpower : binary64.Representable (2 ^ integerDigits signed width : ℚ) := by
    have hrepresentable := representable_two_pow (k := integerDigits signed width) (by omega)
    rwa [zpow_natCast] at hrepresentable
  have hminimum : binary64.Representable (integerMinimum signed width : ℚ) := by
    rw [integerMinimum]
    split
    · push_cast
      exact hpower.neg
    · exact_mod_cast representable_zero
  have hhigh' : (value.1 : ℚ) ≤ 2 ^ integerDigits signed width := by exact_mod_cast hhigh.le
  exact ⟨le_round hminimum (by exact_mod_cast hlow), round_le hpower hhigh'⟩

/-- Up to 53 digits no integer is rounded up to the upper end. -/
theorem lt_of_narrow (hnarrow : integerDigits signed width ≤ 53) (value : Integer signed width) :
    binary64.round value.1 < 2 ^ integerDigits signed width := by
  have hpower : (2 : ℤ) ^ integerDigits signed width ≤ 2 ^ 53 :=
    pow_le_pow_right₀ (by norm_num) hnarrow
  have hpos : (0 : ℤ) < 2 ^ integerDigits signed width := by positivity
  have hbelow : binary64.Representable ((2 ^ integerDigits signed width - 1 : ℤ) : ℚ) :=
    representable_intCast (abs_le.mpr ⟨by omega, by omega⟩)
  have hround := round_le hbelow (Int.cast_le.mpr (Int.le_sub_one_of_lt value.2.2))
  push_cast at hround
  linarith

end Integral

/-! ### Columns next to the upper end -/

/-- The type has more digits than a double has, some value of the column is within half a unit of
the upper end of the type, and all are within sixteen and a half units. -/
structure TopHeavy (digits : ℕ) (values : List ℤ) : Prop where
  wide : 54 ≤ digits
  reached : ∃ value ∈ values, 2 ^ digits - 2 ^ (digits - 54) ≤ value
  near : ∀ value ∈ values, 2 ^ digits - 33 * 2 ^ (digits - 54) ≤ value

section Wide

variable {digits : ℕ} (hdigits : 54 ≤ digits) (value : ℤ)

include hdigits

theorem half_unit_eq : (2 : ℚ) ^ ((digits : ℤ) - 53) / 2 = 2 ^ (digits - 54) := by
  have hexponent : (digits : ℤ) - 53 = ((digits - 54 : ℕ) : ℤ) + 1 := by omega
  rw [hexponent, zpow_add_one₀ (by norm_num), zpow_natCast]
  ring

theorem reached_iff :
    (2 : ℚ) ^ digits ≤ binary64.round value ↔ 2 ^ digits - 2 ^ (digits - 54) ≤ value := by
  rw [two_pow_le_round_iff hdigits, half_unit_eq hdigits]
  norm_cast

theorem near_iff :
    (2 : ℚ) ^ digits - 16 * 2 ^ ((digits : ℤ) - 53) ≤ binary64.round value ↔
      2 ^ digits - 33 * 2 ^ (digits - 54) ≤ value := by
  have hhalves : (33 / 2 : ℚ) * 2 ^ ((digits : ℤ) - 53) = 33 * 2 ^ (digits - 54) := by
    rw [← half_unit_eq hdigits]
    ring
  rw [sub_units_le_round_iff hdigits, hhalves]
  norm_cast

end Wide

/-! ### The casts of a column -/

section Casts

variable {P : ProgramTypes} {signed : Bool} {width : IntegerWidth}

/-- The rounded ends of a column decide whether it is top heavy. -/
theorem topHeavy_iff {values : List (Integer signed width)} {lo hi : Integer signed width}
    (hlo : lo ∈ values) (hhi : hi ∈ values)
    (hleast : ∀ value ∈ values, binary64.round lo.1 ≤ binary64.round value.1)
    (hgreatest : ∀ value ∈ values, binary64.round value.1 ≤ binary64.round hi.1) :
    TopHeavy (integerDigits signed width) (values.map Subtype.val) ↔
      2 ^ integerDigits signed width ≤ binary64.round hi.1 ∧
        (2 : ℚ) ^ integerDigits signed width -
          16 * 2 ^ ((integerDigits signed width : ℤ) - 53) ≤ binary64.round lo.1 := by
  constructor
  · rintro ⟨hwide, ⟨n, hn, hreached⟩, hnear⟩
    obtain ⟨value, hvalue, rfl⟩ := List.mem_map.mp hn
    rw [← reached_iff hwide] at hreached
    exact ⟨hreached.trans (hgreatest value hvalue),
      (near_iff hwide lo.1).mpr (hnear lo.1 (List.mem_map_of_mem hlo))⟩
  · rintro ⟨hreached, hnear⟩
    have hwide : 54 ≤ integerDigits signed width := by
      by_contra hnarrow
      exact absurd (lt_of_narrow (by omega) hi) (not_lt.mpr hreached)
    refine ⟨hwide, ⟨hi.1, List.mem_map_of_mem hhi, (reached_iff hwide hi.1).mp hreached⟩, ?_⟩
    intro n hn
    obtain ⟨value, hvalue, rfl⟩ := List.mem_map.mp hn
    exact (near_iff hwide value.1).mp (hnear.trans (hleast value hvalue))

/-- Two rounded integers that differ are at least 1 apart. -/
theorem one_le_sub_of_round_lt {a b : ℤ} (h : binary64.round a < binary64.round b) :
    1 ≤ binary64.round b - binary64.round a := by
  obtain ⟨i, hi⟩ : ∃ i : ℤ, binary64.round a = i := exists_round_eq_intCast a
  obtain ⟨j, hj⟩ : ∃ j : ℤ, binary64.round b = j := exists_round_eq_intCast b
  rw [hi, hj] at h ⊢
  have hint : i + 1 ≤ j := Int.add_one_le_of_lt (Int.cast_lt.mp h)
  have hcast : (i : ℚ) + 1 ≤ j := by exact_mod_cast hint
  linarith

/-- **The midpoints of a column stay below the upper end of the type exactly if the column is not
top heavy.** -/
theorem midpointOf_lt_iff {lo hi : Integer signed width}
    (hrange : binary64.round lo.1 < binary64.round hi.1) :
    (∀ bucket ≤ 15, midpointOf (binary64.round lo.1) (binary64.round hi.1) bucket <
        2 ^ integerDigits signed width) ↔
      ¬(2 ^ integerDigits signed width ≤ binary64.round hi.1 ∧
        (2 : ℚ) ^ integerDigits signed width -
          16 * 2 ^ ((integerDigits signed width : ℤ) - 53) ≤ binary64.round lo.1) := by
  have hrepresentable : binary64.Representable (binary64.round lo.1) := representable_round _
  obtain ⟨-, hhi⟩ := round_mem_range hi
  have hone := one_le_sub_of_round_lt hrange
  have hlast : ∀ bucket ≤ 15,
      midpointOf (binary64.round lo.1) (binary64.round hi.1) bucket ≤
        midpointOf (binary64.round lo.1) (binary64.round hi.1) 15 :=
    fun bucket hbucket => midpointOf_mono hrange.le hbucket
  rcases eq_or_lt_of_le hhi with htop | hbelow
  · have hwide : 54 ≤ integerDigits signed width := by
      by_contra hnarrow
      exact absurd (lt_of_narrow (by omega) hi) (not_lt.mpr htop.ge)
    rw [htop] at hrange hone hlast ⊢
    rw [← top_le_midpointOf_iff hwide hrepresentable hrange hone]
    constructor
    · intro hall hcontra
      exact absurd (hall 15 le_rfl) (not_lt.mpr hcontra.2)
    · intro hnot bucket hbucket
      have hlt := not_le.mp fun hreached => hnot ⟨le_rfl, hreached⟩
      exact (hlast bucket hbucket).trans_lt hlt
  · refine iff_of_true ?_ fun hcontra => absurd hbelow (not_lt.mpr hcontra.1)
    intro bucket hbucket
    exact (midpointOf_le (representable_round _) hone hbucket).trans_lt hbelow

/-- The rounded value is of the size of a 64-bit integer. -/
theorem abs_round_value_le (value : Integer signed width) :
    |binary64.round value.1| ≤ 2 ^ (64 : ℤ) := by
  apply abs_round_le (representable_two_pow (by norm_num))
  have hbound : |(value.1 : ℚ)| ≤ 2 ^ 64 := by exact_mod_cast abs_le_of_inRange value.2
  exact hbound.trans (by norm_num)

/-- **The casts of a column are defined exactly if it is not top heavy.** -/
theorem castDoubles_defined_iff (values : List (Integer signed width)) :
    (∀ double ∈ (@buildPropertyHistogram (cppTypes P) (.arithmetic (.integral signed width))
        values).castDoubles,
      (castDefined P.values (.arithmetic (.integral signed width)) double).isSome = true) ↔
      ¬TopHeavy (integerDigits signed width) (values.map Subtype.val) := by
  have hcasts : (cppTypes P).casts (.arithmetic (.integral signed width)) =
      some ⟨@staticCast (.floating .double) (.integral signed width),
        @staticCast (.integral signed width) (.floating .double)⟩ := rfl
  have havailable := (summarizes_build hcasts values).available
  have hextremes := extremes_build hcasts values
  generalize @buildPropertyHistogram (cppTypes P) (.arithmetic (.integral signed width)) values =
    histogram at *
  cases hflag : histogram.available with
  | false =>
    -- every integer is finite, so the column is empty
    have hnone : values = [] := by
      rw [List.eq_nil_iff_forall_not_mem]
      intro value hvalue
      have hsample := havailable.mpr
        ⟨_, List.mem_map_of_mem hvalue, (isNumber_toDouble value).1⟩
      rw [hflag] at hsample
      cases hsample
    subst hnone
    rw [PropertyHistogram.castDoubles, hflag]
    refine iff_of_true (by simp) ?_
    rintro ⟨-, ⟨n, hn, -⟩, -⟩
    cases hn
  | true =>
    obtain ⟨hminimum, hmaximum⟩ := hextremes hflag
    obtain ⟨lo, hlo, hloEq⟩ := List.mem_map.mp hminimum.mem
    obtain ⟨hi, hhi, hhiEq⟩ := List.mem_map.mp hmaximum.mem
    have hm : histogram.minimum.IsNumber (binary64.round lo.1) := hloEq ▸ isNumber_toDouble lo
    have hM : histogram.maximum.IsNumber (binary64.round hi.1) := hhiEq ▸ isNumber_toDouble hi
    have hleast : ∀ value ∈ values, binary64.round lo.1 ≤ binary64.round value.1 := by
      intro value hvalue
      have hle := hminimum.le _ (List.mem_map_of_mem hvalue) (isNumber_toDouble value).1
      rw [hm.2] at hle
      exact hle.trans_eq (isNumber_toDouble value).2
    have hgreatest : ∀ value ∈ values, binary64.round value.1 ≤ binary64.round hi.1 := by
      intro value hvalue
      have hle := hmaximum.le _ (List.mem_map_of_mem hvalue) (isNumber_toDouble value).1
      rw [hM.2] at hle
      exact (isNumber_toDouble value).2.symm.trans_le hle
    have hminimumLe := (round_mem_range lo).1
    have hsingle : histogram.isSingleValued =
        decide (binary64.round lo.1 = binary64.round hi.1) := equalTo_of_isNumber hm hM
    rw [topHeavy_iff hlo hhi hleast hgreatest, PropertyHistogram.castDoubles, hflag, hsingle]
    by_cases hequal : binary64.round lo.1 = binary64.round hi.1
    · -- one double: the common value itself is cast
      rw [decide_eq_true hequal]
      simp only [Bool.not_true, Bool.false_eq_true, if_false, if_true, List.forall_mem_singleton]
      rw [castDefined_isSome_iff hm hminimumLe, ← hequal, ← not_le]
      refine not_congr ⟨fun hreached => ⟨hreached, ?_⟩, fun hboth => hboth.1⟩
      have hunit := two_zpow_pos ((integerDigits signed width : ℤ) - 53)
      linarith
    · have hrange := lt_of_le_of_ne (hgreatest lo hlo) hequal
      have hone := one_le_sub_of_round_lt hrange
      rw [decide_eq_false hequal, ← midpointOf_lt_iff hrange]
      simp only [Bool.not_true, Bool.false_eq_true, if_false, List.forall_mem_map]
      have hdefined : ∀ bucket : Fin propertyHistogramBucketCount,
          (castDefined P.values (.arithmetic (.integral signed width))
            (histogram.midpoint bucket)).isSome = true ↔
            midpointOf (binary64.round lo.1) (binary64.round hi.1) bucket <
              2 ^ integerDigits signed width := by
        intro bucket
        apply castDefined_isSome_iff (isNumber_midpoint hm hM (abs_round_value_le lo)
          (abs_round_value_le hi) hone bucket)
        exact hminimumLe.trans (le_midpointOf (representable_round _) hrange.le)
      constructor
      · intro hall bucket hbucket
        exact (hdefined ⟨bucket, Nat.lt_succ_of_le hbucket⟩).mp
          (hall ⟨bucket, Nat.lt_succ_of_le hbucket⟩ (List.mem_finRange _))
      · intro hall bucket _
        exact (hdefined bucket).mpr (hall bucket (Nat.le_of_lt_succ bucket.2))

/-- The same, for a property known to be of the type. -/
theorem castDoubles_defined_iff_of_type {type : CppType P.Object}
    (htype : type = .arithmetic (.integral signed width))
    (values : List ((cppTypes P).carrier type)) :
    (∀ double ∈ (buildPropertyHistogram values).castDoubles,
      (castDefined P.values type double).isSome = true) ↔
      ¬TopHeavy (integerDigits signed width) (values.map integerValue) := by
  subst htype
  exact castDoubles_defined_iff values

/-- An integral property has casts, and they are the defined ones where these are defined. -/
theorem exists_casts_of_type {type : CppType P.Object}
    (htype : type = .arithmetic (.integral signed width)) :
    ∃ casts, (cppTypes P).casts type = some casts ∧
      ∀ double value, castDefined P.values type double = some value →
        casts.ofDouble double = value := by
  subst htype
  exact ⟨_, rfl, fun double value h => staticCast_of_castDefined h⟩

end Casts

namespace DeltaNodeStore

variable {P : ProgramTypes} {node : NodeSpec (cppTypes P)} {store : DeltaNodeStore node}
  {key : PropertyKey node.properties} {Value : Type}

/-- The integers of a column. -/
def integerColumn (store : DeltaNodeStore node) (key : PropertyKey node.properties) : List ℤ :=
  (store.column key).map integerValue

/-- The estimate of a store with the casts that are defined. -/
def estimateDefined (store : DeltaNodeStore node) (key : PropertyKey node.properties)
    (value : Value) (predicate : PropertyValue node.properties key.index → Value → Bool) :
    Option ℕ :=
  (store.propertyIndices key.index).histogram.estimateCasting store.size
    (castDefined P.values (node.properties.get key.index).valueType) value predicate

section Defined

variable (hready : store.indicesReady = true) {signed : Bool} {width : IntegerWidth}
  (htype : (node.properties.get key.index).valueType = .arithmetic (.integral signed width))
  (value : Value) (predicate : PropertyValue node.properties key.index → Value → Bool)

include hready htype

/-- The estimate is defined exactly outside the top-heavy columns. -/
theorem WellFormed.isSome_estimateDefined_iff (h : store.WellFormed) :
    (store.estimateDefined key value predicate).isSome = true ↔
      ¬TopHeavy (integerDigits signed width) (store.integerColumn key) := by
  rw [estimateDefined, PropertyHistogram.isSome_estimateCasting, h.histogram_eq hready key]
  exact castDoubles_defined_iff_of_type htype (store.column key)

/-- A defined estimate is the one that the store returns. -/
theorem estimate_of_estimateDefined {estimate : ℕ}
    (hestimate : store.estimateDefined key value predicate = some estimate) :
    store.estimatePropertyCandidates key value predicate = .ok estimate := by
  obtain ⟨casts, hcasts, hsame⟩ := exists_casts_of_type htype
  have hall := (PropertyHistogram.isSome_estimateCasting _ _ _ _ _).mp
    (Option.isSome_iff_exists.mpr ⟨estimate, hestimate⟩)
  have hcast : ∀ double ∈ (store.propertyIndices key.index).histogram.castDoubles,
      castDefined P.values (node.properties.get key.index).valueType double =
        some (casts.ofDouble double) := by
    intro double hdouble
    obtain ⟨cast, hcast⟩ := Option.isSome_iff_exists.mp (hall double hdouble)
    rw [hcast, hsame double cast hcast]
  have htotal := PropertyHistogram.estimateCasting_eq_some _ store.size value predicate hcast
  rw [estimatePropertyCandidates_eq hready hcasts]
  exact congrArg Except.ok (Option.some.inj (htotal.symm.trans hestimate))

end Defined

end DeltaNodeStore

/-- **Histogram conversions of every program**: after every run of calls on a store, an estimate on
an integral property makes only defined casts exactly if the column is not top heavy, and is then
the one that the store returns. -/
theorem estimate_casts_defined_iff (P : ProgramTypes) (node : NodeSpec (cppTypes P)) (idBase : ℕ)
    (calls : List (DeltaNodeStore.Call node)) (key : PropertyKey node.properties) (signed : Bool)
    (width : IntegerWidth)
    (htype : (node.properties.get key.index).valueType = .arithmetic (.integral signed width))
    (hready : (run DeltaNodeStore.step (.empty idBase) calls).indicesReady = true)
    (Value : Type) (value : Value)
    (predicate : PropertyValue node.properties key.index → Value → Bool) :
    (∃ estimate,
      (run DeltaNodeStore.step (.empty idBase) calls).estimateDefined key value predicate =
          some estimate ∧
        (run DeltaNodeStore.step (.empty idBase) calls).estimatePropertyCandidates key value
          predicate = .ok estimate) ↔
      ¬TopHeavy (integerDigits signed width)
        ((run DeltaNodeStore.step (.empty idBase) calls).integerColumn key) := by
  have hwellFormed := (DeltaNodeStore.storesRows_run idBase calls).wellFormed
  rw [← hwellFormed.isSome_estimateDefined_iff hready htype value predicate,
    Option.isSome_iff_exists]
  refine exists_congr fun estimate => and_iff_left_of_imp fun hestimate => ?_
  exact DeltaNodeStore.estimate_of_estimateDefined hready htype value predicate hestimate

/-! ### A column next to the upper end -/

namespace Domain

/-- A node kind with a 64-bit counter. -/
def counterNode : NodeSpec domainTypes where
  tag := DomainName.memoryTag
  layer := DomainName.memoryLayer
  properties :=
    [ { key := Journal.ascii ['t', 'i', 'c', 'k', 's']
        valueType := .arithmetic (.integral true .bits64)
        key_ne_nil := by decide } ]
  keysUnique := by decide

def ticks : PropertyKey counterNode.properties :=
  ⟨Journal.ascii ['t', 'i', 'c', 'k', 's'], ⟨0, by decide⟩, by decide⟩

/-- The largest `std::int64_t`. -/
def largest : Integer true .bits64 := ⟨2 ^ 63 - 1, by decide⟩

def counterCalls : List (DeltaNodeStore.Call counterNode) :=
  [.append (Journal.thoughtRow Journal.actual) (fun index => match index with | ⟨0, _⟩ => largest)
    none, .buildIndices]

/-- One row, with the largest value of its type. -/
def counterStore : DeltaNodeStore counterNode := run DeltaNodeStore.step (.empty 0) counterCalls

theorem valueType_ticks :
    (counterNode.properties.get ticks.index).valueType = .arithmetic (.integral true .bits64) := rfl

theorem topHeavy_counterStore :
    TopHeavy (integerDigits true .bits64) (counterStore.integerColumn ticks) := by
  have hcolumn : counterStore.integerColumn ticks = [2 ^ 63 - 1] := rfl
  rw [hcolumn]
  exact ⟨by decide, ⟨_, List.mem_cons_self, by decide⟩, by decide⟩

/-- Its estimate casts 2⁶³ back to `std::int64_t`, whatever the predicate. -/
theorem counterStore_estimate :
    counterStore.indicesReady = true ∧
      ∀ (Value : Type) (value : Value)
        (predicate : PropertyValue counterNode.properties ticks.index → Value → Bool),
        counterStore.estimateDefined ticks value predicate = none := by
  have hwellFormed : counterStore.WellFormed := (DeltaNodeStore.storesRows_run 0 _).wellFormed
  refine ⟨rfl, fun Value value predicate => ?_⟩
  rw [← Option.not_isSome_iff_eq_none, hwellFormed.isSome_estimateDefined_iff rfl valueType_ticks]
  exact not_not.mpr topHeavy_counterStore

theorem estimate_casts_defined_iff_counterStore :
    ¬∃ estimate, counterStore.estimateDefined ticks () (fun _ _ => true) = some estimate ∧
      counterStore.estimatePropertyCandidates ticks () (fun _ _ => true) = .ok estimate :=
  fun hdefined =>
    (estimate_casts_defined_iff domainProgram counterNode 0 counterCalls ticks true .bits64
      valueType_ticks rfl Unit () (fun _ _ => true)).mp hdefined topHeavy_counterStore

end Domain

end Memorial
