import Mathlib.Data.Int.Log
import Mathlib.Data.Rat.Floor
import Mathlib.Tactic.Linarith
import Mathlib.Tactic.Positivity
import Mathlib.Tactic.Ring

/-!
# Rounding to a binary format

Rounding of rational numbers to nearest, ties to even, at a fixed number of significant bits,
without an upper bound on the exponent.

* `roundEven` — the nearest integer, the even one of two;
* `le_roundEven_iff_of_even` — **PROVED**: what reaches an even integer, ties included;
* `BinaryFormat`, `BinaryFormat.Representable`, `BinaryFormat.round` — the formats, their numbers,
  and the rounding;
* `BinaryFormat.round_nearest` — **PROVED**: no number of the format is nearer than the rounded
  one.  That rounding is monotone and keeps the numbers of the format follows from it alone;
* `BinaryFormat.le_round_iff_of_even` — **PROVED**: what reaches a number with an even significand;
* `BinaryFormat.round_le_of_pos` — **PROVED**: the relative error above the subnormal range.
-/

namespace Memorial.Library

/-! ### Rounding to an integer -/

/-- The nearest integer; of two nearest ones, the even one. -/
def roundEven (x : ℚ) : ℤ :=
  if x - ⌊x⌋ < 1 / 2 then ⌊x⌋
  else if 1 / 2 < x - ⌊x⌋ then ⌊x⌋ + 1
  else if ⌊x⌋ % 2 = 0 then ⌊x⌋
  else ⌊x⌋ + 1

theorem abs_sub_roundEven_le (x : ℚ) : |x - roundEven x| ≤ 1 / 2 := by
  have hfloor := Int.floor_le x
  have hceil := Int.lt_floor_add_one x
  rw [abs_le, roundEven]
  split_ifs <;> push_cast <;> constructor <;> linarith

/-- No integer is nearer. -/
theorem roundEven_nearest (x : ℚ) (n : ℤ) : |x - roundEven x| ≤ |x - n| := by
  have hnear := abs_sub_roundEven_le x
  by_cases hn : n = roundEven x
  · rw [hn]
  · -- two different integers are at least 1 apart
    have hapart : (1 : ℚ) ≤ |(n : ℚ) - roundEven x| := by
      have hint : (1 : ℤ) ≤ |n - roundEven x| := Int.one_le_abs (sub_ne_zero.mpr hn)
      exact_mod_cast hint
    have htriangle : |(n : ℚ) - roundEven x| ≤ |x - n| + |x - roundEven x| := by
      rw [abs_sub_comm x n]
      exact abs_sub_le _ _ _
    linarith

/-- An even integer is reached from half a unit below, the tie included. -/
theorem le_roundEven_iff_of_even {n : ℤ} (hn : n % 2 = 0) (x : ℚ) :
    n ≤ roundEven x ↔ (n : ℚ) - 1 / 2 ≤ x := by
  have hfloor := Int.floor_le x
  have hceil := Int.lt_floor_add_one x
  rcases le_or_gt n ⌊x⌋ with hle | hgt
  · have hle' : (n : ℚ) ≤ ⌊x⌋ := by exact_mod_cast hle
    refine iff_of_true ?_ (by linarith)
    rw [roundEven]
    split_ifs <;> omega
  · rcases eq_or_lt_of_le (Int.add_one_le_of_lt hgt) with heq | hlt
    · -- the integer right above: the floor is odd, so a tie goes up
      have heq' : (⌊x⌋ : ℚ) + 1 = n := by exact_mod_cast heq
      rw [roundEven]
      split_ifs with hlow hhigh heven
      · exact iff_of_false (by omega) (by linarith)
      · exact iff_of_true (by omega) (by linarith)
      · exact absurd heven (by omega)
      · exact iff_of_true (by omega) (by linarith)
    · have hlt' : (⌊x⌋ : ℚ) + 2 ≤ n := by exact_mod_cast (by omega : ⌊x⌋ + 2 ≤ n)
      refine iff_of_false ?_ (by linarith)
      rw [roundEven]
      split_ifs <;> omega

/-! ### Formats -/

/-- A binary format: the number of significant bits, the exponent of the last place of its
smallest numbers, and the exponent where its magnitudes end. -/
structure BinaryFormat where
  precision : ℕ
  minExponent : ℤ
  maxExponent : ℤ
  precision_pos : 0 < precision

namespace BinaryFormat

variable (format : BinaryFormat)

/-- The numbers with a significand of the precision, the exponent bounded below only. -/
def Representable (r : ℚ) : Prop :=
  ∃ (significand : ℤ) (exponent : ℤ), |significand| ≤ 2 ^ format.precision ∧
    format.minExponent ≤ exponent ∧ r = significand * 2 ^ exponent

/-- The exponent of the last place of a number. -/
def lastPlace (q : ℚ) : ℤ :=
  max (Int.log 2 |q| + 1 - format.precision) format.minExponent

/-- Rounding to nearest, ties to even, without an upper bound. -/
def round (q : ℚ) : ℚ :=
  roundEven (q / 2 ^ format.lastPlace q) * 2 ^ format.lastPlace q

variable {format}

theorem two_zpow_pos (k : ℤ) : (0 : ℚ) < 2 ^ k := zpow_pos (by norm_num) k

theorem minExponent_le_lastPlace (q : ℚ) : format.minExponent ≤ format.lastPlace q :=
  le_max_right _ _

/-- A number is below the precision in units of its last place. -/
theorem abs_le_of_lastPlace (q : ℚ) :
    |q| ≤ 2 ^ (format.precision : ℤ) * 2 ^ format.lastPlace q := by
  have hlog : |q| < 2 ^ (Int.log 2 |q| + 1) := by
    exact_mod_cast Int.lt_zpow_succ_log_self (by norm_num : 1 < 2) |q|
  have hexponent : Int.log 2 |q| + 1 ≤ format.precision + format.lastPlace q := by
    have hmax := le_max_left (Int.log 2 |q| + 1 - format.precision) format.minExponent
    rw [lastPlace]
    omega
  rw [← zpow_add₀ (by norm_num)]
  exact hlog.le.trans (zpow_le_zpow_right₀ (by norm_num) hexponent)

/-- The distance to a multiple of the last place. -/
theorem abs_sub_round_le_of_multiple (q : ℚ) (n : ℤ) :
    |q - format.round q| ≤ |q - n * 2 ^ format.lastPlace q| := by
  have hpos := two_zpow_pos (format.lastPlace q)
  have hscale : ∀ m : ℤ, |q - m * 2 ^ format.lastPlace q| =
      |q / 2 ^ format.lastPlace q - m| * 2 ^ format.lastPlace q := by
    intro m
    rw [← abs_of_pos hpos, ← abs_mul, abs_of_pos hpos, sub_mul, div_mul_cancel₀ _ hpos.ne']
  rw [round, hscale, hscale]
  exact mul_le_mul_of_nonneg_right (roundEven_nearest _ n) hpos.le

theorem representable_round (q : ℚ) : format.Representable (format.round q) := by
  refine ⟨roundEven (q / 2 ^ format.lastPlace q), format.lastPlace q, ?_,
    minExponent_le_lastPlace q, rfl⟩
  have hpos := two_zpow_pos (format.lastPlace q)
  have hbound : |q| ≤ 2 ^ (format.precision : ℤ) * 2 ^ format.lastPlace q := abs_le_of_lastPlace q
  have hquotient : |q / 2 ^ format.lastPlace q| ≤ 2 ^ format.precision := by
    rw [abs_div, abs_of_pos hpos, div_le_iff₀ hpos]
    exact_mod_cast hbound
  have hnear := abs_le.mp (abs_sub_roundEven_le (q / 2 ^ format.lastPlace q))
  have hquotient := abs_le.mp hquotient
  -- an integer within half a unit of the range is in the range
  have hpower : ((2 ^ format.precision : ℤ) : ℚ) = 2 ^ format.precision := by push_cast; rfl
  rw [abs_le]
  constructor
  · have hlow : ((-(2 ^ format.precision) - 1 : ℤ) : ℚ) <
        roundEven (q / 2 ^ format.lastPlace q) := by
      push_cast
      linarith
    have hlow := Int.cast_lt.mp hlow
    omega
  · have hhigh : (roundEven (q / 2 ^ format.lastPlace q) : ℚ) <
        ((2 ^ format.precision + 1 : ℤ) : ℚ) := by
      push_cast
      linarith
    have hhigh := Int.cast_lt.mp hhigh
    omega

/-- **No number of the format is nearer.**  A number with a finer last place is smaller than the
power of two below `q`, which is a multiple of the last place itself. -/
theorem round_nearest {r : ℚ} (hr : format.Representable r) (q : ℚ) :
    |q - format.round q| ≤ |q - r| := by
  obtain ⟨j, i, hj, hi, rfl⟩ := hr
  rcases le_or_gt (format.lastPlace q) i with hle | hgt
  · have hmultiple : (j : ℚ) * 2 ^ i =
        ((j * 2 ^ (i - format.lastPlace q).toNat : ℤ) : ℚ) * 2 ^ format.lastPlace q := by
      have hsplit : i = ((i - format.lastPlace q).toNat : ℤ) + format.lastPlace q := by omega
      conv_lhs => rw [hsplit]
      rw [zpow_add₀ (by norm_num), zpow_natCast]
      push_cast
      ring
    rw [hmultiple]
    exact abs_sub_round_le_of_multiple q _
  · have hplace : format.lastPlace q = Int.log 2 |q| + 1 - format.precision := by
      rw [lastPlace] at hgt ⊢
      omega
    by_cases hq : q = 0
    · subst hq
      have hzero : format.round 0 = 0 := by simp [round, roundEven]
      rw [hzero, sub_self, abs_zero]
      exact abs_nonneg _
    -- the power of two below `q`, in units of the last place
    have hprecision := format.precision_pos
    have hpower : (2 : ℚ) ^ Int.log 2 |q| =
        ((2 ^ (format.precision - 1) : ℤ) : ℚ) * 2 ^ format.lastPlace q := by
      have hsplit : Int.log 2 |q| =
          ((format.precision - 1 : ℕ) : ℤ) + format.lastPlace q := by omega
      conv_lhs => rw [hsplit]
      rw [zpow_add₀ (by norm_num), zpow_natCast]
      push_cast
      rfl
    have hbelow : (2 : ℚ) ^ Int.log 2 |q| ≤ |q| := by
      exact_mod_cast Int.zpow_log_le_self (by norm_num : 1 < 2) (abs_pos.mpr hq)
    have hsmall : |(j : ℚ) * 2 ^ i| ≤ 2 ^ Int.log 2 |q| := by
      have hjq : |(j : ℚ)| ≤ 2 ^ (format.precision : ℤ) := by
        rw [zpow_natCast]
        exact_mod_cast hj
      rw [abs_mul, abs_of_pos (two_zpow_pos i)]
      calc |(j : ℚ)| * 2 ^ i ≤ 2 ^ (format.precision : ℤ) * 2 ^ i :=
            mul_le_mul_of_nonneg_right hjq (two_zpow_pos i).le
        _ = 2 ^ (format.precision + i) := (zpow_add₀ (by norm_num) _ _).symm
        _ ≤ 2 ^ Int.log 2 |q| := zpow_le_zpow_right₀ (by norm_num) (by omega)
    have hsmall := abs_le.mp hsmall
    rcases abs_cases q with ⟨habs, hsign⟩ | ⟨habs, hsign⟩
    · have hnear : |q - format.round q| ≤ _ :=
        abs_sub_round_le_of_multiple q (2 ^ (format.precision - 1))
      rw [← hpower, abs_of_nonneg (by linarith : 0 ≤ q - 2 ^ Int.log 2 |q|)] at hnear
      have hdistance := le_abs_self (q - j * 2 ^ i)
      linarith
    · have hnear : |q - format.round q| ≤ _ :=
        abs_sub_round_le_of_multiple q (-2 ^ (format.precision - 1))
      rw [Int.cast_neg, neg_mul, ← hpower, sub_neg_eq_add,
        abs_of_nonpos (by linarith : q + 2 ^ Int.log 2 |q| ≤ 0)] at hnear
      have hdistance := neg_le_abs (q - j * 2 ^ i)
      linarith

/-! ### What follows from being nearest -/

theorem round_of_representable {r : ℚ} (hr : format.Representable r) : format.round r = r := by
  have hnear := round_nearest hr r
  rw [sub_self, abs_zero] at hnear
  have hzero := abs_nonpos_iff.mp hnear
  linarith

theorem round_mono {a b : ℚ} (h : a ≤ b) : format.round a ≤ format.round b := by
  rcases eq_or_lt_of_le h with rfl | hlt
  · exact le_rfl
  · by_contra hnot
    have hcross := not_le.mp hnot
    -- each end is at least as near to its own rounding as to the other one
    have hleft : (a - format.round a) ^ 2 ≤ (a - format.round b) ^ 2 :=
      sq_le_sq.mpr (round_nearest (representable_round b) a)
    have hright : (b - format.round b) ^ 2 ≤ (b - format.round a) ^ 2 :=
      sq_le_sq.mpr (round_nearest (representable_round a) b)
    have hproduct := mul_pos (sub_pos.mpr hcross) (sub_pos.mpr hlt)
    linarith

theorem le_round {r q : ℚ} (hr : format.Representable r) (h : r ≤ q) : r ≤ format.round q := by
  have hmono : format.round r ≤ format.round q := round_mono h
  rwa [round_of_representable hr] at hmono

theorem round_le {r q : ℚ} (hr : format.Representable r) (h : q ≤ r) : format.round q ≤ r := by
  have hmono : format.round q ≤ format.round r := round_mono h
  rwa [round_of_representable hr] at hmono

theorem representable_zero : format.Representable 0 :=
  ⟨0, format.minExponent, by simp, le_rfl, by simp⟩

/-- An integer is rounded to an integer. -/
theorem exists_round_eq_intCast (n : ℤ) : ∃ j : ℤ, format.round n = j := by
  rcases le_or_gt (format.lastPlace n) 0 with hfine | hcoarse
  · -- the last place divides every integer
    have hmultiple : (n : ℚ) =
        ((n * 2 ^ (-format.lastPlace n).toNat : ℤ) : ℚ) * 2 ^ format.lastPlace n := by
      have hexponent : ((-format.lastPlace n).toNat : ℤ) + format.lastPlace n = 0 := by omega
      push_cast
      rw [mul_assoc, ← zpow_natCast, ← zpow_add₀ (by norm_num), hexponent, zpow_zero, mul_one]
    have hnear : |(n : ℚ) - format.round n| ≤ _ :=
      abs_sub_round_le_of_multiple n (n * 2 ^ (-format.lastPlace n).toNat)
    rw [← hmultiple, sub_self, abs_zero] at hnear
    exact ⟨n, by linarith [abs_nonpos_iff.mp hnear]⟩
  · refine ⟨roundEven (n / 2 ^ format.lastPlace n) * 2 ^ (format.lastPlace n).toNat, ?_⟩
    have hexponent : format.lastPlace n = ((format.lastPlace n).toNat : ℤ) := by omega
    rw [round]
    push_cast
    rw [← zpow_natCast, ← hexponent]

theorem Representable.neg {r : ℚ} (hr : format.Representable r) : format.Representable (-r) := by
  obtain ⟨j, i, hj, hi, rfl⟩ := hr
  exact ⟨-j, i, by rwa [abs_neg], hi, by push_cast; ring⟩

theorem abs_round_le {q r : ℚ} (hr : format.Representable r) (h : |q| ≤ r) :
    |format.round q| ≤ r := by
  obtain ⟨hlow, hhigh⟩ := abs_le.mp h
  exact abs_le.mpr ⟨le_round hr.neg hlow, round_le hr hhigh⟩

theorem round_nonneg {q : ℚ} (h : 0 ≤ q) : 0 ≤ format.round q := le_round representable_zero h

/-- The last place of a number between two powers of two. -/
theorem lastPlace_eq {q : ℚ} {k : ℤ} (hk : format.minExponent ≤ k)
    (hlow : 2 ^ (format.precision - 1) * 2 ^ k ≤ q) (hhigh : q < 2 ^ format.precision * 2 ^ k) :
    format.lastPlace q = k := by
  have hunit := two_zpow_pos k
  have hpos : 0 < q := lt_of_lt_of_le (by positivity) hlow
  have hprecision := format.precision_pos
  have hle : (format.precision : ℤ) - 1 + k ≤ Int.log 2 q := by
    rw [← Int.zpow_le_iff_le_log (by norm_num) hpos, zpow_add₀ (by norm_num)]
    have hcast : (format.precision : ℤ) - 1 = ((format.precision - 1 : ℕ) : ℤ) := by omega
    rw [hcast, zpow_natCast]
    exact_mod_cast hlow
  have hlt : Int.log 2 q < format.precision + k := by
    rw [← Int.lt_zpow_iff_log_lt (by norm_num) hpos, zpow_add₀ (by norm_num), zpow_natCast]
    exact_mod_cast hhigh
  rw [lastPlace, abs_of_pos hpos]
  omega

/-- A number above half the range of a last place is a multiple of it. -/
theorem exists_eq_mul_of_representable {r : ℚ} {k : ℤ} (hr : format.Representable r)
    (hk : format.minExponent ≤ k) (hlow : 2 ^ (format.precision - 1) * 2 ^ k ≤ r)
    (hhigh : r < 2 ^ format.precision * 2 ^ k) : ∃ j : ℤ, r = j * 2 ^ k := by
  have hround := round_of_representable hr
  rw [round, lastPlace_eq hk hlow hhigh] at hround
  exact ⟨_, hround.symm⟩

/-- **An even significand is reached from half a unit below**, the tie included. -/
theorem le_round_iff_of_even {n k : ℤ} (heven : n % 2 = 0) (hk : format.minExponent ≤ k)
    (hlow : 2 ^ (format.precision - 1) < n) (hhigh : n ≤ 2 ^ format.precision) (q : ℚ) :
    n * 2 ^ k ≤ format.round q ↔ (n - 1 / 2) * 2 ^ k ≤ q := by
  have hpos := two_zpow_pos k
  have hlow' : (2 : ℚ) ^ (format.precision - 1) ≤ n - 1 := by
    exact_mod_cast Int.le_sub_one_of_lt hlow
  have hhigh' : (n : ℚ) ≤ 2 ^ format.precision := by exact_mod_cast hhigh
  have hnonneg : (0 : ℤ) ≤ 2 ^ (format.precision - 1) := by positivity
  have habove : format.Representable (n * 2 ^ k) :=
    ⟨n, k, by rw [abs_of_nonneg (by omega)]; exact hhigh, hk, rfl⟩
  have hbelow : format.Representable ((n - 1) * 2 ^ k) :=
    ⟨n - 1, k, by rw [abs_of_nonneg (by omega)]; omega, hk, by push_cast; rfl⟩
  rcases lt_or_ge q ((n - 1) * 2 ^ k) with hsmall | hge
  · have hround := round_le hbelow hsmall.le
    constructor
    · intro h
      linarith
    · intro h
      linarith
  rcases le_or_gt ((n : ℚ) * 2 ^ k) q with hlarge | hlt
  · exact iff_of_true (le_round habove hlarge) (by linarith)
  · -- between the two the last place is the unit
    have hplace : format.lastPlace q = k := by
      apply lastPlace_eq hk
      · exact (mul_le_mul_of_nonneg_right hlow' hpos.le).trans hge
      · exact hlt.trans_le (mul_le_mul_of_nonneg_right hhigh' hpos.le)
    rw [round, hplace, mul_le_mul_iff_of_pos_right hpos, Int.cast_le,
      le_roundEven_iff_of_even heven, le_div_iff₀ hpos]

/-- Half a unit of the last place, above the subnormal range. -/
theorem half_lastPlace_le {q : ℚ} (hq : 0 < q)
    (hnormal : format.minExponent ≤ Int.log 2 q + 1 - format.precision) :
    1 / 2 * 2 ^ format.lastPlace q ≤ q * 2 ^ (-(format.precision : ℤ)) := by
  have hplace : format.lastPlace q = Int.log 2 q + 1 - format.precision := by
    rw [lastPlace, abs_of_pos hq]
    exact max_eq_left hnormal
  have hlog : (2 : ℚ) ^ Int.log 2 q ≤ q := by
    exact_mod_cast Int.zpow_log_le_self (by norm_num : 1 < 2) hq
  have hunit : (1 / 2 : ℚ) * 2 ^ format.lastPlace q =
      2 ^ Int.log 2 q * 2 ^ (-(format.precision : ℤ)) := by
    rw [hplace, ← zpow_add₀ (by norm_num)]
    have hexponent : Int.log 2 q + 1 - (format.precision : ℤ) =
        (Int.log 2 q + -(format.precision : ℤ)) + 1 := by ring
    rw [hexponent, zpow_add_one₀ (by norm_num)]
    ring
  rw [hunit]
  exact mul_le_mul_of_nonneg_right hlog (two_zpow_pos (-(format.precision : ℤ))).le

/-- Rounding moves a number by at most half a unit of its last place. -/
theorem abs_sub_round_le (q : ℚ) : |q - format.round q| ≤ 1 / 2 * 2 ^ format.lastPlace q := by
  have hpos := two_zpow_pos (format.lastPlace q)
  have hhalf := abs_sub_roundEven_le (q / 2 ^ format.lastPlace q)
  have hscale : q - format.round q =
      (q / 2 ^ format.lastPlace q - roundEven (q / 2 ^ format.lastPlace q)) *
        2 ^ format.lastPlace q := by
    rw [round, sub_mul, div_mul_cancel₀ _ hpos.ne']
  rw [hscale, abs_mul, abs_of_pos hpos]
  exact mul_le_mul_of_nonneg_right hhalf hpos.le

/-- The relative error above the subnormal range. -/
theorem round_le_of_pos {q : ℚ} (hq : 0 < q)
    (hnormal : format.minExponent ≤ Int.log 2 q + 1 - format.precision) :
    format.round q ≤ q * (1 + 2 ^ (-(format.precision : ℤ))) := by
  have herror : |q - format.round q| ≤ q * 2 ^ (-(format.precision : ℤ)) :=
    (abs_sub_round_le q).trans (half_lastPlace_le hq hnormal)
  have hlow := (abs_le.mp herror).1
  linarith

theorem le_round_of_pos {q : ℚ} (hq : 0 < q)
    (hnormal : format.minExponent ≤ Int.log 2 q + 1 - format.precision) :
    q * (1 - 2 ^ (-(format.precision : ℤ))) ≤ format.round q := by
  have herror : |q - format.round q| ≤ q * 2 ^ (-(format.precision : ℤ)) :=
    (abs_sub_round_le q).trans (half_lastPlace_le hq hnormal)
  have hhigh := (abs_le.mp herror).2
  linarith

end BinaryFormat

end Memorial.Library
