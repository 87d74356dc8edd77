import Memorial.Library.FloatingPoint
import Mathlib.Data.BitVec

/-!
# Interchange formats

The bit patterns of a binary format: a sign bit, an exponent field and a fraction field.

* `InterchangeFormat`, `InterchangeFormat.format` — the widths of the fields, and the numbers that
  the finite patterns stand for;
* `units`, `units_strictMono` — a magnitude in units of the smallest one; **PROVED**: it grows with
  the pattern, across the step from one exponent to the next;
* `value` — what a pattern stands for;
* `extended_value_inj` — **PROVED**: two patterns that are not NaN stand for one place only if they
  are the same or both a zero.
-/

namespace Memorial.Library

/-- The widths of the exponent and of the fraction. -/
structure InterchangeFormat where
  exponentBits : ℕ
  fractionBits : ℕ
  exponentBits_pos : 0 < exponentBits

namespace InterchangeFormat

/-- binary32 -/
def single : InterchangeFormat := ⟨8, 23, by decide⟩

/-- binary64 -/
def double : InterchangeFormat := ⟨11, 52, by decide⟩

variable (interchange : InterchangeFormat)

/-- The width without the sign. -/
def magnitudeBits : ℕ := interchange.exponentBits + interchange.fractionBits

def width : ℕ := interchange.magnitudeBits + 1

/-- The exponents are biased so that half of them are negative. -/
def format : BinaryFormat where
  precision := interchange.fractionBits + 1
  minExponent := 2 - 2 ^ (interchange.exponentBits - 1) - interchange.fractionBits
  maxExponent := 2 ^ (interchange.exponentBits - 1)
  precision_pos := Nat.succ_pos _

/-- The magnitude field of the infinities: the exponent is all ones. -/
def infinityMagnitude : ℕ := (2 ^ interchange.exponentBits - 1) * 2 ^ interchange.fractionBits

/-- The magnitude in units of the smallest one, by exponent and fraction: below the least exponent
there is no leading bit. -/
def units (magnitude : ℕ) : ℕ :=
  if magnitude / 2 ^ interchange.fractionBits = 0 then magnitude % 2 ^ interchange.fractionBits
  else (2 ^ interchange.fractionBits + magnitude % 2 ^ interchange.fractionBits) *
    2 ^ (magnitude / 2 ^ interchange.fractionBits - 1)

variable {interchange}

/-! ### Magnitudes -/

/-- The units of an exponent and a fraction. -/
theorem units_eq {exponent fraction : ℕ} (hfraction : fraction < 2 ^ interchange.fractionBits) :
    interchange.units (exponent * 2 ^ interchange.fractionBits + fraction) =
      if exponent = 0 then fraction
      else (2 ^ interchange.fractionBits + fraction) * 2 ^ (exponent - 1) := by
  have hpos : 0 < 2 ^ interchange.fractionBits := Nat.two_pow_pos _
  have hdiv : (exponent * 2 ^ interchange.fractionBits + fraction) / 2 ^ interchange.fractionBits =
      exponent := by
    rw [Nat.mul_comm, Nat.mul_add_div hpos, Nat.div_eq_of_lt hfraction, Nat.add_zero]
  have hmod : (exponent * 2 ^ interchange.fractionBits + fraction) % 2 ^ interchange.fractionBits =
      fraction := by
    rw [Nat.mul_comm, Nat.mul_add_mod, Nat.mod_eq_of_lt hfraction]
  rw [units, hdiv, hmod]

/-- **The units grow with the magnitude.** -/
theorem units_strictMono : StrictMono interchange.units := by
  refine strictMono_nat_of_lt_succ ?_
  intro magnitude
  have hpos : 0 < 2 ^ interchange.fractionBits := Nat.two_pow_pos _
  obtain ⟨exponent, fraction, hfraction, rfl⟩ : ∃ exponent fraction,
      fraction < 2 ^ interchange.fractionBits ∧
        magnitude = exponent * 2 ^ interchange.fractionBits + fraction :=
    ⟨_, _, Nat.mod_lt magnitude hpos, by rw [Nat.mul_comm, Nat.div_add_mod]⟩
  by_cases hlast : fraction + 1 < 2 ^ interchange.fractionBits
  · -- one more in the fraction
    rw [Nat.add_assoc, units_eq hfraction, units_eq hlast]
    split
    · exact Nat.lt_succ_self _
    · exact Nat.mul_lt_mul_of_pos_right (by omega) (Nat.two_pow_pos _)
  · -- the next exponent, with fraction 0
    have hnext : exponent * 2 ^ interchange.fractionBits + fraction + 1 =
        (exponent + 1) * 2 ^ interchange.fractionBits + 0 := by
      rw [Nat.succ_mul]
      omega
    rw [hnext, units_eq hfraction, units_eq hpos, if_neg (Nat.succ_ne_zero _), Nat.add_sub_cancel,
      Nat.add_zero]
    split
    · rename_i hexponent
      rw [hexponent, Nat.pow_zero, Nat.mul_one]
      exact hfraction
    · rename_i hexponent
      obtain ⟨below, rfl⟩ := Nat.exists_eq_succ_of_ne_zero hexponent
      rw [Nat.succ_sub_one, Nat.pow_succ, Nat.mul_comm (2 ^ below), ← Nat.mul_assoc]
      exact Nat.mul_lt_mul_of_pos_right (by omega) (Nat.two_pow_pos _)

theorem units_zero : interchange.units 0 = 0 := by
  rw [units, Nat.zero_div, Nat.zero_mod, if_pos rfl]

theorem units_infinityMagnitude :
    interchange.units interchange.infinityMagnitude =
      2 ^ (interchange.fractionBits + (2 ^ interchange.exponentBits - 2)) := by
  have hexponent : 2 ≤ 2 ^ interchange.exponentBits := by
    calc 2 = 2 ^ 1 := rfl
      _ ≤ 2 ^ interchange.exponentBits :=
        Nat.pow_le_pow_right (by omega) interchange.exponentBits_pos
  have hunits := @units_eq interchange (2 ^ interchange.exponentBits - 1) 0 (Nat.two_pow_pos _)
  rw [Nat.add_zero, Nat.add_zero, if_neg (by omega)] at hunits
  rw [infinityMagnitude, hunits, Nat.pow_add]
  congr 2

theorem infinityMagnitude_pos : 0 < interchange.infinityMagnitude := by
  refine Nat.mul_pos ?_ (Nat.two_pow_pos _)
  have hexponent := Nat.one_lt_two_pow interchange.exponentBits_pos.ne'
  omega

/-- The units are a significand of the precision, shifted. -/
theorem exists_units (magnitude : ℕ) :
    ∃ significand shift : ℕ, significand ≤ 2 ^ (interchange.fractionBits + 1) ∧
      interchange.units magnitude = significand * 2 ^ shift := by
  have hfraction := Nat.mod_lt magnitude (Nat.two_pow_pos interchange.fractionBits)
  rw [units, Nat.pow_succ]
  split
  · exact ⟨_, 0, by omega, (Nat.mul_one _).symm⟩
  · exact ⟨_, _, by omega, rfl⟩

/-- The units below those of the infinities. -/
theorem units_lt {magnitude : ℕ} (h : magnitude < interchange.infinityMagnitude) :
    (interchange.units magnitude : ℚ) * 2 ^ interchange.format.minExponent <
      2 ^ interchange.format.maxExponent := by
  have hunits : interchange.units magnitude < interchange.units interchange.infinityMagnitude :=
    units_strictMono h
  rw [units_infinityMagnitude] at hunits
  obtain ⟨bits, hbits⟩ := Nat.exists_eq_succ_of_ne_zero interchange.exponentBits_pos.ne'
  have hhalf : 0 < 2 ^ bits := Nat.two_pow_pos bits
  have hexponent : interchange.format.maxExponent =
      ((interchange.fractionBits + (2 ^ interchange.exponentBits - 2) : ℕ) : ℤ) +
        interchange.format.minExponent := by
    show (2 : ℤ) ^ (interchange.exponentBits - 1) = _ +
      (2 - 2 ^ (interchange.exponentBits - 1) - (interchange.fractionBits : ℤ))
    rw [hbits, Nat.succ_sub_one, Nat.pow_succ]
    push_cast [show 2 ≤ 2 ^ bits * 2 by omega]
    ring
  rw [hexponent, zpow_add₀ (by norm_num), zpow_natCast]
  refine mul_lt_mul_of_pos_right ?_ (zpow_pos (by norm_num) _)
  exact_mod_cast hunits

theorem representable_units (magnitude : ℕ) :
    interchange.format.Representable
      ((interchange.units magnitude : ℚ) * 2 ^ interchange.format.minExponent) := by
  obtain ⟨significand, shift, hsignificand, hunits⟩ := @exists_units interchange magnitude
  refine ⟨significand, interchange.format.minExponent + shift, ?_, by omega, ?_⟩
  · rw [Nat.abs_cast]
    exact_mod_cast hsignificand
  · rw [hunits, zpow_add₀ (by norm_num), zpow_natCast]
    push_cast
    ring

/-- A magnitude below that of the infinities is a number of the format, with either sign. -/
theorem holds_units {magnitude : ℕ} (h : magnitude < interchange.infinityMagnitude) {units : ℤ}
    (hunits : units.natAbs = interchange.units magnitude) :
    interchange.format.Holds (units * 2 ^ interchange.format.minExponent) := by
  constructor
  · have hrepresentable := @representable_units interchange magnitude
    rw [← hunits] at hrepresentable
    rcases Int.natAbs_eq units with heq | heq
    · rw [heq]
      exact hrepresentable
    · rw [heq, Int.cast_neg, neg_mul]
      exact hrepresentable.neg
  · have hlt := units_lt h
    rw [abs_mul, abs_of_pos (zpow_pos (by norm_num : (0 : ℚ) < 2) _), ← Int.cast_abs,
      Int.abs_eq_natAbs, hunits]
    exact hlt

/-! ### Patterns -/

/-- The pattern without its sign. -/
def magnitude (bits : BitVec interchange.width) : ℕ := bits.toNat % 2 ^ interchange.magnitudeBits

/-- The sign bit. -/
def negative (bits : BitVec interchange.width) : Bool :=
  decide (2 ^ interchange.magnitudeBits ≤ bits.toNat)

/-- The units with the sign. -/
def signedUnits (bits : BitVec interchange.width) : ℤ :=
  if negative bits then -interchange.units (magnitude bits) else interchange.units (magnitude bits)

theorem natAbs_signedUnits (bits : BitVec interchange.width) :
    (signedUnits bits).natAbs = interchange.units (magnitude bits) := by
  rw [signedUnits]
  split <;> omega

/-- What a pattern stands for. -/
def value (bits : BitVec interchange.width) : Floating interchange.format :=
  if h : magnitude bits < interchange.infinityMagnitude then
    if magnitude bits = 0 ∧ negative bits = true then .negativeZero
    else .finite (signedUnits bits * 2 ^ interchange.format.minExponent)
      (holds_units h (natAbs_signedUnits bits))
  else if magnitude bits = interchange.infinityMagnitude then .infinity (negative bits)
  else .nan

/-- A pattern is its sign and its magnitude. -/
theorem eq_of_magnitude {a b : BitVec interchange.width} (hnegative : negative a = negative b)
    (hmagnitude : magnitude a = magnitude b) : a = b := by
  have ha : a.toNat < 2 ^ interchange.magnitudeBits * 2 := a.isLt
  have hb : b.toNat < 2 ^ interchange.magnitudeBits * 2 := b.isLt
  have hpos := Nat.two_pow_pos interchange.magnitudeBits
  rw [negative, negative, decide_eq_decide] at hnegative
  rw [magnitude, magnitude] at hmagnitude
  apply BitVec.eq_of_toNat_eq
  by_cases hsign : 2 ^ interchange.magnitudeBits ≤ a.toNat
  · rw [Nat.mod_eq_sub_mod hsign, Nat.mod_eq_sub_mod (hnegative.mp hsign),
      Nat.mod_eq_of_lt (by omega), Nat.mod_eq_of_lt (by omega)] at hmagnitude
    omega
  · rw [Nat.mod_eq_of_lt (by omega), Nat.mod_eq_of_lt (by omega)] at hmagnitude
    exact hmagnitude

/-- The units with the sign say which pattern it is, but for the two zeros. -/
theorem signedUnits_inj {a b : BitVec interchange.width} :
    signedUnits a = signedUnits b ↔ a = b ∨ magnitude a = 0 ∧ magnitude b = 0 := by
  have hinjective : ∀ m n, interchange.units m = interchange.units n ↔ m = n :=
    fun m n => units_strictMono.injective.eq_iff
  have hzero : ∀ m, interchange.units m = 0 ↔ m = 0 := by
    intro m
    rw [← hinjective m 0, units_zero]
  constructor
  · intro h
    have hmagnitude : magnitude a = magnitude b := by
      rw [← hinjective, ← natAbs_signedUnits, ← natAbs_signedUnits, h]
    by_cases hnegative : negative a = negative b
    · exact Or.inl (eq_of_magnitude hnegative hmagnitude)
    · right
      -- one sign is set and the other is not: a number equals its negation
      have hunits : interchange.units (magnitude b) = 0 := by
        rw [signedUnits, signedUnits, hmagnitude] at h
        by_cases hsign : negative a = true
        · have hother : ¬negative b = true := fun hb => hnegative (hsign.trans hb.symm)
          rw [if_pos hsign, if_neg hother] at h
          omega
        · have hother : negative b = true := by
            rw [Bool.not_eq_true] at hsign
            rwa [hsign, eq_comm, Bool.not_eq_false] at hnegative
          rw [if_neg hsign, if_pos hother] at h
          omega
      rw [hmagnitude, and_self]
      exact (hzero _).mp hunits
  · rintro (rfl | ⟨ha, hb⟩)
    · rfl
    · rw [signedUnits, signedUnits, ha, hb, units_zero]
      simp

/-! ### Places -/

theorem isNan_value (bits : BitVec interchange.width) :
    (value bits).isNan = true ↔ interchange.infinityMagnitude < magnitude bits := by
  rw [value]
  split
  · split
    · simp only [Floating.isNan, Bool.false_eq_true, false_iff]
      omega
    · simp only [Floating.isNan, Bool.false_eq_true, false_iff]
      omega
  · split
    · simp only [Floating.isNan, Bool.false_eq_true, false_iff]
      omega
    · simp only [Floating.isNan, true_iff]
      omega

theorem extended_of_finite {bits : BitVec interchange.width}
    (h : magnitude bits < interchange.infinityMagnitude) :
    (value bits).extended =
      (((signedUnits bits * 2 ^ interchange.format.minExponent : ℚ) : WithTop ℚ) :
        WithBot (WithTop ℚ)) := by
  rw [value, dif_pos h]
  split
  · rename_i hzero
    have hunits : signedUnits bits = 0 := by
      rw [signedUnits, hzero.1, units_zero]
      simp
    rw [hunits, Int.cast_zero, zero_mul]
    rfl
  · rfl

theorem extended_of_infinite {bits : BitVec interchange.width}
    (h : magnitude bits = interchange.infinityMagnitude) :
    (value bits).extended =
      if negative bits then ⊥ else ((⊤ : WithTop ℚ) : WithBot (WithTop ℚ)) := by
  rw [value, dif_neg (by omega), if_pos h]
  cases negative bits <;> rfl

/-- A finite pattern is at another place than an infinity. -/
theorem extended_ne {a b : BitVec interchange.width}
    (ha : magnitude a < interchange.infinityMagnitude)
    (hb : magnitude b = interchange.infinityMagnitude) :
    (value a).extended ≠ (value b).extended := by
  rw [extended_of_finite ha, extended_of_infinite hb]
  split
  · exact WithBot.coe_ne_bot
  · rw [ne_eq, WithBot.coe_inj]
    exact WithTop.coe_ne_top

/-- **Two patterns that are not NaN stand for one place** exactly if they are the same, or both a
zero. -/
theorem extended_value_inj {a b : BitVec interchange.width} (ha : (value a).isNan = false)
    (hb : (value b).isNan = false) :
    (value a).extended = (value b).extended ↔ a = b ∨ magnitude a = 0 ∧ magnitude b = 0 := by
  have hnan : ∀ bits : BitVec interchange.width, (value bits).isNan = false →
      magnitude bits < interchange.infinityMagnitude ∨
        magnitude bits = interchange.infinityMagnitude := by
    intro bits hbits
    have h := isNan_value bits
    rw [hbits] at h
    simp only [Bool.false_eq_true, false_iff] at h
    omega
  have hpower : (2 : ℚ) ^ interchange.format.minExponent ≠ 0 := zpow_ne_zero _ (by norm_num)
  rcases hnan a ha with hfiniteA | hinfiniteA
  · rcases hnan b hb with hfiniteB | hinfiniteB
    · rw [extended_of_finite hfiniteA, extended_of_finite hfiniteB, WithBot.coe_inj,
        WithTop.coe_inj, mul_left_inj' hpower, Int.cast_inj, signedUnits_inj]
    · refine iff_of_false (extended_ne hfiniteA hinfiniteB) ?_
      rintro (rfl | ⟨-, hzero⟩) <;> omega
  · rcases hnan b hb with hfiniteB | hinfiniteB
    · refine iff_of_false (extended_ne hfiniteB hinfiniteA).symm ?_
      rintro (rfl | ⟨hzero, -⟩) <;> omega
    · constructor
      · intro h
        refine Or.inl (eq_of_magnitude ?_ (hinfiniteA.trans hinfiniteB.symm))
        rw [extended_of_infinite hinfiniteA, extended_of_infinite hinfiniteB] at h
        revert h
        cases negative a <;> cases negative b <;> simp
      · rintro (rfl | ⟨hzeroA, hzeroB⟩)
        · rfl
        · have hpos := @infinityMagnitude_pos interchange
          omega

end InterchangeFormat

end Memorial.Library
