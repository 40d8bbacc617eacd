/-
  Binary64 numbers as extended reals.

  `Binary64.toEReal` is the textbook reading — a sign, an integer below `2^53` and a power of two,
  or an infinity.  The integer units the executable comparisons count in (`Binary64.rank`) are an
  order-preserving image of it: one unit is `2^-1074`, so scaling turns units into reals
  (`toEReal_eq`, `scaled_strictMono`).

  The definitions that run count in units; the statements about the values of numbers are made
  here, where `<` is that of the reals.
-/
import QueryLume.Foundation.Binary64
import Mathlib.Data.EReal.Basic

namespace FiniteBinary64

/-- `± significand · 2^(shift - 1074)`. -/
noncomputable def toReal (x : FiniteBinary64) : ℝ :=
  (if x.negative then -1 else 1) * x.significand * (2 : ℝ) ^ ((x.shift : ℤ) - 1074)

end FiniteBinary64

/-- Rounding towards zero. -/
noncomputable def towardsZero (r : ℝ) : ℤ := if 0 ≤ r then ⌊r⌋ else ⌈r⌉

namespace Binary64

/-- The number itself; NaN, which stands for none, is sent to zero. -/
noncomputable def toEReal : Binary64 → EReal
  | nan => 0
  | infinity true => ⊥
  | infinity false => ⊤
  | finite x => (x.toReal : EReal)

/-- Units as a real number. -/
noncomputable def scale (z : Int) : ℝ := (z : ℝ) / (unitsPerOne : ℝ)

/-- The same for the extended integers; the infinities stay what they are. -/
noncomputable def scaled : WithBot (WithTop Int) → EReal := WithBot.map (WithTop.map scale)

/-- The number of units in one, as a real power of two. -/
theorem unitsPerOne_cast : (unitsPerOne : ℝ) = (2 : ℝ) ^ 1074 := by
  rw [unitsPerOne]
  exact Nat.cast_pow 2 1074

/-- It is positive, so scaling by it keeps the order. -/
theorem unitsPerOne_cast_pos : (0 : ℝ) < unitsPerOne := Nat.cast_pos.mpr unitsPerOne_pos

theorem scale_strictMono : StrictMono scale := by
  intro y z h
  have hcast : (y : ℝ) < z := Int.cast_lt.mpr h
  exact div_lt_div_of_pos_right hcast unitsPerOne_cast_pos

theorem scaled_strictMono : StrictMono scaled :=
  WithBot.strictMono_map_iff.mpr (WithTop.strictMono_map_iff.mpr scale_strictMono)

/-- The textbook value of a finite number is its number of units, scaled. -/
theorem toReal_eq_scale (x : FiniteBinary64) : x.toReal = scale x.units := by
  have hpow : (2 : ℝ) ^ ((x.shift : ℤ) - 1074) = (2 : ℝ) ^ x.shift / (unitsPerOne : ℝ) := by
    rw [zpow_sub₀ two_ne_zero, zpow_natCast, unitsPerOne_cast]
    rfl
  have hmagnitude : (x.magnitude : ℝ) = x.significand * (2 : ℝ) ^ x.shift := by
    rw [FiniteBinary64.magnitude, Nat.cast_mul, Nat.cast_pow]
    rfl
  rw [FiniteBinary64.toReal, hpow, scale, FiniteBinary64.units]
  cases x.negative with
  | true =>
    simp only [if_true, Int.cast_neg, Int.cast_natCast, hmagnitude]
    ring
  | false =>
    simp only [Bool.false_eq_true, if_false, Int.cast_natCast, hmagnitude]
    ring

/-- **The two readings agree.**  A number that is not NaN is its place, scaled. -/
theorem toEReal_eq {d : Binary64} (hd : d.isNaN = false) : d.toEReal = scaled d.rank := by
  cases d with
  | nan => cases hd
  | infinity negative => cases negative <;> rfl
  | finite x =>
    rw [toEReal, toReal_eq_scale]
    rfl

theorem intCast_eq (z : Int) : ((z : ℝ) : EReal) = scaled (rankInt z) := by
  have hscale : (z : ℝ) = scale (z * unitsPerOne) := by
    rw [scale, Int.cast_mul, Int.cast_natCast]
    exact (mul_div_cancel_right₀ _ (ne_of_gt unitsPerOne_cast_pos)).symm
  rw [hscale]
  rfl

/-- The integer part is the number rounded towards zero. -/
theorem truncate_eq (x : FiniteBinary64) : x.truncate = towardsZero x.toReal := by
  have hpos := unitsPerOne_cast_pos
  have hposInt : (0 : Int) < unitsPerOne := Int.natCast_pos.mpr unitsPerOne_pos
  have hrem := Int.mul_tdiv_add_tmod x.units unitsPerOne
  have hsum : (x.units : ℝ) = unitsPerOne * x.truncate + (x.units.tmod unitsPerOne : ℤ) := by
    exact_mod_cast hrem.symm
  have hscaled : x.toReal * unitsPerOne = x.units := by
    rw [toReal_eq_scale, scale, div_mul_cancel₀ _ (ne_of_gt hpos)]
  have hsign : 0 ≤ x.toReal ↔ 0 ≤ x.units := by
    rw [← Int.cast_nonneg_iff (R := ℝ), ← hscaled, mul_nonneg_iff_of_pos_right hpos]
  unfold towardsZero
  by_cases hnonneg : 0 ≤ x.units
  · -- the remainder is nonnegative and less than one
    rw [if_pos (hsign.mpr hnonneg), eq_comm, Int.floor_eq_iff]
    have hlow : (0 : ℝ) ≤ (x.units.tmod unitsPerOne : ℤ) :=
      Int.cast_nonneg_iff.mpr (Int.tmod_nonneg _ hnonneg)
    have hhigh : ((x.units.tmod unitsPerOne : ℤ) : ℝ) < unitsPerOne := by
      exact_mod_cast Int.tmod_lt_of_pos x.units hposInt
    constructor
    · refine le_of_mul_le_mul_right ?_ hpos
      rw [hscaled, hsum]
      linarith
    · refine lt_of_mul_lt_mul_right ?_ (le_of_lt hpos)
      rw [hscaled, hsum]
      linarith
  · -- the remainder is at most zero and more than minus one
    rw [if_neg (fun h => hnonneg (hsign.mp h)), eq_comm, Int.ceil_eq_iff]
    have hlow : -(unitsPerOne : ℝ) < (x.units.tmod unitsPerOne : ℤ) := by
      exact_mod_cast Int.lt_tmod_of_pos x.units hposInt
    have hneg : 0 ≤ (-x.units).tmod unitsPerOne := Int.tmod_nonneg _ (by omega)
    rw [Int.neg_tmod] at hneg
    have hhigh : ((x.units.tmod unitsPerOne : ℤ) : ℝ) ≤ 0 := Int.cast_nonpos.mpr (by omega)
    constructor
    · refine lt_of_mul_lt_mul_right ?_ (le_of_lt hpos)
      rw [hscaled, hsum]
      linarith
    · refine le_of_mul_le_mul_right ?_ hpos
      rw [hscaled, hsum]
      linarith

end Binary64
