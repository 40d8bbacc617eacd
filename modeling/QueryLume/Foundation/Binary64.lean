/-
  IEEE-754 binary64 numbers, as far as comparing and converting them goes.

  1. **The data type** — a finite number is `± significand · 2^(shift - 1074)` in canonical form:
     53 bits of significand, the leading one set unless the exponent is the smallest.  The
     structure carries the proof, so a value determines its fields (the two zeros apart) and no
     other bit pattern can be built.

  2. **Units** — every finite number is an INTEGER number of units `2^-1074` (`units`), so
     comparisons need no rational arithmetic: an integer `z` is `z · 2^1074` units.

  3. **The operations of the language** — `lt` and `le`, false as soon as one side is NaN;
     `truncate`, towards zero, what a cast to an integer type computes where it is defined;
     `ofInt`, the cast from an integer, rounding to nearest with ties to even.

  The two facts a mixed comparison rests on are `lt_iff_rank_lt` (the comparisons are the order of
  the values, infinities included) and `units_ofInt_truncate` (casting a truncated number back is
  exact, although `ofInt` rounds in general).
-/
import Mathlib.Order.WithBot
import Mathlib.Algebra.Order.Ring.Int
import Mathlib.Data.Int.ConditionallyCompleteOrder
import Mathlib.Tactic.Ring
import Mathlib.Tactic.Linarith

/-- A finite binary64 number: `± significand · 2^(shift - 1074)`. -/
structure FiniteBinary64 where
  negative : Bool
  significand : Nat
  shift : Nat
  canonical : significand < 2 ^ 53 ∧ shift ≤ 2045 ∧ (shift = 0 ∨ 2 ^ 52 ≤ significand)
deriving DecidableEq, Repr

/-- A binary64 value.  The payload of a NaN is not kept: nothing in the language reads it without
    an explicit bit cast. -/
inductive Binary64 where
  | nan
  | infinity (negative : Bool)
  | finite (x : FiniteBinary64)
deriving DecidableEq, Repr

/-- The number of units in one. -/
def unitsPerOne : Nat := 2 ^ 1074

theorem unitsPerOne_pos : 0 < unitsPerOne := by decide +kernel

namespace FiniteBinary64

/-- The magnitude in units of `2^-1074`. -/
def magnitude (x : FiniteBinary64) : Nat := x.significand * 2 ^ x.shift

/-- The value in units of `2^-1074`. -/
def units (x : FiniteBinary64) : Int := if x.negative then -x.magnitude else x.magnitude

/-- Truncation towards zero. -/
def truncate (x : FiniteBinary64) : Int := x.units.tdiv unitsPerOne

end FiniteBinary64

namespace Binary64

/-- `std::isnan`. -/
def isNaN : Binary64 → Bool
  | nan => true
  | _ => false

/-- `a < b`; false when one of them is NaN. -/
def lt : Binary64 → Binary64 → Bool
  | nan, _ | _, nan => false
  | infinity a, infinity b => a && !b
  | infinity a, finite _ => a
  | finite _, infinity b => !b
  | finite x, finite y => decide (x.units < y.units)

/-- `a <= b`; false when one of them is NaN. -/
def le (a b : Binary64) : Bool := !a.isNaN && !b.isNaN && !b.lt a

/-- The integer part; the cast it models is undefined for NaN and the infinities. -/
def truncate : Binary64 → Int
  | nan => 0
  | infinity _ => 0
  | finite x => x.truncate

/-- `a / d` rounded to the nearest integer, ties to even: the default rounding of the hardware. -/
def roundedQuotient (a d : Nat) : Nat :=
  if 2 * (a % d) < d ∨ (2 * (a % d) = d ∧ (a / d) % 2 = 0) then a / d else a / d + 1

/-- The number `± m · 2^e` for `m ≤ 2^53`, normalised; an infinity when it is too large. -/
def ofScaled (negative : Bool) (m e : Nat) : Binary64 :=
  if m = 0 then finite ⟨negative, 0, 0, by decide⟩
  else
    let significand := m * 2 ^ (53 - m.log2) / 2
    let shift := m.log2 + e + 1022
    if h : significand < 2 ^ 53 ∧ shift ≤ 2045 ∧ (shift = 0 ∨ 2 ^ 52 ≤ significand) then
      finite ⟨negative, significand, shift, h⟩
    else infinity negative

/-- The cast from an integer: the nearest number, ties to even. -/
def ofInt (z : Int) : Binary64 :=
  let a := z.natAbs
  let e := a.log2 - 52
  ofScaled (decide (z < 0)) (roundedQuotient a (2 ^ e)) e

/-! ## Comparisons are the order of the values -/

/-- The place of a number that is not NaN among the extended integers, in units.  The two zeros
    share a place, as they compare equal. -/
def rank : Binary64 → WithBot (WithTop Int)
  | nan => ((0 : Int) : WithTop Int)
  | infinity true => ⊥
  | infinity false => ((⊤ : WithTop Int) : WithBot (WithTop Int))
  | finite x => ((x.units : WithTop Int) : WithBot (WithTop Int))

/-- The place of an integer among the extended integers, in units. -/
def rankInt (z : Int) : WithBot (WithTop Int) := (((z * unitsPerOne : Int) : WithTop Int))

/-- Integers stand among the extended integers in their own order. -/
theorem rankInt_lt {y z : Int} : rankInt y < rankInt z ↔ y < z := by
  have hpos : (0 : Int) < unitsPerOne := Int.natCast_pos.mpr unitsPerOne_pos
  simp only [rankInt, WithBot.coe_lt_coe, WithTop.coe_lt_coe]
  exact mul_lt_mul_iff_left₀ hpos

/-- **The order of the values.**  `<` of the language is `<` of the places. -/
theorem lt_iff_rank_lt {a b : Binary64} (ha : a.isNaN = false) (hb : b.isNaN = false) :
    a.lt b = true ↔ a.rank < b.rank := by
  cases a with
  | nan => cases ha
  | infinity p =>
    cases b with
    | nan => cases hb
    | infinity q => cases p <;> cases q <;> simp [lt, rank]
    | finite y => cases p <;> simp [lt, rank]
  | finite x =>
    cases b with
    | nan => cases hb
    | infinity q =>
      have htop : ((x.units : WithTop Int) : WithBot (WithTop Int)) < ((⊤ : WithTop Int)) :=
        WithBot.coe_lt_coe.mpr (WithTop.coe_lt_top _)
      cases q with
      | false => exact ⟨fun _ => htop, fun _ => rfl⟩
      | true => simp [lt, rank]
    | finite y => simp [lt, rank]

theorem le_iff_rank_le {a b : Binary64} (ha : a.isNaN = false) (hb : b.isNaN = false) :
    a.le b = true ↔ a.rank ≤ b.rank := by
  rw [le, ha, hb, ← not_lt, ← lt_iff_rank_lt hb ha]
  simp

/-! ## Casting a truncated number back is exact -/

/-- Normalising loses nothing: the units of the result are `m · 2^e` ones.  The bound on `e`
    keeps the result finite. -/
theorem ofScaled_exact (negative : Bool) {m e : Nat} (hm : m ≤ 2 ^ 53) (he : e ≤ 64) :
    ∃ x, ofScaled negative m e = finite x ∧ x.negative = negative ∧
      x.magnitude = m * 2 ^ e * unitsPerOne := by
  unfold ofScaled
  split
  · rename_i h0
    subst h0
    exact ⟨_, rfl, rfl, by simp [FiniteBinary64.magnitude]⟩
  · rename_i h0
    have hlow : 2 ^ m.log2 ≤ m := Nat.log2_self_le h0
    have hhigh : m < 2 ^ (m.log2 + 1) := Nat.lt_log2_self
    have hlog : m.log2 ≤ 53 := by
      by_contra h
      have : 2 ^ 54 ≤ 2 ^ m.log2 := Nat.pow_le_pow_right (by decide) (by omega)
      omega
    -- twice the significand is `m` shifted so that its leading bit has weight `2^53`
    have hdouble : m * 2 ^ (53 - m.log2) / 2 * 2 = m * 2 ^ (53 - m.log2) := by
      refine Nat.div_mul_cancel ?_
      rcases Nat.lt_or_ge m.log2 53 with h | h
      · exact (dvd_pow_self 2 (by omega)).mul_left m
      · have h53 : m.log2 = 53 := by omega
        rw [h53] at hlow
        have hm' : m = 2 ^ 53 := by omega
        rw [hm']
        decide
    have hge : 2 ^ 53 ≤ m * 2 ^ (53 - m.log2) := by
      calc 2 ^ 53 = 2 ^ m.log2 * 2 ^ (53 - m.log2) := by rw [← pow_add]; congr 1; omega
        _ ≤ m * 2 ^ (53 - m.log2) := Nat.mul_le_mul_right _ hlow
    have hlt : m * 2 ^ (53 - m.log2) < 2 ^ 54 := by
      calc m * 2 ^ (53 - m.log2) < 2 ^ (m.log2 + 1) * 2 ^ (53 - m.log2) :=
            Nat.mul_lt_mul_of_pos_right hhigh (Nat.two_pow_pos _)
        _ = 2 ^ 54 := by rw [← pow_add]; congr 1; omega
    have hcanon : m * 2 ^ (53 - m.log2) / 2 < 2 ^ 53 ∧ m.log2 + e + 1022 ≤ 2045 ∧
        (m.log2 + e + 1022 = 0 ∨ 2 ^ 52 ≤ m * 2 ^ (53 - m.log2) / 2) := by omega
    refine ⟨⟨negative, _, _, hcanon⟩, dif_pos hcanon, rfl, ?_⟩
    have hshift : ∀ k, 2 ^ (m.log2 + e + k) = 2 ^ m.log2 * 2 ^ e * 2 ^ k := fun k => by
      rw [pow_add, pow_add]
    have hpow : 2 ^ (53 - m.log2) * 2 ^ m.log2 = 2 ^ 53 := by
      rw [← pow_add]; congr 1; omega
    have hscale : 2 * unitsPerOne = 2 ^ 53 * 2 ^ 1022 := by decide +kernel
    refine Nat.eq_of_mul_eq_mul_left (show 0 < 2 by decide) ?_
    show 2 * (m * 2 ^ (53 - m.log2) / 2 * 2 ^ (m.log2 + e + 1022)) = _
    rw [hshift 1022]
    generalize 2 ^ 1022 = half at hscale
    calc 2 * (m * 2 ^ (53 - m.log2) / 2 * (2 ^ m.log2 * 2 ^ e * half))
        = m * 2 ^ (53 - m.log2) / 2 * 2 * (2 ^ m.log2 * 2 ^ e * half) := by ring
      _ = m * (2 ^ (53 - m.log2) * 2 ^ m.log2) * 2 ^ e * half := by rw [hdouble]; ring
      _ = m * 2 ^ e * (2 ^ 53 * half) := by rw [hpow]; ring
      _ = 2 * (m * 2 ^ e * unitsPerOne) := by rw [← hscale]; ring

/-- An integer with at most 53 significant bits is cast exactly. -/
theorem ofInt_exact {z : Int} {m e : Nat} (hz : z.natAbs = m * 2 ^ e) (hm : m < 2 ^ 53)
    (hbound : z.natAbs < 2 ^ 64) :
    ∃ x, ofInt z = finite x ∧ x.units = z * unitsPerOne := by
  have hlog : z.natAbs.log2 < 64 := by
    rcases Nat.eq_zero_or_pos z.natAbs with h | h
    · rw [h]; decide
    · have hlow : 2 ^ z.natAbs.log2 ≤ z.natAbs := Nat.log2_self_le (by omega)
      exact (Nat.pow_lt_pow_iff_right (by decide)).mp (Nat.lt_of_le_of_lt hlow hbound)
  -- the discarded bits are zero, so that the quotient is exact
  have hdvd : 2 ^ (z.natAbs.log2 - 52) ∣ z.natAbs := by
    rcases Nat.eq_zero_or_pos z.natAbs with h | h
    · rw [h]; exact Dvd.intro 0 rfl
    · have hlow : 2 ^ z.natAbs.log2 ≤ z.natAbs := Nat.log2_self_le (by omega)
      have hlt : 2 ^ z.natAbs.log2 < 2 ^ (53 + e) := by
        calc 2 ^ z.natAbs.log2 ≤ z.natAbs := hlow
          _ = m * 2 ^ e := hz
          _ < 2 ^ 53 * 2 ^ e := Nat.mul_lt_mul_of_pos_right hm (Nat.two_pow_pos _)
          _ = 2 ^ (53 + e) := (pow_add 2 53 e).symm
      have hexp := (Nat.pow_lt_pow_iff_right (by decide : 1 < 2)).mp hlt
      rw [hz] at hexp ⊢
      exact (pow_dvd_pow 2 (by omega)).mul_left m
  obtain ⟨q, hq⟩ := hdvd
  have hround : roundedQuotient z.natAbs (2 ^ (z.natAbs.log2 - 52)) = q := by
    have hdiv : z.natAbs / 2 ^ (z.natAbs.log2 - 52) = q :=
      Nat.div_eq_of_eq_mul_right (Nat.two_pow_pos _) hq
    have hmod : z.natAbs % 2 ^ (z.natAbs.log2 - 52) = 0 := Nat.mod_eq_zero_of_dvd ⟨q, hq⟩
    rw [roundedQuotient, hmod, hdiv, if_pos (Or.inl (Nat.two_pow_pos _))]
  have hqle : q ≤ 2 ^ 53 := by
    have hhigh : z.natAbs < 2 ^ (z.natAbs.log2 + 1) := Nat.lt_log2_self
    have hle : 2 ^ (z.natAbs.log2 + 1) ≤ 2 ^ (z.natAbs.log2 - 52) * 2 ^ 53 := by
      rw [← pow_add]; exact Nat.pow_le_pow_right (by decide) (by omega)
    refine Nat.le_of_lt (Nat.lt_of_mul_lt_mul_left (a := 2 ^ (z.natAbs.log2 - 52)) ?_)
    rw [← hq]
    exact Nat.lt_of_lt_of_le hhigh hle
  obtain ⟨x, hx, hneg, hmag⟩ := ofScaled_exact (decide (z < 0)) hqle
    (show z.natAbs.log2 - 52 ≤ 64 by omega)
  refine ⟨x, by rw [ofInt, hround]; exact hx, ?_⟩
  rw [FiniteBinary64.units, hneg, hmag, mul_comm q, ← hq]
  by_cases hzneg : z < 0
  · simp only [hzneg, decide_true, if_true]
    push_cast
    rw [abs_of_neg hzneg]
    ring
  · simp only [hzneg, decide_false, Bool.false_eq_true, if_false]
    push_cast
    rw [abs_of_nonneg (by omega)]

/-- **The round trip.**  The integer part of a number, when it is below `2^64`, is cast back
    exactly: what the fraction left behind has at most 53 significant bits. -/
theorem units_ofInt_truncate (x : FiniteBinary64) (hbound : x.truncate.natAbs < 2 ^ 64) :
    ∃ y, ofInt x.truncate = finite y ∧ y.units = x.truncate * unitsPerOne := by
  have hnat : x.truncate.natAbs = x.magnitude / unitsPerOne := by
    unfold FiniteBinary64.truncate FiniteBinary64.units
    rw [Int.natAbs_tdiv]
    split
    · rw [Int.natAbs_neg, Int.natAbs_natCast, Int.natAbs_natCast]; rfl
    · rw [Int.natAbs_natCast, Int.natAbs_natCast]; rfl
  -- either all of the significand is integer part, or only its leading bits are
  by_cases hshift : 1074 ≤ x.shift
  · refine ofInt_exact (m := x.significand) (e := x.shift - 1074) ?_ x.canonical.1 hbound
    have hpow : (2 : Nat) ^ x.shift = 2 ^ (x.shift - 1074) * unitsPerOne := by
      rw [unitsPerOne, ← pow_add, Nat.sub_add_cancel hshift]
    rw [hnat, FiniteBinary64.magnitude, hpow, ← mul_assoc]
    exact Nat.mul_div_cancel _ unitsPerOne_pos
  · refine ofInt_exact (m := x.magnitude / unitsPerOne) (e := 0) (by rw [hnat, pow_zero, mul_one])
      ?_ hbound
    have hlt : x.magnitude < unitsPerOne * 2 ^ 53 := by
      have hpow : (2 : Nat) ^ x.shift ≤ unitsPerOne := by
        rw [unitsPerOne]
        exact pow_le_pow_right₀ (by decide) (by omega)
      calc x.significand * 2 ^ x.shift
          < 2 ^ 53 * 2 ^ x.shift := Nat.mul_lt_mul_of_pos_right x.canonical.1 (Nat.two_pow_pos _)
        _ ≤ 2 ^ 53 * unitsPerOne := Nat.mul_le_mul_left _ hpow
        _ = unitsPerOne * 2 ^ 53 := mul_comm _ _
    exact Nat.div_lt_of_lt_mul hlt

/-- An integer below the integer part is below the number. -/
theorem lt_units_of_lt_truncate {x : FiniteBinary64} {z : Int} (h : z < x.truncate) :
    z * unitsPerOne < x.units := by
  have hpos : (0 : Int) < unitsPerOne := Int.natCast_pos.mpr unitsPerOne_pos
  have hrem := Int.mul_tdiv_add_tmod x.units unitsPerOne
  have hlow : -(unitsPerOne : Int) < x.units.tmod unitsPerOne := Int.lt_tmod_of_pos _ hpos
  have hle : (z + 1) * unitsPerOne ≤ x.truncate * unitsPerOne :=
    mul_le_mul_of_nonneg_right h (le_of_lt hpos)
  rw [FiniteBinary64.truncate, mul_comm _ (unitsPerOne : Int)] at hle
  linarith

/-- An integer above the integer part is above the number. -/
theorem units_lt_of_truncate_lt {x : FiniteBinary64} {z : Int} (h : x.truncate < z) :
    x.units < z * unitsPerOne := by
  have hpos : (0 : Int) < unitsPerOne := Int.natCast_pos.mpr unitsPerOne_pos
  have hrem := Int.mul_tdiv_add_tmod x.units unitsPerOne
  have hhigh : x.units.tmod unitsPerOne < unitsPerOne := Int.tmod_lt_of_pos _ hpos
  have hle : (x.truncate + 1) * unitsPerOne ≤ z * unitsPerOne :=
    mul_le_mul_of_nonneg_right h (le_of_lt hpos)
  rw [FiniteBinary64.truncate, add_mul, mul_comm _ (unitsPerOne : Int)] at hle
  linarith

end Binary64
