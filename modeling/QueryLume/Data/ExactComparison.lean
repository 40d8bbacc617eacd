/-
  The mixed comparison is exact.

  `compareIntToDouble` is written so that no operand is rounded: the range checks come before the
  cast to an integer, and the cast back is only applied to a number that came out of that cast.
  Here this is read off against the extended reals.

  1. **The casts** — the range checks keep the cast to an integer inside its domain, where it is
     rounding towards zero (`castToInt64_guarded`); the cast back is applied to the result only,
     which a double holds exactly.

  2. **The specification** — a value of a number stands for an extended real (`Value.toEReal`): the
     integer itself, the real number of a finite double, or an infinity.

  3. **The verdict (`compareNumeric_exact`)** — for all integers of 64 bits and all doubles but
     NaN, in all four combinations, `compareNumeric` answers what the order of the extended reals
     says. The bridge is the rank of `Data/ValueOrder.lean`, which orders numbers as their values
     do.
-/
import QueryLume.Data.ValueOrder
import QueryLume.Foundation.ExtendedReals

namespace QueryLume

open Binary64

/-- A verdict survives a change of order that keeps the order. -/
theorem orderOf_strictMono {α β : Type} [LinearOrder α] [LinearOrder β] {f : α → β}
    (hf : StrictMono f) (a b : α) : orderOf (f a) (f b) = orderOf a b := by
  unfold orderOf
  simp only [hf.lt_iff_lt]

/-! ## The cast to an integer -/

/-- `static_cast` to a 64-bit integer: its behavior is undefined unless the integer part of the
    operand is one. -/
def castToInt64 : Binary64 → Except Exception Int64
  | .finite x =>
    if -2 ^ 63 ≤ x.truncate ∧ x.truncate ≤ 2 ^ 63 - 1 then .ok (Int64.ofInt x.truncate)
    else .error .undefinedBehavior
  | _ => .error .undefinedBehavior

/-- `compareIntToDouble` with the cast's own failure in view. -/
def compareIntToDoubleChecked (integer : Int64) (floating : Binary64) :
    Except Exception CompareResult :=
  if floating.isNaN then throwUnsupportedNumber
  else if floating.lt kInt64LowerBound then .ok .kGreater
  else if kInt64UpperBound.le floating then .ok .kLess
  else
    match castToInt64 floating with
    | .error e => .error e
    | .ok truncated =>
      if integer < truncated then .ok .kLess
      else if truncated < integer then .ok .kGreater
      else if (Binary64.ofInt truncated.toInt).lt floating then .ok .kLess
      else if floating.lt (Binary64.ofInt truncated.toInt) then .ok .kGreater
      else .ok .kEqual

/-- Where `castToInt64` returns. -/
theorem castToInt64_ok {x : FiniteBinary64} (hlow : -2 ^ 63 ≤ x.truncate)
    (hhigh : x.truncate ≤ 2 ^ 63 - 1) :
    ∃ i, castToInt64 (.finite x) = .ok i ∧ i.toInt = x.truncate := by
  refine ⟨Int64.ofInt x.truncate, if_pos ⟨hlow, hhigh⟩, ?_⟩
  have hlt : x.truncate < 2 ^ 63 := by omega
  rw [Int64.toInt_ofInt]
  exact Int.bmod_eq_of_le hlow hlt

/-- **The guards.**  A number that passed them is finite and its integer part is an `int64`. -/
theorem castToInt64_guarded {d : Binary64} (hd : d.isNaN = false)
    (hlow : d.lt kInt64LowerBound = false) (hhigh : kInt64UpperBound.le d = false) :
    ∃ x, d = .finite x ∧ -2 ^ 63 ≤ x.truncate ∧ x.truncate ≤ 2 ^ 63 - 1 := by
  have hbelow : ¬ d.rank < rankInt (-2 ^ 63) := by
    rw [← rank_kInt64LowerBound, ← lt_iff_rank_lt hd rfl, hlow]
    decide
  have habove : d.rank < rankInt (2 ^ 63) := by
    rw [← not_le, ← rank_kInt64UpperBound, ← le_iff_rank_le rfl hd, hhigh]
    decide
  obtain ⟨x, hx, hxlow, hxhigh⟩ := truncate_bounds hd hbelow habove
  exact ⟨x, hx, hxlow, by omega⟩

/-- The failure of the cast is never met. -/
theorem compareIntToDoubleChecked_eq (integer : Int64) (floating : Binary64) :
    compareIntToDoubleChecked integer floating = compareIntToDouble integer floating := by
  unfold compareIntToDoubleChecked compareIntToDouble
  cases hnan : floating.isNaN with
  | true => rfl
  | false =>
    cases hlow : floating.lt kInt64LowerBound with
    | true => rfl
    | false =>
      cases hhigh : kInt64UpperBound.le floating with
      | true => rfl
      | false =>
        obtain ⟨x, rfl, hx⟩ := castToInt64_guarded hnan hlow hhigh
        rw [castToInt64, if_pos hx]
        rfl

/-- The cast back is exact where the integer came out of a double. -/
theorem toEReal_ofInt_truncate {x : FiniteBinary64} (hlow : -2 ^ 63 ≤ x.truncate)
    (hhigh : x.truncate ≤ 2 ^ 63 - 1) :
    (Binary64.ofInt x.truncate).toEReal = ((x.truncate : ℝ) : EReal) := by
  obtain ⟨y, hy, hunits⟩ := units_ofInt_truncate x (by omega)
  rw [hy, toEReal_eq rfl, intCast_eq, Binary64.rank, hunits]
  rfl

/-- The least integer with no double of its own. -/
theorem toEReal_ofInt_rounds :
    (Binary64.ofInt (Int64.ofInt (2 ^ 53 + 1)).toInt).toEReal ≠
      (((Int64.ofInt (2 ^ 53 + 1)).toInt : ℝ) : EReal) := by
  have hcast : Binary64.ofInt (Int64.ofInt (2 ^ 53 + 1)).toInt = Binary64.ofInt (2 ^ 53) := by
    decide +kernel
  have hint : (Int64.ofInt (2 ^ 53 + 1)).toInt = 2 ^ 53 + 1 := by decide +kernel
  obtain ⟨y, hy, hunits⟩ := ofInt_exact (z := 2 ^ 53) (m := 1) (e := 53) rfl (by decide) (by decide)
  rw [hcast, hint, hy, toEReal_eq rfl, intCast_eq, Binary64.rank, hunits]
  intro heq
  have hrank := scaled_strictMono.injective heq
  exact absurd (rankInt_lt.mpr (show (2 : Int) ^ 53 < 2 ^ 53 + 1 by decide)) (by
    rw [← hrank]
    exact lt_irrefl _)

/-! ## The order of the numbers -/

/-- The number a value stands for. -/
noncomputable def Value.toEReal : Value → EReal
  | .int64 i => ((i.toInt : ℝ) : EReal)
  | .double d => d.toEReal
  | _ => 0

/-- The real number of a value is its rank, scaled. -/
theorem Value.toEReal_eq {value : Value} (h : value.kind = .number) :
    value.toEReal = scaled value.numberRank := by
  cases value with
  | int64 i => exact intCast_eq i.toInt
  | double d =>
    have hd : d.isNaN = false := by
      cases hnan : d.isNaN with
      | false => rfl
      | true => rw [kind_nan hnan] at h; cases h
    exact Binary64.toEReal_eq hd
  | null | bool b | string s => cases h

theorem isNumeric_of_kind {value : Value} (h : value.kind = .number) :
    isNumeric (typeOf value) = true := by
  cases value with
  | int64 i => rfl
  | double d => rfl
  | null | bool b | string s => cases h

/-- The verdict, for values that are numbers. -/
theorem compareNumeric_toEReal {a b : Value} (ha : a.kind = .number) (hb : b.kind = .number) :
    compareNumeric a b = .ok (orderOf a.toEReal b.toEReal) := by
  have hcompared := compareNumeric_cases (isNumeric_of_kind ha) (isNumeric_of_kind hb)
  rw [Value.toEReal_eq ha, Value.toEReal_eq hb, orderOf_strictMono scaled_strictMono]
  generalize compareNumeric a b = outcome at hcompared
  cases hcompared with
  | numbers => rfl
  | unordered null => rw [ha, hb] at null; rcases null with h | h <;> cases h
  | strings left => rw [ha] at left; cases left
  | error e _ _ apart =>
    have h := apart (ha.trans hb.symm)
    rw [ha] at h
    cases h

/-- **Mixed numeric comparison is exact.**  The verdict on an integer and a double is the order of
    the two numbers among the extended reals.  The cast to an integer is only reached where it is
    defined and is then rounding towards zero; casting its result back is exact, although casting
    an integer to a double rounds in general.  So all four combinations of operands are compared
    as numbers. -/
theorem compareNumeric_exact :
    (∀ (i : Int64) (d : Binary64), d.isNaN = false →
      compareIntToDouble i d = .ok (orderOf ((i.toInt : ℝ) : EReal) d.toEReal)) ∧
    (∀ i d, compareIntToDoubleChecked i d = compareIntToDouble i d) ∧
    (∀ d : Binary64, d.isNaN = false → d.lt kInt64LowerBound = false →
      kInt64UpperBound.le d = false →
      ∃ x truncated, d = .finite x ∧ castToInt64 d = .ok truncated ∧
        truncated.toInt = towardsZero x.toReal ∧
        -2 ^ 63 ≤ towardsZero x.toReal ∧ towardsZero x.toReal ≤ 2 ^ 63 - 1 ∧
        (Binary64.ofInt truncated.toInt).toEReal = ((truncated.toInt : ℝ) : EReal)) ∧
    (∃ i : Int64, (Binary64.ofInt i.toInt).toEReal ≠ ((i.toInt : ℝ) : EReal)) ∧
    (∀ a b : Value, a.kind = .number → b.kind = .number →
      compareNumeric a b = .ok (orderOf a.toEReal b.toEReal)) := by
  refine ⟨fun i d hd => ?_, compareIntToDoubleChecked_eq, fun d hd hlow hhigh => ?_,
    ⟨_, toEReal_ofInt_rounds⟩, fun a b => compareNumeric_toEReal⟩
  · exact compareNumeric_toEReal (a := .int64 i) (b := .double d) rfl (kind_double hd)
  · obtain ⟨x, rfl, hxlow, hxhigh⟩ := castToInt64_guarded hd hlow hhigh
    obtain ⟨truncated, hcast, htoInt⟩ := castToInt64_ok hxlow hxhigh
    refine ⟨x, truncated, rfl, hcast, ?_⟩
    rw [← truncate_eq, htoInt]
    exact ⟨rfl, hxlow, hxhigh, toEReal_ofInt_truncate hxlow hxhigh⟩

end QueryLume
