/-
  What `compare` decides, in terms of one order.

  1. **Classes** — values fall into classes (`ValueKind`): nulls, numbers, strings, and values
     nothing can be compared with (bools and NaN).

  2. **Ranks** — within the numbers `compare` is the order of what they stand for: `numberRank`
     maps an integer and a double to one linear order, with the infinities at its ends, so that
     mixed pairs need no case of their own.  Within the strings it is the order of the strings.

  3. **The crux (`compare_cases`)** — every call is one of four things: unordered because of a
     null, the order of two ranks, the order of two strings, or an error because of a clash of
     classes.  The case analysis over 25 pairs of types is done here once; what follows about
     symmetry, transitivity and errors is about these four cases.

  4. **The two comparisons agree** — where `valuesEqual` and `compare` both speak about numbers or
     strings they say the same (`valuesEqual_eq_compare`).
-/
import QueryLume.Data.Value
import Mathlib.Data.String.Basic

namespace QueryLume

/-- The verdict of a linear order. -/
def orderOf {α : Type} [LT α] [DecidableLT α] (a b : α) : CompareResult :=
  if a < b then .kLess else if b < a then .kGreater else .kEqual

section OrderOf

variable {α : Type} [LinearOrder α] {a b : α}

theorem orderOf_lt (h : a < b) : orderOf a b = .kLess := if_pos h

theorem orderOf_gt (h : b < a) : orderOf a b = .kGreater := by
  rw [orderOf, if_neg (not_lt_of_gt h), if_pos h]

/-- In a linear order only the same is equal. -/
theorem orderOf_eq_kEqual : orderOf a b = .kEqual ↔ a = b := by
  unfold orderOf
  split
  · rename_i h; simp [ne_of_lt h]
  · split
    · rename_i h; simp [ne_of_gt h]
    · rename_i hab hba
      simp only [true_iff]
      exact le_antisymm (not_lt.mp hba) (not_lt.mp hab)

/-- Exchanging the operands inverts the answer. -/
theorem invert_orderOf : invert (orderOf a b) = orderOf b a := by
  rcases lt_trichotomy a b with h | h | h
  · rw [orderOf_lt h, orderOf_gt h]; rfl
  · subst h; simp [orderOf, invert]
  · rw [orderOf_gt h, orderOf_lt h]; rfl

end OrderOf

/-! ## Numbers

  A number stands for a rank, which is exact for integers and doubles alike.  The range checks, the
  truncation and the comparison of the fraction in the source together decide as the ranks do. -/

open Binary64

/-- Doubles other than NaN are compared by rank. -/
theorem compareDoubles_eq {a b : Binary64} (ha : a.isNaN = false) (hb : b.isNaN = false) :
    compareDoubles a b = .ok (orderOf a.rank b.rank) := by
  simp only [compareDoubles, ha, hb, Bool.or_self, Bool.false_eq_true, if_false, orderOf,
    lt_iff_rank_lt ha hb, lt_iff_rank_lt hb ha]
  split
  · rfl
  · split <;> rfl

theorem rank_kInt64LowerBound : kInt64LowerBound.rank = rankInt (-2 ^ 63) := by
  decide +kernel

theorem rank_kInt64UpperBound : kInt64UpperBound.rank = rankInt (2 ^ 63) := by
  decide +kernel

/-- A finite double lies below an integer when its units do. -/
theorem rank_finite_lt_rankInt {x : FiniteBinary64} {z : Int} :
    (Binary64.finite x).rank < rankInt z ↔ x.units < z * unitsPerOne := by
  simp only [rank, rankInt, WithBot.coe_lt_coe, WithTop.coe_lt_coe]

/-- And above it likewise. -/
theorem rankInt_lt_rank_finite {x : FiniteBinary64} {z : Int} :
    rankInt z < (Binary64.finite x).rank ↔ z * unitsPerOne < x.units := by
  simp only [rank, rankInt, WithBot.coe_lt_coe, WithTop.coe_lt_coe]

/-- The integer part of a positive number does not exceed it. -/
theorem truncate_mul_le {x : FiniteBinary64} (h : 0 < x.truncate) :
    x.truncate * unitsPerOne ≤ x.units := by
  have hunits : 0 < x.units := by
    have := lt_units_of_lt_truncate h
    rwa [zero_mul] at this
  have hrem := Int.mul_tdiv_add_tmod x.units unitsPerOne
  have hnonneg := Int.tmod_nonneg unitsPerOne (le_of_lt hunits)
  rw [FiniteBinary64.truncate, mul_comm]
  linarith

/-- A number between the bounds of `int64` is finite, and its integer part is an `int64`. -/
theorem truncate_bounds {d : Binary64} (hd : d.isNaN = false) (hlow : ¬ d.rank < rankInt (-2 ^ 63))
    (hhigh : d.rank < rankInt (2 ^ 63)) :
    ∃ x, d = .finite x ∧ -2 ^ 63 ≤ x.truncate ∧ x.truncate < 2 ^ 63 := by
  cases d with
  | nan => cases hd
  | infinity negative =>
    cases negative with
    | true => exact absurd (WithBot.bot_lt_coe _) hlow
    | false => exact absurd (WithBot.coe_lt_coe.mp hhigh) (not_lt_of_ge le_top)
  | finite x =>
    rw [rank_finite_lt_rankInt] at hlow hhigh
    refine ⟨x, rfl, ?_, ?_⟩
    · by_contra h
      exact hlow (units_lt_of_truncate_lt (not_le.mp h))
    · by_contra h
      have hge : (2 : Int) ^ 63 ≤ x.truncate := not_lt.mp h
      have hle := truncate_mul_le (lt_of_lt_of_le (by decide) hge)
      have hmul : (2 : Int) ^ 63 * unitsPerOne ≤ x.truncate * unitsPerOne :=
        mul_le_mul_of_nonneg_right hge (Int.natCast_nonneg _)
      exact absurd (lt_of_le_of_lt (hmul.trans hle) hhigh) (lt_irrefl _)

/-- **The mixed comparison.**  Range check, truncation and the look at the fraction together decide
    as the order of the numbers themselves does. -/
theorem compareIntToDouble_eq {i : Int64} {d : Binary64} (hd : d.isNaN = false) :
    compareIntToDouble i d = .ok (orderOf (rankInt i.toInt) d.rank) := by
  have hlow : (-2 : Int) ^ 63 ≤ i.toInt := Int64.le_toInt i
  have hhigh : i.toInt < 2 ^ 63 := Int64.toInt_lt i
  unfold compareIntToDouble
  rw [if_neg (by rw [hd]; decide)]
  by_cases hbelow : d.lt kInt64LowerBound = true
  · rw [if_pos hbelow]
    rw [lt_iff_rank_lt hd rfl, rank_kInt64LowerBound] at hbelow
    have hle : rankInt (-2 ^ 63) ≤ rankInt i.toInt := not_lt.mp (by rw [rankInt_lt]; omega)
    rw [orderOf_gt (lt_of_lt_of_le hbelow hle)]
  rw [if_neg hbelow]
  rw [lt_iff_rank_lt hd rfl, rank_kInt64LowerBound] at hbelow
  by_cases habove : kInt64UpperBound.le d = true
  · rw [if_pos habove]
    rw [le_iff_rank_le rfl hd, rank_kInt64UpperBound] at habove
    rw [orderOf_lt (lt_of_lt_of_le (rankInt_lt.mpr hhigh) habove)]
  rw [if_neg habove]
  rw [le_iff_rank_le rfl hd, rank_kInt64UpperBound] at habove
  obtain ⟨x, rfl, hxlow, hxhigh⟩ := truncate_bounds hd hbelow (not_le.mp habove)
  have hcast : (Int64.ofInt x.truncate).toInt = x.truncate := by
    rw [Int64.toInt_ofInt]
    exact Int.bmod_eq_of_le hxlow hxhigh
  obtain ⟨y, hy, hunits⟩ := units_ofInt_truncate x (by omega)
  simp only [Binary64.truncate, Int64.lt_iff_toInt_lt, hcast, hy, lt, decide_eq_true_eq, hunits]
  rcases lt_trichotomy i.toInt x.truncate with h | h | h
  · rw [if_pos h, orderOf_lt (rankInt_lt_rank_finite.mpr (lt_units_of_lt_truncate h))]
  · -- equal integer parts: the fraction decides
    rw [if_neg (by omega), if_neg (by omega), ← h]
    simp only [orderOf, rankInt_lt_rank_finite, rank_finite_lt_rankInt]
    split
    · rfl
    · split <;> rfl
  · rw [if_neg (by omega), if_pos h,
      orderOf_gt (rank_finite_lt_rankInt.mpr (units_lt_of_truncate_lt h))]

/-! ## Values

  Every pair of values falls into one of few cases, and `compare_cases` says what `compare` answers
  in each.  The proofs about comparators and predicates go through it and do not unfold `compare`.
-/

/-- What a value can be compared with: values of its own kind, when that is a number or a string. -/
inductive ValueKind where
  | null
  | number
  | string
  /-- A bool or NaN: comparable with nothing but null. -/
  | isolated
deriving DecidableEq

namespace Value

/-- The class of a value. -/
def kind : Value → ValueKind
  | null => .null
  | bool _ => .isolated
  | int64 _ => .number
  | double d => if d.isNaN then .isolated else .number
  | string _ => .string

/-- What a number stands for. -/
def numberRank : Value → WithBot (WithTop Int)
  | int64 i => rankInt i.toInt
  | double d => d.rank
  | _ => ⊥

/-- What a string holds; anything else holds nothing to read. -/
def text : Value → String
  | string s => s
  | _ => ""

end Value

/-- How `compare` can end. -/
inductive Compared (a b : Value) : Except Exception CompareResult → Prop where
  | unordered (null : a.kind = .null ∨ b.kind = .null) : Compared a b (.ok .kUnordered)
  | numbers (left : a.kind = .number) (right : b.kind = .number) :
      Compared a b (.ok (orderOf a.numberRank b.numberRank))
  | strings (left : a.kind = .string) (right : b.kind = .string) :
      Compared a b (.ok (orderOf a.text b.text))
  | error (e : Exception) (left : a.kind ≠ .null) (right : b.kind ≠ .null)
      (apart : a.kind = b.kind → a.kind = .isolated) : Compared a b (.error e)

/-- Only the null is of its class. -/
theorem kind_eq_null {value : Value} : value.kind = .null ↔ typeOf value = .kNull := by
  cases value with
  | double d => simp only [Value.kind, typeOf]; split <;> simp
  | null | bool b | int64 i | string s => simp [Value.kind, typeOf]

theorem Value.eq_null_of_kind {value : Value} (h : value.kind = .null) : value = .null := by
  cases value with
  | null => rfl
  | double d => rw [kind] at h; split at h <;> cases h
  | bool b | int64 i | string s => cases h

theorem Value.text_of_number {value : Value} (h : value.kind = .number) : value.text = "" := by
  cases value with
  | string s => cases h
  | null | bool b | int64 i | double d => rfl

theorem Value.numberRank_of_string {value : Value} (h : value.kind = .string) :
    value.numberRank = ⊥ := by
  cases value with
  | double d => rw [kind] at h; split at h <;> cases h
  | null | bool b | string s => rfl
  | int64 i => cases h

/-- A bool compares with nothing. -/
theorem kind_of_kBool {value : Value} (h : typeOf value = .kBool) : value.kind = .isolated := by
  cases value with
  | bool b => rfl
  | null | int64 i | double d | string s => cases h

/-- A value that is neither null nor a bool is a number, NaN included, or a string. -/
theorem numeric_or_string {value : Value} (hnull : value.kind ≠ .null)
    (hbool : typeOf value ≠ .kBool) :
    isNumeric (typeOf value) = true ∧ value.kind ≠ .string ∨ ∃ s, value = .string s := by
  cases value with
  | null => exact absurd rfl hnull
  | bool b => exact absurd rfl hbool
  | int64 i => exact .inl ⟨rfl, fun h => by cases h⟩
  | double d => exact .inl ⟨rfl, by rw [Value.kind]; split <;> decide⟩
  | string s => exact .inr ⟨s, rfl⟩

/-- A double is a number. -/
theorem kind_double {d : Binary64} (hd : d.isNaN = false) : (Value.double d).kind = .number := by
  rw [Value.kind, hd]; rfl

/-- NaN is not. -/
theorem kind_nan {d : Binary64} (hd : d.isNaN = true) : (Value.double d).kind = .isolated := by
  rw [Value.kind, hd]; rfl

/-- Two doubles are two numbers, or one is NaN. -/
theorem compareDoubles_cases (a b : Binary64) :
    Compared (.double a) (.double b) (compareDoubles a b) := by
  cases ha : a.isNaN with
  | true =>
    rw [compareDoubles, ha]
    exact .error _ (by rw [kind_nan ha]; decide)
      (by rw [Ne, kind_eq_null]; intro h; cases h) (fun _ => kind_nan ha)
  | false =>
    cases hb : b.isNaN with
    | true =>
      rw [compareDoubles, ha, hb]
      exact .error _ (by rw [kind_double ha]; decide) (by rw [kind_nan hb]; decide)
        (by rw [kind_double ha, kind_nan hb]; intro h; cases h)
    | false =>
      rw [compareDoubles_eq ha hb]
      exact .numbers (kind_double ha) (kind_double hb)

/-- An integer and a double likewise. -/
theorem compareIntToDouble_cases (i : Int64) (d : Binary64) :
    Compared (.int64 i) (.double d) (compareIntToDouble i d) := by
  cases hd : d.isNaN with
  | true =>
    rw [compareIntToDouble, hd]
    exact .error _ (fun h => by cases h) (by rw [kind_nan hd]; decide)
      (by rw [kind_nan hd]; intro h; cases h)
  | false =>
    rw [compareIntToDouble_eq hd]
    exact .numbers rfl (kind_double hd)

/-- Turning a comparison round turns its outcome round. -/
theorem Compared.invert {a b : Value} {outcome : Except Exception CompareResult}
    (h : Compared a b outcome) : Compared b a (outcome.map invert) := by
  cases h with
  | unordered null => exact .unordered null.symm
  | numbers left right =>
    rw [Except.map, invert_orderOf]
    exact .numbers right left
  | strings left right =>
    rw [Except.map, invert_orderOf]
    exact .strings right left
  | error e left right apart => exact .error e right left fun heq => heq.trans (apart heq.symm)

/-- All four combinations. -/
theorem compareNumeric_cases {a b : Value} (ha : isNumeric (typeOf a) = true)
    (hb : isNumeric (typeOf b) = true) : Compared a b (compareNumeric a b) := by
  cases a with
  | int64 i =>
    cases b with
    | int64 j =>
      have heq : compareNumeric (.int64 i) (.int64 j) =
          .ok (orderOf (rankInt i.toInt) (rankInt j.toInt)) := by
        rw [compareNumeric]
        rcases lt_trichotomy i.toInt j.toInt with h | h | h
        · rw [if_pos (Int64.lt_iff_toInt_lt.mpr h), orderOf_lt (rankInt_lt.mpr h)]
        · rw [if_neg (by rw [Int64.lt_iff_toInt_lt]; omega),
            if_neg (by rw [Int64.lt_iff_toInt_lt]; omega), h, orderOf_eq_kEqual.mpr rfl]
        · rw [if_neg (by rw [Int64.lt_iff_toInt_lt]; omega),
            if_pos (Int64.lt_iff_toInt_lt.mpr h), orderOf_gt (rankInt_lt.mpr h)]
      rw [heq]
      exact .numbers rfl rfl
    | double d => exact compareIntToDouble_cases i d
    | null | bool b | string s => cases hb
  | double d =>
    cases b with
    | int64 j => exact (compareIntToDouble_cases j d).invert
    | double d' => exact compareDoubles_cases d d'
    | null | bool b | string s => cases hb
  | null | bool b | string s => cases ha

/-- **The comparison.**  Null compares as unordered, numbers and strings by the order of what they
    stand for, and everything else throws. -/
theorem compare_cases (a b : Value) : Compared a b (compare a b) := by
  unfold compare
  simp only
  split
  · rename_i hnull
    exact .unordered (by rwa [kind_eq_null, kind_eq_null])
  · rename_i hnull
    obtain ⟨ha, hb⟩ := not_or.mp hnull
    rw [← kind_eq_null] at ha hb
    split
    · rename_i hbool
      refine .error _ ha hb fun heq => ?_
      rcases hbool with h | h
      · exact kind_of_kBool h
      · exact heq.trans (kind_of_kBool h)
    · rename_i hbool
      split
      · rename_i hnumeric
        rw [Bool.and_eq_true] at hnumeric
        exact compareNumeric_cases hnumeric.1 hnumeric.2
      · rename_i hnumeric
        split
        · rename_i s t
          have heq : (if s < t then .ok .kLess else if t < s then .ok .kGreater else .ok .kEqual) =
              (.ok (orderOf s t) : Except Exception CompareResult) := by
            unfold orderOf
            split
            · rfl
            · split <;> rfl
          rw [heq]
          exact .strings rfl rfl
        · rename_i hstrings
          obtain ⟨habool, hbbool⟩ := not_or.mp hbool
          refine .error _ ha hb fun heq => ?_
          rcases numeric_or_string ha habool with ⟨hanum, hakind⟩ | ⟨s, rfl⟩ <;>
            rcases numeric_or_string hb hbbool with ⟨hbnum, hbkind⟩ | ⟨t, rfl⟩
          · exact absurd (by rw [hanum, hbnum]; rfl) hnumeric
          · exact absurd heq hakind
          · exact absurd heq.symm hbkind
          · exact absurd rfl (hstrings s t rfl)

/-! ## What follows from it

  The laws of the two comparisons, as they are used elsewhere: when they throw, what exchanging the
  operands does, and how equality and order are tied. -/

/-- `compare` throws at two values. -/
structure Clash (a b : Value) : Prop where
  left : a.kind ≠ .null
  right : b.kind ≠ .null
  apart : a.kind = b.kind → a.kind = .isolated

/-- **Errors.**  `compare` throws exactly at a clash of classes. -/
theorem compare_error_iff {a b : Value} : (∃ e, compare a b = .error e) ↔ Clash a b := by
  have hcompared := compare_cases a b
  generalize compare a b = outcome at hcompared ⊢
  cases hcompared with
  | unordered null =>
    constructor
    · rintro ⟨e, h⟩
      cases h
    · rintro ⟨left, right, -⟩
      exact absurd null (not_or.mpr ⟨left, right⟩)
  | numbers left right =>
    constructor
    · rintro ⟨e, h⟩
      cases h
    · rintro ⟨-, -, apart⟩
      rw [left, right] at apart
      cases apart rfl
  | strings left right =>
    constructor
    · rintro ⟨e, h⟩
      cases h
    · rintro ⟨-, -, apart⟩
      rw [left, right] at apart
      cases apart rfl
  | error e left right apart => exact ⟨fun _ => ⟨left, right, apart⟩, fun _ => ⟨e, rfl⟩⟩

section Ordered

variable {a b : Value}

/-- With a null there is no order, and no error. -/
theorem compare_null (h : a.kind = .null ∨ b.kind = .null) : compare a b = .ok .kUnordered := by
  rw [kind_eq_null, kind_eq_null] at h
  exact if_pos h

/-- Numbers are compared by rank. -/
theorem compare_number (ha : a.kind = .number) (hb : b.kind = .number) :
    compare a b = .ok (orderOf a.numberRank b.numberRank) := by
  have hcompared := compare_cases a b
  generalize compare a b = outcome at hcompared ⊢
  cases hcompared with
  | numbers => rfl
  | unordered null => rw [ha, hb] at null; rcases null with h | h <;> cases h
  | strings left => rw [ha] at left; cases left
  | error e _ _ apart =>
    have hisolated := apart (ha.trans hb.symm)
    rw [ha] at hisolated
    cases hisolated

/-- Strings are compared as strings. -/
theorem compare_string (ha : a.kind = .string) (hb : b.kind = .string) :
    compare a b = .ok (orderOf a.text b.text) := by
  have hcompared := compare_cases a b
  generalize compare a b = outcome at hcompared ⊢
  cases hcompared with
  | strings => rfl
  | unordered null => rw [ha, hb] at null; rcases null with h | h <;> cases h
  | numbers left => rw [ha] at left; cases left
  | error e _ _ apart =>
    have hisolated := apart (ha.trans hb.symm)
    rw [ha] at hisolated
    cases hisolated

/-- **Equality.**  Null and two bools apart, two values are equal when `compare` says so, and it
    throws where that throws. -/
theorem valuesEqual_eq_compare (ha : a ≠ .null) (hb : b ≠ .null)
    (hbools : ¬ (typeOf a = .kBool ∧ typeOf b = .kBool)) :
    valuesEqual a b = (compare a b).map (· == .kEqual) := by
  have hnull : ¬ (typeOf a = .kNull ∨ typeOf b = .kNull) := by
    rw [← kind_eq_null, ← kind_eq_null]
    rintro (h | h)
    · exact ha (Value.eq_null_of_kind h)
    · exact hb (Value.eq_null_of_kind h)
  have hstrings : ∀ s t : String, (.ok (s == t) : Except Exception Bool) =
      (compare (.string s) (.string t)).map (· == .kEqual) := by
    intro s t
    rw [compare_string rfl rfl]
    refine congrArg Except.ok (Bool.eq_iff_iff.mpr ?_)
    rw [beq_iff_eq, beq_iff_eq, orderOf_eq_kEqual]
    rfl
  by_cases hnumeric : (isNumeric (typeOf a) && isNumeric (typeOf b)) = true
  · have hbool : ¬ (typeOf a = .kBool ∨ typeOf b = .kBool) := by
      rintro (h | h) <;> simp [h, isNumeric] at hnumeric
    unfold valuesEqual compare
    simp only
    rw [if_neg (fun h => hnull (.inl h.1)), if_neg hnull, if_pos hnumeric, if_neg hnull,
      if_neg hbool, if_pos hnumeric]
  · -- no two numbers: two strings, or nothing that can be compared
    cases a with
    | null => exact absurd rfl ha
    | bool x =>
      cases b with
      | null => exact absurd rfl hb
      | bool y => exact absurd ⟨rfl, rfl⟩ hbools
      | int64 j | double d' | string t => rfl
    | int64 i | double d =>
      cases b with
      | null => exact absurd rfl hb
      | int64 j | double d' => exact absurd rfl hnumeric
      | bool y | string t => rfl
    | string s =>
      cases b with
      | null => exact absurd rfl hb
      | bool y | int64 j | double d' => rfl
      | string t => exact hstrings s t

/-- Exchanging the operands turns the verdict round. -/
theorem compare_swap {r : CompareResult} (h : compare a b = .ok r) :
    compare b a = .ok (invert r) := by
  have hcompared := compare_cases a b
  rw [h] at hcompared
  cases hcompared with
  | unordered null => exact compare_null null.symm
  | numbers left right => rw [compare_number right left, invert_orderOf]
  | strings left right => rw [compare_string right left, invert_orderOf]

end Ordered

end QueryLume
