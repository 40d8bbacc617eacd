/-
  Scalar cell values, and the two comparisons on them.

  A cell holds null, a bool, a 64-bit integer, a double or a string (`value.h`).  There are two
  ways to compare cells, two separate case analyses in `value.cpp`: `valuesEqual`, which `$eq` and
  `$ne` use, and the four-valued `compare`, which the ordered operators and the sorts use.  Bools
  are equal or not, but have no order; a null equals a null and is unordered with everything;
  values of different classes throw, and so does NaN.

  Values are compared the way the source does it.  In particular an integer and a double are NOT
  compared by casting the integer: `compareIntToDouble` range-checks the double, truncates it where
  the cast is defined, and decides an equal integer part by the fraction.  The checks are
  translated with their guards, so that the exactness of the result is a theorem
  (`Data/ExactComparison.lean`) and not a property of the model.

  What the comparisons throw is gathered at the end: always a comparison error.
-/
import QueryLume.Common.Error
import QueryLume.Foundation.Binary64

namespace QueryLume

/-- A scalar cell value, the alternatives of the variant `Value` in `value.h`. -/
inductive Value where
  | null
  | bool (b : Bool)
  | int64 (i : Int64)
  | double (d : Binary64)
  | string (s : String)
deriving DecidableEq

/-- The alternatives of a cell, in the order of the variant. -/
inductive ValueType where
  | kNull
  | kBool
  | kInt64
  | kDouble
  | kString
deriving DecidableEq, Repr

/-- What `compare` answers.  The fourth answer is about nulls; every ordered operator takes it
    for false. -/
inductive CompareResult where
  | kLess
  | kEqual
  | kGreater
  /-- An ordered comparison against null. -/
  | kUnordered
deriving DecidableEq, Repr

/-- Is it a type of numbers?  Integers and doubles are compared with each other; no other types
    mix. -/
def isNumeric (type : ValueType) : Bool := type == .kInt64 || type == .kDouble

/-- The alternative a value holds. -/
def typeOf : Value → ValueType
  | .null => .kNull
  | .bool _ => .kBool
  | .int64 _ => .kInt64
  | .double _ => .kDouble
  | .string _ => .kString

/-- Its name in a message. -/
def typeName : ValueType → String
  | .kNull => "null"
  | .kBool => "bool"
  | .kInt64 => "int64"
  | .kDouble => "double"
  | .kString => "string"

/-- The error about NaN, which no comparison with a number gets past. -/
def throwUnsupportedNumber : Except Exception CompareResult :=
  .error (.queryLumeError .kUnsupportedValueType "NaN cannot participate in comparisons")

/-- The error about two values that have no order. -/
def incompatible (lhs rhs : ValueType) : Exception :=
  .queryLumeError .kIncompatibleTypes
    ("cannot compare incompatible types: " ++ typeName lhs ++ " and " ++ typeName rhs)

/-- Two doubles.  NaN is rejected first, so the rest of the comparison is a total one; the two
    zeros are equal. -/
def compareDoubles (lhs rhs : Binary64) : Except Exception CompareResult :=
  if lhs.isNaN || rhs.isNaN then throwUnsupportedNumber
  else if lhs.lt rhs then .ok .kLess
  else if rhs.lt lhs then .ok .kGreater
  else .ok .kEqual

/-- `-2^63`, exactly representable. -/
def kInt64LowerBound : Binary64 := .finite ⟨true, 2 ^ 52, 1085, by decide⟩

/-- `2^63`, one past the largest `int64`. -/
def kInt64UpperBound : Binary64 := .finite ⟨false, 2 ^ 52, 1085, by decide⟩

/-- An integer and a double, without rounding either.  Below the range of the integers and from
    `2^63` on the double decides, infinities included; within it the truncated double is cast,
    which is exact there, and an equal integer part is decided by the fraction. -/
def compareIntToDouble (integer : Int64) (floating : Binary64) :
    Except Exception CompareResult :=
  if floating.isNaN then throwUnsupportedNumber
  else if floating.lt kInt64LowerBound then .ok .kGreater
  else if kInt64UpperBound.le floating then .ok .kLess
  else
    let truncated := Int64.ofInt floating.truncate
    if integer < truncated then .ok .kLess
    else if truncated < integer then .ok .kGreater
    else if (Binary64.ofInt truncated.toInt).lt floating then .ok .kLess
    else if floating.lt (Binary64.ofInt truncated.toInt) then .ok .kGreater
    else .ok .kEqual

/-- The answer with the operands exchanged. -/
def invert : CompareResult → CompareResult
  | .kLess => .kGreater
  | .kGreater => .kLess
  | result => result

/-- The four combinations of integers and doubles.  With a double on the left the operands are
    exchanged and the answer is inverted. -/
def compareNumeric (lhs rhs : Value) : Except Exception CompareResult :=
  match lhs, rhs with
  | .int64 a, .int64 b =>
    if a < b then .ok .kLess else if b < a then .ok .kGreater else .ok .kEqual
  | .double a, .double b => compareDoubles a b
  | .int64 a, .double b => compareIntToDouble a b
  | .double a, .int64 b => (compareIntToDouble b a).map invert
  -- `std::get` on an operand that is no number
  | _, _ => .error .badVariantAccess

/-- Equality, for `$eq` and `$ne`.  Two nulls are equal and a null equals nothing else, numbers
    go by `compareNumeric`, strings and bools are compared as such, and any other pair of types
    is an error, bool against number included. -/
def valuesEqual (lhs rhs : Value) : Except Exception Bool :=
  let lt := typeOf lhs
  let rt := typeOf rhs
  if lt = .kNull ∧ rt = .kNull then .ok true
  else if lt = .kNull ∨ rt = .kNull then .ok false
  else if isNumeric lt && isNumeric rt then (compareNumeric lhs rhs).map (· == .kEqual)
  else
    match lhs, rhs with
    | .string a, .string b => .ok (a == b)
    | .bool a, .bool b => .ok (a == b)
    | _, _ => .error (incompatible lt rt)

/-- Order, for the other operators and the sorts.  A null makes it unordered before anything else
    is looked at; bools have no order and throw; numbers go by `compareNumeric`, and any other
    pair of types is an error.  Strings are compared by code points, which for UTF-8 is the order
    of their bytes. -/
def compare (lhs rhs : Value) : Except Exception CompareResult :=
  let lt := typeOf lhs
  let rt := typeOf rhs
  if lt = .kNull ∨ rt = .kNull then .ok .kUnordered
  else if lt = .kBool ∨ rt = .kBool then .error (incompatible lt rt)
  else if isNumeric lt && isNumeric rt then compareNumeric lhs rhs
  else
    match lhs, rhs with
    | .string a, .string b =>
      if a < b then .ok .kLess else if b < a then .ok .kGreater else .ok .kEqual
    | _, _ => .error (incompatible lt rt)

/-! ## What a comparison throws -/

theorem incompatible_isComparisonError (lhs rhs : ValueType) :
    (incompatible lhs rhs).IsComparisonError := .inl rfl

/-- About NaN. -/
theorem compareDoubles_error {a b : Binary64} {e : Exception}
    (h : compareDoubles a b = .error e) : e.IsComparisonError := by
  unfold compareDoubles at h
  split at h
  · exact Except.error.inj h ▸ .inr rfl
  · split at h
    · cases h
    · split at h <;> cases h

/-- About NaN too; the casts throw nothing. -/
theorem compareIntToDouble_error {i : Int64} {d : Binary64} {e : Exception}
    (h : compareIntToDouble i d = .error e) : e.IsComparisonError := by
  unfold compareIntToDouble at h
  split at h
  · exact Except.error.inj h ▸ .inr rfl
  · split at h
    · cases h
    · split at h
      · cases h
      · simp only at h
        split at h
        · cases h
        · split at h
          · cases h
          · split at h
            · cases h
            · split at h <;> cases h

theorem compareNumeric_error {a b : Value} {e : Exception}
    (ha : isNumeric (typeOf a) = true) (hb : isNumeric (typeOf b) = true)
    (h : compareNumeric a b = .error e) : e.IsComparisonError := by
  unfold compareNumeric at h
  split at h
  · split at h
    · cases h
    · split at h <;> cases h
  · exact compareDoubles_error h
  · exact compareIntToDouble_error h
  · rename_i d i
    cases hcmp : compareIntToDouble i d with
    | error e' =>
      rw [hcmp] at h
      exact Except.error.inj h ▸ compareIntToDouble_error hcmp
    | ok r => rw [hcmp] at h; cases h
  · -- operands that are no numbers have been excluded
    cases a <;> cases b <;> simp_all [isNumeric, typeOf]

/-- `compare` throws comparison errors only. -/
theorem compare_error {a b : Value} {e : Exception} (h : compare a b = .error e) :
    e.IsComparisonError := by
  unfold compare at h
  simp only at h
  split at h
  · cases h
  · split at h
    · exact Except.error.inj h ▸ incompatible_isComparisonError _ _
    · split at h
      · rename_i hnumeric
        rw [Bool.and_eq_true] at hnumeric
        exact compareNumeric_error hnumeric.1 hnumeric.2 h
      · split at h
        · split at h
          · cases h
          · split at h <;> cases h
        · exact Except.error.inj h ▸ incompatible_isComparisonError _ _

/-- And so does `valuesEqual`. -/
theorem valuesEqual_error {a b : Value} {e : Exception} (h : valuesEqual a b = .error e) :
    e.IsComparisonError := by
  unfold valuesEqual at h
  simp only at h
  split at h
  · cases h
  · split at h
    · cases h
    · split at h
      · rename_i hnumeric
        rw [Bool.and_eq_true] at hnumeric
        cases hcmp : compareNumeric a b with
        | error e' =>
          rw [hcmp] at h
          exact Except.error.inj h ▸ compareNumeric_error hnumeric.1 hnumeric.2 hcmp
        | ok r => rw [hcmp] at h; cases h
      · split at h
        · cases h
        · cases h
        · exact Except.error.inj h ▸ incompatible_isComparisonError _ _

end QueryLume
