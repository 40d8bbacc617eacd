/-
  How EXPLAIN shows an expression.

  A predicate is shown as text (`describe()` of the expression classes): field names without
  quotes, strings in quotes, integers in decimal, the comparisons of a conjunction joined by ` AND
  `.

  A double is written by a default output stream: six significant digits, correctly rounded, in
  fixed or scientific notation by the size of the exponent, trailing zeros removed.  The digits
  come from the exact value of the double, a fraction `p / q` of naturals: `decimalExponent` finds
  the place of the first digit, `significantDigits` rounds to six with ties to even, and a carry
  into a seventh digit moves the exponent.  So two different doubles can be shown alike, which is
  what `Explain/Legible.lean` has to exclude when it reads the text back.
-/
import QueryLume.Expression

namespace Binary64

/-- The `e` with `10^e ≤ p / q < 10^(e + 1)`, for the magnitudes a binary64 number can have.  The
    smallest of them is about `5 · 10^-324`, so the search below one ends before 400. -/
def decimalExponent (p q : Nat) : Int :=
  if q ≤ p then ((Nat.toDigits 10 (p / q)).length - 1 : Nat)
  else -(((List.range 400).find? fun k => q ≤ p * 10 ^ k).getD 0 : Nat)

/-- Six significant digits of `p / q`, rounded to nearest with ties to even, and the exponent of
    the first.  Rounding up `999999.5` carries into a seventh digit; then the exponent is one
    larger. -/
def significantDigits (p q : Nat) : List Char × Int :=
  let e := decimalExponent p q
  let digits :=
    if 5 ≤ e then roundedQuotient p (q * 10 ^ (e - 5).toNat)
    else roundedQuotient (p * 10 ^ (5 - e).toNat) q
  if digits = 10 ^ 6 then (Nat.toDigits 10 (10 ^ 5), e + 1) else (Nat.toDigits 10 digits, e)

/-- The digits after the point: trailing zeros go, and the point with the last of them. -/
def fraction (digits : List Char) : String :=
  match (digits.reverse.dropWhile (· == '0')).reverse with
  | [] => ""
  | kept => "." ++ String.ofList kept

/-- The text of the positive number `p / q`: fixed notation for the exponents from -4 to 5, and
    scientific notation, with at least two digits of exponent, for the others. -/
def formatPositive (p q : Nat) : String :=
  let (digits, e) := significantDigits p q
  if -4 ≤ e ∧ e < 6 then
    if 0 ≤ e then
      String.ofList (digits.take (e.toNat + 1)) ++ fraction (digits.drop (e.toNat + 1))
    else "0" ++ fraction (List.replicate (-e - 1).toNat '0' ++ digits)
  else
    String.ofList (digits.take 1) ++ fraction (digits.drop 1) ++
      (if e < 0 then "e-" else "e+") ++ (if e.natAbs < 10 then "0" else "") ++ toString e.natAbs

/-- `oss << d` with the default precision and flags.  The sign of a zero is written. -/
def format : Binary64 → String
  | nan => "nan"
  | infinity negative => if negative then "-inf" else "inf"
  | finite x =>
    (if x.negative then "-" else "") ++
      if x.magnitude = 0 then "0" else formatPositive x.magnitude unitsPerOne

end Binary64

namespace QueryLume

/-- `LiteralExpression::describe`.  A string is put in quotes as it is; quotes inside it are not
    escaped. -/
def Value.describe : Value → String
  | .null => "null"
  | .bool b => if b then "true" else "false"
  | .int64 i => toString i.toInt
  | .double d => d.format
  | .string s => "\"" ++ s ++ "\""

namespace Expression

mutual

/-- `describe()` of the expression classes: a field by its name, a comparison as operand, token,
    operand, and a conjunction as its operands. -/
def describe : Expression → String
  | boundField _ fieldName => fieldName
  | literal value => value.describe
  | comparison lhs op rhs => lhs.describe ++ " " ++ op.toString ++ " " ++ rhs.describe
  | conjunction operands =>
    let result := describeOperands operands
    if result = "" then "true" else result

/-- The operands, with the separator between any two. -/
def describeOperands : List Expression → String
  | [] => ""
  | [operand] => operand.describe
  | operand :: operands => operand.describe ++ " AND " ++ describeOperands operands

end

end Expression

end QueryLume
