/-
  Bound expressions: what a filter asks of a row.

  A `$match` is bound to a conjunction of comparisons, each between a column and a literal
  (`expression/`).  A field reference is a column index; its name is kept for display only.
  Evaluation goes through the operators of `comparison_expression.cpp`, which split the work in
  two: equality is asked of `valuesEqual` and order of `compare`, two separate case analyses over
  the types of the two values, and a null makes every ordered operator false without a comparison.

  What can be thrown is the point of the lemmas at the end: a comparison error, or the failure of
  `get<bool>` on a predicate that is no bool.  Bound predicates are bools, so for them the second
  never happens (`Query/Safety.lean`).
-/
import QueryLume.Data.Table

namespace QueryLume

/-- The operators of a `$match`, in the order of the enumeration. -/
inductive ComparisonOperator where
  | kEq
  | kNe
  | kLt
  | kLte
  | kGt
  | kGte
deriving DecidableEq, Repr

namespace ComparisonOperator

/-- The token of an operator, for display. -/
def toString : ComparisonOperator → String
  | kEq => "$eq"
  | kNe => "$ne"
  | kLt => "$lt"
  | kLte => "$lte"
  | kGt => "$gt"
  | kGte => "$gte"

end ComparisonOperator

/-- The operator a token stands for, if it is one of the six.  Tokens are case sensitive and
    there are no others. -/
def parseComparisonOperator (token : String) : Option ComparisonOperator :=
  if token = "$eq" then some .kEq
  else if token = "$ne" then some .kNe
  else if token = "$lt" then some .kLt
  else if token = "$lte" then some .kLte
  else if token = "$gt" then some .kGt
  else if token = "$gte" then some .kGte
  else none

/-- The four kinds of expressions. A conjunction holds its operands in the order of the parsed
    predicates. The binder makes comparisons of a field with a literal only, but evaluation is
    defined for any operands, as in the source. -/
inductive Expression where
  | boundField (columnIndex : Nat) (fieldName : String)
  | literal (value : Value)
  | comparison (lhs : Expression) (op : ComparisonOperator) (rhs : Expression)
  | conjunction (operands : List Expression)

/-- The switch of `ComparisonExpression::evaluate` on two operand values.  Equality and its
    negation ask `valuesEqual`, the rest ask `compare` and take `kUnordered` for false. -/
def evaluateComparison (op : ComparisonOperator) (lhs rhs : Value) : Except Exception Value :=
  match op with
  | .kEq => (valuesEqual lhs rhs).map fun equal => .bool equal
  | .kNe => (valuesEqual lhs rhs).map fun equal => .bool (!equal)
  | .kLt => (compare lhs rhs).map fun r => .bool (r == .kLess)
  | .kLte => (compare lhs rhs).map fun r => .bool (r == .kLess || r == .kEqual)
  | .kGt => (compare lhs rhs).map fun r => .bool (r == .kGreater)
  | .kGte => (compare lhs rhs).map fun r => .bool (r == .kGreater || r == .kEqual)

/-- `std::get<bool>`, which throws on any other alternative. -/
def Value.getBool : Value → Except Exception Bool
  | .bool b => .ok b
  | _ => .error .badVariantAccess

namespace Expression

mutual

/-- The value of an expression on a row, or what evaluating it throws.  The left operand of a
    comparison is evaluated first. -/
def evaluate : Expression → Row → Except Exception Value
  | boundField columnIndex _, row => row.cellAt columnIndex
  | literal value, _ => .ok value
  | comparison lhs op rhs, row =>
    match lhs.evaluate row with
    | .error e => .error e
    | .ok lhsValue =>
      match rhs.evaluate row with
      | .error e => .error e
      | .ok rhsValue => evaluateComparison op lhsValue rhsValue
  | conjunction operands, row => evaluateAll operands row

/-- The operand loop of a conjunction.  It stops at the first operand that is false, so a later
    operand that would throw is not evaluated. -/
def evaluateAll : List Expression → Row → Except Exception Value
  | [], _ => .ok (.bool true)
  | operand :: operands, row =>
    match operand.evaluate row with
    | .error e => .error e
    | .ok result =>
      match result.getBool with
      | .error e => .error e
      | .ok true => evaluateAll operands row
      | .ok false => .ok (.bool false)

end

/-- What `FilterStage` asks of its predicate: the expression's value, which has to be a bool. -/
def test (predicate : Expression) (row : Row) : Except Exception Bool :=
  match predicate.evaluate row with
  | .error e => .error e
  | .ok result => result.getBool

/-! ## What an evaluation throws -/

/-- An operator throws what `compare` or `valuesEqual` throws. -/
theorem evaluateComparison_error {op : ComparisonOperator} {lhs rhs : Value} {e : Exception}
    (h : evaluateComparison op lhs rhs = .error e) : e.IsComparisonError := by
  have hmap : ∀ {α : Type} {x : Except Exception α} {f : α → Value},
      (∀ e', x = .error e' → e'.IsComparisonError) → x.map f = .error e → e.IsComparisonError := by
    intro α x f hx hmap
    cases x with
    | error e' => exact Except.error.inj hmap ▸ hx e' rfl
    | ok a => cases hmap
  cases op with
  | kEq => exact hmap (fun _ h => valuesEqual_error h) h
  | kNe => exact hmap (fun _ h => valuesEqual_error h) h
  | kLt => exact hmap (fun _ h => compare_error h) h
  | kLte => exact hmap (fun _ h => compare_error h) h
  | kGt => exact hmap (fun _ h => compare_error h) h
  | kGte => exact hmap (fun _ h => compare_error h) h

/-- `get<bool>` on something else. -/
theorem Value.getBool_error {value : Value} {e : Exception} (h : value.getBool = .error e) :
    e = .badVariantAccess := by
  cases value with
  | bool b => cases h
  | null | int64 i | double d | string s => exact (Except.error.inj h).symm

mutual

/-- No evaluation can be mistaken for a failed lifecycle check. -/
theorem evaluate_notLifecycle : ∀ (expression : Expression) (row : Row) (e : Exception),
    expression.evaluate row = .error e → e.NotLifecycle
  | boundField columnIndex _, row, e, h => by
    rw [evaluate, Row.cellAt] at h
    split at h
    · cases h
    · exact Except.error.inj h ▸ by decide
  | literal _, _, _, h => by rw [evaluate] at h; cases h
  | comparison lhs op rhs, row, e, h => by
    rw [evaluate] at h
    cases hl : lhs.evaluate row with
    | error e' =>
      rw [hl] at h
      exact Except.error.inj h ▸ evaluate_notLifecycle lhs row e' hl
    | ok lhsValue =>
      rw [hl] at h
      cases hr : rhs.evaluate row with
      | error e' =>
        rw [hr] at h
        exact Except.error.inj h ▸ evaluate_notLifecycle rhs row e' hr
      | ok rhsValue =>
        rw [hr] at h
        exact (evaluateComparison_error h).notLifecycle
  | conjunction operands, row, e, h => evaluateAll_notLifecycle operands row e (by
    rwa [evaluate] at h)

theorem evaluateAll_notLifecycle : ∀ (operands : List Expression) (row : Row) (e : Exception),
    evaluateAll operands row = .error e → e.NotLifecycle
  | [], _, _, h => by rw [evaluateAll] at h; cases h
  | operand :: operands, row, e, h => by
    rw [evaluateAll] at h
    cases ho : operand.evaluate row with
    | error e' =>
      rw [ho] at h
      exact Except.error.inj h ▸ evaluate_notLifecycle operand row e' ho
    | ok result =>
      rw [ho] at h
      cases hb : result.getBool with
      | error e' =>
        simp only [hb] at h
        exact Except.error.inj h ▸ Value.getBool_error hb ▸ by decide
      | ok holds =>
        cases holds with
        | false => simp only [hb] at h; cases h
        | true =>
          simp only [hb] at h
          exact evaluateAll_notLifecycle operands row e h

end

/-- A filter test never throws the error of a lifecycle check. -/
theorem test_notLifecycle {predicate : Expression} {row : Row} {e : Exception}
    (h : predicate.test row = .error e) : e.NotLifecycle := by
  unfold test at h
  cases heval : predicate.evaluate row with
  | error e' =>
    rw [heval] at h
    exact Except.error.inj h ▸ evaluate_notLifecycle predicate row e' heval
  | ok result =>
    rw [heval] at h
    exact Value.getBool_error h ▸ by decide

end Expression

end QueryLume
