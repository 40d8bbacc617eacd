/-
  The six comparison operators agree with each other.

  `$eq` and `$ne` go through `valuesEqual`, the ordered operators through `compare`: two case
  analyses over the types of the operands.  `Pairing` puts the two next to each other — for a pair
  of values there are only four ways they can go — and the laws follow case by case (`Consistent`).

  On the rows of a table they say that `$lt`, `$eq` and `$gt` split the rows that have a value in
  the field (`match_split`).  What ties the four filters together is one verdict for each row,
  which `compare` gives and the operators only read (`fieldVerdict`).
-/
import QueryLume.Query.Runs

namespace QueryLume

/-! ## Pairs of values

  The two comparisons of the source are separate case analyses.  On any pair of values they go
  together in one of four ways, and everything below is a case analysis over these. -/

/-- How the two comparisons go on a pair of values. -/
inductive Pairing (v w : Value) : Prop where
  | null (null : v = .null ∨ w = .null) (ordered : compare v w = .ok .kUnordered)
      (equal : valuesEqual v w = .ok (decide (v = .null ∧ w = .null)))
  | bools (x y : Bool) (left : v = .bool x) (right : w = .bool y) (e : Exception)
      (ordered : compare v w = .error e) (equal : valuesEqual v w = .ok (x == y))
  | compared (r : CompareResult) (left : v ≠ .null) (right : w ≠ .null) (decides : r ≠ .kUnordered)
      (ordered : compare v w = .ok r) (equal : valuesEqual v w = .ok (r == .kEqual))
  | clash (e : Exception) (left : v ≠ .null) (right : w ≠ .null)
      (bools : ¬ (typeOf v = .kBool ∧ typeOf w = .kBool)) (ordered : compare v w = .error e)
      (equal : valuesEqual v w = .error e)

theorem orderOf_ne_kUnordered {α : Type} [LT α] [DecidableLT α] (a b : α) :
    orderOf a b ≠ .kUnordered := by
  unfold orderOf
  split
  · decide
  · split <;> decide

/-- **There is no fifth way.** -/
theorem pairing (v w : Value) : Pairing v w := by
  by_cases hnull : v = .null ∨ w = .null
  · refine .null hnull (compare_null ?_) ?_
    · rcases hnull with rfl | rfl
      · exact .inl rfl
      · exact .inr rfl
    · rcases hnull with rfl | rfl
      · cases w <;> rfl
      · cases v <;> rfl
  · obtain ⟨hv, hw⟩ := not_or.mp hnull
    by_cases hbools : typeOf v = .kBool ∧ typeOf w = .kBool
    · cases v with
      | bool x =>
        cases w with
        | bool y => exact .bools x y rfl rfl _ rfl rfl
        | null | int64 _ | double _ | string _ => cases hbools.2
      | null | int64 _ | double _ | string _ => cases hbools.1
    · have hequal := valuesEqual_eq_compare hv hw hbools
      have hcompared := compare_cases v w
      cases hcmp : compare v w with
      | error e =>
        rw [hcmp] at hequal
        exact .clash e hv hw hbools hcmp hequal
      | ok r =>
        rw [hcmp] at hequal hcompared
        refine .compared r hv hw ?_ hcmp hequal
        cases hcompared with
        | unordered null =>
          rcases null with h | h
          · exact absurd (Value.eq_null_of_kind h) hv
          · exact absurd (Value.eq_null_of_kind h) hw
        | numbers | strings => exact orderOf_ne_kUnordered _ _

/-! ## The laws

  The six operators against one another: negation, disjunction, exchange of the operands, and that
  they throw at the same pairs, two bools apart. -/

/-- The operators that go through `compare`. -/
def ComparisonOperator.isOrdered : ComparisonOperator → Bool
  | .kEq | .kNe => false
  | .kLt | .kLte | .kGt | .kGte => true

/-- The operator that says the same with the operands exchanged. -/
def ComparisonOperator.exchanged : ComparisonOperator → ComparisonOperator
  | .kEq => .kEq
  | .kNe => .kNe
  | .kLt => .kGt
  | .kLte => .kGte
  | .kGt => .kLt
  | .kGte => .kLte

/-- It ends with an exception, whichever. -/
def Throws {α : Type} (outcome : Except Exception α) : Prop := ∃ e, outcome = .error e

/-- How the operators are consistent on a pair of values. -/
structure Consistent (v w : Value) : Prop where
  ne_throws : Throws (evaluateComparison .kNe v w) ↔ Throws (evaluateComparison .kEq v w)
  ne_negates : ∀ equal, evaluateComparison .kEq v w = .ok (.bool equal) →
    evaluateComparison .kNe v w = .ok (.bool !equal)
  ordered_throws : ∀ op, op.isOrdered = true →
    (Throws (evaluateComparison op v w) ↔
      Throws (evaluateComparison .kEq v w) ∨ typeOf v = .kBool ∧ typeOf w = .kBool)
  ordered_null : v = .null ∨ w = .null → ∀ op, op.isOrdered = true →
    evaluateComparison op v w = .ok (.bool false)
  /-- Exactly one of `$lt`, `$eq`, `$gt`, and what that makes of `$lte` and `$gte`. -/
  trichotomy : v ≠ .null → w ≠ .null → (∀ op, ¬ Throws (evaluateComparison op v w)) →
    ∃ lt eq gt : Bool,
      evaluateComparison .kLt v w = .ok (.bool lt) ∧
      evaluateComparison .kEq v w = .ok (.bool eq) ∧
      evaluateComparison .kGt v w = .ok (.bool gt) ∧
      [lt, eq, gt].count true = 1 ∧
      evaluateComparison .kLte v w = .ok (.bool (lt || eq)) ∧
      evaluateComparison .kGte v w = .ok (.bool (gt || eq))
  exchange_throws : ∀ op,
    Throws (evaluateComparison op w v) ↔ Throws (evaluateComparison op v w)
  exchange : ∀ op result, evaluateComparison op v w = .ok result →
    evaluateComparison op.exchanged w v = .ok result

/-- A function after a computation does not throw. -/
theorem throws_map {α β : Type} (f : α → β) (outcome : Except Exception α) :
    Throws (outcome.map f) ↔ Throws outcome := by
  cases outcome with
  | error e => exact ⟨fun _ => ⟨e, rfl⟩, fun _ => ⟨e, rfl⟩⟩
  | ok a =>
    constructor
    · rintro ⟨e, h⟩
      cases h
    · rintro ⟨e, h⟩
      cases h

section Laws

variable {v w : Value}

/-- The ordered operators throw where `compare` does. -/
theorem evaluateComparison_ordered_throws {op : ComparisonOperator} (hop : op.isOrdered = true) :
    Throws (evaluateComparison op v w) ↔ Throws (compare v w) := by
  cases op with
  | kEq | kNe => cases hop
  | kLt | kLte | kGt | kGte => exact throws_map _ _

/-- The others throw where `valuesEqual` does. -/
theorem evaluateComparison_equality_throws {op : ComparisonOperator} (hop : op.isOrdered = false) :
    Throws (evaluateComparison op v w) ↔ Throws (valuesEqual v w) := by
  cases op with
  | kEq | kNe => exact throws_map _ _
  | kLt | kLte | kGt | kGte => cases hop

/-- The ordered comparison throws where equality does, and at two bools. -/
theorem compare_throws_iff :
    Throws (compare v w) ↔ Throws (valuesEqual v w) ∨ typeOf v = .kBool ∧ typeOf w = .kBool := by
  rcases pairing v w with ⟨null, ordered, equal⟩ | ⟨x, y, rfl, rfl, e, ordered, equal⟩ |
    ⟨r, left, right, decides, ordered, equal⟩ | ⟨e, left, right, bools, ordered, equal⟩
  · rw [ordered, equal]
    constructor
    · rintro ⟨e, h⟩
      cases h
    · rintro (⟨e, h⟩ | ⟨hv, hw⟩)
      · cases h
      · rcases null with rfl | rfl
        · cases hv
        · cases hw
  · exact ⟨fun _ => .inr ⟨rfl, rfl⟩, fun _ => ⟨e, ordered⟩⟩
  · have hbools : ¬ (typeOf v = .kBool ∧ typeOf w = .kBool) := by
      rintro ⟨hv, hw⟩
      have hclash : Clash v w := ⟨fun h => left (Value.eq_null_of_kind h),
        fun h => right (Value.eq_null_of_kind h), fun _ => kind_of_kBool hv⟩
      obtain ⟨e, h⟩ := compare_error_iff.mpr hclash
      rw [ordered] at h
      cases h
    rw [ordered, equal]
    constructor
    · rintro ⟨e, h⟩
      cases h
    · rintro (⟨e, h⟩ | h)
      · cases h
      · exact absurd h hbools
  · exact ⟨fun _ => .inl ⟨e, equal⟩, fun _ => ⟨e, ordered⟩⟩

theorem valuesEqual_swap {equal : Bool} (h : valuesEqual v w = .ok equal) :
    valuesEqual w v = .ok equal := by
  rcases pairing v w with ⟨null, -, hequal⟩ | ⟨x, y, rfl, rfl, e, -, hequal⟩ |
    ⟨r, left, right, -, ordered, hequal⟩ | ⟨e, -, -, -, -, hequal⟩
  · rw [hequal] at h
    rw [← Except.ok.inj h]
    rcases null with rfl | rfl
    · cases w <;> rfl
    · cases v <;> rfl
  · rw [hequal] at h
    rw [← Except.ok.inj h, Bool.beq_comm]
    rfl
  · have hbools : ¬ (typeOf w = .kBool ∧ typeOf v = .kBool) := by
      intro hb
      obtain ⟨e, he⟩ := compare_throws_iff.mpr (.inr hb.symm)
      rw [ordered] at he
      cases he
    rw [hequal] at h
    rw [valuesEqual_eq_compare right left hbools, compare_swap ordered, ← Except.ok.inj h]
    cases r <;> rfl
  · rw [hequal] at h
    cases h

/-- A comparison that can be exchanged when it returns can be exchanged when it throws. -/
theorem throws_swap {α : Type} {f : Value → Value → Except Exception α}
    (hswap : ∀ {v w : Value} {a : α}, f v w = .ok a → ∃ b, f w v = .ok b) :
    Throws (f w v) ↔ Throws (f v w) := by
  have hone : ∀ {v w : Value}, Throws (f w v) → Throws (f v w) := by
    rintro v w ⟨e, he⟩
    cases hother : f v w with
    | error e' => exact ⟨e', rfl⟩
    | ok a =>
      obtain ⟨b, hb⟩ := hswap hother
      rw [he] at hb
      cases hb
  exact ⟨hone, hone⟩

/-- What an operator returns, the exchanged one returns of the exchanged operands. -/
theorem exchange_ok {op : ComparisonOperator} {result : Value}
    (h : evaluateComparison op v w = .ok result) :
    evaluateComparison op.exchanged w v = .ok result := by
  have hmap : ∀ {α : Type} {outcome : Except Exception α} {f : α → Value},
      outcome.map f = .ok result → ∃ a, outcome = .ok a ∧ f a = result := by
    intro α outcome f hmap
    cases outcome with
    | error e => cases hmap
    | ok a => exact ⟨a, rfl, Except.ok.inj hmap⟩
  cases op with
  | kEq | kNe =>
    obtain ⟨equal, hequal, rfl⟩ := hmap h
    rw [ComparisonOperator.exchanged, evaluateComparison, valuesEqual_swap hequal]
    rfl
  | kLt | kLte | kGt | kGte =>
    obtain ⟨r, hr, rfl⟩ := hmap h
    rw [ComparisonOperator.exchanged, evaluateComparison, compare_swap hr]
    cases r <;> rfl

/-- **The operators are consistent** on every pair of values. -/
theorem consistent (v w : Value) : Consistent v w where
  ne_throws :=
    (evaluateComparison_equality_throws rfl).trans (evaluateComparison_equality_throws rfl).symm
  ne_negates equal h := by
    show (valuesEqual v w).map (fun equal => Value.bool (!equal)) = _
    replace h : (valuesEqual v w).map (fun equal => Value.bool equal) = .ok (.bool equal) := h
    cases hequal : valuesEqual v w with
    | error e => rw [hequal] at h; cases h
    | ok equal' =>
      rw [hequal] at h
      cases h
      rfl
  ordered_throws op hop := by
    rw [evaluateComparison_ordered_throws hop, compare_throws_iff,
      evaluateComparison_equality_throws rfl]
  ordered_null null op hop := by
    have hkind : v.kind = .null ∨ w.kind = .null := by
      rcases null with rfl | rfl
      · exact .inl rfl
      · exact .inr rfl
    have hordered := compare_null hkind
    cases op with
    | kEq | kNe => cases hop
    | kLt | kLte | kGt | kGte => rw [evaluateComparison, hordered]; rfl
  trichotomy hv hw hnone := by
    rcases pairing v w with ⟨null, -, -⟩ | ⟨x, y, -, -, e, ordered, -⟩ |
      ⟨r, -, -, decides, ordered, equal⟩ | ⟨e, -, -, -, -, equal⟩
    · rcases null with rfl | rfl
      · exact absurd rfl hv
      · exact absurd rfl hw
    · exact absurd ((evaluateComparison_ordered_throws rfl).mpr ⟨e, ordered⟩) (hnone .kLt)
    · refine ⟨r == .kLess, r == .kEqual, r == .kGreater, ?_, ?_, ?_, ?_, ?_, ?_⟩
      · rw [evaluateComparison, ordered]; rfl
      · rw [evaluateComparison, equal]; rfl
      · rw [evaluateComparison, ordered]; rfl
      · cases r with
        | kLess | kEqual | kGreater => rfl
        | kUnordered => exact absurd rfl decides
      · rw [evaluateComparison, ordered]; rfl
      · rw [evaluateComparison, ordered]; rfl
    · exact absurd ((evaluateComparison_equality_throws rfl).mpr ⟨e, equal⟩) (hnone .kEq)
  exchange_throws op := by
    cases hop : op.isOrdered with
    | true =>
      rw [evaluateComparison_ordered_throws hop, evaluateComparison_ordered_throws hop]
      exact throws_swap fun h => ⟨_, compare_swap h⟩
    | false =>
      rw [evaluateComparison_equality_throws hop, evaluateComparison_equality_throws hop]
      exact throws_swap fun h => ⟨_, valuesEqual_swap h⟩
  exchange _ _ := exchange_ok

end Laws

/-! ## On the rows of a table

  One field and one non-null literal: each row has one verdict, less, equal, greater or none, and
  each operator accepts the rows of certain verdicts.  So the six filters cut one table in one way.
-/

/-- A pipeline of one `$match` with one predicate. -/
def matchPipeline (field : String) (op : ComparisonOperator) (literal : Value) : ParsedPipeline where
  stages := [.kMatch { predicates := [{ field := ⟨field⟩, opToken := op.toString, literal }] }]

/-- The rows of a table it keeps. -/
def matchRows [StdLibrary] (clock : Clock) (table : Table) (field : String)
    (op : ComparisonOperator) (literal : Value) : Except Exception (List Row) :=
  match bindPipeline table (matchPipeline field op literal) with
  | .error e => .error e
  | .ok plan => runPlan clock (Optimizer.optimize plan).1

/-- The token of an operator is read as that operator. -/
theorem parseComparisonOperator_toString (op : ComparisonOperator) :
    parseComparisonOperator op.toString = some op := by
  cases op <;> decide

/-- What one row is asked. -/
def testField (index : Nat) (op : ComparisonOperator) (literal : Value) (row : Row) :
    Except Exception Bool :=
  (row.cellAt index).bind fun value => (evaluateComparison op value literal).bind Value.getBool

/-- Testing a bound predicate is reading the column and comparing. -/
theorem test_bound (index : Nat) (field : String) (op : ComparisonOperator) (literal : Value) :
    (Expression.comparison (.boundField index field) op (.literal literal)).test =
      testField index op literal := by
  funext row
  rw [Expression.test, Expression.evaluate, Expression.evaluate, Expression.evaluate, testField]
  cases row.cellAt index with
  | error e => rfl
  | ok value =>
    simp only [Except.bind]
    cases evaluateComparison op value literal <;> rfl

section Rows

variable {literal : Value}

/-- What `compare` says about the field of a row and the literal. -/
def fieldVerdict (index : Nat) (literal : Value) (row : Row) : CompareResult :=
  ((row.cellAt index).bind fun value => compare value literal).toOption.getD .kUnordered

/-- A test that returned has compared the cell of the row with the literal. -/
theorem testField_ok {index : Nat} {op : ComparisonOperator} {row : Row} {accepted : Bool}
    (h : testField index op literal row = .ok accepted) :
    ∃ value, row.cellAt index = .ok value ∧
      evaluateComparison op value literal = .ok (.bool accepted) := by
  rw [testField] at h
  cases hcell : row.cellAt index with
  | error e => rw [hcell] at h; cases h
  | ok value =>
    rw [hcell] at h
    simp only [Except.bind] at h
    cases heval : evaluateComparison op value literal with
    | error e => rw [heval] at h; cases h
    | ok result =>
      rw [heval] at h
      cases result with
      | bool b => exact ⟨value, rfl, by rw [heval, Except.ok.inj h]⟩
      | null | int64 i | double d | string t => cases h

/-- A row an ordered operator has been asked about has a verdict. -/
theorem fieldVerdict_of_ordered {index : Nat} {op : ComparisonOperator} {row : Row} {accepted : Bool}
    (hop : op.isOrdered = true) (h : testField index op literal row = .ok accepted) :
    ∃ value, row.cellAt index = .ok value ∧
      compare value literal = .ok (fieldVerdict index literal row) := by
  obtain ⟨value, hcell, heval⟩ := testField_ok h
  have hnone : ¬ Throws (compare value literal) := by
    rw [← evaluateComparison_ordered_throws hop, heval]
    rintro ⟨e, he⟩
    cases he
  cases hcmp : compare value literal with
  | error e => exact absurd ⟨e, hcmp⟩ hnone
  | ok r =>
    refine ⟨value, hcell, ?_⟩
    rw [fieldVerdict, hcell]
    simp only [Except.bind, hcmp]
    rfl

/-- Against a value, null is the one thing that compares with no result. -/
theorem compare_kUnordered (hliteral : literal ≠ .null) {value : Value} {r : CompareResult}
    (h : compare value literal = .ok r) : r = .kUnordered ↔ value = .null := by
  rcases pairing value literal with ⟨null, ordered, -⟩ | ⟨x, y, -, -, e, ordered, -⟩ |
    ⟨r', left, -, decides, ordered, -⟩ | ⟨e, -, -, -, ordered, -⟩
  · rw [ordered] at h
    rw [← Except.ok.inj h]
    exact ⟨fun _ => null.resolve_right hliteral, fun _ => rfl⟩
  · rw [ordered] at h
    cases h
  · rw [ordered] at h
    rw [← Except.ok.inj h]
    exact ⟨fun h => absurd h decides, fun h => absurd h left⟩
  · rw [ordered] at h
    cases h

theorem valuesEqual_of_compare (hliteral : literal ≠ .null) {value : Value} {r : CompareResult}
    (h : compare value literal = .ok r) : valuesEqual value literal = .ok (r == .kEqual) := by
  rcases pairing value literal with ⟨null, ordered, equal⟩ | ⟨x, y, -, -, e, ordered, -⟩ |
    ⟨r', -, -, -, ordered, equal⟩ | ⟨e, -, -, -, ordered, -⟩
  · rw [ordered] at h
    rw [equal, ← Except.ok.inj h]
    simp [hliteral]
  · rw [ordered] at h
    cases h
  · rw [ordered] at h
    rw [equal, ← Except.ok.inj h]
  · rw [ordered] at h
    cases h

/-- Which verdicts an operator accepts. -/
def ComparisonOperator.accepts : ComparisonOperator → CompareResult → Bool
  | .kEq, r => r == .kEqual
  | .kNe, r => r != .kEqual
  | .kLt, r => r == .kLess
  | .kLte, r => r == .kLess || r == .kEqual
  | .kGt, r => r == .kGreater
  | .kGte, r => r == .kGreater || r == .kEqual

theorem evaluateComparison_accepts (hliteral : literal ≠ .null) {value : Value} {r : CompareResult}
    (h : compare value literal = .ok r) (op : ComparisonOperator) :
    evaluateComparison op value literal = .ok (.bool (op.accepts r)) := by
  have hequal := valuesEqual_of_compare hliteral h
  cases op with
  | kEq | kNe => rw [evaluateComparison, hequal]; rfl
  | kLt | kLte | kGt | kGte => rw [evaluateComparison, h]; rfl

/-- A row with a verdict, seen by all the operators. -/
theorem testField_accepts (hliteral : literal ≠ .null) {index : Nat} {row : Row} {value : Value}
    (hcell : row.cellAt index = .ok value)
    (hverdict : compare value literal = .ok (fieldVerdict index literal row))
    (op : ComparisonOperator) :
    testField index op literal row = .ok (op.accepts (fieldVerdict index literal row)) := by
  rw [testField, hcell]
  simp only [Except.bind, evaluateComparison_accepts hliteral hverdict]
  rfl

end Rows

section Matches

variable [StdLibrary] {clock : Clock} {table : Table} {field : String} {literal : Value}

/-- A filter that returned has tested every row of the table. -/
theorem matchRows_ok {op : ComparisonOperator} {rows : List Row}
    (h : matchRows clock table field op literal = .ok rows) :
    ∃ index, table.schema.indexOf field = some index ∧
      Feed.keep (testField index op literal) table.rows = .ok rows := by
  unfold matchRows at h
  cases hindex : table.schema.indexOf field with
  | none =>
    simp only [matchPipeline, bindPipeline, bindStages, bindStage, bindMatch, bindComparison,
      resolveField, hindex] at h
    cases h
  | some index =>
    simp only [matchPipeline, bindPipeline, bindStages, bindStage, bindMatch, bindComparison,
      resolveField, hindex, parseComparisonOperator_toString, Except.map] at h
    obtain ⟨opened, hdenote, hfinish, rfl⟩ := runPlan_ok h
    rw [Optimizer.optimize_fst] at hdenote
    obtain rfl := Except.ok.inj hdenote
    refine ⟨index, rfl, ?_⟩
    have hkeep := Feed.keep_of_filter hfinish
    rw [Feed.rows_scan] at hkeep
    rw [← test_bound index field]
    exact hkeep

/-- Each row has one verdict, none exactly where its field is null.  `lt`, `eq` and `gt` are the
    rows of theirs, in the order of the table; `ne` are the rows of all others, nulls included. -/
structure SplitByVerdict (rows : List Row) (index : Nat) (verdict : Row → CompareResult)
    (lt eq gt ne : List Row) : Prop where
  nulls : ∀ row ∈ rows, verdict row = .kUnordered ↔ row.values[index]? = some .null
  less : lt = rows.filter fun row => verdict row == .kLess
  equal : eq = rows.filter fun row => verdict row == .kEqual
  greater : gt = rows.filter fun row => verdict row == .kGreater
  others : ne = rows.filter fun row => verdict row != .kEqual

/-- **Splitting a table.**  Where the four filters return, they split the rows by one verdict. -/
theorem match_split (hliteral : literal ≠ .null) {lt eq gt ne : List Row}
    (hlt : matchRows clock table field .kLt literal = .ok lt)
    (heq : matchRows clock table field .kEq literal = .ok eq)
    (hgt : matchRows clock table field .kGt literal = .ok gt)
    (hne : matchRows clock table field .kNe literal = .ok ne) :
    ∃ index verdict, table.schema.indexOf field = some index ∧
      SplitByVerdict table.rows index verdict lt eq gt ne := by
  obtain ⟨index, hindex, hkeepLt⟩ := matchRows_ok hlt
  -- the filter of an ordered operator has met every row
  have hrows : ∀ row ∈ table.rows, ∃ value, row.cellAt index = .ok value ∧
      compare value literal = .ok (fieldVerdict index literal row) := by
    obtain ⟨hall, -⟩ := Feed.keep_ok hkeepLt
      (p := fun row => (testField index .kLt literal row).toOption.getD false)
      (fun row _ accepted h => by rw [h]; rfl)
    exact fun row hrow => fieldVerdict_of_ordered rfl (hall row hrow)
  have hkept : ∀ {op : ComparisonOperator} {rows : List Row},
      matchRows clock table field op literal = .ok rows →
      rows = table.rows.filter fun row => op.accepts (fieldVerdict index literal row) := by
    intro op rows h
    obtain ⟨index', hindex', hkeep⟩ := matchRows_ok h
    rw [hindex] at hindex'
    obtain rfl := Option.some.inj hindex'
    refine (Feed.keep_ok hkeep fun row hrow accepted htest => ?_).2
    obtain ⟨value, hcell, hverdict⟩ := hrows row hrow
    rw [testField_accepts hliteral hcell hverdict] at htest
    exact Except.ok.inj htest
  refine ⟨index, fieldVerdict index literal, hindex,
    { nulls := fun row hrow => ?_, less := hkept hlt, equal := hkept heq, greater := hkept hgt
      others := hkept hne }⟩
  obtain ⟨value, hcell, hverdict⟩ := hrows row hrow
  rw [compare_kUnordered hliteral hverdict]
  rw [Row.cellAt] at hcell
  cases hvalue : row.values[index]? with
  | none => rw [hvalue] at hcell; cases hcell
  | some value' =>
    rw [hvalue] at hcell
    rw [Except.ok.inj hcell, Option.some.injEq]

/-- **The six comparison operators are mutually consistent**, on every pair of values and hence on
    every table. -/
theorem operators_consistent :
    (∀ v w : Value, Consistent v w) ∧
    ∀ (clock : Clock) (table : Table) (field : String) (literal : Value), literal ≠ .null →
      ∀ lt eq gt ne : List Row,
        matchRows clock table field .kLt literal = .ok lt →
        matchRows clock table field .kEq literal = .ok eq →
        matchRows clock table field .kGt literal = .ok gt →
        matchRows clock table field .kNe literal = .ok ne →
        ∃ index verdict, table.schema.indexOf field = some index ∧
          SplitByVerdict table.rows index verdict lt eq gt ne :=
  ⟨consistent, fun _ _ _ _ hliteral _ _ _ _ => match_split hliteral⟩

end Matches

/-- A row for each verdict about 2, and one without the field. -/
def verdictTable : Table where
  schema := { fields := ["a"] }
  rows := [{ ordinal := 0, values := [.int64 3] }, { ordinal := 1, values := [.null] },
    { ordinal := 2, values := [.int64 2] }, { ordinal := 3, values := [.int64 1] }]

/-- The four filters on a table of four rows; only `$ne` keeps the null. -/
theorem operators_consistent_split :
    ∃ index verdict, verdictTable.schema.indexOf "a" = some index ∧
      SplitByVerdict verdictTable.rows index verdict
        [{ ordinal := 3, values := [.int64 1] }] [{ ordinal := 2, values := [.int64 2] }]
        [{ ordinal := 0, values := [.int64 3] }]
        [{ ordinal := 0, values := [.int64 3] }, { ordinal := 1, values := [.null] },
          { ordinal := 3, values := [.int64 1] }] :=
  (@operators_consistent StdLibrary.reference).2 Clock.still verdictTable "a" (.int64 2)
    (by decide) _ _ _ _ rfl rfl rfl rfl

end QueryLume
