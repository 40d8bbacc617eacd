/-
  The one ordering the two blocking stages share (`row_comparator.cpp`).

  A row comes before another by the keys in one column: nulls after the values when ascending and
  before them when descending, values under `compare` in the direction, and the ascending ordinal
  last, so that no two rows with different ordinals tie.

  Nulls are settled before `compare` is asked.  That matters for errors: `compare` throws when two
  keys have no order, and a row without a key never makes it throw.  What kind of order this is,
  with answers for some pairs and exceptions for others, is the subject of
  `Physical/RowOrder.lean`.
-/
import QueryLume.Logical

namespace QueryLume

/-- The members of the comparator: a column and a direction. -/
structure RowComparator where
  columnIndex : Nat
  direction : SortDirection
deriving DecidableEq

namespace RowComparator

/-- The verdict on two rows whose sort cells have been read: two nulls by ordinal, one null by
    the direction alone, and two values by `compare`, equal ones by ordinal.  The ordinals are
    ascending in both directions. -/
def decideCells (direction : SortDirection) (aOrdinal bOrdinal : Nat) (va vb : Value) :
    Except Exception Bool :=
  let aNull := typeOf va = .kNull
  let bNull := typeOf vb = .kNull
  if aNull ∧ bNull then .ok (decide (aOrdinal < bOrdinal))
  else if aNull ∨ bNull then
    .ok (if direction = .kAscending then decide bNull else decide aNull)
  else
    match compare va vb with
    | .error e => .error e
    | .ok .kEqual => .ok (decide (aOrdinal < bOrdinal))
    | .ok r =>
      .ok (if direction = .kAscending then r == .kLess else r == .kGreater)

/-- `operator()`: should `a` be ordered strictly before `b`?  The cells are read unchecked, the
    one of `a` first. -/
def call (comparator : RowComparator) (a b : Row) : Except Exception Bool :=
  match a.cell comparator.columnIndex with
  | .error e => .error e
  | .ok va =>
    match b.cell comparator.columnIndex with
    | .error e => .error e
    | .ok vb => decideCells comparator.direction a.ordinal b.ordinal va vb

/-- It throws no error of a lifecycle check. -/
theorem call_notLifecycle {comparator : RowComparator} {a b : Row} {e : Exception}
    (h : comparator.call a b = .error e) : e.NotLifecycle := by
  have hcell : ∀ {row : Row} {e' : Exception},
      row.cell comparator.columnIndex = .error e' → e'.NotLifecycle := by
    intro row e' hcell
    rw [Row.cell] at hcell
    split at hcell
    · cases hcell
    · exact Except.error.inj hcell ▸ by decide
  unfold call at h
  cases ha : a.cell comparator.columnIndex with
  | error e' => rw [ha] at h; exact Except.error.inj h ▸ hcell ha
  | ok va =>
    rw [ha] at h
    cases hb : b.cell comparator.columnIndex with
    | error e' => rw [hb] at h; exact Except.error.inj h ▸ hcell hb
    | ok vb =>
      rw [hb] at h
      simp only [decideCells] at h
      split at h
      · cases h
      · split at h
        · cases h
        · cases hcmp : compare va vb with
          | error e' =>
            rw [hcmp] at h
            exact Except.error.inj h ▸ (compare_error hcmp).notLifecycle
          | ok r => rw [hcmp] at h; cases r <;> cases h

end RowComparator

end QueryLume
