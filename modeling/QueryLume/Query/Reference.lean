/-
  The reference meaning of a pipeline: plain lists of documents, fields found by NAME.

  There is no schema, no column index, no optimizer and no iterator here.  A stage takes the whole
  list and gives the whole list; `$project` only narrows the names that are shown.

  This is what a pipeline is FOR, stated beside the code rather than taken from it: the meaning of
  the predicates and of the order of values is shared with the engine (`evaluateComparison`,
  `compare`), the rest is not.  A run of the engine is compared with it in `Query/Semantics.lean`,
  and how much of the input is read is measured against it in `Query/InputRead.lean`.
-/
import QueryLume.Data.LoadedTable
import QueryLume.Expression
import QueryLume.Foundation.Feed
import QueryLume.Foundation.InsertionSort
import QueryLume.Parser
import Mathlib.Data.List.Dedup
import Mathlib.Data.List.Sort

namespace QueryLume

namespace Reference

/-- A document: its place in the input, and its cells. -/
structure Document where
  ordinal : Nat
  cell : String → Value

/-- What a stage hands on: the names that are shown, and the documents that are left. -/
structure View where
  visible : List String
  documents : List Document

/-- The input: every name that occurs, ascending, and null for what a document lacks. -/
def load (documents : List Json) : View where
  visible := ((documents.flatMap Json.memberNames).dedup).insertionSort (· ≤ ·)
  documents := documents.zipIdx.map fun (document, ordinal) =>
    { ordinal, cell := fun name => (documentCell document name).toOption.getD .null }

/-- Does a document satisfy one predicate? -/
def holds (predicate : ParsedComparison) (document : Document) : Except Exception Bool :=
  match parseComparisonOperator predicate.opToken with
  | none =>
    .error (.queryLumeError .kUnsupportedOperator
      ("unsupported operator: '" ++ predicate.opToken ++ "'"))
  | some op =>
    (evaluateComparison op (document.cell predicate.field.fieldName) predicate.literal).bind
      Value.getBool

/-- Does it satisfy all of them?  The first that fails decides. -/
def holdsAll : List ParsedComparison → Document → Except Exception Bool
  | [], _ => .ok true
  | predicate :: predicates, document =>
    match holds predicate document with
    | .error e => .error e
    | .ok true => holdsAll predicates document
    | .ok false => .ok false

/-- Does `a` come before `b`?  Nulls last when ascending and first when descending, keys under
    `compare` in the direction, the document order last. -/
def precedes (ascending : Bool) (field : String) (a b : Document) : Except Exception Bool :=
  match a.cell field, b.cell field with
  | .null, .null => .ok (decide (a.ordinal < b.ordinal))
  | .null, _ => .ok (!ascending)
  | _, .null => .ok ascending
  | key, key' =>
    (compare key key').map fun verdict =>
      match verdict with
      | .kEqual => decide (a.ordinal < b.ordinal)
      | .kLess => ascending
      | .kGreater => !ascending
      | .kUnordered => false

/-- One stage, on the whole list. -/
def stage : ParsedStage → View → Except Exception View
  | .kMatch parsed, view =>
    (Feed.keep (holdsAll parsed.predicates) view.documents).map fun documents =>
      { view with documents }
  | .kProject parsed, view => .ok { view with visible := parsed.fields.map (·.fieldName) }
  | .kSort parsed, view =>
    (InsertionSort.sortBy (precedes (parsed.directionRaw == 1) parsed.field.fieldName)
      view.documents).map fun documents => { view with documents }
  | .kLimit parsed, view =>
    .ok { view with documents := view.documents.take parsed.countRaw.toInt.toNat }

/-- All stages in order; the first that fails decides. -/
def evaluate : List ParsedStage → View → Except Exception View
  | [], view => .ok view
  | parsed :: stages, view =>
    match stage parsed view with
    | .error e => .error e
    | .ok next => evaluate stages next

/-- A document shown under some names. -/
def Document.row (document : Document) (visible : List String) : Row where
  ordinal := document.ordinal
  values := visible.map document.cell

/-- What is shown of the documents that are left. -/
def View.rows (view : View) : List Row := view.documents.map (·.row view.visible)

end Reference

end QueryLume
