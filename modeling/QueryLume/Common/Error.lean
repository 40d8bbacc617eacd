/-
  Errors.

  The engine reports what a user got wrong as a `QueryLumeError`: one of twelve codes and a message
  (`common/error.h`, `error.cpp`).  That is a promise, not a fact of the language: a C++ call can
  end in other ways, and on the query path there are four of them.  `std::get` can meet a variant
  that holds another alternative, `at()` can be given an index that does not exist, the JSON
  library throws exceptions of its own, and an unchecked access outside its bounds, or a read of a
  cell that was moved out, is no exception at all but the end of every guarantee.  The command line
  tool adds one more, the failure to read a file that could be opened.

  `Exception` has a constructor for each of these endings.  So the model of a function returns
  `Except Exception α` wherever the C++ function can end other than by returning, and the absence
  of an ending (no undefined behaviour in a bound plan, nothing but `QueryLumeError`s out of a run)
  is a statement that can be proved instead of an assumption of the model.

  The predicates at the end say which kind an exception is; later modules show which functions
  throw which kind.
-/

namespace QueryLume

/-- The codes of `common/error.h`, in the order of the enumeration. -/
inductive ErrorCode where
  | kJsonParseError
  | kInvalidDataShape
  | kUnsupportedValueType
  | kPipelineSyntaxError
  | kUnknownStage
  | kUnknownField
  | kUnsupportedOperator
  | kIncompatibleTypes
  | kInvalidSortDirection
  | kInvalidLimit
  | kInvalidStageLifecycle
  | kUnsupportedLogicalNode
deriving DecidableEq, Repr

/-- The name of a code in an error line. -/
def ErrorCode.toString : ErrorCode → String
  | kJsonParseError => "JsonParseError"
  | kInvalidDataShape => "InvalidDataShape"
  | kUnsupportedValueType => "UnsupportedValueType"
  | kPipelineSyntaxError => "PipelineSyntaxError"
  | kUnknownStage => "UnknownStage"
  | kUnknownField => "UnknownField"
  | kUnsupportedOperator => "UnsupportedOperator"
  | kIncompatibleTypes => "IncompatibleTypes"
  | kInvalidSortDirection => "InvalidSortDirection"
  | kInvalidLimit => "InvalidLimit"
  | kInvalidStageLifecycle => "InvalidStageLifecycle"
  | kUnsupportedLogicalNode => "UnsupportedLogicalNode"

/-- How a call ends when it does not return: with an error of the engine, with an exception of
    the standard or of the JSON library, or in undefined behaviour, which is no exception but is
    where the model stops. -/
inductive Exception where
  | queryLumeError (code : ErrorCode) (message : String)
  /-- `std::get` on a variant that holds another alternative. -/
  | badVariantAccess
  /-- `at()` with an index or a key that does not exist. -/
  | outOfRange
  /-- The JSON library's exceptions: malformed text, and a number too large for a double. -/
  | jsonParseError (what : String)
  | jsonOutOfRange (what : String)
  /-- `ios_base::failure`: a file that was opened could not be read, a directory for example. -/
  | iosFailure (what : String)
  /-- No exception at all: an unchecked access outside its bounds, or a cell read after it has
      been moved out.  The language promises nothing from here on; the model stops. -/
  | undefinedBehavior
deriving DecidableEq, Repr

namespace Exception

/-- The code of a `QueryLumeError`. -/
def code : Exception → Option ErrorCode
  | queryLumeError c _ => some c
  | _ => none

/-- The error contract of the engine: what escapes is a `QueryLumeError`. -/
def IsQueryLumeError (e : Exception) : Prop := e.code.isSome = true

instance (e : Exception) : Decidable e.IsQueryLumeError := inferInstanceAs (Decidable (_ = true))

@[simp] theorem code_queryLumeError (c : ErrorCode) (m : String) :
    (queryLumeError c m).code = some c := rfl

/-- What a comparison of two values can throw: they have no order, or one of them is NaN. -/
def IsComparisonError (e : Exception) : Prop :=
  e.code = some .kIncompatibleTypes ∨ e.code = some .kUnsupportedValueType

/-- Not the error of a lifecycle check. -/
def NotLifecycle (e : Exception) : Prop := e.code ≠ some .kInvalidStageLifecycle

instance (e : Exception) : Decidable e.NotLifecycle := inferInstanceAs (Decidable (_ ≠ _))

/-- Comparison errors are errors of the engine. -/
theorem IsComparisonError.isQueryLumeError {e : Exception} (h : e.IsComparisonError) :
    e.IsQueryLumeError := by
  rcases h with h | h <;> rw [IsQueryLumeError, h] <;> rfl

/-- They have other codes than a lifecycle check. -/
theorem IsComparisonError.notLifecycle {e : Exception} (h : e.IsComparisonError) :
    e.NotLifecycle := by
  rcases h with h | h <;> rw [NotLifecycle, h] <;> decide

end Exception

end QueryLume
