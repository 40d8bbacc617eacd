/-
  The pipeline parser.

  It turns the JSON of a pipeline into a list of parsed stages (`pipeline_parser.cpp`).  What it
  checks is the SHAPE: a pipeline is an array, a stage an object with one member whose key is a
  stage name, and the value of that member has the form the stage needs.  Meaning is left to the
  binder: field names are not looked up, an operator token may be any string, a sort direction and
  a limit any integer of 64 bits.  They are carried over raw, hence `opToken`, `directionRaw`,
  `countRaw`.

  The parser reads integers in two forms, because the JSON library stores a non-negative numeral
  unsigned: `parseInt64` takes either and rejects what does not fit, and so does `jsonToLiteral`
  for the literals of a comparison.  A float is a literal of its own kind.

  The error texts and the order of the checks are those of the source; `ParserGrammar.lean` says
  which values are accepted and which error is thrown first.
-/
import QueryLume.Data.Json
import QueryLume.Data.JsonLoader

namespace QueryLume

/-- A field by its name, before binding.  The parser does not know the table, so it cannot tell
    whether there is such a field. -/
structure UnresolvedFieldExpression where
  fieldName : String
deriving DecidableEq

/-- One comparison of a `$match`: a field, an operator token and a literal.  The token is any
    string here; the binder accepts six of them. -/
structure ParsedComparison where
  field : UnresolvedFieldExpression
  opToken : String
  literal : Value
deriving DecidableEq

/-- `$match`: the comparisons, all of which a row has to pass.  No comparison at all means that
    every row passes. -/
structure ParsedMatchStage where
  predicates : List ParsedComparison
deriving DecidableEq

/-- `$project`: the fields to keep, in the order asked for.  A field may stand in the list twice;
    the binder complains. -/
structure ParsedProjectStage where
  fields : List UnresolvedFieldExpression
deriving DecidableEq

/-- `$sort`: exactly one field, and whatever integer the pipeline gave as the direction; the
    binder accepts 1 and -1 only. -/
structure ParsedSortStage where
  field : UnresolvedFieldExpression
  directionRaw : Int64
deriving DecidableEq

/-- `$limit`: whatever integer the pipeline gave as the count; the binder rejects negative ones. -/
structure ParsedLimitStage where
  countRaw : Int64
deriving DecidableEq

/-- A stage.  The source has an enumeration and one record for each kind, of which one is in use;
    here the kind and the record in use are one constructor. -/
inductive ParsedStage where
  | kMatch (stage : ParsedMatchStage)
  | kProject (stage : ParsedProjectStage)
  | kSort (stage : ParsedSortStage)
  | kLimit (stage : ParsedLimitStage)
deriving DecidableEq

/-- The stages of a pipeline, first to last. -/
structure ParsedPipeline where
  stages : List ParsedStage
deriving DecidableEq

/-- Every complaint of the parser about a shape has the code `kPipelineSyntaxError`; only a stage
    name and an integer literal have codes of their own. -/
def syntaxError {α : Type} (message : String) : Except Exception α :=
  .error (.queryLumeError .kPipelineSyntaxError message)

/-- The literal of a comparison: a scalar, stored as the `Value` of the same kind.  An integer
    that is stored unsigned and lies above `INT64_MAX` has no such value and is rejected with its
    own code; an array or an object is a syntax error. -/
def jsonToLiteral (value : Json) : Except Exception Value :=
  match value with
  | .null => .ok .null
  | .boolean b => .ok (.bool b)
  | .numberInteger i => .ok (.int64 i)
  | .numberUnsigned u =>
    if u.toNat > int64Max then
      .error (.queryLumeError .kUnsupportedValueType
        "comparison integer literal is outside the int64 range")
    else .ok (.int64 (Int64.ofInt u.toNat))
  | .numberFloat d => .ok (.double d)
  | .string s => .ok (.string s)
  | _ => syntaxError "comparison literal must be a scalar (null, bool, number, or string)"

/-- `is_number_integer()`: an integer, however it is stored.  It is wider than the type
    `number_integer`, which is the signed form alone. -/
def Json.isNumberInteger : Json → Bool
  | .numberInteger _ => true
  | .numberUnsigned _ => true
  | _ => false

/-- An integer of 64 bits with a sign, stored either way.  `context` says in the message what it
    was for.  The callers have asked `isNumberInteger` before, so the last branch is not reached
    from them. -/
def parseInt64 (value : Json) (context : String) : Except Exception Int64 :=
  let outOfRange := syntaxError (context ++ " must fit in a signed 64-bit integer")
  match value with
  | .numberInteger i => .ok i
  | .numberUnsigned u => if u.toNat ≤ int64Max then .ok (Int64.ofInt u.toNat) else outOfRange
  | _ => outOfRange

/-- The member loop of `parseMatch`: one predicate per member.  The shape of a member is checked
    before its literal, and the first member that fails ends the loop. -/
def parsePredicates : List (String × Json) → Except Exception (List ParsedComparison)
  | [] => .ok []
  | (fieldName, .object [(opToken, operand)]) :: members =>
    match jsonToLiteral operand with
    | .error e => .error e
    | .ok literal =>
      match parsePredicates members with
      | .error e => .error e
      | .ok predicates => .ok ({ field := ⟨fieldName⟩, opToken, literal } :: predicates)
  | (fieldName, _) :: _ =>
    syntaxError ("$match predicate for field '" ++ fieldName ++
      "' must be a single-key object like \x7b\"$gte\": <literal>\x7d")

/-- The value of a `$match`: an object from field names to objects with a single member, operator
    token to literal.  The members come in the order of the JSON object, which is by key and not
    as written, so it is the first field in that order whose complaint is thrown. -/
def parseMatch (value : Json) : Except Exception ParsedMatchStage :=
  match value with
  | .object members => (parsePredicates members).map fun predicates => { predicates }
  | _ => syntaxError "$match value must be a JSON object mapping field names to predicates"

/-- The element loop of `parseProject`.  Repeated names pass; they are the binder's business. -/
def parseFields : List Json → Except Exception (List UnresolvedFieldExpression)
  | [] => .ok []
  | .string fieldName :: elements =>
    match parseFields elements with
    | .error e => .error e
    | .ok fields => .ok ({ fieldName } :: fields)
  | _ :: _ => syntaxError "$project field names must be strings"

/-- The value of a `$project`: an array of field names, possibly empty. -/
def parseProject (value : Json) : Except Exception ParsedProjectStage :=
  match value with
  | .array elements => (parseFields elements).map fun fields => { fields }
  | _ => syntaxError "$project value must be a JSON array of field names"

/-- The value of a `$sort`: an object with one member, the field with its direction.  A direction
    that is no integer and an integer that does not fit are different complaints, in this order. -/
def parseSort (value : Json) : Except Exception ParsedSortStage :=
  match value with
  | .object [(fieldName, direction)] =>
    if direction.isNumberInteger then
      (parseInt64 direction ("$sort direction for field '" ++ fieldName ++ "'")).map
        fun directionRaw => { field := ⟨fieldName⟩, directionRaw }
    else
      syntaxError ("$sort direction for field '" ++ fieldName ++ "' must be an integer (1 or -1)")
  | _ => syntaxError "$sort value must be a single-key object like \x7b\"field\": 1\x7d"

/-- The value of a `$limit`: an integer, negative ones included. -/
def parseLimit (value : Json) : Except Exception ParsedLimitStage :=
  if value.isNumberInteger then
    (parseInt64 value "$limit value").map fun countRaw => { countRaw }
  else syntaxError "$limit value must be an integer"

/-- The body of the stage loop.  An element has to be an object with a single member, whose key
    says which parser its value goes to.  The key is compared with the four names in the order of
    the source, and a key that is none of them has a code of its own. -/
def parseStage (stageJson : Json) : Except Exception ParsedStage :=
  match stageJson with
  | .object [(stageName, value)] =>
    if stageName = "$match" then (parseMatch value).map .kMatch
    else if stageName = "$project" then (parseProject value).map .kProject
    else if stageName = "$sort" then (parseSort value).map .kSort
    else if stageName = "$limit" then (parseLimit value).map .kLimit
    else .error (.queryLumeError .kUnknownStage ("unknown pipeline stage: " ++ stageName))
  | _ =>
    syntaxError
      "each pipeline stage must be a single-key object, e.g. \x7b\"$match\": \x7b...\x7d\x7d"

/-- The stage loop: the first element that is no stage ends it, and the elements after it are not
    looked at. -/
def parseStages : List Json → Except Exception (List ParsedStage)
  | [] => .ok []
  | stageJson :: rest =>
    match parseStage stageJson with
    | .error e => .error e
    | .ok stage =>
      match parseStages rest with
      | .error e => .error e
      | .ok stages => .ok (stage :: stages)

/-- The entry point, `parsePipeline` of `pipeline_parser.cpp`: an array, every element of which
    is a stage.  The empty array is a pipeline; it returns the table. -/
def parsePipeline (pipelineJson : Json) : Except Exception ParsedPipeline :=
  match pipelineJson with
  | .array elements => (parseStages elements).map fun stages => { stages }
  | _ => syntaxError "pipeline must be a JSON array of stage objects"

end QueryLume
