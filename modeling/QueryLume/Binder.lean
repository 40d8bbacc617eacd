/-
  The binder: resolves a parsed pipeline against a table's schema.

  Binding (`binder.cpp`) makes a logical plan of a parsed pipeline, one node per stage over the
  scan of the table, and checks what the parser let pass: that fields exist, that operators are
  known, that a projection takes no field twice, that a direction is 1 or -1 and a limit is not
  negative.  It checks no types.  A comparison of a string field with a number is bound, and throws
  when the query runs.

  The schema VISIBLE to a stage is threaded through the loop (`bindStages`): a projection narrows
  it, so a sort after a projection resolves against the projected schema, and the column index it
  stores is a position there.

  The checks of one stage come in the order of the source, and the first one that fails ends the
  binding; `BinderAcceptance.lean` says exactly which pipelines pass and what is thrown otherwise,
  and `BoundPlan.lean` what is true of every plan that comes out.
-/
import QueryLume.Logical
import QueryLume.Parser

namespace QueryLume

/-- The position of a field in a schema, or the complaint that there is no such field.  Where a
    name occurs twice it is the first position; the schemas that occur have every name once, the
    loader's by its construction and a projection's by the check in `bindFields`. -/
def resolveField (schema : Schema) (fieldName : String) : Except Exception Nat :=
  match schema.indexOf fieldName with
  | some index => .ok index
  | none => .error (.queryLumeError .kUnknownField ("unknown field: '" ++ fieldName ++ "'"))

/-- A comparison of a column with a literal.  The field is looked up before the operator is
    checked, so an unknown field with an unknown operator is reported as an unknown field.  The
    literal is taken as it is: no check compares its type with the column's. -/
def bindComparison (schema : Schema) (parsed : ParsedComparison) : Except Exception Expression :=
  match resolveField schema parsed.field.fieldName with
  | .error e => .error e
  | .ok index =>
    match parseComparisonOperator parsed.opToken with
    | none =>
      .error (.queryLumeError .kUnsupportedOperator
        ("unsupported operator: '" ++ parsed.opToken ++ "'"))
    | some op =>
      .ok (.comparison (.boundField index parsed.field.fieldName) op (.literal parsed.literal))

/-- The operand loop of `bindMatch`, in the order of the predicates. -/
def bindComparisons (schema : Schema) : List ParsedComparison → Except Exception (List Expression)
  | [] => .ok []
  | predicate :: predicates =>
    match bindComparison schema predicate with
    | .error e => .error e
    | .ok operand =>
      match bindComparisons schema predicates with
      | .error e => .error e
      | .ok operands => .ok (operand :: operands)

/-- The predicate of a filter: always true for no comparison, the comparison itself for one, and
    a conjunction for more.  The distinction saves a node and no more; a conjunction of none or
    of one would evaluate and read the same. -/
def bindMatch (schema : Schema) («match» : ParsedMatchStage) : Except Exception Expression :=
  match «match».predicates with
  | [] => .ok (.literal (.bool true))
  | [predicate] => bindComparison schema predicate
  | predicates => (bindComparisons schema predicates).map .conjunction

/-- The field loop of a projection.  `seen` is the set of names met so far; that a field is new
    is checked before it is looked up, so a name that is unknown is reported as such where it
    stands first. -/
def bindFields (schema : Schema) (seen : List String) :
    List UnresolvedFieldExpression → Except Exception (List Nat)
  | [] => .ok []
  | field :: fields =>
    if field.fieldName ∈ seen then
      .error (.queryLumeError .kPipelineSyntaxError
        ("duplicate $project field: '" ++ field.fieldName ++ "'"))
    else
      match resolveField schema field.fieldName with
      | .error e => .error e
      | .ok index =>
        match bindFields schema (field.fieldName :: seen) fields with
        | .error e => .error e
        | .ok indices => .ok (index :: indices)

/-- 1 is ascending, -1 descending, and nothing else is a direction. -/
def bindSortDirection (directionRaw : Int64) : Except Exception SortDirection :=
  if directionRaw = 1 then .ok .kAscending
  else if directionRaw = -1 then .ok .kDescending
  else
    .error (.queryLumeError .kInvalidSortDirection
      ("invalid sort direction: " ++ toString directionRaw.toInt ++ " (must be 1 or -1)"))

/-- Any count that is not negative, as an unsigned number.  A limit of zero is accepted. -/
def bindLimit (countRaw : Int64) : Except Exception Nat :=
  if countRaw < 0 then
    .error (.queryLumeError .kInvalidLimit
      ("invalid limit: " ++ toString countRaw.toInt ++ " (must be non-negative)"))
  else .ok countRaw.toInt.toNat

/-- The body of the stage loop: one node over the plan built so far, and the schema visible to
    the next stage.  Only a projection changes the schema.  For a sort the field is looked up
    before the direction is checked. -/
def bindStage (currentSchema : Schema) (node : LogicalPlanNode) (stage : ParsedStage) :
    Except Exception (Schema × LogicalPlanNode) :=
  match stage with
  | .kMatch «match» =>
    (bindMatch currentSchema «match»).map fun predicate =>
      (currentSchema, .kFilter node predicate)
  | .kProject project =>
    let names := project.fields.map (·.fieldName)
    (bindFields currentSchema [] project.fields).map fun indices =>
      ({ fields := names }, .kProject node indices names)
  | .kSort sort =>
    match resolveField currentSchema sort.field.fieldName with
    | .error e => .error e
    | .ok index =>
      (bindSortDirection sort.directionRaw).map fun direction =>
        (currentSchema, .kSort node index sort.field.fieldName direction)
  | .kLimit limit =>
    (bindLimit limit.countRaw).map fun count => (currentSchema, .kLimit node count)

/-- The stage loop, from the first stage of the pipeline to the last.  The first node is the
    innermost one, so the last stage is the root of the plan. -/
def bindStages (currentSchema : Schema) (node : LogicalPlanNode) :
    List ParsedStage → Except Exception LogicalPlanNode
  | [] => .ok node
  | stage :: stages =>
    match bindStage currentSchema node stage with
    | .error e => .error e
    | .ok (schema, node) => bindStages schema node stages

/-- The entry point, `bindPipeline` of `binder.cpp`: all stages over the scan of the table, from
    the schema of the table on. -/
def bindPipeline (table : Table) (pipeline : ParsedPipeline) : Except Exception LogicalPlanNode :=
  bindStages table.schema (.kScan table) pipeline.stages

end QueryLume
