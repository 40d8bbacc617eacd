/-
  The JSON views (`json_serialize.cpp`): values, rows, parsed pipelines, logical and physical
  plans, the rewrite trace and the global statistics.

  Every view is an object or an array built member by member, as the source builds it, so the
  members of an object come out in the order of their keys and not in the order they are written
  here.

  Two conventions of the source show in the numbers.  A value, a direction and a count of a parsed
  pipeline are signed integers; counters, sizes and the limits of plan nodes are `size_t` and
  therefore stored unsigned (`Json.ofNat`).  And a logical node shows names, not column indices:
  what is shown of a plan is less than what it is.
-/
import QueryLume.Data.Json
import QueryLume.Explain.Describe
import QueryLume.Optimizer
import QueryLume.Parser
import QueryLume.Physical.Planner

namespace QueryLume

/-- The counters of a whole run. -/
structure GlobalStats where
  documentsExamined : Nat := 0
  documentsReturned : Nat := 0
  totalExecutionTimeMicros : Nat := 0
  optimizerRulesApplied : Nat := 0
deriving DecidableEq

/-- An unsigned counter.  The library stores it apart from signed integers, so a report read back
    from a text compares equal and a pipeline in it does not have to. -/
def Json.ofNat (n : Nat) : Json := .numberUnsigned (UInt64.ofNat n)

/-- The integer a direction is written as, which is the one it was parsed from. -/
def directionToInt : SortDirection → Int64
  | .kAscending => 1
  | .kDescending => -1

/-- A cell, as the JSON value of its kind.  Loading it gives the cell back. -/
def Value.toJson : Value → Json
  | .null => .null
  | .bool b => .boolean b
  | .int64 i => .numberInteger i
  | .double d => .numberFloat d
  | .string s => .string s

/-- A row as an object, field by field.  The loop stops at the shorter of the two lists; a later
    field of the same name would overwrite an earlier one. -/
def Row.toJson (row : Row) (schema : Schema) : Json :=
  .ofMembers ((schema.fields.zip row.values).map fun entry => (entry.1, entry.2.toJson))

/-- A comparison as it was parsed: the token, not the operator. -/
def ParsedComparison.toJson (predicate : ParsedComparison) : Json :=
  .ofMembers [("field", .string predicate.field.fieldName), ("operator", .string predicate.opToken),
    ("literal", predicate.literal.toJson)]

/-- A stage as it was parsed, with its name under `stage`. -/
def ParsedStage.toJson : ParsedStage → Json
  | .kMatch stage =>
    .ofMembers [("stage", .string "$match"),
      ("predicates", .array (stage.predicates.map ParsedComparison.toJson))]
  | .kProject stage =>
    .ofMembers [("stage", .string "$project"),
      ("fields", .array (stage.fields.map fun field => .string field.fieldName))]
  | .kSort stage =>
    .ofMembers [("stage", .string "$sort"), ("field", .string stage.field.fieldName),
      ("direction", .numberInteger stage.directionRaw)]
  | .kLimit stage =>
    .ofMembers [("stage", .string "$limit"), ("count", .numberInteger stage.countRaw)]

/-- All stages, first to last. -/
def ParsedPipeline.toJson (pipeline : ParsedPipeline) : Json :=
  .array (pipeline.stages.map ParsedStage.toJson)

/-- A node with the node below it under `child`.  Columns are shown by name; a predicate is shown
    as its text. -/
def LogicalPlanNode.toJson : LogicalPlanNode → Json
  | .kScan table =>
    .ofMembers [("node", .string "Scan"), ("fields", .array (table.schema.fields.map .string)),
      ("rowCount", .ofNat table.rows.length)]
  | .kFilter child predicate =>
    .ofMembers [("node", .string "Filter"), ("predicate", .string predicate.describe),
      ("child", child.toJson)]
  | .kProject child _ fieldNames =>
    .ofMembers [("node", .string "Project"), ("fields", .array (fieldNames.map .string)),
      ("child", child.toJson)]
  | .kSort child _ fieldName direction =>
    .ofMembers [("node", .string "Sort"), ("field", .string fieldName),
      ("direction", .numberInteger (directionToInt direction)), ("child", child.toJson)]
  | .kLimit child limit =>
    .ofMembers [("node", .string "Limit"), ("count", .ofNat limit), ("child", child.toJson)]
  | .kTopK child _ fieldName direction k =>
    .ofMembers [("node", .string "TopK"), ("field", .string fieldName),
      ("direction", .numberInteger (directionToInt direction)), ("k", .ofNat k),
      ("child", child.toJson)]

/-- One entry for each rule that was tried, applied or not. -/
def traceToJson (trace : List RewriteTraceEntry) : Json :=
  .array (trace.map fun entry =>
    .ofMembers [("rule", .string entry.rule), ("applied", .boolean entry.applied)])

/-- The counters of one stage, all six. -/
def StageStats.toJson (s : StageStats) : Json :=
  .ofMembers [("rowsIn", .ofNat s.rowsIn), ("rowsOut", .ofNat s.rowsOut),
    ("openCalls", .ofNat s.openCalls), ("getNextCalls", .ofNat s.getNextCalls),
    ("executionTimeMicros", .ofNat s.executionTimeMicros),
    ("peakMemoryBytes", .ofNat s.peakMemoryBytes)]

/-- A stage and, under `child`, the stages below it. -/
def stagesToJson (includeStats : Bool) : List PlanStageTree.StageView → Option Json
  | [] => none
  | view :: below =>
    let stage := [("stage", Json.string view.tree.stageName)]
    let stats := if includeStats then [("stats", view.base.stats.toJson)] else []
    let child := match stagesToJson includeStats below with
      | none => []
      | some child => [("child", child)]
    some (.ofMembers (stage ++ stats ++ child))

/-- The chain of stages from the root down, with counters if asked for.  A plan always has a
    root, so the default is not reached. -/
def PlanStageTree.toJson (tree : PlanStageTree) (this : tree.Object) (includeStats : Bool) : Json :=
  (stagesToJson includeStats (tree.stages this)).getD .null

/-- The counters of the run. -/
def GlobalStats.toJson (stats : GlobalStats) : Json :=
  .ofMembers [("documentsExamined", .ofNat stats.documentsExamined),
    ("documentsReturned", .ofNat stats.documentsReturned),
    ("totalExecutionTimeMicros", .ofNat stats.totalExecutionTimeMicros),
    ("optimizerRulesApplied", .ofNat stats.optimizerRulesApplied)]

end QueryLume
