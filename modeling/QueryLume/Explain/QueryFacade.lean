/-
  The facade (`query_facade.cpp`): plan a query, and run it, explain it, or run and explain it.

  `planQuery` is what the three entry points have in common: parse, bind, optimize, build the
  physical plan.  `explainPipeline` stops there and shows the plans; `runPipeline` executes the
  plan and returns rows and their schema; `explainAnalyzePipeline` executes it too and shows the
  plans together with the counters the run left in the stages.

  The clock is a parameter: it gives the readings the stages take.  A run advances it, and no
  result depends on it; only `executionTimeMicros` does.  An exception of any step leaves the entry
  point unchanged, so the errors of a query are those of the parser, the binder and the stages.

  Whatever is proved about plans reaches the outside here; `runPipeline_eq` (`Query/Runs.lean`)
  says what a run returns in terms of the denotation of the optimized plan.
-/
import QueryLume.Binder
import QueryLume.Explain.JsonSerialize
import QueryLume.Physical.Execution

namespace QueryLume

/-- Everything a query goes through before it runs, `PlannedQuery` of the source.  The logical
    plans are kept as JSON, because the physical plan takes the nodes over; EXPLAIN shows all of
    it. -/
structure PlannedQuery where
  parsed : ParsedPipeline
  logicalPlanJson : Json
  optimizationContext : OptimizationContext
  optimizedLogicalPlanJson : Json
  physicalRoot : PlanStageTree
  outputSchema : Schema

/-- `planQuery`: parse, bind, optimize, build, in this order, and the first exception ends it.
    The schema of the result is that of the optimized plan. -/
def planQuery (table : Table) (pipelineJson : Json) : Except Exception PlannedQuery :=
  match parsePipeline pipelineJson with
  | .error e => .error e
  | .ok parsed =>
    match bindPipeline table parsed with
    | .error e => .error e
    | .ok logicalRoot =>
      let (optimizedRoot, optimizationContext) := Optimizer.optimize logicalRoot
      .ok
        { parsed
          logicalPlanJson := logicalRoot.toJson
          optimizationContext
          optimizedLogicalPlanJson := optimizedRoot.toJson
          physicalRoot := buildPhysicalPlan optimizedRoot
          outputSchema := outputSchemaOf optimizedRoot }

/-- Rows, and the schema to read them by. -/
structure QueryResult where
  rows : List Row
  outputSchema : Schema
deriving DecidableEq

/-- What the reports say about planning: the pipeline as parsed, the plan before and after the
    rules, and the trace of the rules. -/
def PlannedQuery.planMembers (planned : PlannedQuery) : List (String × Json) :=
  [("parsedPipeline", planned.parsed.toJson),
    ("logicalPlan", planned.logicalPlanJson),
    ("optimizedLogicalPlan", planned.optimizedLogicalPlanJson),
    ("rewrites", traceToJson planned.optimizationContext.trace)]

/-- EXPLAIN: the plans, without running anything.  The physical plan is shown as built, without
    counters. -/
def explainPipeline (table : Table) (pipelineJson : Json) : Except Exception Json :=
  (planQuery table pipelineJson).map fun planned =>
    .ofMembers (planned.planMembers ++
      [("physicalPlan", planned.physicalRoot.toJson planned.physicalRoot.constructed false)])

section Run

variable [StdLibrary]

/-- `runPipeline`: plan the query, then open it, pull all rows and close it.  The rows are
    collected by `execute`; a run that throws returns no rows, also not those it has collected. -/
def runPipeline (clock : Clock) (table : Table) (pipelineJson : Json) :
    Except Exception QueryResult :=
  match planQuery table pipelineJson with
  | .error e => .error e
  | .ok planned =>
    (execute planned.physicalRoot.planStage clock planned.physicalRoot.constructed).result.map
      fun rows => { rows, outputSchema := planned.outputSchema }

/-- The global statistics of a run that returned `rows`: what the scan has given out, how many
    rows came back, the inclusive time of the root, and how many rules applied. -/
def globalStats (planned : PlannedQuery) (stage : planned.physicalRoot.Object) (rows : List Row) :
    GlobalStats where
  documentsExamined := (planned.physicalRoot.leafScan stage).rowsOut
  documentsReturned := rows.length
  totalExecutionTimeMicros := (planned.physicalRoot.base stage).stats.executionTimeMicros
  optimizerRulesApplied := planned.optimizationContext.trace.countP (·.applied)

/-- What an EXPLAIN ANALYZE reports, before it is rendered: the plans, the stages as the run left
    them, and the rows. -/
structure Analysis where
  planned : PlannedQuery
  stage : planned.physicalRoot.Object
  rows : List Row

namespace Analysis

/-- The counters of the whole run: what the scan has given out, what the query returned, the time
    of the root. -/
def global (analysis : Analysis) : GlobalStats :=
  globalStats analysis.planned analysis.stage analysis.rows

/-- The report of EXPLAIN ANALYZE: the plans, the stages with their counters, the global
    statistics, and the rows if they are asked for. -/
def toJson (analysis : Analysis) (includeResults : Bool) : Json :=
  let result :=
    if includeResults then
      [("result", Json.array (analysis.rows.map (·.toJson analysis.planned.outputSchema)))]
    else []
  .ofMembers (analysis.planned.planMembers ++
    [("physicalPlan", analysis.planned.physicalRoot.toJson analysis.stage true),
      ("globalStats", analysis.global.toJson)] ++ result)

end Analysis

/-- Run the query and keep the stages, for their counters.  It is `runPipeline` up to what is
    kept. -/
def analyze (clock : Clock) (table : Table) (pipelineJson : Json) : Except Exception Analysis :=
  match planQuery table pipelineJson with
  | .error e => .error e
  | .ok planned =>
    let done := execute planned.physicalRoot.planStage clock planned.physicalRoot.constructed
    done.result.map fun rows => { planned, stage := done.stage, rows }

/-- `explainAnalyzePipeline`.  A run that throws leaves no report. -/
def explainAnalyzePipeline (clock : Clock) (table : Table) (pipelineJson : Json)
    (includeResults : Bool) : Except Exception Json :=
  (analyze clock table pipelineJson).map (·.toJson includeResults)

end Run

end QueryLume
