/-
  Pipelines without a `$sort` and a `$limit`.

  Their stages keep no state, so the iterators that run them amount to ONE function of a row, the
  same for every table with the schema: a run applies it to the rows in order, and is over at the
  first it rejects (`run_streaming`).  So they can be run on the parts of a table
  (`run_partition`).

  The function is read off the plan (`LogicalPlanNode.perRow`), a filter and a projection each
  being a case of `Feed.filterMapM`; what becomes of lists under it is in
  `Foundation/RowWise.lean`.  The optimizer finds nothing to do in such a plan.
-/
import QueryLume.Foundation.RowWise
import QueryLume.Query.Composition

namespace QueryLume

open LogicalPlanNode

/-- Does the stage handle every row by itself? -/
def ParsedStage.streams : ParsedStage → Bool
  | .kMatch _ => true
  | .kProject _ => true
  | .kSort _ => false
  | .kLimit _ => false

namespace LogicalPlanNode

/-- A plan of filters and projections. -/
def streams : LogicalPlanNode → Bool
  | .kScan _ => true
  | .kFilter child _ => child.streams
  | .kProject child _ _ => child.streams
  | .kSort _ _ _ _ => false
  | .kLimit _ _ => false
  | .kTopK _ _ _ _ _ => false

/-- What such a plan makes of one row of its table. -/
def perRow : LogicalPlanNode → Row → Except Exception (Option Row)
  | .kFilter child predicate =>
    Feed.andThen child.perRow fun row =>
      (predicate.test row).map fun accepted => if accepted then some row else none
  | .kProject child columnIndices _ =>
    Feed.andThen child.perRow fun row => (ProjectStage.project columnIndices row).map some
  | .kScan _ | .kSort _ _ _ _ | .kLimit _ _ | .kTopK _ _ _ _ _ => fun row => .ok (some row)

/-- The optimizer finds nothing in it. -/
theorem rewrite_streaming (table : Table) : ∀ node : LogicalPlanNode, node.streams = true →
    (SortLimitToTopKRule.rewrite (graft (.kScan table) node)).1 = graft (.kScan table) node
  | .kScan _, _ => rfl
  | .kFilter child predicate, h =>
    congrArg (kFilter · predicate) (rewrite_streaming table child h)
  | .kProject child columnIndices fieldNames, h =>
    congrArg (kProject · columnIndices fieldNames) (rewrite_streaming table child h)

/-- **Row by row.**  Whatever the table, the plan yields what the function makes of its rows. -/
theorem denote_streaming [StdLibrary] (table : Table) : ∀ node : LogicalPlanNode,
    node.streams = true → (buildPhysicalPlan (graft (.kScan table) node)).denote =
      .ok { mark := 0, feed := (Feed.scan table.rows 0).filterMapM node.perRow }
  | .kScan _, _ => by
    show Except.ok _ = _
    rw [perRow, Feed.filterMapM_some]
  | .kFilter child predicate, h => by
    rw [graft, buildPhysicalPlan, PlanStageTree.denote, denote_streaming table child h]
    simp only [Except.map, perRow, Feed.filter_eq_filterMapM, Feed.filterMapM_filterMapM]
  | .kProject child columnIndices _, h => by
    rw [graft, buildPhysicalPlan, PlanStageTree.denote, denote_streaming table child h]
    simp only [Except.map, perRow, Feed.mapRows_eq_filterMapM, Feed.filterMapM_filterMapM]

end LogicalPlanNode

/-- Binding such stages makes such a plan. -/
theorem bindStages_streams : ∀ {stages : List ParsedStage} {schema : Schema}
    {node plan : LogicalPlanNode}, (∀ stage ∈ stages, stage.streams = true) → node.streams = true →
    bindStages schema node stages = .ok plan → plan.streams = true
  | [], _, _, _, _, hnode, h => Except.ok.inj h ▸ hnode
  | stage :: stages, schema, node, plan, hstages, hnode, h => by
    obtain ⟨hstage, hrest⟩ := List.forall_mem_cons.mp hstages
    obtain ⟨schema', node', hbind, h⟩ := bindStages_cons_ok h
    have hnode' : node'.streams = true := by
      cases bindStage_cases hbind with
      | «match» | project => exact hnode
      | sort | limit => cases hstage
    exact bindStages_streams hrest hnode' h

/-- The same stages over another table of the schema. -/
theorem bindPipeline_rows (table between : Table) (hschema : between.schema = table.schema)
    (parsed : ParsedPipeline) :
    bindPipeline table parsed = (bindPipeline between parsed).map (graft (.kScan table)) := by
  have hnone : bindPipeline table { stages := [] } = .ok (.kScan table) := rfl
  exact bindPipeline_append hnone hschema parsed

section Runs

variable [StdLibrary] {pipelineJson : Json} {parsed : ParsedPipeline}

/-- What a run over another table of the schema returns. -/
theorem runPipeline_streaming {table between : Table} {plan : LogicalPlanNode} {clock : Clock}
    (hparse : parsePipeline pipelineJson = .ok parsed)
    (hbind : bindPipeline table parsed = .ok plan)
    (hstreams : ∀ stage ∈ parsed.stages, stage.streams = true)
    (hschema : between.schema = table.schema) :
    runPipeline clock between pipelineJson = (between.rows.filterMapM plan.perRow).map
      fun rows => { rows, outputSchema := outputSchemaOf plan } := by
  have hplan : plan.streams = true := bindStages_streams hstreams rfl hbind
  have hbetween : bindPipeline between parsed = .ok (graft (.kScan between) plan) := by
    rw [bindPipeline_rows between table hschema.symm, hbind]
    rfl
  have hscan : outputSchemaOf (.kScan between) = outputSchemaOf (.kScan plan.table) := by
    rw [(bindPipeline_wellBound hbind).2]
    exact hschema
  rw [runPipeline_eq hparse hbetween, optimizedPlan, Optimizer.optimize_fst,
    rewrite_streaming between plan hplan, denote_streaming between plan hplan, outputSchemaOf_graft hscan,
    graft_scan, Except.bind, Feed.collect_filterMapM_scan]

/-- **One function of a row.**  A pipeline of `$match` and `$project` stages that is accepted over a
    schema is a function of a single row: on every table with the schema, a run applies it to the
    rows one after the other and keeps what it lets through, up to the first row it rejects. -/
theorem run_streaming {table : Table} {plan : LogicalPlanNode}
    (hparse : parsePipeline pipelineJson = .ok parsed)
    (hbind : bindPipeline table parsed = .ok plan)
    (hstreams : ∀ stage ∈ parsed.stages, stage.streams = true) :
    ∃ f : Row → Except Exception (Option Row), ∀ (rows : List Row) (clock : Clock),
      runPipeline clock { table with rows } pipelineJson = (rows.filterMapM f).map
        fun rows => { rows, outputSchema := outputSchemaOf plan } :=
  ⟨plan.perRow, fun _ _ => runPipeline_streaming hparse hbind hstreams rfl⟩

/-- The stages, where they parse, are filters and projections. -/
def StreamsOnly (pipelineJson : Json) : Prop :=
  ∀ parsed, parsePipeline pipelineJson = .ok parsed → ∀ stage ∈ parsed.stages,
    stage.streams = true

/-- **Parts of a table.**  Such a pipeline can be run on two parts of a table one after the other:
    the rows come out in order, and an exception is that of the first part that throws. -/
theorem run_partition (schema : Schema) (rows rows' : List Row) (clock clock' clock'' : Clock)
    (hstreams : StreamsOnly pipelineJson) :
    runPipeline clock { schema, rows := rows ++ rows' } pipelineJson =
      (runPipeline clock' { schema, rows } pipelineJson).bind fun first =>
        (runPipeline clock'' { schema, rows := rows' } pipelineJson).map fun second =>
          { first with rows := first.rows ++ second.rows } := by
  cases hparse : parsePipeline pipelineJson with
  | error e => simp only [runPipeline, planQuery, hparse, Except.bind]
  | ok parsed =>
    cases hbind : bindPipeline { schema, rows } parsed with
    | error e =>
      have hboth : bindPipeline { schema, rows := rows ++ rows' } parsed = .error e := by
        rw [bindPipeline_rows { schema, rows := rows ++ rows' } { schema, rows } rfl, hbind]
        rfl
      simp only [runPipeline, planQuery, hparse, hbind, hboth, Except.bind]
    | ok plan =>
      have hrun : ∀ (rows : List Row) (clock : Clock), runPipeline clock { schema, rows }
          pipelineJson = (rows.filterMapM plan.perRow).map
            fun rows => { rows, outputSchema := outputSchemaOf plan } := fun rows clock =>
        runPipeline_streaming hparse hbind (hstreams parsed hparse) rfl
      rw [hrun, hrun, hrun, Except.filterMapM_append]
      cases rows.filterMapM plan.perRow with
      | error e => rfl
      | ok first => cases rows'.filterMapM plan.perRow <;> rfl

end Runs

/-- The pipeline that keeps the rows with `a` above 0. -/
def keepPositive : Json :=
  .array [.object [("$match", .object [("a", .object [("$gt", .numberInteger 0)])])]]

/-- One function for every table with the column. -/
theorem run_streaming_sample :
    letI := StdLibrary.reference
    ∃ f : Row → Except Exception (Option Row), ∀ (rows : List Row) (clock : Clock),
      runPipeline clock { sampleTable with rows } keepPositive =
        (rows.filterMapM f).map fun rows => { rows, outputSchema := { fields := ["a"] } } :=
  @run_streaming StdLibrary.reference keepPositive
    { stages := [.kMatch { predicates := [⟨⟨"a"⟩, "$gt", .int64 0⟩] }] } sampleTable _ rfl rfl
    (by simp [ParsedStage.streams])

/-- The second part throws: its cell is a string. -/
theorem run_partition_sample :
    letI := StdLibrary.reference
    let text : Row := { ordinal := 2, values := [.string "x"] }
    ∃ message, runPipeline Clock.still { sampleTable with rows := sampleTable.rows ++ [text] }
      keepPositive = .error (.queryLumeError .kIncompatibleTypes message) :=
  ⟨_, @run_partition StdLibrary.reference keepPositive sampleTable.schema sampleTable.rows
    [{ ordinal := 2, values := [.string "x"] }] Clock.still Clock.still Clock.still (by
      intro parsed hparse
      obtain rfl := Except.ok.inj hparse
      simp [ParsedStage.streams])⟩

end QueryLume
