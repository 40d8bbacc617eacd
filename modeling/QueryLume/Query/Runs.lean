/-
  What a run of a pipeline returns, in terms of the denotation of its optimized plan, and what
  loading guarantees about the table it runs on.

  These are the facts every later module begins with: a run is parse, bind, optimize, open and
  collect (`runPipeline_eq`, and `runPipeline_ok` for one that returned), the clock plays no role
  in it, and the rows that come out fit the output schema (`runPipeline_feedOk`).
-/
import QueryLume.Data.LoadedTable
import QueryLume.Explain.QueryFacade
import QueryLume.Physical.Equivalence

namespace QueryLume

/-! ## Loaded tables are well formed -/

/-- A loaded table has one ordinal for each row, and rows as wide as its schema. -/
theorem loadTableFromJson_wellFormed {document : Json} {table : Table}
    (h : loadTableFromJson document = .ok table) : table.WellFormed := by
  obtain ⟨hwide, count, hordinals⟩ := loadTableFromJson_shape h
  refine ⟨hwide, ?_⟩
  rw [DistinctOrdinals, hordinals]
  exact List.nodup_range'

/-- The document behind a row. -/
theorem LoadedFrom.document {documents : List Json} {table : Table} (h : LoadedFrom documents table)
    {row : Row} (hrow : row ∈ table.rows) :
    ∃ document, documents[row.ordinal]? = some document ∧
      List.Forall₂ (fun name value => documentCell document name = .ok value)
        table.schema.fields row.values := by
  obtain ⟨⟨document, i⟩, hmem, hordinal, hcells⟩ := h.rows.exists_of_mem_right hrow
  refine ⟨document, ?_, hcells⟩
  rw [hordinal]
  exact List.mk_mem_zipIdx_iff_getElem?.mp hmem

/-- A cell of a row, found by the name of its column. -/
theorem LoadedFrom.cell {documents : List Json} {table : Table} (h : LoadedFrom documents table)
    {row : Row} (hrow : row ∈ table.rows) {column : Nat} {name : String} {value : Value}
    (hname : table.schema.Addresses column name) (hvalue : row.values[column]? = some value) :
    ∃ document, documents[row.ordinal]? = some document ∧ documentCell document name = .ok value := by
  obtain ⟨document, hdocument, hcells⟩ := h.document hrow
  obtain ⟨hfield, rfl⟩ := List.getElem?_eq_some_iff.mp hname
  obtain ⟨hcell, rfl⟩ := List.getElem?_eq_some_iff.mp hvalue
  exact ⟨document, hdocument, (List.forall₂_iff_get.mp hcells).2 column hfield hcell⟩

/-! ## Plans -/

section Plans

variable [StdLibrary]

/-- Open the physical plan of a node, pull it to its end, and close it. -/
def runPlan (clock : Clock) (node : LogicalPlanNode) : Except Exception (List Row) :=
  (execute (buildPhysicalPlan node).planStage clock (buildPhysicalPlan node).constructed).result

/-- A run of a plan opens it and collects what it gives out. -/
theorem runPlan_denote (clock : Clock) (node : LogicalPlanNode) :
    runPlan clock node =
      (buildPhysicalPlan node).denote.bind fun opened => opened.feed.collect :=
  (buildPhysicalPlan node).execute_denote clock

/-- A run that returned rows, seen from the plan. -/
theorem runPlan_ok {clock : Clock} {node : LogicalPlanNode} {rows : List Row}
    (h : runPlan clock node = .ok rows) :
    ∃ opened, (buildPhysicalPlan node).denote = .ok opened ∧ opened.feed.finish = none ∧
      opened.feed.rows = rows := by
  rw [runPlan_denote] at h
  obtain ⟨opened, hdenote, hcollect⟩ := Except.bind_eq_ok h
  obtain ⟨hfinish, hrows⟩ := Feed.collect_eq_ok.mp hcollect
  exact ⟨opened, hdenote, hfinish, hrows⟩

/-- A plan that does not open throws what opening throws. -/
theorem runPlan_error {clock : Clock} {node : LogicalPlanNode} {e : Exception}
    (h : (buildPhysicalPlan node).denote = .error e) : runPlan clock node = .error e := by
  rw [runPlan_denote, h]
  rfl

end Plans

/-! ## Runs -/

section Runs

variable [StdLibrary] {clock : Clock} {table : Table} {pipelineJson : Json}
  {parsed : ParsedPipeline} {plan : LogicalPlanNode}

/-- The plan a run executes. -/
def optimizedPlan (plan : LogicalPlanNode) : PlanStageTree :=
  buildPhysicalPlan (Optimizer.optimize plan).1

omit [StdLibrary] in
/-- What was planned, seen from the plan that was bound. -/
theorem planQuery_ok {planned : PlannedQuery} (h : planQuery table pipelineJson = .ok planned) :
    ∃ parsed plan, parsePipeline pipelineJson = .ok parsed ∧ bindPipeline table parsed = .ok plan ∧
      planned.physicalRoot = optimizedPlan plan ∧ planned.outputSchema = outputSchemaOf plan := by
  cases hparse : parsePipeline pipelineJson with
  | error e => simp only [planQuery, hparse] at h; cases h
  | ok parsed =>
    cases hbind : bindPipeline table parsed with
    | error e => simp only [planQuery, hparse, hbind] at h; cases h
    | ok plan =>
      simp only [planQuery, hparse, hbind] at h
      obtain rfl := Except.ok.inj h
      refine ⟨parsed, plan, rfl, hbind, rfl, ?_⟩
      rw [Optimizer.optimize_fst, outputSchemaOf_rewrite]

/-- **Runs.**  A run of an accepted pipeline returns what its optimized plan denotes. -/
theorem runPipeline_eq (hparse : parsePipeline pipelineJson = .ok parsed)
    (hbind : bindPipeline table parsed = .ok plan) :
    runPipeline clock table pipelineJson =
      ((optimizedPlan plan).denote.bind fun opened => opened.feed.collect).map
        fun rows => { rows, outputSchema := outputSchemaOf plan } := by
  simp only [runPipeline, planQuery, hparse, hbind, PlanStageTree.execute_denote]
  rw [Optimizer.optimize_fst, outputSchemaOf_rewrite]
  rfl

/-- The same, by running the optimized plan. -/
theorem runPipeline_runPlan (hparse : parsePipeline pipelineJson = .ok parsed)
    (hbind : bindPipeline table parsed = .ok plan) :
    runPipeline clock table pipelineJson = (runPlan clock (Optimizer.optimize plan).1).map
      fun rows => { rows, outputSchema := outputSchemaOf plan } := by
  rw [runPipeline_eq hparse hbind, runPlan_denote]
  rfl

/-- A run that returned, seen from its plan. -/
theorem runPipeline_ok {result : QueryResult}
    (h : runPipeline clock table pipelineJson = .ok result) :
    ∃ parsed plan opened, parsePipeline pipelineJson = .ok parsed ∧
      bindPipeline table parsed = .ok plan ∧ (optimizedPlan plan).denote = .ok opened ∧
      opened.feed.finish = none ∧ result.rows = opened.feed.rows ∧
      result.outputSchema = outputSchemaOf plan := by
  unfold runPipeline at h
  cases hplanned : planQuery table pipelineJson with
  | error e => rw [hplanned] at h; cases h
  | ok planned =>
    rw [hplanned] at h
    obtain ⟨parsed, plan, hparse, hbind, hroot, hschema⟩ := planQuery_ok hplanned
    obtain ⟨rows, hrows, rfl⟩ := Except.map_eq_ok h
    rw [planned.physicalRoot.execute_denote, hroot] at hrows
    obtain ⟨opened, hdenote, hcollect⟩ := Except.bind_eq_ok hrows
    obtain ⟨hfinish, rfl⟩ := Feed.collect_eq_ok.mp hcollect
    exact ⟨parsed, plan, opened, hparse, hbind, hdenote, hfinish, rfl, hschema⟩

/-- A plan that comes through to its end, seen from outside. -/
theorem runPipeline_of_denote (hparse : parsePipeline pipelineJson = .ok parsed)
    (hbind : bindPipeline table parsed = .ok plan) {opened : Opened}
    (hdenote : (optimizedPlan plan).denote = .ok opened) (hfinish : opened.feed.finish = none) :
    runPipeline clock table pipelineJson =
      .ok { rows := opened.feed.rows, outputSchema := outputSchemaOf plan } := by
  rw [runPipeline_eq hparse hbind, hdenote, Except.bind, Feed.collect_eq_ok.mpr ⟨hfinish, rfl⟩]
  rfl

/-- The rows of a run over a well-formed table are derived from it. -/
theorem runPipeline_feedOk {result : QueryResult} (htable : table.WellFormed)
    (h : runPipeline clock table pipelineJson = .ok result) :
    FeedOk table result.outputSchema result.rows := by
  obtain ⟨parsed, plan, opened, -, hbind, hdenote, -, hrows, hschema⟩ := runPipeline_ok h
  obtain ⟨hbound, rfl⟩ := bindPipeline_wellBound hbind
  obtain ⟨hbound', htable'⟩ := hbound.rewrite
  have hok := hbound'.denote_feedOk (htable' ▸ htable) opened hdenote
  rw [htable', outputSchemaOf_rewrite] at hok
  rw [hrows, hschema]
  exact hok

end Runs

end QueryLume
