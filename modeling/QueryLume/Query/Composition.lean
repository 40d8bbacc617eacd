/-
  Running one pipeline after another.

  A pipeline cut in two can be run in two: the first part on the table, the second on the rows the
  first returned, under its output schema (`runPipeline_append`), and so into any number of parts
  (`run_parts`).  The ways agree in everything, the exceptions included.

  1. **Parsing and binding** go stage by stage, so they can be done in parts: binding the later
     stages over a plan is binding them over any table of its output schema, and grafting the
     result.

  2. **The optimizer** sees different plans.  A sort that ends one part and a limit that begins the
     next become a top-k only when they are run together (`topK_alike_limit`); everywhere else the
     rewrite goes through the graft.

  3. **The tables between** are what a run returned, as tables of their own
     (`QueryResult.toTable`); they are as well formed as the first, which is what lets the argument
     go on for any number of parts.
-/
import QueryLume.Query.DoubleSort

namespace QueryLume

open LogicalPlanNode StdAlgorithms

/-! ## Parsing and binding in two parts -/

theorem parseStages_append (elements later : List Json) :
    parseStages (elements ++ later) = (parseStages elements).bind fun stages =>
      (parseStages later).map (stages ++ ·) :=
  Except.append_of_collects parseStages rfl parseStages_cons elements later

theorem parsePipeline_append {elements : List Json} {parsed : ParsedPipeline}
    (h : parsePipeline (.array elements) = .ok parsed) (later : List Json) :
    parsePipeline (.array (elements ++ later)) =
      (parsePipeline (.array later)).map fun next => { stages := parsed.stages ++ next.stages } := by
  obtain ⟨stages, hstages, rfl⟩ := Except.map_eq_ok h
  simp only [parsePipeline, parseStages_append, hstages, Except.bind]
  cases parseStages later <;> rfl

/-- Binding more stages over a plan is binding them over a table of its schema. -/
theorem bindPipeline_append {table between : Table} {parsed : ParsedPipeline}
    {plan : LogicalPlanNode} (hbind : bindPipeline table parsed = .ok plan)
    (hschema : between.schema = outputSchemaOf plan) (next : ParsedPipeline) :
    bindPipeline table { stages := parsed.stages ++ next.stages } =
      (bindPipeline between next).map (graft plan) := by
  have hfirst : bindStages (outputSchemaOf (.kScan table)) (.kScan table) parsed.stages = .ok plan :=
    hbind
  have hboth := bindStages_append parsed.stages next.stages (.kScan table)
  rw [hfirst, Except.bind] at hboth
  rw [bindPipeline, bindPipeline, hschema]
  exact hboth.trans (bindStages_graft plan next.stages (outputSchemaOf plan) (.kScan between))

/-! ## What is grafted -/

/-- A plan is itself on top of its scan. -/
theorem graft_scan : ∀ node : LogicalPlanNode, graft (.kScan node.table) node = node
  | .kScan _ => rfl
  | .kFilter child predicate => congrArg (kFilter · predicate) (graft_scan child)
  | .kProject child columnIndices fieldNames =>
    congrArg (kProject · columnIndices fieldNames) (graft_scan child)
  | .kSort child columnIndex fieldName direction =>
    congrArg (kSort · columnIndex fieldName direction) (graft_scan child)
  | .kLimit child limit => congrArg (kLimit · limit) (graft_scan child)
  | .kTopK child columnIndex fieldName direction k =>
    congrArg (kTopK · columnIndex fieldName direction k) (graft_scan child)

theorem table_graft (base : LogicalPlanNode) : ∀ rest : LogicalPlanNode,
    (graft base rest).table = base.table
  | .kScan _ => rfl
  | .kFilter child _ | .kProject child _ _ | .kSort child _ _ _ | .kLimit child _
  | .kTopK child _ _ _ _ => table_graft base child

theorem not_isSort_limit (child : LogicalPlanNode) (limit : Nat) : ¬ (kLimit child limit).IsSort := by
  rintro ⟨_, _, _, _, h⟩
  cases h

/-! ## Running in two parts -/

section Parts

variable [StdLibrary] {base rest : LogicalPlanNode} {opened : Opened}

omit [StdLibrary] in
/-- A base that yields rows without an exception yields what a scan over them does. -/
theorem alike_scan {table : Table} (hfinish : opened.feed.finish = none)
    (hrows : opened.feed.rows = table.rows) :
    opened.Alike { mark := 0, feed := .scan table.rows 0 } := by
  refine Feed.alike_of_eq ?_ ?_
  · rw [hrows, Feed.rows_scan]
  · rw [hfinish, Feed.finish_scan]

/-- **The boundary.**  A top-k over a sorted child yields what a limit over the sorted rows does. -/
theorem topK_alike_limit {child : LogicalPlanNode} {table : Table} {columnIndex : Nat}
    {fieldName : String} {direction : SortDirection} {k : Nat}
    (hbound : (kSort child columnIndex fieldName direction).WellBound)
    (htable : child.table.WellFormed)
    (hdenote : (buildPhysicalPlan (SortLimitToTopKRule.rewrite
      (.kSort child columnIndex fieldName direction)).1).denote = .ok opened)
    (hfinish : opened.feed.finish = none) (hrows : opened.feed.rows = table.rows) :
    SameOutcome Opened.Alike
      (buildPhysicalPlan (.kTopK (SortLimitToTopKRule.rewrite child).1 columnIndex fieldName
        direction k)).denote
      (buildPhysicalPlan (.kLimit (.kScan table) k)).denote := by
  obtain _ | _ | _ | ⟨below, addresses⟩ | _ | _ := hbound
  obtain ⟨hbelow, hbelowTable⟩ := below.rewrite
  obtain ⟨drained, hdrained, hblock⟩ := Except.bind_eq_ok hdenote
  have hok := hbelow.denote_feedOk (hbelowTable ▸ htable) drained hdrained
  rw [outputSchemaOf_rewrite] at hok
  have htopK : (buildPhysicalPlan (.kTopK (SortLimitToTopKRule.rewrite child).1 columnIndex
      fieldName direction k)).denote =
        .ok { opened with feed := opened.feed.limit k opened.mark } := by
    rw [buildPhysicalPlan, PlanStageTree.denote, hdrained]
    exact block_topK hok addresses hblock
  rw [htopK]
  exact .ok ((alike_scan hfinish hrows).limit k opened.mark 0)

/-- **Two parts.**  The optimized plan of a graft yields what the optimized plan of the rest yields
    over the rows its optimized base yields. -/
theorem denote_optimized_graft (hbound : base.WellBound) (htable : base.table.WellFormed)
    (hdenote : (optimizedPlan base).denote = .ok opened) (hfinish : opened.feed.finish = none)
    (hrows : opened.feed.rows = rest.table.rows) :
    SameOutcome Opened.Alike (optimizedPlan (graft base rest)).denote
      (optimizedPlan rest).denote := by
  unfold optimizedPlan at hdenote ⊢
  rw [Optimizer.optimize_fst] at hdenote ⊢
  by_cases hboundary : base.IsSort ∧ rest.LimitsScan
  · -- the limit that begins the rest meets the sort that ends the base
    obtain ⟨⟨child, columnIndex, fieldName, direction, rfl⟩, above, table, k, rfl⟩ := hboundary
    rw [table_graft] at hrows
    have hpair : (Optimizer.optimize (graft (.kLimit (.kSort child columnIndex fieldName direction) k)
        above)).1 = graft (.kTopK (SortLimitToTopKRule.rewrite child).1 columnIndex fieldName
          direction k) (SortLimitToTopKRule.rewrite above).1 := optimize_pair
    rw [graft_graft, Optimizer.optimize_fst, rewrite_graft _ _ (.inl (not_isSort_limit _ k))]
    rw [Optimizer.optimize_fst] at hpair
    rw [show graft (graft (.kSort child columnIndex fieldName direction) (.kLimit (.kScan table) k))
      above = graft (.kLimit (.kSort child columnIndex fieldName direction) k) above from rfl, hpair]
    exact denote_graft (topK_alike_limit hbound htable hdenote hfinish hrows) _
  · have hapart : ¬ base.IsSort ∨ ¬ rest.LimitsScan := not_and_or.mp hboundary
    rw [Optimizer.optimize_fst, rewrite_graft _ _ hapart]
    have hscan := graft_scan (SortLimitToTopKRule.rewrite rest).1
    rw [(SortLimitToTopKRule.rewrite_links rest).2.1] at hscan
    have hbase : SameOutcome Opened.Alike
        (buildPhysicalPlan (SortLimitToTopKRule.rewrite base).1).denote
        (buildPhysicalPlan (.kScan rest.table)).denote := by
      rw [hdenote]
      exact .ok (alike_scan hfinish hrows)
    have hsame := denote_graft hbase (SortLimitToTopKRule.rewrite rest).1
    rwa [hscan] at hsame

end Parts

/-- The rows a run returned, as a table of its own. -/
def QueryResult.toTable (result : QueryResult) : Table where
  schema := result.outputSchema
  rows := result.rows

section Pipelines

variable [StdLibrary] {table : Table} {clock : Clock}

/-- **Composition.**  After a pipeline that returned, running it and more stages is running the
    stages on what it returned: the same rows under the same schema, or the same exception. -/
theorem runPipeline_append {elements : List Json} {result : QueryResult}
    (htable : table.WellFormed)
    (h : runPipeline clock table (.array elements) = .ok result) (later : List Json)
    (clock' clock'' : Clock) :
    runPipeline clock' table (.array (elements ++ later)) =
      runPipeline clock'' result.toTable (.array later) := by
  obtain ⟨parsed, plan, opened, hparse, hbind, hdenote, hfinish, hrows, hschema⟩ := runPipeline_ok h
  obtain ⟨hbound, htablePlan⟩ := bindPipeline_wellBound hbind
  have hparseBoth := parsePipeline_append hparse later
  cases hnext : parsePipeline (.array later) with
  | error e =>
    rw [hnext] at hparseBoth
    simp only [runPipeline, planQuery, hparseBoth, hnext, Except.map]
  | ok next =>
    rw [hnext] at hparseBoth
    have hbetween : result.toTable.schema = outputSchemaOf plan := hschema
    have hbindBoth := bindPipeline_append hbind hbetween next
    cases hrest : bindPipeline result.toTable next with
    | error e =>
      rw [hrest] at hbindBoth
      simp only [runPipeline, planQuery, hparseBoth, hnext, Except.map, hbindBoth, hrest]
    | ok rest =>
      rw [hrest] at hbindBoth
      obtain ⟨-, hrestTable⟩ := bindPipeline_wellBound hrest
      rw [runPipeline_eq hparseBoth hbindBoth, runPipeline_eq hnext hrest]
      have hschemaBoth : outputSchemaOf (graft plan rest) = outputSchemaOf rest := by
        have hbase : outputSchemaOf plan = outputSchemaOf (.kScan rest.table) := by
          rw [hrestTable]
          exact hschema.symm
        rw [outputSchemaOf_graft hbase, graft_scan]
      have hrestRows : opened.feed.rows = rest.table.rows := by
        rw [hrestTable]
        exact hrows.symm
      have hsame := denote_optimized_graft hbound (htablePlan ▸ htable) hdenote hfinish hrestRows
      rw [hschemaBoth]
      generalize (optimizedPlan (graft plan rest)).denote = denoted at hsame ⊢
      generalize (optimizedPlan rest).denote = denoted' at hsame ⊢
      cases hsame with
      | error e => rfl
      | ok alike => simp only [Except.bind, Feed.Alike.collect alike]

/-- No stages return the table. -/
theorem runPipeline_nil :
    runPipeline clock table (.array []) = .ok { rows := table.rows, outputSchema := table.schema } := by
  have hparse : parsePipeline (.array []) = .ok { stages := [] } := rfl
  have hbind : bindPipeline table { stages := [] } = .ok (.kScan table) := rfl
  have hdenote : (optimizedPlan (.kScan table)).denote =
      .ok { mark := 0, feed := .scan table.rows 0 } := rfl
  rw [runPipeline_of_denote hparse hbind hdenote (Feed.finish_scan _ _), Feed.rows_scan]
  rfl

/-- What a run returns is a table again, as well formed as the one it ran on. -/
theorem toTable_wellFormed {pipelineJson : Json} {result : QueryResult}
    (htable : table.WellFormed) (h : runPipeline clock table pipelineJson = .ok result) :
    result.toTable.WellFormed := by
  have hok := runPipeline_feedOk htable h
  constructor
  · intro row hrow
    exact (hok.derived row hrow).length_eq
  · exact hok.distinct

/-- Run one pipeline after another, each on what the one before returned. -/
def runParts (clock : Clock) (table : Table) (parts : List (List Json)) : Except Exception Table :=
  parts.foldlM (fun table part => (runPipeline clock table (.array part)).map QueryResult.toTable)
    table

/-- The first part came through, and so did the others on what it returned. -/
theorem runParts_cons_ok {part : List Json} {parts : List (List Json)} {between : Table}
    (h : runParts clock table (part :: parts) = .ok between) :
    ∃ result, runPipeline clock table (.array part) = .ok result ∧
      runParts clock result.toTable parts = .ok between := by
  rw [runParts, List.foldlM_cons] at h
  obtain ⟨next, hpart, hparts⟩ := Except.bind_eq_ok h
  obtain ⟨result, hresult, rfl⟩ := Except.map_eq_ok hpart
  exact ⟨result, hresult, hparts⟩

/-- **Any number of parts.**  However a pipeline is cut, when its parts come through one after the
    other the whole does what the rest does to the table between. -/
theorem run_parts {parts : List (List Json)} {between : Table} (htable : table.WellFormed)
    (h : runParts clock table parts = .ok between) (later : List Json) (clock' clock'' : Clock) :
    between.WellFormed ∧
      runPipeline clock' table (.array (parts.flatten ++ later)) =
        runPipeline clock'' between (.array later) := by
  induction parts generalizing table with
  | nil =>
    obtain rfl := Except.ok.inj h
    have hnone : runPipeline clock table (.array []) =
        .ok { rows := table.rows, outputSchema := table.schema } := runPipeline_nil
    exact ⟨htable, runPipeline_append htable hnone later clock' clock''⟩
  | cons part parts ih =>
    obtain ⟨result, hpart, hparts⟩ := runParts_cons_ok h
    obtain ⟨hbetween, hrest⟩ := ih (toTable_wellFormed htable hpart) hparts
    refine ⟨hbetween, ?_⟩
    rw [List.flatten_cons, List.append_assoc, ← hrest]
    exact runPipeline_append htable hpart _ clock' clock'

end Pipelines

/-- The sort runs in the first part, the limit over it in the second. -/
theorem run_parts_sample :
    letI := StdLibrary.reference
    runPipeline Clock.still sampleTable
        (.array ([[.object [("$sort", .object [("a", .numberInteger 1)])]],
          [.object [("$limit", .numberInteger 1)]]].flatten ++ [])) =
      .ok { rows := [{ ordinal := 1, values := [.int64 1] }], outputSchema := { fields := ["a"] } } :=
  (@run_parts StdLibrary.reference sampleTable Clock.still _
    { rows := [{ ordinal := 1, values := [.int64 1] }], schema := { fields := ["a"] } }
    sampleTable_wellFormed rfl [] Clock.still Clock.still).2

end QueryLume
