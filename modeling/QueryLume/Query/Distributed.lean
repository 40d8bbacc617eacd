/-
  Tables whose rows stand in another order, and tables in parts.

  1. **Another order** — filters and projections take the rows one by one, so their output is
     rearranged as the table is; a sort that finds all of it comparable has only one arrangement to
     give out.  From there on no stage can tell the tables apart (`run_rearranged`).

  2. **Parts** — for the same reason the first rows of a sort can be found part by part: run the
     pipeline on every part of the table, put the results together, and sort and limit once more
     (`run_topK_parts`).  What a part returns stands for the part, however the parts are
     interleaved in the table.

  Both are about pipelines that were accepted once, on other rows of the same schema
  (`runPipeline_withRows`): acceptance does not look at the rows.
-/
import QueryLume.Foundation.SelectionParts
import QueryLume.Query.Streaming

namespace QueryLume

open BoundedHeap LogicalPlanNode StdAlgorithms

/-! ## Parts of a table -/

/-- The table with other rows: what is parsed and bound over it stays the same. -/
def Table.withRows (table : Table) (rows : List Row) : Table where
  schema := table.schema
  rows := rows

namespace Table.WellFormed

variable {table : Table} {rows : List Row}

/-- A well-formed table stays one when its rows are rearranged. -/
theorem perm (h : table.WellFormed) (hperm : rows.Perm table.rows) :
    (table.withRows rows).WellFormed :=
  ⟨fun row hrow => h.wide row (hperm.mem_iff.mp hrow), h.distinct.perm hperm⟩

theorem sublist (h : table.WellFormed) (hsub : rows.Sublist table.rows) :
    (table.withRows rows).WellFormed :=
  ⟨fun row hrow => h.wide row (hsub.subset hrow), h.distinct.sublist hsub⟩

/-- The tables of the parts, which may stand in the whole in any order. -/
theorem part {parts : List (List Row)} (h : table.WellFormed)
    (hparts : parts.flatten.Perm table.rows) {part : List Row} (hpart : part ∈ parts) :
    (table.withRows part).WellFormed :=
  (h.perm hparts).sublist (List.sublist_flatten_of_mem hpart)

end Table.WellFormed

/-! ## A sort over a table, alone and under a limit

  The last stages of the pipeline by themselves, over any rows of a schema.  The comparator is
  bound to the schema, so it is the same for a table, for a part of it and for what the parts
  return. -/

/-- A `$limit` stage. -/
def limitJson (value : Json) : Json := .object [("$limit", value)]

/-- A `$limit` stage is parsed by the parser of limits. -/
theorem parseStage_limitJson (value : Json) :
    parseStage (limitJson value) = (parseLimit value).map .kLimit := by
  unfold parseStage limitJson
  dsimp only
  rw [if_neg (by decide), if_neg (by decide), if_neg (by decide), if_pos rfl]

theorem parseStage_limit {value : Json} {stage : ParsedStage}
    (h : parseStage (limitJson value) = .ok stage) : ∃ limit, stage = .kLimit limit := by
  rw [parseStage_limitJson] at h
  obtain ⟨limit, -, rfl⟩ := Except.map_eq_ok h
  exact ⟨limit, rfl⟩

theorem bindStage_limit_ok {schema schema' : Schema} {node node' : LogicalPlanNode}
    {limit : ParsedLimitStage} (h : bindStage schema node (.kLimit limit) = .ok (schema', node')) :
    schema' = schema ∧ ∃ count, node' = .kLimit node count := by
  obtain ⟨count, -, heq⟩ := Except.map_eq_ok h
  obtain ⟨rfl, rfl⟩ := Prod.mk.inj heq
  exact ⟨rfl, count, rfl⟩

section SortStage

variable [StdLibrary] {table : Table} {clock : Clock} {value count : Json}
  {result : QueryResult}

/-- A pipeline that was accepted, on other rows of the schema. -/
theorem runPipeline_withRows {pipelineJson : Json} {parsed : ParsedPipeline}
    {plan : LogicalPlanNode} (hparse : parsePipeline pipelineJson = .ok parsed)
    (hbind : bindPipeline table parsed = .ok plan) (clock : Clock) (rows : List Row) :
    runPipeline clock (table.withRows rows) pipelineJson =
      ((optimizedPlan (graft (.kScan (table.withRows rows)) plan)).denote.bind
        fun opened => opened.feed.collect).map
          fun rows => { rows, outputSchema := outputSchemaOf plan } := by
  have hother : bindPipeline (table.withRows rows) parsed =
      .ok (graft (.kScan (table.withRows rows)) plan) := by
    rw [bindPipeline_rows (table.withRows rows) table rfl, hbind]
    rfl
  have hscan : outputSchemaOf (.kScan (table.withRows rows)) = outputSchemaOf (.kScan plan.table) := by
    rw [(bindPipeline_wellBound hbind).2]
    rfl
  rw [runPipeline_eq hparse hother, outputSchemaOf_graft hscan, graft_scan]

omit [StdLibrary] in
/-- Rows a blocking stage arranged all come through. -/
theorem collect_arranged (arranged : Except Exception (List Row)) (mark : Nat) :
    ((arranged.map fun rows => ({ mark, feed := .ofList mark rows } : Opened)).bind
      fun opened => opened.feed.collect) = arranged := by
  cases arranged with
  | error e => rfl
  | ok rows => exact Feed.collect_eq_ok.mpr ⟨Feed.finish_ofList mark rows, Feed.rows_ofList mark rows⟩

section Plans

variable {pipelineJson : Json} {parsed : ParsedPipeline} {columnIndex k : Nat} {fieldName : String}
  {direction : SortDirection}

/-- A sort over a table, on other rows of the schema. -/
theorem runPipeline_sortPlan (hparse : parsePipeline pipelineJson = .ok parsed)
    (hbind : bindPipeline table parsed = .ok (.kSort (.kScan table) columnIndex fieldName direction))
    (clock : Clock) (rows : List Row) :
    runPipeline clock (table.withRows rows) pipelineJson =
      (stdSort (RowComparator.call { columnIndex, direction }) rows).map
        fun rows => { rows, outputSchema := table.schema } := by
  have hscan : (buildPhysicalPlan (.kScan (table.withRows rows))).denote =
      .ok { mark := 0, feed := .scan rows 0 } := rfl
  rw [runPipeline_withRows hparse hbind]
  show ((buildPhysicalPlan (.kSort (.kScan (table.withRows rows)) columnIndex fieldName
    direction)).denote.bind _).map _ = _
  rw [denote_sort hscan (Feed.finish_scan _ _), Feed.rows_scan, collect_arranged]
  rfl

/-- With a limit over it the optimizer makes it a top-k. -/
theorem runPipeline_topKPlan (hparse : parsePipeline pipelineJson = .ok parsed)
    (hbind : bindPipeline table parsed =
      .ok (.kLimit (.kSort (.kScan table) columnIndex fieldName direction) k))
    (clock : Clock) (rows : List Row) :
    runPipeline clock (table.withRows rows) pipelineJson =
      (select (RowComparator.call { columnIndex, direction }) k rows).map
        fun rows => { rows, outputSchema := table.schema } := by
  have hscan : (buildPhysicalPlan (.kScan (table.withRows rows))).denote =
      .ok { mark := 0, feed := .scan rows 0 } := rfl
  rw [runPipeline_withRows hparse hbind]
  show ((buildPhysicalPlan (.kTopK (.kScan (table.withRows rows)) columnIndex fieldName
    direction k)).denote.bind _).map _ = _
  rw [denote_topK hscan (Feed.finish_scan _ _), Feed.rows_scan, collect_arranged]
  rfl

end Plans

omit [StdLibrary] in
theorem parsePipeline_sort {parsed : ParsedPipeline}
    (h : parsePipeline (.array [sortJson value]) = .ok parsed) :
    ∃ sort, parsed = ⟨[.kSort sort]⟩ := by
  obtain ⟨stages, hstages, rfl⟩ := Except.map_eq_ok h
  cases parseStages_ok.mp hstages with
  | cons hstage hnone =>
    cases hnone
    obtain ⟨sort, rfl⟩ := parseStage_sort hstage
    exact ⟨sort, rfl⟩

omit [StdLibrary] in
/-- A `$sort` under a `$limit` that was accepted; the sort alone is accepted, too. -/
theorem parsePipeline_sort_limit {parsed : ParsedPipeline}
    (h : parsePipeline (.array [sortJson value, limitJson count]) = .ok parsed) :
    ∃ sort limit, parsePipeline (.array [sortJson value]) = .ok ⟨[.kSort sort]⟩ ∧
      parsed = ⟨[.kSort sort, .kLimit limit]⟩ := by
  obtain ⟨stages, hstages, rfl⟩ := Except.map_eq_ok h
  cases parseStages_ok.mp hstages with
  | cons hsort hrest =>
    cases hrest with
    | cons hlimit hnone =>
      cases hnone
      obtain ⟨sort, rfl⟩ := parseStage_sort hsort
      obtain ⟨limit, rfl⟩ := parseStage_limit hlimit
      refine ⟨sort, limit, ?_, rfl⟩
      rw [parsePipeline, parseStages_ok.mpr (.cons hsort .nil)]
      rfl

/-- What a sort that came through once does to other rows of the schema. -/
theorem runPipeline_sort (h : runPipeline clock table (.array [sortJson value]) = .ok result) :
    ∃ sort columnIndex direction, parsePipeline (.array [sortJson value]) = .ok ⟨[.kSort sort]⟩ ∧
      table.schema.Addresses columnIndex sort.field.fieldName ∧
      ∀ (clock : Clock) (rows : List Row),
        runPipeline clock (table.withRows rows) (.array [sortJson value]) =
          (stdSort (RowComparator.call { columnIndex, direction }) rows).map
            fun rows => { rows, outputSchema := table.schema } := by
  obtain ⟨parsed, plan, -, hparse, hbind, -⟩ := runPipeline_ok h
  obtain ⟨sort, rfl⟩ := parsePipeline_sort hparse
  obtain ⟨schema, node, hstage, hnode⟩ := bindStages_cons_ok hbind
  obtain ⟨rfl, columnIndex, direction, hindex, -, rfl⟩ := bindStage_sort_ok hstage
  obtain rfl := Except.ok.inj hnode
  exact ⟨sort, columnIndex, direction, hparse, resolveField_addresses hindex,
    runPipeline_sortPlan hparse hbind⟩

/-- The same sort under a limit selects, by the same comparator. -/
theorem runPipeline_topK
    (h : runPipeline clock table (.array [sortJson value, limitJson count]) = .ok result) :
    ∃ columnIndex fieldName direction k, table.schema.Addresses columnIndex fieldName ∧
      (∀ (clock : Clock) (rows : List Row),
        runPipeline clock (table.withRows rows) (.array [sortJson value]) =
          (stdSort (RowComparator.call { columnIndex, direction }) rows).map
            fun rows => { rows, outputSchema := table.schema }) ∧
      ∀ (clock : Clock) (rows : List Row),
        runPipeline clock (table.withRows rows) (.array [sortJson value, limitJson count]) =
          (select (RowComparator.call { columnIndex, direction }) k rows).map
            fun rows => { rows, outputSchema := table.schema } := by
  obtain ⟨parsed, plan, -, hparse, hbind, -⟩ := runPipeline_ok h
  obtain ⟨sort, limit, hparse', rfl⟩ := parsePipeline_sort_limit hparse
  obtain ⟨schema, node, hstage, hlater⟩ := bindStages_cons_ok hbind
  obtain ⟨rfl, columnIndex, direction, hindex, -, rfl⟩ := bindStage_sort_ok hstage
  obtain ⟨schema, node, hlimit, hnode⟩ := bindStages_cons_ok hlater
  obtain ⟨rfl, k, rfl⟩ := bindStage_limit_ok hlimit
  obtain rfl := Except.ok.inj hnode
  have hbind' : bindPipeline table ⟨[.kSort sort]⟩ =
      .ok (.kSort (.kScan table) columnIndex sort.field.fieldName direction) := by
    rw [bindPipeline, bindStages_cons, hstage]
    rfl
  exact ⟨columnIndex, _, direction, k, resolveField_addresses hindex,
    runPipeline_sortPlan hparse' hbind', runPipeline_topKPlan hparse hbind⟩

omit [StdLibrary] in
/-- What it takes to end a pipeline with a sort. -/
theorem accepts_sort {elements : List Json} {parsed : ParsedPipeline} {plan : LogicalPlanNode}
    (hparse : parsePipeline (.array (elements ++ [sortJson value])) = .ok parsed)
    (hbind : bindPipeline table parsed = .ok plan) :
    ∃ before child sort columnIndex direction,
      parsePipeline (.array elements) = .ok before ∧ bindPipeline table before = .ok child ∧
      parsePipeline (.array [sortJson value]) = .ok ⟨[.kSort sort]⟩ ∧
      resolveField (outputSchemaOf child) sort.field.fieldName = .ok columnIndex ∧
      bindSortDirection sort.directionRaw = .ok direction ∧
      plan = .kSort child columnIndex sort.field.fieldName direction := by
  obtain ⟨stages, hstages, rfl⟩ := Except.map_eq_ok hparse
  rw [parseStages_append] at hstages
  obtain ⟨before, hbefore, hthen⟩ := Except.bind_eq_ok hstages
  obtain ⟨last, hlast, rfl⟩ := Except.map_eq_ok hthen
  have hparseBefore : parsePipeline (.array elements) = .ok ⟨before⟩ := by
    rw [parsePipeline, hbefore]
    rfl
  have hparseLast : parsePipeline (.array [sortJson value]) = .ok ⟨last⟩ := by
    rw [parsePipeline, hlast]
    rfl
  obtain ⟨sort, hsort⟩ := parsePipeline_sort hparseLast
  obtain rfl := ParsedPipeline.mk.inj hsort
  have hsplit := bindStages_append before [.kSort sort] (.kScan table)
  rw [show bindStages (outputSchemaOf (.kScan table)) (.kScan table) (before ++ [.kSort sort]) =
    .ok plan from hbind] at hsplit
  obtain ⟨child, hchild, hover⟩ := Except.bind_eq_ok hsplit.symm
  obtain ⟨schema, node, hstage, hnode⟩ := bindStages_cons_ok hover
  obtain ⟨rfl, columnIndex, direction, hindex, hdirection, rfl⟩ := bindStage_sort_ok hstage
  obtain rfl := Except.ok.inj hnode
  exact ⟨⟨before⟩, child, sort, columnIndex, direction, hparseBefore, hchild, hparseLast, hindex,
    hdirection, rfl⟩

/-- A pipeline that ends with a sort that came through has come through to the sort. -/
theorem runPipeline_before_sort {elements : List Json}
    (h : runPipeline clock table (.array (elements ++ [sortJson value])) = .ok result) :
    ∃ before, runPipeline clock table (.array elements) = .ok before := by
  obtain ⟨parsed, plan, opened, hparse, hbind, hdenote, -⟩ := runPipeline_ok h
  obtain ⟨before, child, sort, columnIndex, direction, hparseBefore, hchild, -, -, -, rfl⟩ :=
    accepts_sort hparse hbind
  rw [optimizedPlan, Optimizer.optimize_fst, SortLimitToTopKRule.rewrite] at hdenote
  obtain ⟨drained, hdrained, hfinish, -⟩ := denote_sort_ok hdenote
  rw [← Optimizer.optimize_fst] at hdrained
  exact ⟨_, runPipeline_of_denote hparseBefore hchild hdrained hfinish⟩

/-- The sort at the end of a pipeline that came through: what it was given, and what it does to any
    rows of that schema. -/
theorem runPipeline_sort_last {elements : List Json} (htable : table.WellFormed)
    (h : runPipeline clock table (.array (elements ++ [sortJson value])) = .ok result) :
    ∃ before sort columnIndex direction, runPipeline clock table (.array elements) = .ok before ∧
      parsePipeline (.array [sortJson value]) = .ok ⟨[.kSort sort]⟩ ∧
      before.outputSchema.Addresses columnIndex sort.field.fieldName ∧
      result.outputSchema = before.outputSchema ∧
      stdSort (RowComparator.call { columnIndex, direction }) before.toTable.rows = .ok result.rows ∧
      AnswersOn (RowComparator.call { columnIndex, direction }) before.toTable.rows ∧
      ∀ (clock : Clock) (rows : List Row),
        runPipeline clock (before.toTable.withRows rows) (.array [sortJson value]) =
          (stdSort (RowComparator.call { columnIndex, direction }) rows).map
            fun rows => { rows, outputSchema := before.outputSchema } := by
  obtain ⟨before, hbefore⟩ := runPipeline_before_sort h
  have hbetween := toTable_wellFormed htable hbefore
  have hsorted : runPipeline clock before.toTable (.array [sortJson value]) = .ok result := by
    rw [← runPipeline_append htable hbefore [sortJson value] clock clock]
    exact h
  obtain ⟨sort, columnIndex, direction, hparse, haddresses, hsort⟩ := runPipeline_sort hsorted
  have hrows := hsort clock before.toTable.rows
  rw [show before.toTable.withRows before.toTable.rows = before.toTable from rfl, hsorted] at hrows
  obtain ⟨arranged, harranged, rfl⟩ := Except.map_eq_ok hrows.symm
  have hanswers := RowComparator.stdSort_answers hbetween.distinct
    (fun row hrow => hbetween.wide row hrow ▸ haddresses.lt) harranged
  exact ⟨before, sort, columnIndex, direction, hbefore, hparse, haddresses, rfl, harranged, hanswers,
    hsort⟩

end SortStage

/-! ## Rearranged tables

  Filters and projections treat row by row, so they pass on the rearrangement; the sort behind them
  undoes it. -/

section Rearranged

variable [StdLibrary] {table : Table} {elements : List Json} {value count : Json}
  {clock : Clock} {sorted : QueryResult}

/-- What filters and projections returned, they return rearranged for a rearranged table. -/
theorem runPipeline_perm {before : QueryResult} {rows : List Row} (hstreams : StreamsOnly (.array elements))
    (h : runPipeline clock table (.array elements) = .ok before) (hperm : rows.Perm table.rows)
    (clock' : Clock) :
    ∃ rows', runPipeline clock' (table.withRows rows) (.array elements) =
      .ok { before with rows := rows' } ∧ rows'.Perm before.rows := by
  obtain ⟨parsed, plan, -, hparse, hbind, -⟩ := runPipeline_ok h
  rw [runPipeline_streaming hparse hbind (hstreams parsed hparse) rfl] at h
  obtain ⟨images, himages, rfl⟩ := Except.map_eq_ok h
  obtain ⟨rows', hrows', hperm'⟩ := Except.filterMapM_perm himages hperm
  refine ⟨rows', ?_, hperm'⟩
  have hother : (table.withRows rows).schema = table.schema := rfl
  rw [runPipeline_streaming hparse hbind (hstreams parsed hparse) hother]
  show Except.map _ (List.filterMapM plan.perRow rows) = _
  rw [hrows']
  rfl

/-- **Rearranged tables.**  After filters and projections and a sort that came through, no stage
    can tell in which order the rows stood in the table. -/
theorem run_rearranged {rows : List Row} (htable : table.WellFormed) (hstreams : StreamsOnly (.array elements))
    (h : runPipeline clock table (.array (elements ++ [sortJson value])) = .ok sorted)
    (hperm : rows.Perm table.rows) (later : List Json) (clock' clock'' : Clock) :
    runPipeline clock' (table.withRows rows) (.array (elements ++ [sortJson value] ++ later)) =
      runPipeline clock'' table (.array (elements ++ [sortJson value] ++ later)) := by
  obtain ⟨before, sort, columnIndex, direction, hbefore, -, -, hschema, harranged, hanswers, hsort⟩ :=
    runPipeline_sort_last htable h
  obtain ⟨rows', hbefore', hrows'⟩ := runPipeline_perm hstreams hbefore hperm clock'
  have hbetween := toTable_wellFormed htable hbefore
  -- the rearranged rows are sorted into the same rows
  have hsorted' : runPipeline clock' (table.withRows rows)
      (.array (elements ++ [sortJson value])) = .ok sorted := by
    have hboth := runPipeline_append (htable.perm hperm) hbefore' [sortJson value] clock' clock'
    have hsort' := hsort clock' rows'
    rw [RowComparator.stdSort_arrival hbetween.distinct hanswers hrows', harranged] at hsort'
    rw [hboth.trans hsort', ← hschema]
    rfl
  rw [runPipeline_append (htable.perm hperm) hsorted' later clock' clock'',
    runPipeline_append htable h later clock'' clock'']

/-! ## Parts of a table -/

/-- What filters and projections returned for a table, they return part by part. -/
theorem runPipeline_parts {before : QueryResult} {parts : List (List Row)}
    (hstreams : StreamsOnly (.array elements))
    (h : runPipeline clock (table.withRows parts.flatten) (.array elements) = .ok before) :
    ∃ images, List.Forall₂ (fun part image => ∀ clock,
        runPipeline clock (table.withRows part) (.array elements) =
          .ok { before with rows := image }) parts images ∧
      before.rows = images.flatten := by
  obtain ⟨parsed, plan, -, hparse, hbind, -⟩ := runPipeline_ok h
  have hrun : ∀ (clock : Clock) (rows : List Row), runPipeline clock (table.withRows rows)
      (.array elements) = (rows.filterMapM plan.perRow).map
        fun rows => { rows, outputSchema := outputSchemaOf plan } := fun clock rows =>
    runPipeline_streaming hparse hbind (hstreams parsed hparse) rfl
  rw [hrun] at h
  obtain ⟨flattened, hflattened, rfl⟩ := Except.map_eq_ok h
  obtain ⟨images, himages, rfl⟩ := Except.filterMapM_flatten hflattened
  refine ⟨images, himages.imp fun part image himage clock => ?_, rfl⟩
  rw [hrun, himage]
  rfl

/-- **The first rows, part by part.**  Where the full sort comes through, the first rows of a table
    are found by running the pipeline on the parts of the table, in whatever order these hold its
    rows, and sorting and limiting what they returned. -/
theorem run_topK_parts {result : QueryResult} {parts : List (List Row)} (htable : table.WellFormed)
    (hstreams : StreamsOnly (.array elements)) (hparts : parts.flatten.Perm table.rows)
    (hsort : runPipeline clock table (.array (elements ++ [sortJson value])) = .ok sorted)
    (h : runPipeline clock table (.array (elements ++ [sortJson value, limitJson count])) =
      .ok result) :
    ∃ tops : List (List Row),
      List.Forall₂ (fun part top => ∀ clock, runPipeline clock (table.withRows part)
        (.array (elements ++ [sortJson value, limitJson count])) =
          .ok { result with rows := top }) parts tops ∧
      ∀ clock, runPipeline clock { schema := result.outputSchema, rows := tops.flatten }
        (.array [sortJson value, limitJson count]) = .ok result := by
  obtain ⟨before, hbefore⟩ := runPipeline_before_sort hsort
  have hbetween := toTable_wellFormed htable hbefore
  have hsorted : runPipeline clock before.toTable (.array [sortJson value]) = .ok sorted := by
    rw [← runPipeline_append htable hbefore [sortJson value] clock clock]
    exact hsort
  have hlimited : runPipeline clock before.toTable (.array [sortJson value, limitJson count]) =
      .ok result := by
    rw [← runPipeline_append htable hbefore [sortJson value, limitJson count] clock clock]
    exact h
  obtain ⟨columnIndex, fieldName, direction, k, haddresses, hfull, hselect⟩ :=
    runPipeline_topK hlimited
  have hrows := hfull clock before.toTable.rows
  rw [show before.toTable.withRows before.toTable.rows = before.toTable from rfl, hsorted] at hrows
  obtain ⟨arranged, harranged, -⟩ := Except.map_eq_ok hrows.symm
  have hanswers := RowComparator.stdSort_answers hbetween.distinct
    (fun row hrow => hbetween.wide row hrow ▸ haddresses.lt) harranged
  -- the parts give out the rows of the whole, rearranged
  obtain ⟨rows', hbefore', hrows'⟩ := runPipeline_perm hstreams hbefore hparts clock
  obtain ⟨images, himages, rfl⟩ := runPipeline_parts hstreams hbefore'
  obtain ⟨tops, htops, hmerged⟩ := select_parts (RowComparator.before_strictWeak false)
    hbetween.distinct.nodup (hbetween.distinct.totalOn _ false) (RowComparator.call_agrees false _)
    hanswers hrows'
  have hresult := hselect clock before.toTable.rows
  rw [show before.toTable.withRows before.toTable.rows = before.toTable from rfl, hlimited] at hresult
  obtain ⟨selected, hselected, rfl⟩ := Except.map_eq_ok hresult.symm
  refine ⟨tops, himages.compose htops fun part hpart image top himage htop clock => ?_,
    fun clock => ?_⟩
  · have hboth := runPipeline_append (htable.part hparts hpart) (himage clock)
      [sortJson value, limitJson count] clock clock
    have htopK := hselect clock image
    rw [htop] at htopK
    exact hboth.trans htopK
  · have htopK := hselect clock tops.flatten
    rw [hmerged, hselected] at htopK
    exact htopK

end Rearranged

/-- Keeps the documents with `a` above 0. -/
def positiveA : Json := .object [("$match", .object [("a", .object [("$gt", .numberUnsigned 0)])])]

theorem positiveA_streams : StreamsOnly (.array [positiveA]) := by
  intro parsed hparse
  obtain rfl := Except.ok.inj hparse
  simp [ParsedStage.streams]

/-- The documents backwards. -/
theorem run_rearranged_sample :
    letI := StdLibrary.reference
    runPipeline Clock.still (missedTable.withRows missedTable.rows.reverse)
        (.array ([positiveA] ++ [sortJson missedSort] ++ [limitOne])) =
      .ok { rows := [{ ordinal := 2, values := [.int64 1, .null] }],
            outputSchema := missedTable.schema } :=
  @run_rearranged StdLibrary.reference missedTable [positiveA] missedSort Clock.still
    { rows := [{ ordinal := 2, values := [.int64 1, .null] },
        { ordinal := 0, values := [.int64 2, .int64 1] },
        { ordinal := 1, values := [.int64 3, .string "x"] }]
      outputSchema := missedTable.schema }
    missedTable.rows.reverse missedTable_wellFormed positiveA_streams rfl (List.reverse_perm _)
    [limitOne] Clock.still Clock.still

/-- One document in one part, two in another. -/
theorem run_topK_parts_sample :
    letI := StdLibrary.reference
    ∃ tops : List (List Row),
      List.Forall₂ (fun part top => ∀ clock, runPipeline clock (missedTable.withRows part)
        (.array ([positiveA] ++ [sortJson missedSort, limitJson (.numberUnsigned 1)])) =
          .ok { rows := top, outputSchema := missedTable.schema })
        [missedTable.rows.drop 2, missedTable.rows.take 2] tops ∧
      ∀ clock, runPipeline clock { schema := missedTable.schema, rows := tops.flatten }
        (.array [sortJson missedSort, limitJson (.numberUnsigned 1)]) =
          .ok { rows := [{ ordinal := 2, values := [.int64 1, .null] }],
                outputSchema := missedTable.schema } :=
  @run_topK_parts StdLibrary.reference missedTable [positiveA] missedSort
    (.numberUnsigned 1) Clock.still
    { rows := [{ ordinal := 2, values := [.int64 1, .null] },
        { ordinal := 0, values := [.int64 2, .int64 1] },
        { ordinal := 1, values := [.int64 3, .string "x"] }]
      outputSchema := missedTable.schema }
    { rows := [{ ordinal := 2, values := [.int64 1, .null] }], outputSchema := missedTable.schema }
    [missedTable.rows.drop 2, missedTable.rows.take 2] missedTable_wellFormed positiveA_streams
    (show (missedTable.rows.drop 2 ++ missedTable.rows.take 2).Perm
      (missedTable.rows.take 2 ++ missedTable.rows.drop 2) from List.perm_append_comm) rfl rfl

end QueryLume
