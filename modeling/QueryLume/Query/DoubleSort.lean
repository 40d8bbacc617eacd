/-
  A sort directly before another sort.

  The second sort arranges the rows by its own keys and the ordinals, so the first might as well
  not be there: without it the rows arrive in another order, and leave in the same one.  This is so
  unless the optimizer makes a top-k of the second sort and the limit after it, and that top-k does
  not look at all of its rows: then the first sort decides which keys it compares, and it can hide
  two keys that do not compare.

  1. **The plan** — both sorts and what stands over them are grafts on the plan below.  If no limit
     comes next, the second sort stays a sort (`doubleSort_unlimited`); if one does, it becomes a
     top-k (`doubleSort_limited`).

  2. **The pipeline** — the same two cases, read off the stages.  `TopKFindsComparable` is the
     condition, in terms of the stages before both sorts and the rows they return; no top-k and no
     plan occurs in it.

  3. **The equivalence** — where the run with both sorts returned, the run without the first
     returns the same if and only if the condition holds (`doubleSort_iff`, and `arrival_order`
     beside the facts about a single stage).
-/
import QueryLume.BinderAcceptance
import QueryLume.NormalForm
import QueryLume.ParserGrammar
import QueryLume.Physical.ArrivalOrder
import QueryLume.Query.Rejection

namespace QueryLume

open BoundedHeap LogicalPlanNode StdAlgorithms

/-! ## Pipelines in parts

  The stages before both sorts, the two sorts and the stages after them are bound one after
  another, so both plans are the same rest over two different bases. -/

/-- Binding over a graft is grafting what was bound. -/
theorem bindStage_graft (schema : Schema) (base node : LogicalPlanNode) (stage : ParsedStage) :
    bindStage schema (graft base node) stage =
      (bindStage schema node stage).map fun next => (next.1, graft base next.2) := by
  cases stage with
  | kMatch stage =>
    simp only [bindStage]
    cases bindMatch schema stage with
    | error e => rfl
    | ok predicate => rfl
  | kProject stage =>
    simp only [bindStage]
    cases bindFields schema [] stage.fields with
    | error e => rfl
    | ok indices => rfl
  | kSort stage =>
    rw [bindStage_sort, bindStage_sort]
    cases resolveField schema stage.field.fieldName with
    | error e => rfl
    | ok index =>
      simp only [Except.bind]
      cases bindSortDirection stage.directionRaw with
      | error e => rfl
      | ok direction => rfl
  | kLimit stage =>
    simp only [bindStage]
    cases bindLimit stage.countRaw with
    | error e => rfl
    | ok count => rfl

theorem bindStages_graft (base : LogicalPlanNode) : ∀ (stages : List ParsedStage) (schema : Schema)
    (node : LogicalPlanNode), bindStages schema (graft base node) stages =
      (bindStages schema node stages).map (graft base)
  | [], _, _ => rfl
  | stage :: stages, schema, node => by
    rw [bindStages_cons, bindStages_cons, bindStage_graft]
    cases bindStage schema node stage with
    | error e => rfl
    | ok next => exact bindStages_graft base stages next.1 next.2

/-! ## What stands over the base

  Whether the second sort is joined with a limit depends on the node right over it, hence on the
  first of the later stages. -/

/-- A graft has the links of the rest, then those of the base. -/
theorem links_graft (base : LogicalPlanNode) : ∀ rest : LogicalPlanNode,
    (graft base rest).links = rest.links ++ base.links
  | .kScan _ => rfl
  | .kFilter child _ | .kProject child _ _ | .kSort child _ _ _ | .kLimit child _
  | .kTopK child _ _ _ _ => congrArg (List.cons _) (links_graft base child)

theorem links_of_limitsScan {rest scanned : LogicalPlanNode} {table : Table} {k : Nat}
    (h : rest = graft (.kLimit (.kScan table) k) scanned) :
    rest.links.getLast? = some (.limit k) := by
  rw [h, links_graft]
  exact List.getLast?_concat

/-! ## Runs of the two plans

  Both bases read the same rows to the end.  The first sort changes the order in which the second
  one gets them, and `Physical/ArrivalOrder.lean` says when that matters to a blocking stage. -/

section Plans

variable [StdLibrary] {clock clock' : Clock}

/-- A blocking stage that opened has drained its child to the end. -/
theorem drained_of_block {denoted : Except Exception Opened}
    {fill : List Row → Row → Except Exception (List Row)} {comparator : RowComparator}
    {opened : Opened} (h : (denoted.bind fun drained => drained.block fill comparator) = .ok opened) :
    ∃ drained, denoted = .ok drained ∧ drained.feed.finish = none := by
  obtain ⟨drained, hdenoted, hblock⟩ := Except.bind_eq_ok h
  refine ⟨drained, hdenoted, ?_⟩
  cases hfinish : drained.feed.finish with
  | none => rfl
  | some e =>
    simp only [Opened.block, hfinish] at hblock
    cases hfold : drained.feed.rows.foldlM fill [] with
    | error e => rw [hfold] at hblock; cases hblock
    | ok buffer => rw [hfold] at hblock; cases hblock

/-- A sort that opened has sorted what its child gave out, all of it. -/
theorem denote_sort_ok {child : LogicalPlanNode} {columnIndex : Nat} {fieldName : String}
    {direction : SortDirection} {opened : Opened}
    (h : (buildPhysicalPlan (.kSort child columnIndex fieldName direction)).denote = .ok opened) :
    ∃ drained, (buildPhysicalPlan child).denote = .ok drained ∧ drained.feed.finish = none ∧
      stdSort (RowComparator.call { columnIndex, direction }) drained.feed.rows =
        .ok opened.feed.rows ∧
      opened.feed.finish = none := by
  obtain ⟨drained, hchild, hfinish⟩ := drained_of_block h
  refine ⟨drained, hchild, hfinish, ?_⟩
  rw [denote_sort hchild hfinish] at h
  obtain ⟨sorted, hsort, rfl⟩ := Except.map_eq_ok h
  rw [Feed.rows_ofList]
  exact ⟨hsort, Feed.finish_ofList _ _⟩

/-- A top-k that opened has selected from what its child gave out. -/
theorem denote_topK_ok {child : LogicalPlanNode} {columnIndex k : Nat} {fieldName : String}
    {direction : SortDirection} {opened : Opened}
    (h : (buildPhysicalPlan (.kTopK child columnIndex fieldName direction k)).denote = .ok opened) :
    ∃ drained, (buildPhysicalPlan child).denote = .ok drained ∧ drained.feed.finish = none ∧
      select (RowComparator.call { columnIndex, direction }) k drained.feed.rows =
        .ok opened.feed.rows ∧
      opened.feed.finish = none := by
  obtain ⟨drained, hchild, hfinish⟩ := drained_of_block h
  refine ⟨drained, hchild, hfinish, ?_⟩
  rw [denote_topK hchild hfinish] at h
  obtain ⟨selected, hselect, rfl⟩ := Except.map_eq_ok h
  rw [Feed.rows_ofList]
  exact ⟨hselect, Feed.finish_ofList _ _⟩

/-- A plan that runs has a base that opens. -/
theorem base_opens {base rest : LogicalPlanNode} {out : List Row}
    (h : runPlan clock (graft base rest) = .ok out) :
    ∃ opened, (buildPhysicalPlan base).denote = .ok opened := by
  cases hbase : (buildPhysicalPlan base).denote with
  | ok opened => exact ⟨opened, rfl⟩
  | error e =>
    rw [runPlan_error (denote_graft_error hbase rest)] at h
    cases h

/-- Bases that give out the same rows carry the same plans. -/
theorem runPlan_graft {base base' rest : LogicalPlanNode} {opened opened' : Opened}
    (hbase : (buildPhysicalPlan base).denote = .ok opened)
    (hbase' : (buildPhysicalPlan base').denote = .ok opened')
    (hrows : opened.feed.rows = opened'.feed.rows)
    (hfinish : opened.feed.finish = opened'.feed.finish) :
    runPlan clock (graft base rest) = runPlan clock' (graft base' rest) := by
  refine runPlan_congr (denote_graft ?_ rest)
  rw [hbase, hbase']
  exact .ok (Feed.alike_of_eq hrows hfinish)

section Pair

variable {child rest : LogicalPlanNode} {i i₁ : Nat} {name name₁ : String}
  {direction direction₁ : SortDirection} {out : List Row}

/-- What a sort over a sort is given: `sorted`, or without the first one the rows `drained`. -/
structure SortedTwice (child : LogicalPlanNode) (i : Nat) (drained : Opened) (sorted : List Row) :
    Prop where
  denote : (buildPhysicalPlan (SortLimitToTopKRule.rewrite child).1).denote = .ok drained
  finish : drained.feed.finish = none
  perm : sorted.Perm drained.feed.rows
  distinct : DistinctOrdinals drained.feed.rows
  wide : ∀ row ∈ drained.feed.rows, i < row.values.length

/-- The first sort of a plan that runs has drained the rows both sorts are about. -/
theorem sortedTwice {opened : Opened}
    (hbound : (LogicalPlanNode.kSort child i name direction).WellBound)
    (htable : child.table.WellFormed)
    (hopened : (buildPhysicalPlan (.kSort (SortLimitToTopKRule.rewrite child).1 i₁ name₁
      direction₁)).denote = .ok opened) :
    ∃ drained, SortedTwice child i drained opened.feed.rows ∧
      opened.feed.finish = none := by
  obtain ⟨drained, hdenote, hfinish, hfirst, hend⟩ := denote_sort_ok hopened
  obtain _ | _ | _ | ⟨below, addresses⟩ | _ | _ := hbound
  obtain ⟨hbound', htable'⟩ := below.rewrite
  have hok := hbound'.denote_feedOk (htable' ▸ htable) drained hdenote
  rw [outputSchemaOf_rewrite] at hok
  obtain ⟨hperm, -⟩ := stdSort_sorted (RowComparator.before_strictWeak false) hok.distinct.nodup
    (RowComparator.call_agrees false _) hfirst
  exact ⟨drained, ⟨hdenote, hfinish, hperm, hok.distinct, hok.wide addresses⟩, hend⟩

/-- **No limit next.**  The second sort makes of the rows what it makes of the sorted ones. -/
theorem doubleSort_unlimited
    (hbound : (LogicalPlanNode.kSort child i name direction).WellBound)
    (htable : child.table.WellFormed) (hrest : ¬ rest.LimitsScan)
    (hrun : runPlan clock (Optimizer.optimize
      (graft (.kSort (.kSort child i₁ name₁ direction₁) i name direction) rest)).1 = .ok out) :
    runPlan clock' (Optimizer.optimize
      (graft (.kSort child i name direction) rest)).1 = .ok out := by
  rw [Optimizer.optimize_fst, rewrite_graft _ _ (.inr hrest)] at hrun ⊢
  simp only [SortLimitToTopKRule.rewrite] at hrun ⊢
  obtain ⟨opened, hopened⟩ := base_opens hrun
  obtain ⟨opened₁, hfirst, -, hsecond, hfinish⟩ := denote_sort_ok hopened
  obtain ⟨drained, hdrained, -⟩ := sortedTwice hbound htable hfirst
  have hanswers : AnswersOn (RowComparator.call { columnIndex := i, direction })
      drained.feed.rows :=
    (RowComparator.stdSort_answers (hdrained.distinct.perm hdrained.perm)
      (fun row hrow => hdrained.wide row (hdrained.perm.mem_iff.mp hrow)) hsecond).perm
      hdrained.perm.symm
  rw [RowComparator.stdSort_arrival hdrained.distinct hanswers hdrained.perm] at hsecond
  have hwithout := denote_sort hdrained.denote hdrained.finish i name direction
  rw [hsecond] at hwithout
  rw [← hrun]
  refine runPlan_graft hwithout hopened ?_ ?_
  · exact Feed.rows_ofList _ _
  · exact (Feed.finish_ofList _ _).trans hfinish.symm

/-- **A limit next.**  The top-k makes of the rows what it makes of the sorted ones, where it finds
    comparable what it has to look at. -/
theorem doubleSort_limited {scanned : Table} {k : Nat} {above : LogicalPlanNode}
    (hbound : (LogicalPlanNode.kSort child i name direction).WellBound)
    (htable : child.table.WellFormed)
    (hrun : runPlan clock (Optimizer.optimize (graft (.kSort (.kSort child i₁ name₁ direction₁) i
      name direction) (graft (.kLimit (.kScan scanned) k) above))).1 = .ok out) :
    ∃ drained, (buildPhysicalPlan (SortLimitToTopKRule.rewrite child).1).denote = .ok drained ∧
      drained.feed.finish = none ∧
      (runPlan clock' (Optimizer.optimize (graft (.kSort child i name direction)
          (graft (.kLimit (.kScan scanned) k) above))).1 = .ok out ↔
        ¬ Incomparable (RowComparator.call { columnIndex := i, direction })
          (RowComparator.compared { columnIndex := i, direction } k drained.feed.rows)) := by
  rw [graft_graft] at hrun ⊢
  simp only [graft] at hrun ⊢
  rw [optimize_pair] at hrun ⊢
  simp only [SortLimitToTopKRule.rewrite] at hrun
  obtain ⟨opened, hopened⟩ := base_opens hrun
  obtain ⟨opened₁, hfirst, -, hselect, hfinish⟩ := denote_topK_ok hopened
  obtain ⟨drained, hdrained, -⟩ := sortedTwice hbound htable hfirst
  refine ⟨drained, hdrained.denote, hdrained.finish, ?_⟩
  have hwithout := denote_topK hdrained.denote hdrained.finish i name direction k
  constructor
  · intro hrun' hcompared
    obtain ⟨e, herror⟩ := RowComparator.select_rejects hdrained.distinct hdrained.wide hcompared
    rw [herror] at hwithout
    rw [runPlan_error (denote_graft_error hwithout _)] at hrun'
    cases hrun'
  · intro hcompared
    rw [(RowComparator.select_rearranged hdrained.distinct hdrained.wide hdrained.perm hselect).mpr
      hcompared] at hwithout
    rw [← hrun]
    refine runPlan_graft hwithout hopened ?_ ?_
    · exact Feed.rows_ofList _ _
    · exact (Feed.finish_ofList _ _).trans hfinish.symm

end Pair

end Plans

/-! ## The two pipelines

  From the JSON on: a pipeline with both sorts that is accepted is accepted without the first one
  too, and the two are bound to the same rest over two bases.  The converse fails, because the
  first sort may be the one that is not accepted. -/

/-- A `$sort` stage. -/
def sortJson (value : Json) : Json := .object [("$sort", value)]

theorem parseStage_sort {value : Json} {stage : ParsedStage}
    (h : parseStage (sortJson value) = .ok stage) : ∃ sort, stage = .kSort sort := by
  have hsort : parseStage (sortJson value) = (parseSort value).map .kSort := by
    unfold parseStage sortJson
    dsimp only
    rw [if_neg (by decide), if_neg (by decide), if_pos rfl]
  rw [hsort] at h
  obtain ⟨sort, -, rfl⟩ := Except.map_eq_ok h
  exact ⟨sort, rfl⟩

/-- Where the pipeline with both sorts is accepted, so is the one without the first, and they
    differ in that sort alone. -/
theorem parse_doubleSort {before after : List Json} {value₁ value : Json} {parsed : ParsedPipeline}
    (h : parsePipeline (.array (before ++ sortJson value₁ :: sortJson value :: after)) =
      .ok parsed) :
    ∃ pre sort₁ sort post, parsed = ⟨pre ++ .kSort sort₁ :: .kSort sort :: post⟩ ∧
      parsePipeline (.array before) = .ok ⟨pre⟩ ∧
      parseStage (sortJson value) = .ok (.kSort sort) ∧ parseStages after = .ok post ∧
      parsePipeline (.array (before ++ sortJson value :: after)) =
        .ok ⟨pre ++ .kSort sort :: post⟩ := by
  simp only [parsePipeline] at h ⊢
  cases hall : parseStages (before ++ sortJson value₁ :: sortJson value :: after) with
  | error e => rw [hall] at h; cases h
  | ok stages =>
    rw [hall] at h
    obtain ⟨pre, others, rfl, hpre, hothers⟩ := (parseStages_ok.mp hall).of_append_left
    cases hothers with
    | cons hfirst hothers =>
      cases hothers with
      | cons hsecond hpost =>
        obtain ⟨sort₁, rfl⟩ := parseStage_sort hfirst
        obtain ⟨sort, rfl⟩ := parseStage_sort hsecond
        refine ⟨pre, sort₁, sort, _, (Except.ok.inj h).symm, ?_, hsecond, parseStages_ok.mpr hpost,
          ?_⟩
        · rw [parseStages_ok.mpr hpre]
          rfl
        · rw [parseStages_ok.mpr (hpre.append (.cons hsecond hpost))]
          rfl

/-- Binding a sort resolves its field and its direction, and leaves the schema as it is. -/
theorem bindStage_sort_ok {schema schema' : Schema} {node node' : LogicalPlanNode}
    {sort : ParsedSortStage} (h : bindStage schema node (.kSort sort) = .ok (schema', node')) :
    schema' = schema ∧ ∃ index direction,
      resolveField schema sort.field.fieldName = .ok index ∧
      bindSortDirection sort.directionRaw = .ok direction ∧
      node' = .kSort node index sort.field.fieldName direction := by
  rw [bindStage_sort] at h
  obtain ⟨index, hindex, hthen⟩ := Except.bind_eq_ok h
  obtain ⟨direction, hdirection, heq⟩ := Except.map_eq_ok hthen
  obtain ⟨rfl, rfl⟩ := Prod.mk.inj heq
  exact ⟨rfl, index, direction, hindex, hdirection, rfl⟩

/-- Both plans are grafts of the same rest: over a sort of a sort, and over the second sort. -/
theorem bind_doubleSort {table : Table} {pre post : List ParsedStage}
    {sort₁ sort : ParsedSortStage} {plan : LogicalPlanNode}
    (h : bindPipeline table ⟨pre ++ .kSort sort₁ :: .kSort sort :: post⟩ = .ok plan) :
    ∃ child i₁ direction₁ i direction rest,
      bindPipeline table ⟨pre⟩ = .ok child ∧
      resolveField (outputSchemaOf child) sort.field.fieldName = .ok i ∧
      bindSortDirection sort.directionRaw = .ok direction ∧
      bindStages (outputSchemaOf child) (.kScan { schema := outputSchemaOf child }) post =
        .ok rest ∧
      plan = graft (.kSort (.kSort child i₁ sort₁.field.fieldName direction₁) i
        sort.field.fieldName direction) rest ∧
      bindPipeline table ⟨pre ++ .kSort sort :: post⟩ =
        .ok (graft (.kSort child i sort.field.fieldName direction) rest) := by
  have happend := fun stages => bindStages_append pre stages (.kScan table)
  have hsplit : bindStages table.schema (.kScan table)
      (pre ++ .kSort sort₁ :: .kSort sort :: post) = .ok plan := h
  rw [show table.schema = outputSchemaOf (.kScan table) from rfl, happend] at hsplit
  obtain ⟨child, hchild, hsorts⟩ := Except.bind_eq_ok hsplit
  rw [bindStages_cons] at hsorts
  obtain ⟨⟨schema₁, node₁⟩, hfirst, hthen⟩ := Except.bind_eq_ok hsorts
  obtain ⟨rfl, i₁, direction₁, -, -, rfl⟩ := bindStage_sort_ok hfirst
  rw [bindStages_cons] at hthen
  obtain ⟨⟨schema, node⟩, hsecond, hafter⟩ := Except.bind_eq_ok hthen
  obtain ⟨rfl, i, direction, hindex, hdirection, rfl⟩ := bindStage_sort_ok hsecond
  -- the stages after are the same over every base
  have hover : ∀ base, bindStages (outputSchemaOf child) base post = (bindStages
      (outputSchemaOf child) (.kScan { schema := outputSchemaOf child }) post).map (graft base) :=
    fun base => bindStages_graft base post (outputSchemaOf child)
      (.kScan { schema := outputSchemaOf child })
  rw [hover] at hafter
  obtain ⟨rest, hrest, rfl⟩ := Except.map_eq_ok hafter
  refine ⟨child, i₁, direction₁, i, direction, rest, hchild, hindex, hdirection, hrest, rfl, ?_⟩
  have hwithout := happend (.kSort sort :: post)
  rw [hchild] at hwithout
  simp only [Except.bind, bindStages_cons, bindStage_sort, hindex, hdirection,
    Except.map] at hwithout
  rw [hover, hrest] at hwithout
  exact hwithout

/-! ## Does a limit come next?

  The condition of the theorem asks this of the stages; the runs ask it of the plan.  Here the two
  are the same question. -/

section Next

variable {schema : Schema} {scanned : Table} {post : List ParsedStage} {rest : LogicalPlanNode}

/-- What stands over the first of the later stages. -/
theorem rest_cons {stage : ParsedStage} (h : bindStages schema (.kScan scanned) (stage :: post) =
      .ok rest) :
    ∃ schema' node above, bindStage schema (.kScan scanned) stage = .ok (schema', node) ∧
      rest = graft node above := by
  rw [bindStages_cons] at h
  obtain ⟨⟨schema', node⟩, hstage, hpost⟩ := Except.bind_eq_ok h
  rw [show node = graft node (.kScan {}) from rfl, bindStages_graft] at hpost
  obtain ⟨above, -, rfl⟩ := Except.map_eq_ok hpost
  exact ⟨schema', node, above, hstage, rfl⟩

theorem rest_limited {limit : ParsedLimitStage}
    (h : bindStages schema (.kScan scanned) (.kLimit limit :: post) = .ok rest) :
    ∃ k above, bindLimit limit.countRaw = .ok k ∧
      rest = graft (.kLimit (.kScan scanned) k) above := by
  obtain ⟨schema', node, above, hstage, rfl⟩ := rest_cons h
  simp only [bindStage] at hstage
  cases hk : bindLimit limit.countRaw with
  | error e => rw [hk] at hstage; cases hstage
  | ok k =>
    rw [hk] at hstage
    obtain ⟨-, rfl⟩ := Prod.mk.inj (Except.ok.inj hstage)
    exact ⟨k, above, rfl, rfl⟩

/-- The rest of a plan limits what it scans only if its first stage is a limit. -/
theorem limit_of_limitsScan (h : bindStages schema (.kScan scanned) post = .ok rest)
    (hlimits : rest.LimitsScan) : ∃ limit post', post = .kLimit limit :: post' := by
  obtain ⟨above', table, k, hrest⟩ := hlimits
  have hlast := links_of_limitsScan hrest
  cases post with
  | nil =>
    rw [← Except.ok.inj h] at hlast
    cases hlast
  | cons stage post =>
    obtain ⟨schema', node, above, hstage, rfl⟩ := rest_cons h
    have hbase : node.links.getLast? = some (.limit k) := by
      rw [links_graft] at hlast
      cases bindStage_cases hstage <;> (rw [links, links, List.getLast?_concat] at hlast; exact hlast)
    cases bindStage_cases hstage with
    | limit known => exact ⟨_, post, rfl⟩
    | «match» binds => cases hbase
    | project addresses distinct => cases hbase
    | sort addresses known => cases hbase

end Next

/-! ## The theorem

  A sort in that place compares all its rows in either case.  A top-k does not, and which rows it
  compares depends on the order in which they arrive; so there the condition is about the rows
  before both sorts. -/

section Runs

variable [StdLibrary] {clock clock' : Clock}

/-- Where a limit comes next, the keys that a top-k in the place of the second sort and the limit
    has to look at, in the order in which the stages before give out the rows, all compare. -/
def TopKFindsComparable (clock : Clock) (table : Table) (before : List Json) (value : Json)
    (after : List Json) : Prop :=
  ∀ limitJson limit sort arrived index direction k,
    after.head? = some limitJson → parseStage limitJson = .ok (.kLimit limit) →
    parseStage (sortJson value) = .ok (.kSort sort) →
    runPipeline clock table (.array before) = .ok arrived →
    resolveField arrived.outputSchema sort.field.fieldName = .ok index →
    bindSortDirection sort.directionRaw = .ok direction → bindLimit limit.countRaw = .ok k →
    ¬ Incomparable (RowComparator.call { columnIndex := index, direction })
      (RowComparator.compared { columnIndex := index, direction } k arrived.rows)

section Finds

variable {table : Table} {before after : List Json} {value : Json} {sort : ParsedSortStage}
  {post : List ParsedStage}

/-- Where a limit comes next, the keys are those of the rows that arrive. -/
theorem topKFindsComparable_limited {limit : ParsedLimitStage} {arrived : QueryResult}
    {index k : Nat} {direction : SortDirection}
    (hafter : parseStages after = .ok (.kLimit limit :: post))
    (hsort : parseStage (sortJson value) = .ok (.kSort sort))
    (harrived : runPipeline clock table (.array before) = .ok arrived)
    (hindex : resolveField arrived.outputSchema sort.field.fieldName = .ok index)
    (hdirection : bindSortDirection sort.directionRaw = .ok direction)
    (hk : bindLimit limit.countRaw = .ok k) :
    TopKFindsComparable clock table before value after ↔
      ¬ Incomparable (RowComparator.call { columnIndex := index, direction })
        (RowComparator.compared { columnIndex := index, direction } k arrived.rows) := by
  cases parseStages_ok.mp hafter with
  | @cons limitJson _ later _ hlimit hlater =>
    constructor
    · intro hfinds
      exact hfinds limitJson limit sort arrived index direction k rfl hlimit hsort harrived hindex
        hdirection hk
    · intro hcompared limitJson' limit' sort' arrived' index' direction' k' hhead hlimit' hsort'
        harrived' hindex' hdirection' hk'
      -- parsing, running and binding have one result each
      obtain rfl := Option.some.inj hhead
      rw [hlimit] at hlimit'
      obtain rfl := ParsedStage.kLimit.inj (Except.ok.inj hlimit')
      rw [hsort] at hsort'
      obtain rfl := ParsedStage.kSort.inj (Except.ok.inj hsort')
      rw [harrived] at harrived'
      obtain rfl := Except.ok.inj harrived'
      rw [hindex] at hindex'
      obtain rfl := Except.ok.inj hindex'
      rw [hdirection] at hdirection'
      obtain rfl := Except.ok.inj hdirection'
      rw [hk] at hk'
      obtain rfl := Except.ok.inj hk'
      exact hcompared

/-- Where none comes next, nothing is asked. -/
theorem topKFindsComparable_unlimited (hafter : parseStages after = .ok post)
    (hpost : ∀ limit post', post ≠ .kLimit limit :: post') :
    TopKFindsComparable clock table before value after := by
  intro limitJson limit sort arrived index direction k hhead hlimit
  have hstages := parseStages_ok.mp hafter
  cases after with
  | nil => cases hhead
  | cons first later =>
    obtain rfl := Option.some.inj hhead
    cases hstages with
    | @cons _ _ _ post' hfirst hlater =>
      rw [hfirst] at hlimit
      rw [Except.ok.inj hlimit] at hpost
      exact absurd rfl (hpost limit post')

end Finds

/-- **Dropping the first of two sorts.** -/
theorem doubleSort_iff {table : Table} {before after : List Json} {value₁ value : Json}
    {result : QueryResult} (htable : table.WellFormed)
    (hrun : runPipeline clock table
      (.array (before ++ sortJson value₁ :: sortJson value :: after)) = .ok result) :
    runPipeline clock' table (.array (before ++ sortJson value :: after)) = .ok result ↔
      TopKFindsComparable clock table before value after := by
  obtain ⟨parsed, plan, -, hparse, hbind, -⟩ := runPipeline_ok hrun
  obtain ⟨pre, sort₁, sort, post, rfl, hpre, hsort, hafter, hparse'⟩ := parse_doubleSort hparse
  obtain ⟨child, i₁, direction₁, i, direction, rest, hchild, hindex, hdirection, hrest, rfl,
    hbind'⟩ := bind_doubleSort hbind
  obtain ⟨hbound', htable'⟩ := bindPipeline_wellBound hbind'
  obtain ⟨hsorted, hchildTable⟩ := (contains_graft _ rest).wellBound hbound'
  have hwell : child.table.WellFormed := by
    rw [show child.table = table from hchildTable.trans htable']
    exact htable
  rw [runPipeline_runPlan hparse hbind] at hrun
  rw [runPipeline_runPlan hparse' hbind']
  -- both runs show the same schema, so their rows decide
  have hschema : outputSchemaOf (graft (.kSort child i sort.field.fieldName direction) rest) =
      outputSchemaOf (graft (.kSort (.kSort child i₁ sort₁.field.fieldName direction₁) i
        sort.field.fieldName direction) rest) :=
    outputSchemaOf_graft (show outputSchemaOf (.kSort child i sort.field.fieldName direction) =
      outputSchemaOf (.kSort (.kSort child i₁ sort₁.field.fieldName direction₁) i
        sort.field.fieldName direction) from rfl) rest
  obtain ⟨out, hplan, rfl⟩ := Except.map_eq_ok hrun
  have hinjective : Function.Injective fun rows => QueryResult.mk rows (outputSchemaOf
      (graft (.kSort (.kSort child i₁ sort₁.field.fieldName direction₁) i sort.field.fieldName
        direction) rest)) := by
    intro rows rows' heq
    exact (QueryResult.mk.inj heq).1
  rw [hschema, Except.map_eq_ok_iff hinjective]
  by_cases hlimits : rest.LimitsScan
  · obtain ⟨limit, post, rfl⟩ := limit_of_limitsScan hrest hlimits
    obtain ⟨k, above, hk, rfl⟩ := rest_limited hrest
    obtain ⟨drained, hdrained, hfinish, hiff⟩ := doubleSort_limited hsorted hwell hplan
    rw [hiff]
    have harrived : runPipeline clock table (.array before) =
        .ok { rows := drained.feed.rows, outputSchema := outputSchemaOf child } := by
      rw [← Optimizer.optimize_fst] at hdrained
      exact runPipeline_of_denote hpre hchild hdrained hfinish
    exact (topKFindsComparable_limited hafter hsort harrived hindex hdirection hk).symm
  · refine ⟨fun _ => ?_, fun _ => doubleSort_unlimited hsorted hwell hlimits hplan⟩
    refine topKFindsComparable_unlimited hafter fun limit post' hpost => ?_
    rw [hpost] at hrest
    obtain ⟨k, above, -, hlimited⟩ := rest_limited hrest
    exact hlimits ⟨above, _, k, hlimited⟩

/-- **Arrival order does not matter.**  A blocking stage gives out one sequence for all orders of
    its rows; and the first of two sorts can be dropped just where a top-k in the place of the
    second finds its keys comparable. -/
theorem arrival_order (clock clock' : Clock) {document : Json} {table : Table}
    (hload : loadTableFromJson document = .ok table) :
    (∀ {σ σ' : Type} (child : PlanStage σ) (child' : PlanStage σ') (s : σ) (s' : σ')
      (rows rows' : List Row), Delivers child s rows → Delivers child' s' rows' →
      rows'.Perm rows → DistinctOrdinals rows → ∀ columnIndex,
      RowComparator.Sortable columnIndex (· ∈ rows) → ∀ direction k,
      let comparator : RowComparator := { columnIndex, direction }
      ∃ sorted, sorted.Perm rows ∧
        Delivers (SortStage.hooks child comparator).planStage (SortStage.over s) sorted ∧
        Delivers (SortStage.hooks child' comparator).planStage (SortStage.over s') sorted ∧
        Delivers (TopKStage.hooks child comparator k).planStage (TopKStage.over s)
          (sorted.take k) ∧
        Delivers (TopKStage.hooks child' comparator k).planStage (TopKStage.over s')
          (sorted.take k)) ∧
    ∀ (before : List Json) (value₁ value : Json) (after : List Json) (result : QueryResult),
      runPipeline clock table (.array (before ++ sortJson value₁ :: sortJson value :: after)) =
        .ok result →
      (runPipeline clock' table (.array (before ++ sortJson value :: after)) = .ok result ↔
        TopKFindsComparable clock table before value after) := by
  constructor
  · intro σ σ' child child' s s' rows rows' h h' hperm hdistinct columnIndex hsortable direction k
    exact blocking_arrival h h' hperm hdistinct hsortable direction k
  · intro before value₁ value after result hrun
    exact doubleSort_iff (loadTableFromJson_wellFormed hload) hrun

end Runs

/-! ## A sort that is missed -/

/-- A number and a string under `b`, and a document without it. -/
def missedDocuments : Json := .array
  [.object [("a", .numberUnsigned 2), ("b", .numberUnsigned 1)],
    .object [("a", .numberUnsigned 3), ("b", .string "x")],
    .object [("a", .numberUnsigned 1)]]

/-- The table of these documents. -/
def missedTable : Table where
  schema := { fields := ["a", "b"] }
  rows := [{ ordinal := 0, values := [.int64 2, .int64 1] },
    { ordinal := 1, values := [.int64 3, .string "x"] },
    { ordinal := 2, values := [.int64 1, .null] }]

theorem missedTable_wellFormed : missedTable.WellFormed :=
  loadTableFromJson_wellFormed (show loadTableFromJson missedDocuments = .ok missedTable from rfl)

/-- `{"a": 1}`, so that the document without `b` arrives first. -/
def missedSort : Json := .object [("a", .numberUnsigned 1)]

/-- `{"b": -1}`. -/
def lastByB : Json := .object [("b", .numberInteger (-1))]

/-- `{"$limit": 1}`. -/
def limitOne : Json := .object [("$limit", .numberUnsigned 1)]

/-- The run with both sorts returns the document without `b`. -/
theorem missed_runs :
    letI := StdLibrary.reference
    runPipeline Clock.still missedTable
        (.array [sortJson missedSort, sortJson lastByB, limitOne]) =
      .ok { rows := [{ ordinal := 2, values := [.int64 1, .null] }],
            outputSchema := missedTable.schema } ∧
    ∃ message, runPipeline Clock.still missedTable (.array [sortJson lastByB, limitOne]) =
      .error (.queryLumeError .kIncompatibleTypes message) :=
  ⟨rfl, _, rfl⟩

/-- After a sort by `a`, the last by `b` is the document without `b`; without it, the run throws. -/
theorem dropped_sort_missed :
    letI := StdLibrary.reference
    loadTableFromJson missedDocuments = .ok missedTable ∧
    ∃ result, runPipeline Clock.still missedTable
        (.array [sortJson missedSort, sortJson lastByB, limitOne]) = .ok result ∧
      ¬ runPipeline Clock.still missedTable (.array [sortJson lastByB, limitOne]) =
        .ok result := by
  refine ⟨rfl, _, missed_runs.1, fun hsame => ?_⟩
  obtain ⟨message, herror⟩ := missed_runs.2
  rw [hsame] at herror
  cases herror

theorem missedTable_sortable : RowComparator.Sortable 0 (· ∈ missedTable.rows) where
  distinct a b ha hb := by
    simp only [missedTable, List.mem_cons, List.not_mem_nil, or_false] at ha hb
    rcases ha with rfl | rfl | rfl <;> rcases hb with rfl | rfl | rfl <;> simp
  wide a ha := by
    simp only [missedTable, List.mem_cons, List.not_mem_nil, or_false] at ha
    rcases ha with rfl | rfl | rfl <;> simp
  oneKind := by
    refine .inl fun a value ha hvalue => ?_
    simp only [missedTable, List.mem_cons, List.not_mem_nil, or_false] at ha
    rcases ha with rfl | rfl | rfl <;> (rw [← Option.some.inj hvalue]; exact .inr rfl)

/-- The same rows from two scans, the second one backwards; and the sort that is missed. -/
theorem arrival_order_sample :
    letI := StdLibrary.reference
    let scan := PlanStageTree.collectionScanStage missedTable
    let back := PlanStageTree.collectionScanStage { missedTable with rows := missedTable.rows.reverse }
    let comparator : RowComparator := { columnIndex := 0, direction := .kAscending }
    (∃ sorted, sorted.Perm missedTable.rows ∧
      Delivers (SortStage.hooks scan.planStage comparator).planStage
        (SortStage.over scan.constructed) sorted ∧
      Delivers (SortStage.hooks back.planStage comparator).planStage
        (SortStage.over back.constructed) sorted ∧
      Delivers (TopKStage.hooks scan.planStage comparator 2).planStage
        (TopKStage.over scan.constructed) (sorted.take 2) ∧
      Delivers (TopKStage.hooks back.planStage comparator 2).planStage
        (TopKStage.over back.constructed) (sorted.take 2)) ∧
    ¬ TopKFindsComparable Clock.still missedTable [] lastByB [limitOne] := by
  let reference : StdLibrary := StdLibrary.reference
  intro scan back comparator
  have hload : loadTableFromJson missedDocuments = .ok missedTable := rfl
  have hboth := arrival_order Clock.still Clock.still hload
  have hscan : Delivers scan.planStage scan.constructed missedTable.rows :=
    scan.delivers rfl rfl
  have hback : Delivers back.planStage back.constructed missedTable.rows.reverse :=
    back.delivers rfl rfl
  have hdistinct : DistinctOrdinals missedTable.rows := (loadTableFromJson_wellFormed hload).distinct
  constructor
  · exact hboth.1 scan.planStage back.planStage scan.constructed back.constructed _ _ hscan hback
      (List.reverse_perm _) hdistinct 0 missedTable_sortable .kAscending 2
  · intro hfinds
    obtain ⟨message, herror⟩ := missed_runs.2
    have hdropped := (hboth.2 [] missedSort lastByB [limitOne] _ missed_runs.1).mpr hfinds
    rw [show runPipeline Clock.still missedTable (.array [sortJson lastByB, limitOne]) = _
      from hdropped] at herror
    cases herror

end QueryLume
