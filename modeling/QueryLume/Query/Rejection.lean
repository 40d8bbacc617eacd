/-
  When the optimizer keeps a rejection.

  A query is rejected when one of its sorts meets two keys that do not compare.  The optimizer
  makes a top-k of a sort under a limit, and a top-k does not look at all of its rows: it may not
  meet the two keys, and then gives out the first rows without a key.  What becomes of the query is
  then up to the stages after the limit, which go on with those rows.

  1. **Plans on plans** — a plan is taken apart at a sort by `graft`: `graft base rest` is the plan
     `rest` with `base` in the place of its scan.  The rewrite goes through a graft
     (`rewrite_graft`) unless the graft is what puts the sort under the limit, and the rest of a
     plan only sees what its base yields (`denote_graft`).

  2. **One sort** — its input is the same before and after the rewrite (`SortInput`).  A sort under
     no limit rejects the optimized plan with the same exception; a top-k rejects when two of the
     rows its heap has to look at do not compare (`optimized_rejects`), and is silent otherwise
     (`optimized_silent`).

  3. **The condition** — `NothingSilenced` is about the plan as it was bound, and about the rows
     its sorts are given: either the heap would meet two keys that do not compare, or the stages
     after the limit do not come through on the first rows without a key (`StagesReject`).  What
     those stages do is worked out stage by stage on lists of rows (`Physical/HandsOn.lean`);
     nothing is rewritten or run for it.

  4. **The equivalence** — the rejections of a plan are kept exactly under that condition
     (`rejection_kept_iff`).  The code does not meet it: over the nulls of a descending sort a
     limit is filled before the keys that do not compare are reached (`rejection_silenced`).
-/
import QueryLume.Physical.HandsOn
import QueryLume.Query.Safety

namespace QueryLume

open BoundedHeap StdAlgorithms

/-! ## Plans on top of plans

  A plan is cut at one of its sorts: the part below is a plan, and the part above is a plan over
  something that yields what the cut leaves.  `graft` puts the two together again, and the
  optimizer works on them separately, unless the cut goes through one of its pairs. -/

namespace LogicalPlanNode

/-- The plan `rest`, run over what `base` yields. -/
def graft (base : LogicalPlanNode) : LogicalPlanNode → LogicalPlanNode
  | .kScan _ => base
  | .kFilter child predicate => .kFilter (graft base child) predicate
  | .kProject child columnIndices fieldNames => .kProject (graft base child) columnIndices fieldNames
  | .kSort child columnIndex fieldName direction =>
    .kSort (graft base child) columnIndex fieldName direction
  | .kLimit child limit => .kLimit (graft base child) limit
  | .kTopK child columnIndex fieldName direction k =>
    .kTopK (graft base child) columnIndex fieldName direction k

/-- Grafts are grafted from the bottom or from the top. -/
theorem graft_graft (base middle : LogicalPlanNode) : ∀ rest : LogicalPlanNode,
    graft base (graft middle rest) = graft (graft base middle) rest
  | .kScan _ => rfl
  | .kFilter child predicate => congrArg (kFilter · predicate) (graft_graft base middle child)
  | .kProject child columnIndices fieldNames =>
    congrArg (kProject · columnIndices fieldNames) (graft_graft base middle child)
  | .kSort child columnIndex fieldName direction =>
    congrArg (kSort · columnIndex fieldName direction) (graft_graft base middle child)
  | .kLimit child limit => congrArg (kLimit · limit) (graft_graft base middle child)
  | .kTopK child columnIndex fieldName direction k =>
    congrArg (kTopK · columnIndex fieldName direction k) (graft_graft base middle child)

theorem contains_graft (base : LogicalPlanNode) : ∀ rest : LogicalPlanNode,
    (graft base rest).Contains base
  | .kScan _ => .here base
  | .kFilter child predicate => .filter predicate (contains_graft base child)
  | .kProject child columnIndices fieldNames =>
    .project columnIndices fieldNames (contains_graft base child)
  | .kSort child columnIndex fieldName direction =>
    .sort columnIndex fieldName direction (contains_graft base child)
  | .kLimit child limit => .limit limit (contains_graft base child)
  | .kTopK child columnIndex fieldName direction k =>
    .topK columnIndex fieldName direction k (contains_graft base child)

/-- What a graft shows depends on what its base shows. -/
theorem outputSchemaOf_graft {base base' : LogicalPlanNode}
    (h : outputSchemaOf base = outputSchemaOf base') : ∀ rest : LogicalPlanNode,
    outputSchemaOf (graft base rest) = outputSchemaOf (graft base' rest)
  | .kScan _ => h
  | .kProject _ _ _ => rfl
  | .kFilter child _ => outputSchemaOf_graft h child
  | .kSort child _ _ _ => outputSchemaOf_graft h child
  | .kLimit child _ => outputSchemaOf_graft h child
  | .kTopK child _ _ _ _ => outputSchemaOf_graft h child

theorem table_graft (base : LogicalPlanNode) : ∀ rest : LogicalPlanNode,
    (graft base rest).table = base.table
  | .kScan _ => rfl
  | .kProject child _ _ => table_graft base child
  | .kFilter child _ => table_graft base child
  | .kSort child _ _ _ => table_graft base child
  | .kLimit child _ => table_graft base child
  | .kTopK child _ _ _ _ => table_graft base child

/-- The rest of a plan stays bound over another base with the same schema. -/
theorem WellBound.graft {base base' : LogicalPlanNode} (hbase : base'.WellBound)
    (hschema : outputSchemaOf base' = outputSchemaOf base) : ∀ {rest : LogicalPlanNode},
    (graft base rest).WellBound → (graft base' rest).WellBound
  | .kScan _, _ => hbase
  | .kFilter _ _, .filter below bound =>
    .filter (hbase.graft hschema below) (outputSchemaOf_graft hschema _ ▸ bound)
  | .kProject _ _ _, .project below addresses distinct =>
    .project (hbase.graft hschema below) (outputSchemaOf_graft hschema _ ▸ addresses) distinct
  | .kSort _ _ _ _, .sort below addresses =>
    .sort (hbase.graft hschema below) (outputSchemaOf_graft hschema _ ▸ addresses)
  | .kLimit _ _, .limit below => .limit (hbase.graft hschema below)
  | .kTopK _ _ _ _ _, .topK below addresses =>
    .topK (hbase.graft hschema below) (outputSchemaOf_graft hschema _ ▸ addresses)

/-- Is the node a sort? -/
def IsSort (node : LogicalPlanNode) : Prop :=
  ∃ child columnIndex fieldName direction, node = .kSort child columnIndex fieldName direction

/-- Does a limit stand directly over the scan? -/
def LimitsScan (node : LogicalPlanNode) : Prop :=
  ∃ rest table limit, node = graft (.kLimit (.kScan table) limit) rest

/-- A node over a plan with such a limit is a plan with such a limit. -/
theorem LimitsScan.over {child : LogicalPlanNode} (h : child.LimitsScan)
    (node : LogicalPlanNode → LogicalPlanNode) (hnode : ∀ base rest, graft base (node rest) =
      node (graft base rest)) : (node child).LimitsScan := by
  obtain ⟨rest, table, limit, rfl⟩ := h
  exact ⟨node rest, table, limit, (hnode _ rest).symm⟩

/-- **Grafting and rewriting.**  The rewrite goes through a graft that brings no sort, or brings it
    under no limit. -/
theorem rewrite_graft (base rest : LogicalPlanNode) (h : ¬ base.IsSort ∨ ¬ rest.LimitsScan) :
    (SortLimitToTopKRule.rewrite (graft base rest)).1 =
      graft (SortLimitToTopKRule.rewrite base).1 (SortLimitToTopKRule.rewrite rest).1 := by
  fun_induction SortLimitToTopKRule.rewrite rest with
  | case1 grandchild columnIndex fieldName direction limit ih =>
    have hchild := ih (h.imp_right fun hnot hlimits => hnot (hlimits.over
      (fun child => .kLimit (.kSort child columnIndex fieldName direction) limit) fun _ _ => rfl))
    simp only [graft, SortLimitToTopKRule.rewrite, hchild]
  | case2 table => rfl
  | case3 child predicate ih =>
    have hchild := ih (h.imp_right fun hnot hlimits => hnot (hlimits.over
      (kFilter · predicate) fun _ _ => rfl))
    simp only [graft, SortLimitToTopKRule.rewrite, hchild]
  | case4 child columnIndices fieldNames ih =>
    have hchild := ih (h.imp_right fun hnot hlimits => hnot (hlimits.over
      (kProject · columnIndices fieldNames) fun _ _ => rfl))
    simp only [graft, SortLimitToTopKRule.rewrite, hchild]
  | case5 child columnIndex fieldName direction ih =>
    have hchild := ih (h.imp_right fun hnot hlimits => hnot (hlimits.over
      (kSort · columnIndex fieldName direction) fun _ _ => rfl))
    simp only [graft, SortLimitToTopKRule.rewrite, hchild]
  | case6 child limit hsort ih =>
    have hchild := ih (h.imp_right fun hnot hlimits => hnot (hlimits.over
      (kLimit · limit) fun _ _ => rfl))
    -- the child still is no sort: it was none, and the graft did not make it one
    have hgraft : ¬ (graft base child).IsSort := by
      rintro ⟨grandchild, columnIndex, fieldName, direction, heq⟩
      cases child with
      | kScan table =>
        rcases h with h | h
        · exact h ⟨grandchild, columnIndex, fieldName, direction, heq⟩
        · exact h ⟨.kScan table, table, limit, rfl⟩
      | kSort grandchild' columnIndex' fieldName' direction' =>
        exact hsort grandchild' columnIndex' fieldName' direction' rfl
      | kFilter | kProject | kLimit | kTopK => cases heq
    have hlimit : (SortLimitToTopKRule.rewrite (.kLimit (graft base child) limit)).1 =
        .kLimit (SortLimitToTopKRule.rewrite (graft base child)).1 limit := by
      cases hcase : graft base child with
      | kSort grandchild columnIndex fieldName direction =>
        exact absurd ⟨grandchild, columnIndex, fieldName, direction, hcase⟩ hgraft
      | kScan | kFilter | kProject | kLimit | kTopK => rfl
    rw [graft, hlimit, hchild]
    rfl
  | case7 child columnIndex fieldName direction k ih =>
    have hchild := ih (h.imp_right fun hnot hlimits => hnot (hlimits.over
      (kTopK · columnIndex fieldName direction k) fun _ _ => rfl))
    simp only [graft, SortLimitToTopKRule.rewrite, hchild]

end LogicalPlanNode

open LogicalPlanNode

/-! ## What the rest of a plan sees

  The rows of the part below and how it ends, and nothing else; in particular not when the rows
  were read. -/

section Denotations

variable [StdLibrary]

/-- The same rows and the same end. -/
def Opened.Alike (opened opened' : Opened) : Prop := Feed.Alike opened.feed opened'.feed

/-- A blocking stage does not see when its rows were read. -/
theorem Opened.Alike.block {opened opened' : Opened} (h : opened.Alike opened')
    (fill : List Row → Row → Except Exception (List Row)) (comparator : RowComparator) :
    SameOutcome Opened.Alike (opened.block fill comparator) (opened'.block fill comparator) := by
  unfold Opened.block
  rw [h.rows, h.finish]
  cases opened'.feed.rows.foldlM fill [] with
  | error e => exact .error e
  | ok buffer =>
    cases opened'.feed.finish with
    | some e => exact .error e
    | none =>
      simp only
      cases stdSort comparator.call buffer with
      | error e => exact .error e
      | ok sorted =>
        refine .ok (Feed.alike_of_eq ?_ ?_)
        · show (Feed.ofList _ sorted).rows = (Feed.ofList _ sorted).rows
          rw [Feed.rows_ofList, Feed.rows_ofList]
        · show (Feed.ofList _ sorted).finish = (Feed.ofList _ sorted).finish
          rw [Feed.finish_ofList, Feed.finish_ofList]

/-- Plans that yield the same yield the same under the same rest. -/
theorem denote_graft {base base' : LogicalPlanNode}
    (h : SameOutcome Opened.Alike (buildPhysicalPlan base).denote (buildPhysicalPlan base').denote) :
    ∀ rest : LogicalPlanNode, SameOutcome Opened.Alike (buildPhysicalPlan (graft base rest)).denote
      (buildPhysicalPlan (graft base' rest)).denote
  | .kScan _ => h
  | .kFilter child predicate =>
    (denote_graft h child).map fun _ _ halike => Feed.Alike.filter halike predicate.test
  | .kProject child columnIndices _ =>
    (denote_graft h child).map fun _ _ halike =>
      Feed.Alike.mapRows halike (ProjectStage.project columnIndices)
  | .kSort child columnIndex _ direction =>
    (denote_graft h child).bind fun _ _ halike =>
      halike.block SortStage.fill { columnIndex, direction }
  | .kLimit child limit =>
    (denote_graft h child).map fun opened opened' halike =>
      Feed.Alike.limit halike limit opened.mark opened'.mark
  | .kTopK child columnIndex _ direction k =>
    (denote_graft h child).bind fun _ _ halike =>
      halike.block (TopKStage.fill { columnIndex, direction } k) { columnIndex, direction }

/-- A base that does not open keeps the plan from opening. -/
theorem denote_graft_error {base : LogicalPlanNode} {e : Exception}
    (h : (buildPhysicalPlan base).denote = .error e) :
    ∀ rest : LogicalPlanNode, (buildPhysicalPlan (graft base rest)).denote = .error e
  | .kScan _ => h
  | .kFilter child _ | .kProject child _ _ | .kSort child _ _ _ | .kLimit child _
  | .kTopK child _ _ _ _ => by
    rw [graft, buildPhysicalPlan, PlanStageTree.denote, denote_graft_error h child]
    rfl

end Denotations

/-! ## Runs

  What is said of denotations, carried over to runs, together with the kinds of exceptions that a
  run can throw. -/

section Runs

variable [StdLibrary]

/-- Plans that yield the same return the same. -/
theorem runPlan_congr {clock clock' : Clock} {node node' : LogicalPlanNode}
    (h : SameOutcome Opened.Alike (buildPhysicalPlan node).denote (buildPhysicalPlan node').denote) :
    runPlan clock node = runPlan clock' node' := by
  rw [runPlan_denote, runPlan_denote]
  generalize (buildPhysicalPlan node).denote = denoted at h ⊢
  generalize (buildPhysicalPlan node').denote = denoted' at h ⊢
  cases h with
  | error e => rfl
  | ok alike => exact alike.collect

omit [StdLibrary] in
/-- What a run throws is what one of its calls threw. -/
theorem Yields.execute_raises {σ : Type} {iterator : PlanStage σ} {Inv : σ → Prop} {P : Row → Prop}
    {E : Exception → Prop} (h : Yields iterator Inv P E) {s : σ} (hinit : Inv s) {clock : Clock}
    {e : Exception} (herror : (execute iterator clock s).result = .error e) : E e := by
  have hopened := h.opened clock hinit
  cases hresult : (iterator.open clock s).result with
  | error e' =>
    rw [execute_open_error hresult] at herror
    exact Except.error.inj herror ▸ hopened.raises e' hresult
  | ok _ =>
    rw [execute_opened hresult] at herror
    have hloop : ∀ e', (pullRows iterator (iterator.open clock s).clock
        (iterator.open clock s).stage).result = .error e' → E e' := by
      refine whileAdvanced_rule iterator collectRow (I := fun _ s' _ => Inv s')
        (Q := fun loop => ∀ e', loop.result = .error e' → E e') ?_ _ _ _ _ hopened.inv
      intro clock' s' rows row hInv
      have hpulled := h.pulled clock' row hInv
      unfold RoundOk
      generalize iterator.getNext clock' s' row = call at hpulled ⊢
      obtain ⟨result, output, s'', clock''⟩ := call
      cases result with
      | error e' => exact fun e'' heq => hpulled.raises e'' heq
      | ok state =>
        cases state with
        | kEof => exact fun e'' heq => (by cases heq)
        | kAdvanced => exact hpulled.inv
    simp only at herror
    generalize pullRows iterator (iterator.open clock s).clock (iterator.open clock s).stage = loop
      at herror hloop
    cases hend : loop.result with
    | error e' =>
      rw [hend] at herror
      exact hloop e (hend.trans (congrArg _ (Except.error.inj herror)))
    | ok state => rw [hend] at herror; cases herror

/-- A run of a well-bound plan throws the engine's own exceptions. -/
theorem LogicalPlanNode.WellBound.runPlan_raises {node : LogicalPlanNode} (h : node.WellBound)
    (htable : node.table.WellFormed) {clock : Clock} {e : Exception}
    (herror : runPlan clock node = .error e) : e.IsQueryLumeError := by
  obtain ⟨Inv, hyields, hinit⟩ := h.yields htable
  rcases hyields.execute_raises hinit herror with hcomparison | hlifecycle
  · exact hcomparison.isQueryLumeError
  · rw [Exception.IsQueryLumeError, hlifecycle]
    rfl

end Runs

/-! ## One sort of a plan

  A sort over a child that runs to its end, and the same sort in the optimized plan: it gets the
  same rows, in the same order, because the part below it is a plan of the same pipeline. -/

/-- The first rows without a key, as an input of their own. -/
def RowComparator.nullTable (comparator : RowComparator) (schema : Schema) (k : Nat)
    (rows : List Row) : Table where
  schema := schema
  rows := comparator.nullRows k rows

/-- Some of the rows of a stage are a table of its schema. -/
theorem RowComparator.nullTable_wellFormed (comparator : RowComparator) {schema : Schema} (k : Nat)
    {rows : List Row} (hdistinct : DistinctOrdinals rows)
    (hwidth : ∀ row ∈ rows, row.values.length = schema.columnCount) :
    (comparator.nullTable schema k rows).WellFormed := by
  have hsorted := List.perm_insertionSort (fun a b : Row => a.ordinal ≤ b.ordinal)
    (rows.filter comparator.hasNullKey)
  have htake : (comparator.nullRows k rows).Sublist
      ((rows.filter comparator.hasNullKey).insertionSort fun a b => a.ordinal ≤ b.ordinal) :=
    List.take_sublist _ _
  constructor
  · intro row hrow
    have hmem := hsorted.mem_iff.mp (htake.subset hrow)
    exact hwidth row (List.mem_filter.mp hmem).1
  · exact ((hdistinct.sublist List.filter_sublist).perm hsorted).sublist htake

/-- The sort over `child` gets `rows`, before and after the rewrite. -/
structure SortInput [StdLibrary] (child : LogicalPlanNode) (comparator : RowComparator)
    (rows : List Row) (opened : Opened) : Prop where
  denote : (buildPhysicalPlan child).denote = .ok opened
  rewritten : (buildPhysicalPlan (SortLimitToTopKRule.rewrite child).1).denote = .ok opened
  finish : opened.feed.finish = none
  drained : opened.feed.rows = rows
  distinct : DistinctOrdinals rows
  width : ∀ row ∈ rows, row.values.length = (outputSchemaOf child).columnCount
  wide : ∀ row ∈ rows, comparator.columnIndex < row.values.length

section Pair

variable [StdLibrary] {clock : Clock} {plan child rest : LogicalPlanNode} {columnIndex : Nat}
  {fieldName : String} {direction : SortDirection} {k : Nat} {rows : List Row}

/-- A sort of a plan, over a child that runs to its end, gets the rows of that run. -/
theorem sortInput (hbound : plan.WellBound) (htable : plan.table.WellFormed)
    (hcontains : plan.Contains (.kSort child columnIndex fieldName direction))
    (hrun : runPlan clock child = .ok rows) :
    ∃ opened, SortInput child { columnIndex, direction } rows opened := by
  obtain ⟨hsort, htableSort⟩ := hcontains.wellBound hbound
  obtain _ | _ | _ | ⟨below, addresses⟩ | _ | _ := hsort
  have hwellFormed : child.table.WellFormed := by
    rw [show child.table = plan.table from htableSort]
    exact htable
  obtain ⟨opened, hdenote, hfinish, rfl⟩ := runPlan_ok hrun
  have hok := below.denote_feedOk hwellFormed opened hdenote
  exact ⟨opened, hdenote, below.denote_rewrite hwellFormed hdenote, hfinish, rfl, hok.distinct,
    fun row hrow => (hok.derived row hrow).length_eq, hok.wide addresses⟩

variable {opened : Opened}

theorem SortInput.denote_sort (h : SortInput child { columnIndex, direction } rows opened) :
    (buildPhysicalPlan (.kSort (SortLimitToTopKRule.rewrite child).1 columnIndex fieldName
      direction)).denote =
      (stdSort (RowComparator.call { columnIndex, direction }) rows).map fun sorted =>
        { mark := opened.feed.total, feed := .ofList opened.feed.total sorted } := by
  rw [← h.drained]
  exact QueryLume.denote_sort h.rewritten h.finish columnIndex fieldName direction

theorem SortInput.denote_topK (h : SortInput child { columnIndex, direction } rows opened) (k : Nat) :
    (buildPhysicalPlan (.kTopK (SortLimitToTopKRule.rewrite child).1 columnIndex fieldName direction
      k)).denote =
      (select (RowComparator.call { columnIndex, direction }) k rows).map fun selected =>
        { mark := opened.feed.total, feed := .ofList opened.feed.total selected } := by
  rw [← h.drained]
  exact QueryLume.denote_topK h.rewritten h.finish columnIndex fieldName direction k

omit [StdLibrary] in
/-- What the optimizer makes of a pair. -/
theorem optimize_pair : (Optimizer.optimize
      (graft (.kLimit (.kSort child columnIndex fieldName direction) k) rest)).1 =
    graft (.kTopK (SortLimitToTopKRule.rewrite child).1 columnIndex fieldName direction k)
      (SortLimitToTopKRule.rewrite rest).1 := by
  have hbase : ¬ (LogicalPlanNode.kLimit (.kSort child columnIndex fieldName direction) k).IsSort := by
    rintro ⟨_, _, _, _, h⟩
    cases h
  rw [Optimizer.optimize_fst, rewrite_graft _ _ (.inl hbase), SortLimitToTopKRule.rewrite]

/-- Where the top-k rejects, so does the optimized plan. -/
theorem optimized_rejects (h : SortInput child { columnIndex, direction } rows opened)
    (hcompared : Incomparable (RowComparator.call { columnIndex, direction })
      (RowComparator.compared { columnIndex, direction } k rows)) :
    ∃ e, runPlan clock (Optimizer.optimize
      (graft (.kLimit (.kSort child columnIndex fieldName direction) k) rest)).1 = .error e := by
  obtain ⟨e, hselect⟩ := RowComparator.select_rejects h.distinct h.wide hcompared
  refine ⟨e, ?_⟩
  rw [optimize_pair]
  refine runPlan_error (denote_graft_error ?_ _)
  rw [h.denote_topK k, hselect]
  rfl

/-- Where it is silent, the rest of the plan goes on with the first rows without a key. -/
theorem optimized_silent (h : SortInput child { columnIndex, direction } rows opened)
    (hcompared : ¬ Incomparable (RowComparator.call { columnIndex, direction })
      (RowComparator.compared { columnIndex, direction } k rows))
    (hrows : Incomparable (RowComparator.call { columnIndex, direction }) rows) (schema : Schema) :
    runPlan clock (Optimizer.optimize
      (graft (.kLimit (.kSort child columnIndex fieldName direction) k) rest)).1 =
    (optimizedPlan (graft (.kScan (RowComparator.nullTable { columnIndex, direction } schema k rows))
      rest)).denote.bind fun opened => opened.feed.collect := by
  have hselect := RowComparator.select_silent h.distinct h.wide hcompared hrows
  have hbase : ∀ table, ¬ (LogicalPlanNode.kScan table).IsSort := by
    rintro table ⟨_, _, _, _, h⟩
    cases h
  rw [optimize_pair, optimizedPlan, ← runPlan_denote clock, Optimizer.optimize_fst,
    rewrite_graft _ _ (.inl (hbase _))]
  refine runPlan_congr (denote_graft ?_ _)
  rw [h.denote_topK k, hselect]
  refine .ok (Feed.alike_of_eq ?_ ?_)
  · show (Feed.ofList _ _).rows = (Feed.scan _ _).rows
    rw [Feed.rows_ofList, Feed.rows_scan]
    rfl
  · show (Feed.ofList _ _).finish = (Feed.scan _ _).finish
    rw [Feed.finish_ofList, Feed.finish_scan]

end Pair

/-! ## The rejected query

  The condition `NothingSilenced` is about the plan as bound: a recursion over the stages above
  each pair, which asks of the rows without a key whether those stages come through on them.  It
  runs neither the optimizer nor a top-k. -/

section Rejection

variable [StdLibrary] {clock clock' : Clock} {plan : LogicalPlanNode}

/-- A run throws `e`, and one of the sorts is why: the plan below it runs to its end, and sorting
    what it yields throws `e`. -/
def RejectedBySort (clock : Clock) (plan : LogicalPlanNode) (e : Exception) : Prop :=
  runPlan clock plan = .error e ∧
    ∃ rest child columnIndex fieldName direction rows,
      plan = graft (.kSort child columnIndex fieldName direction) rest ∧
      runPlan clock child = .ok rows ∧
      stdSort (RowComparator.call { columnIndex, direction }) rows = .error e

/-- When a sort rejects a query, its optimized plan rejects it too. -/
def RejectionKept (clock clock' : Clock) (plan : LogicalPlanNode) : Prop :=
  ∀ e, RejectedBySort clock plan e →
    ∃ e', runPlan clock' (Optimizer.optimize plan).1 = .error e' ∧ e'.IsQueryLumeError

/-- The stages of `rest`, one after another on the rows of a table, do not all come through: a
    filter throws at a row it reaches, a sort that no limit stands over gets two keys that do not
    compare, or a limit over a sort gets two such keys among the rows it compares.  Decidable: it
    goes by lists of rows. -/
def StagesReject (rest : LogicalPlanNode) (table : Table) : Prop :=
  (graft (.kScan table) rest).handsOn.bind drainedRows = none

instance (rest : LogicalPlanNode) (table : Table) : Decidable (StagesReject rest table) :=
  inferInstanceAs (Decidable (_ = none))

/-- Wherever a limit `k` over a sort gets rows that do not all compare, the rows a heap of `k` has
    to find comparable do not all compare either, or else the stages after the limit do not come
    through on the first `k` rows without a key. -/
def NothingSilenced (clock : Clock) (plan : LogicalPlanNode) : Prop :=
  ∀ rest child columnIndex fieldName direction k rows,
    plan = graft (.kLimit (.kSort child columnIndex fieldName direction) k) rest →
    runPlan clock child = .ok rows →
    let comparator : RowComparator := { columnIndex, direction }
    Incomparable comparator.call rows →
    Incomparable comparator.call (comparator.compared k rows) ∨
      StagesReject rest (comparator.nullTable (outputSchemaOf child) k rows)

/-- **Sorts the optimizer leaves alone.**  A sort under no limit rejects the optimized plan, with
    the same exception. -/
theorem optimized_sort_rejects {child rest : LogicalPlanNode} {columnIndex : Nat}
    {fieldName : String} {direction : SortDirection} {rows : List Row} {opened : Opened}
    {e : Exception} (h : SortInput child { columnIndex, direction } rows opened)
    (hrest : ¬ rest.LimitsScan)
    (hsort : stdSort (RowComparator.call { columnIndex, direction }) rows = .error e) :
    runPlan clock (Optimizer.optimize
      (graft (.kSort child columnIndex fieldName direction) rest)).1 = .error e := by
  rw [Optimizer.optimize_fst, rewrite_graft _ _ (.inr hrest), SortLimitToTopKRule.rewrite]
  refine runPlan_error (denote_graft_error ?_ _)
  rw [h.denote_sort, hsort]
  rfl

/-- A limit over rejected rows is rejected. -/
theorem rejectedBySort_of_pair {child : LogicalPlanNode} {columnIndex : Nat}
    {direction : SortDirection} {rows : List Row} {opened : Opened} (rest : LogicalPlanNode)
    (fieldName : String) (k : Nat) (h : SortInput child { columnIndex, direction } rows opened)
    (hrun : runPlan clock child = .ok rows)
    (hrows : Incomparable (RowComparator.call { columnIndex, direction }) rows) :
    ∃ e, RejectedBySort clock
      (graft (.kLimit (.kSort child columnIndex fieldName direction) k) rest) e := by
  obtain ⟨e, hsort⟩ := (RowComparator.stdSort_rejects h.distinct h.wide).mpr hrows
  have hdenote : (buildPhysicalPlan (.kSort child columnIndex fieldName direction)).denote =
      .error e := by
    rw [QueryLume.denote_sort h.denote h.finish, h.drained, hsort]
    rfl
  have hlimit := graft_graft (.kSort child columnIndex fieldName direction)
    (.kLimit (.kScan { }) k) rest
  refine ⟨e, ?_, graft (.kLimit (.kScan { }) k) rest, child, columnIndex, fieldName, direction, rows,
    hlimit.symm, hrun, hsort⟩
  rw [show graft (.kLimit (.kSort child columnIndex fieldName direction) k) rest = _ from
    hlimit.symm]
  exact runPlan_error (denote_graft_error hdenote _)

/-- Behind a silent top-k, the optimized plan throws exactly when the stages after the limit do not
    come through on the first rows without a key. -/
theorem silent_rejects_iff {child rest : LogicalPlanNode} {columnIndex : Nat} {fieldName : String}
    {direction : SortDirection} {k : Nat} {rows : List Row} {opened : Opened}
    (hbound : (graft (.kLimit (.kSort child columnIndex fieldName direction) k) rest).WellBound)
    (h : SortInput child { columnIndex, direction } rows opened)
    (hcompared : ¬ Incomparable (RowComparator.call { columnIndex, direction })
      (RowComparator.compared { columnIndex, direction } k rows))
    (hrows : Incomparable (RowComparator.call { columnIndex, direction }) rows) :
    (∃ e, runPlan clock (Optimizer.optimize
        (graft (.kLimit (.kSort child columnIndex fieldName direction) k) rest)).1 = .error e) ↔
      StagesReject rest
        (RowComparator.nullTable { columnIndex, direction } (outputSchemaOf child) k rows) := by
  have hnulls := RowComparator.nullTable_wellFormed { columnIndex, direction } k h.distinct h.width
  have hschema : outputSchemaOf (.kScan
      (RowComparator.nullTable { columnIndex, direction } (outputSchemaOf child) k rows)) =
      outputSchemaOf (.kLimit (.kSort child columnIndex fieldName direction) k) := rfl
  have hstages := WellBound.graft (.scan _) hschema hbound
  have hyielded := hstages.optimized_handsOn ((table_graft _ rest).symm ▸ hnulls)
  rw [optimized_silent h hcompared hrows (outputSchemaOf child), StagesReject, ← hyielded.collect,
    optimizedPlan, Optimizer.optimize_fst]
  generalize (buildPhysicalPlan _).denote.bind _ = outcome
  cases outcome with
  | error e => exact ⟨fun _ => rfl, fun _ => ⟨e, rfl⟩⟩
  | ok rows' =>
    constructor
    · rintro ⟨e, herror⟩
      cases herror
    · intro hnone
      cases hnone

/-- The nulls of a limit 3 over a descending sort by `a`, with a `b` each. -/
def nullsByB : Table where
  schema := { fields := ["a", "b"] }
  rows := [{ ordinal := 0, values := [.null, .null] }, { ordinal := 1, values := [.null, .int64 1] },
    { ordinal := 2, values := [.null, .string "x"] }]

-- A sort by `b` gets a number and a string; with a limit 1 over it, it stops at the first null.
example : StagesReject (.kSort (.kScan {}) 1 "b" .kDescending) nullsByB := by decide

example : ¬ StagesReject (.kLimit (.kSort (.kScan {}) 1 "b" .kDescending) 1) nullsByB := by decide

/-- **Error preservation.**  The plan of an accepted pipeline over a loaded table keeps its
    rejections under the optimizer exactly when no top-k hides one: wherever a limit `k` over a sort
    gets keys that do not compare, two that do not compare are among the rows its heap has to look
    at — all of them ascending with `k` positive, those up to the `k`-th null descending — or the
    stages after the limit do not come through on the first `k` nulls. -/
theorem rejection_kept_iff {document : Json} {table : Table} {pipeline : ParsedPipeline}
    (hload : loadTableFromJson document = .ok table)
    (hbind : bindPipeline table pipeline = .ok plan) (clock clock' : Clock) :
    RejectionKept clock clock' plan ↔ NothingSilenced clock plan := by
  obtain ⟨hbound, rfl⟩ := bindPipeline_wellBound hbind
  have htable := loadTableFromJson_wellFormed hload
  have hoptimized : ∀ {e}, runPlan clock' (Optimizer.optimize plan).1 = .error e →
      e.IsQueryLumeError := by
    intro e herror
    obtain ⟨hbound', htable'⟩ := hbound.rewrite
    rw [Optimizer.optimize_fst] at herror
    exact hbound'.runPlan_raises (htable' ▸ htable) herror
  constructor
  · -- a top-k that meets no two such rows leaves it to the rest of the plan
    intro hkept rest child columnIndex fieldName direction k rows hplan hrun comparator hrows
    have hcontains : plan.Contains (.kSort child columnIndex fieldName direction) := by
      have hpair := contains_graft (.kSort child columnIndex fieldName direction)
        (graft (.kLimit (.kScan { }) k) rest)
      rw [graft_graft] at hpair
      exact hplan ▸ hpair
    obtain ⟨opened, hinput⟩ := sortInput hbound htable hcontains hrun
    obtain ⟨e, hrejected⟩ := rejectedBySort_of_pair rest fieldName k hinput hrun hrows
    obtain ⟨e', herror, -⟩ := hkept e (hplan ▸ hrejected)
    by_cases hcompared : Incomparable comparator.call (comparator.compared k rows)
    · exact .inl hcompared
    · exact .inr ((silent_rejects_iff (hplan ▸ hbound) hinput hcompared hrows).mp
        ⟨e', hplan ▸ herror⟩)
  · rintro hnulls e ⟨-, rest, child, columnIndex, fieldName, direction, rows, hplan, hrun, hsort⟩
    have hcontains : plan.Contains (.kSort child columnIndex fieldName direction) :=
      hplan ▸ contains_graft _ rest
    obtain ⟨opened, hinput⟩ := sortInput hbound htable hcontains hrun
    have hrejected : ∃ e', runPlan clock' (Optimizer.optimize plan).1 = .error e' := by
      by_cases hlimit : rest.LimitsScan
      · obtain ⟨above, scanned, k, rfl⟩ := hlimit
        rw [graft_graft] at hplan
        have hpair : plan = graft (.kLimit (.kSort child columnIndex fieldName direction) k) above :=
          hplan
        have hrows := (RowComparator.stdSort_rejects hinput.distinct hinput.wide).mp ⟨e, hsort⟩
        by_cases hcompared : Incomparable (RowComparator.call { columnIndex, direction })
            (RowComparator.compared { columnIndex, direction } k rows)
        · rw [hpair]
          exact optimized_rejects hinput hcompared
        · rcases hnulls above child columnIndex fieldName direction k rows hpair hrun hrows with
            h | h
          · exact absurd h hcompared
          · rw [hpair]
            exact (silent_rejects_iff (hpair ▸ hbound) hinput hcompared hrows).mpr h
      · rw [hplan]
        exact ⟨e, optimized_sort_rejects hinput hlimit hsort⟩
    obtain ⟨e', herror⟩ := hrejected
    exact ⟨e', herror, hoptimized herror⟩

end Rejection

/-! ## A silenced query

  The smallest input at which the condition fails, and what the two plans do there. -/

/-- A number and a string, after a document without the field. -/
def silencedDocuments : List Json :=
  [.object [], .object [("a", .numberUnsigned 1)], .object [("a", .string "x")]]

/-- The last of them by `a`. -/
def silencedPipelineJson : Json :=
  .array [.object [("$sort", .object [("a", .numberInteger (-1))])],
    .object [("$limit", .numberUnsigned 1)]]

/-- The table of these documents. -/
def silencedTable : Table where
  schema := { fields := ["a"] }
  rows := [{ ordinal := 0, values := [.null] }, { ordinal := 1, values := [.int64 1] },
    { ordinal := 2, values := [.string "x"] }]

/-- What the pipeline is parsed to. -/
def silencedPipeline : ParsedPipeline where
  stages := [.kSort { field := ⟨"a"⟩, directionRaw := -1 }, .kLimit { countRaw := 1 }]

/-- And what it is bound to. -/
def silencedPlan : LogicalPlanNode := .kLimit (.kSort (.kScan silencedTable) 0 "a" .kDescending) 1

/-- The plan as bound throws, the optimized one returns. -/
theorem silencedPlan_runs :
    letI := StdLibrary.reference
    (∃ message, runPlan Clock.still silencedPlan =
      .error (.queryLumeError .kIncompatibleTypes message)) ∧
    runPlan Clock.still (Optimizer.optimize silencedPlan).1 =
      .ok [{ ordinal := 0, values := [.null] }] :=
  ⟨⟨_, rfl⟩, rfl⟩

theorem silencedPlan_rejected :
    letI := StdLibrary.reference
    ∃ e, RejectedBySort Clock.still silencedPlan e :=
  ⟨_, rfl, .kLimit (.kScan silencedTable) 1, .kScan silencedTable, 0, "a", .kDescending, _, rfl, rfl, rfl⟩

/-- The full sort throws; the optimized plan returns the document without the field. -/
theorem rejection_silenced :
    letI := StdLibrary.reference
    loadTableFromJson (.array silencedDocuments) = .ok silencedTable ∧
    parsePipeline silencedPipelineJson = .ok silencedPipeline ∧
    bindPipeline silencedTable silencedPipeline = .ok silencedPlan ∧
    ¬ RejectionKept Clock.still Clock.still silencedPlan := by
  refine ⟨rfl, rfl, rfl, fun hkept => ?_⟩
  obtain ⟨e, hrejected⟩ := silencedPlan_rejected
  obtain ⟨e', herror, -⟩ := hkept e hrejected
  rw [silencedPlan_runs.2] at herror
  cases herror

/-- The condition tells the two apart. -/
theorem rejection_kept_iff_sample :
    letI := StdLibrary.reference
    ¬ NothingSilenced Clock.still silencedPlan := by
  intro hnulls
  obtain ⟨e, hrejected⟩ := silencedPlan_rejected
  obtain ⟨e', herror, -⟩ := (@rejection_kept_iff StdLibrary.reference silencedPlan
    (.array silencedDocuments) silencedTable silencedPipeline rfl rfl
    Clock.still Clock.still).mpr hnulls e hrejected
  rw [silencedPlan_runs.2] at herror
  cases herror

end QueryLume
