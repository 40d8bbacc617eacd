/-
  The optimizer changes how a plan is executed, not what it yields.

  The only thing the optimizer does is to put a top-k in the place of a limit over a sort.  Where
  the full sort returned it has found every two rows comparable, so the bounded heap never meets a
  pair it cannot compare either, and keeps the same `k` rows (`select_eq_take_sort`); both stages
  have drained their child by the time the first row is given out, so the marks agree as well.
  That is one pair (`block_topK`).

  `denote_rewrite` carries it through the rest of the plan by induction along the rewrite: if the
  unoptimized plan opens, the optimized one opens and has the SAME denotation, marks included.

  The condition is needed: where the full sort throws, the top-k need not
  (`Physical/TopKRejection.lean`).
-/
import QueryLume.Foundation.Checked
import QueryLume.Foundation.ReferenceAlgorithms
import QueryLume.Physical.Provenance

namespace QueryLume

open LogicalPlanNode StdAlgorithms

section Rewrite

variable [StdLibrary]

omit [StdLibrary] in
/-- A derived row has the column a well-bound comparator reads. -/
theorem FeedOk.wide {table : Table} {schema : Schema} {rows : List Row}
    (h : FeedOk table schema rows) {index : Nat} {name : String}
    (haddresses : schema.Addresses index name) : ∀ row ∈ rows, index < row.values.length := by
  intro row hrow
  rw [(h.derived row hrow).length_eq]
  exact haddresses.lt

/-- A sort over rows that all come through sorts them. -/
theorem Opened.block_sort (comparator : RowComparator) {opened : Opened}
    (hfinish : opened.feed.finish = none) :
    opened.block SortStage.fill comparator =
      (stdSort comparator.call opened.feed.rows).map fun sorted =>
        { mark := opened.feed.total, feed := .ofList opened.feed.total sorted } := by
  rw [Opened.block, SortStage.foldlM_fill, List.nil_append]
  simp only [hfinish]

/-- A top-k over rows that all come through selects from them. -/
theorem Opened.block_topK (comparator : RowComparator) (k : Nat) {opened : Opened}
    (hfinish : opened.feed.finish = none) :
    opened.block (TopKStage.fill comparator k) comparator =
      (BoundedHeap.select comparator.call k opened.feed.rows).map fun selected =>
        { mark := opened.feed.total, feed := .ofList opened.feed.total selected } := by
  rw [Opened.block, TopKStage.fill, BoundedHeap.foldlM_offer, BoundedHeap.select]
  cases BoundedHeap.offerAll comparator.call k [] opened.feed.rows with
  | error e => rfl
  | ok buffer => simp only [hfinish]

section Blocking

variable {child : LogicalPlanNode} {drained : Opened}
  (hchild : (buildPhysicalPlan child).denote = .ok drained) (hfinish : drained.feed.finish = none)
  (columnIndex : Nat) (fieldName : String) (direction : SortDirection)

include hchild hfinish

/-- A sort over a child that is drained to its end. -/
theorem denote_sort :
    (buildPhysicalPlan (.kSort child columnIndex fieldName direction)).denote =
      (stdSort (RowComparator.call { columnIndex, direction }) drained.feed.rows).map fun sorted =>
        { mark := drained.feed.total, feed := .ofList drained.feed.total sorted } := by
  rw [buildPhysicalPlan, PlanStageTree.denote, hchild]
  exact Opened.block_sort _ hfinish

/-- A top-k over a child that is drained to its end. -/
theorem denote_topK (k : Nat) :
    (buildPhysicalPlan (.kTopK child columnIndex fieldName direction k)).denote =
      (BoundedHeap.select (RowComparator.call { columnIndex, direction }) k drained.feed.rows).map
        fun selected =>
          { mark := drained.feed.total, feed := .ofList drained.feed.total selected } := by
  rw [buildPhysicalPlan, PlanStageTree.denote, hchild]
  exact Opened.block_topK _ k hfinish

end Blocking

/-- **One pair.**  Where the full sort succeeds, the top-k stage yields what the limit over the sort
    would have, with the same reads. -/
theorem block_topK {table : Table} {schema : Schema} {comparator : RowComparator} {name : String}
    {k : Nat} {opened sorted : Opened} (hok : FeedOk table schema opened.feed.rows)
    (haddresses : schema.Addresses comparator.columnIndex name)
    (h : opened.block SortStage.fill comparator = .ok sorted) :
    opened.block (TopKStage.fill comparator k) comparator =
      .ok { sorted with feed := sorted.feed.limit k sorted.mark } := by
  cases hfinish : opened.feed.finish with
  | some e =>
    rw [Opened.block, SortStage.foldlM_fill] at h
    simp only [hfinish] at h
    cases h
  | none =>
    rw [Opened.block_sort comparator hfinish] at h
    rw [Opened.block_topK comparator k hfinish]
    cases hsort : stdSort comparator.call opened.feed.rows with
    | error e => rw [hsort] at h; cases h
    | ok rows =>
      rw [hsort] at h
      have hanswers := RowComparator.stdSort_answers hok.distinct (hok.wide haddresses) hsort
      obtain ⟨rows', hsort', hselect⟩ := BoundedHeap.select_eq_take_sort (k := k)
        (RowComparator.before_strictWeak false) hok.distinct.nodup
        (hok.distinct.totalOn comparator false) (RowComparator.call_agrees false _) hanswers
      have hrows : rows' = rows := Except.ok.inj (hsort'.symm.trans hsort)
      rw [hselect, hrows, ← Except.ok.inj h]
      simp only [Except.map, Feed.limit_ofList]

/-- **The rewrite.**  A plan that opens yields the same after it: the same rows, the same end, after
    the same reads. -/
theorem LogicalPlanNode.WellBound.denote_rewrite {node : LogicalPlanNode} (h : node.WellBound)
    (htable : node.table.WellFormed) {opened : Opened}
    (hdenote : (buildPhysicalPlan node).denote = .ok opened) :
    (buildPhysicalPlan (SortLimitToTopKRule.rewrite node).1).denote = .ok opened := by
  fun_induction SortLimitToTopKRule.rewrite node generalizing opened with
  | case1 grandchild columnIndex fieldName direction limit ih =>
    -- a limit directly over a sort
    obtain _ | _ | _ | _ | ⟨hsort⟩ | _ := h
    obtain _ | _ | _ | ⟨below, addresses⟩ | _ | _ := hsort
    simp only [buildPhysicalPlan, PlanStageTree.denote] at hdenote ⊢
    obtain ⟨sorted, hsorted, hlimit⟩ := Except.map_eq_ok hdenote
    obtain ⟨drained, hchild, hblock⟩ := Except.bind_eq_ok hsorted
    have hok := below.denote_feedOk htable drained hchild
    rw [ih below htable hchild, Except.bind, block_topK hok addresses hblock, ← hlimit]
  | case2 table => exact hdenote
  | case3 child predicate ih =>
    cases h with
    | filter below => exact Except.map_eq_ok_mono (fun _ => ih below htable) hdenote
  | case4 child columnIndices fieldNames ih =>
    cases h with
    | project below => exact Except.map_eq_ok_mono (fun _ => ih below htable) hdenote
  | case5 child columnIndex fieldName direction ih =>
    cases h with
    | sort below => exact Except.bind_eq_ok_mono (fun _ => ih below htable) hdenote
  | case6 child limit hsort ih =>
    cases h with
    | limit below => exact Except.map_eq_ok_mono (fun _ => ih below htable) hdenote
  | case7 child columnIndex fieldName direction k ih =>
    cases h with
    | topK below => exact Except.bind_eq_ok_mono (fun _ => ih below htable) hdenote

end Rewrite

/-! ## Runs of the two plans -/

section Runs

variable {σ : Type} {root : PlanStage σ} {scanned : σ → Nat} {s : σ} {denoted : Except Exception Opened}

/-- A root whose `open()` succeeded denotes what pulling it then gives. -/
theorem Opens.pulled (hopens : Opens root scanned s denoted) {clock : Clock}
    (hok : (root.open clock s).result = .ok ()) :
    ∃ opened, denoted = .ok opened ∧
      let pulled := pullRows root (root.open clock s).clock (root.open clock s).stage
      pulled.locals = opened.feed.rows ∧ pulled.result = Feed.outcome opened.feed := by
  cases denoted with
  | error e =>
    have herr : (root.open clock s).result = .error e := hopens clock
    rw [hok] at herr
    cases herr
  | ok opened =>
    obtain ⟨-, -, hfeed⟩ := hopens clock
    obtain ⟨hrows, hresult, -⟩ := pullRows_feed (root.open clock s).clock hfeed
    exact ⟨opened, rfl, hrows, hresult⟩

end Runs

/-- **Optimizer correctness.**  When the unoptimized plan opens, so does the optimized one, and
    pulling either gives the same rows and ends alike — with the same exception after the same
    number of rows, if it ends with one.  The two runs may use different clocks. -/
theorem optimize_correct [StdLibrary] {table : Table} {pipeline : ParsedPipeline}
    {plan : LogicalPlanNode} (htable : table.WellFormed) (hbind : bindPipeline table pipeline = .ok plan)
    (clock clock' : Clock) :
    let unoptimized := buildPhysicalPlan plan
    let optimized := buildPhysicalPlan (Optimizer.optimize plan).1
    let opened := unoptimized.planStage.open clock unoptimized.constructed
    let opened' := optimized.planStage.open clock' optimized.constructed
    let pulled := pullRows unoptimized.planStage opened.clock opened.stage
    let pulled' := pullRows optimized.planStage opened'.clock opened'.stage
    opened.result = .ok () →
    opened'.result = .ok () ∧ pulled'.locals = pulled.locals ∧ pulled'.result = pulled.result := by
  intro unoptimized optimized opened opened' pulled pulled' hopened
  obtain ⟨hbound, rfl⟩ := bindPipeline_wellBound hbind
  obtain ⟨denoted, hdenote, hrows, hresult⟩ := unoptimized.opens_denote.pulled hopened
  have hdenote' := hbound.denote_rewrite htable hdenote
  have hopens' := optimized.opens_denote
  rw [show optimized.denote = .ok denoted from hdenote'] at hopens'
  have hopened' : opened'.result = .ok () := (hopens' clock').1
  obtain ⟨denoted', heq, hrows', hresult'⟩ := Opens.pulled hopens' hopened'
  obtain rfl := Except.ok.inj heq
  exact ⟨hopened', hrows'.trans hrows.symm, hresult'.trans hresult.symm⟩

/-- Two rows, one of them without a sort key. -/
def sampleTable : Table where
  schema := { fields := ["a"] }
  rows := [{ ordinal := 0, values := [.null] }, { ordinal := 1, values := [.int64 1] }]

/-- Sort by `a`, and the first row. -/
def samplePipeline : ParsedPipeline where
  stages := [.kSort { field := ⟨"a"⟩, directionRaw := 1 }, .kLimit { countRaw := 1 }]

/-- One column, two ordinals. -/
theorem sampleTable_wellFormed : sampleTable.WellFormed where
  wide := by decide
  distinct := by unfold DistinctOrdinals; decide

/-- Rewritten and run with the reference algorithms, the sample opens. -/
theorem optimize_correct_sample :
    letI := StdLibrary.reference
    let optimized := buildPhysicalPlan
      (Optimizer.optimize (.kLimit (.kSort (.kScan sampleTable) 0 "a" .kAscending) 1)).1
    (optimized.planStage.open Clock.still optimized.constructed).result = .ok () :=
  (@optimize_correct StdLibrary.reference sampleTable samplePipeline _
    sampleTable_wellFormed rfl Clock.still Clock.still rfl).1

end QueryLume
