/-
  Pages of a result.

  A pipeline that ends in `$limit b` and returned can be asked for fewer rows: with `$limit a` it
  returns the first `a` of them (`run_page`), however the two numbers are stored in the JSON.

  For a lazy pipeline the limit just stops earlier, and meets no exception the other did not. Over
  a sort it is another top-k that runs, with a smaller heap that compares other rows: it finds
  comparable whatever the larger one found comparable (`select_take`), because the rows a heap of
  `a` has to look at are among those a heap of `b` has to look at (`compared_mono`).
-/
import QueryLume.Physical.TopKRejection
import QueryLume.Query.Distributed
import QueryLume.Query.Semantics

namespace QueryLume

open BoundedHeap LogicalPlanNode StdAlgorithms

/-! ## A smaller heap

  A heap for fewer rows has less to find comparable, so it comes through where the larger one does,
  and holds the first rows of it. -/

namespace RowComparator

variable {comparator : RowComparator} {rows : List Row} {a b : Nat}

/-- A shorter run up to the first rows without a key is part of a longer one. -/
theorem upToNull_mono : ∀ {a b : Nat} {rows : List Row}, a ≤ b →
    ∀ row ∈ comparator.upToNull a rows, row ∈ comparator.upToNull b rows
  | 0, _, _, _, row, hrow => by
    rw [upToNull] at hrow
    cases hrow
  | _ + 1, _, [], _, row, hrow => by
    rw [upToNull] at hrow
    cases hrow
  | a + 1, b, first :: rows, hle, row, hrow => by
    obtain ⟨b, rfl⟩ : ∃ b', b = b' + 1 := ⟨b - 1, by omega⟩
    rw [upToNull] at hrow ⊢
    rcases List.mem_cons.mp hrow with rfl | hrow
    · exact List.mem_cons_self
    · refine List.mem_cons_of_mem _ (upToNull_mono ?_ row hrow)
      split
      · omega
      · omega

/-- It has to find fewer rows comparable. -/
theorem compared_mono (hle : a ≤ b) :
    ∀ row ∈ comparator.compared a rows, row ∈ comparator.compared b rows := by
  unfold compared
  cases comparator.direction with
  | kAscending =>
    intro row hrow
    by_cases ha : a = 0
    · rw [ha] at hrow
      cases hrow
    · simp only [if_neg ha] at hrow
      have hb : b ≠ 0 := by omega
      simp only [if_neg hb]
      exact hrow
  | kDescending => exact upToNull_mono hle

/-- **A smaller heap** selects the first of the rows a larger one selects. -/
theorem select_take [StdLibrary] (hdistinct : DistinctOrdinals rows)
    (hwide : ∀ row ∈ rows, comparator.columnIndex < row.values.length) (hle : a ≤ b)
    {best : List Row} (h : select comparator.call b rows = .ok best) :
    select comparator.call a rows = .ok (best.take a) := by
  have hlarge : ¬ Incomparable comparator.call (comparator.compared b rows) := by
    intro hincomparable
    obtain ⟨e, herror⟩ := select_rejects hdistinct hwide hincomparable
    rw [h] at herror
    cases herror
  have hsmall : ¬ Incomparable comparator.call (comparator.compared a rows) := fun hincomparable =>
    hlarge (hincomparable.mono (compared_mono hle))
  by_cases hrows : Incomparable comparator.call rows
  · -- both give out nulls
    have hbest := select_silent hdistinct hwide hlarge hrows
    obtain rfl := Except.ok.inj (h.symm.trans hbest)
    rw [select_silent hdistinct hwide hsmall hrows, nullRows, nullRows, List.take_take,
      Nat.min_eq_left hle]
  · have hanswers : AnswersOn comparator.call rows := not_incomparable_iff.mp hrows
    have htake : ∀ k, ∃ sorted, stdSort comparator.call rows = .ok sorted ∧
        select comparator.call k rows = .ok (sorted.take k) := fun k =>
      select_eq_take_sort (before_strictWeak false) hdistinct.nodup
        (hdistinct.totalOn comparator false) (call_agrees false _) hanswers
    obtain ⟨sorted, hsort, hlargeSelect⟩ := htake b
    obtain ⟨sorted', hsort', hsmallSelect⟩ := htake a
    obtain rfl := Except.ok.inj (hsort.symm.trans hsort')
    obtain rfl := Except.ok.inj (h.symm.trans hlargeSelect)
    rw [hsmallSelect, List.take_take, Nat.min_eq_left hle]

end RowComparator

/-! ## A smaller limit

  Over anything but a sort the limit is cut off earlier; over a sort both are top-ks. -/

/-- A limit that stops earlier meets no exception the other did not. -/
theorem finish_limit_mono {α ε : Type} {feed : Feed α ε} {a b mark mark' : Nat} (hle : a ≤ b)
    (h : (feed.limit b mark).finish = none) : (feed.limit a mark').finish = none := by
  induction feed generalizing a b mark mark' with
  | stop finish m =>
    cases a with
    | zero => rfl
    | succ a =>
      obtain ⟨b, rfl⟩ : ∃ b', b = b' + 1 := ⟨b - 1, by omega⟩
      exact h
  | row r m rest ih =>
    cases a with
    | zero => rfl
    | succ a =>
      obtain ⟨b, rfl⟩ : ∃ b', b = b' + 1 := ⟨b - 1, by omega⟩
      exact ih (Nat.le_of_succ_le_succ hle) h

/-- A limit over anything but a sort stays a limit. -/
theorem rewrite_limit {node : LogicalPlanNode} (h : ¬ node.IsSort) (limit : Nat) :
    (SortLimitToTopKRule.rewrite (.kLimit node limit)).1 =
      .kLimit (SortLimitToTopKRule.rewrite node).1 limit := by
  rw [SortLimitToTopKRule.rewrite]
  intro child columnIndex fieldName direction heq
  exact h ⟨child, columnIndex, fieldName, direction, heq⟩

/-- **The optimized plans.**  With the smaller limit the plan opens, comes through, and gives out
    the first rows; over a sort both limits are top-ks. -/
theorem optimized_page [StdLibrary] {node : LogicalPlanNode} (hbound : node.WellBound)
    (htable : node.table.WellFormed) {a b : Nat} (hle : a ≤ b) {opened : Opened}
    (hdenote : (optimizedPlan (.kLimit node b)).denote = .ok opened)
    (hfinish : opened.feed.finish = none) :
    ∃ page, (optimizedPlan (.kLimit node a)).denote = .ok page ∧ page.feed.finish = none ∧
      page.feed.rows = opened.feed.rows.take a := by
  unfold optimizedPlan at hdenote ⊢
  rw [Optimizer.optimize_fst] at hdenote ⊢
  by_cases hsort : node.IsSort
  · obtain ⟨child, columnIndex, fieldName, direction, rfl⟩ := hsort
    obtain _ | _ | _ | ⟨below, addresses⟩ | _ | _ := hbound
    obtain ⟨hbelow, hbelowTable⟩ := below.rewrite
    rw [SortLimitToTopKRule.rewrite] at hdenote ⊢
    obtain ⟨drained, hchild, hdrained, hselect, -⟩ := denote_topK_ok hdenote
    have hok := hbelow.denote_feedOk (hbelowTable ▸ htable) drained hchild
    rw [outputSchemaOf_rewrite] at hok
    have hpage := RowComparator.select_take hok.distinct (hok.wide addresses) hle hselect
    refine ⟨{ mark := drained.feed.total
              feed := .ofList drained.feed.total (opened.feed.rows.take a) }, ?_,
      Feed.finish_ofList _ _, Feed.rows_ofList _ _⟩
    rw [denote_topK hchild hdrained, hpage]
    rfl
  · rw [rewrite_limit hsort] at hdenote ⊢
    obtain ⟨below, hchild, rfl⟩ := Except.map_eq_ok hdenote
    refine ⟨{ below with feed := below.feed.limit a below.mark }, ?_,
      finish_limit_mono hle hfinish, ?_⟩
    · rw [buildPhysicalPlan, PlanStageTree.denote, hchild]
      rfl
    · rw [Feed.rows_limit, Feed.rows_limit, List.take_take, Nat.min_eq_left hle]

/-! ## Pipelines

  The stages before the limit are the same, and the two plans differ in one number. -/

section Pipelines

variable {elements : List Json} {table : Table}

/-- The stages before the limit parse too. -/
theorem parsePipeline_limit_last {count : Json} {k : Int64} {parsed : ParsedPipeline}
    (hcount : parseLimit count = .ok ⟨k⟩)
    (h : parsePipeline (.array (elements ++ [limitJson count])) = .ok parsed) :
    ∃ stages, parsed = ⟨stages ++ [.kLimit ⟨k⟩]⟩ ∧ ∀ {count : Json} {k : Int64},
      parseLimit count = .ok ⟨k⟩ → parsePipeline (.array (elements ++ [limitJson count])) =
        .ok ⟨stages ++ [.kLimit ⟨k⟩]⟩ := by
  obtain ⟨all, hall, -⟩ := Except.map_eq_ok h
  rw [parseStages_append] at hall
  obtain ⟨stages, hstages, -⟩ := Except.bind_eq_ok hall
  have hbefore : parsePipeline (.array elements) = .ok ⟨stages⟩ := by
    rw [parsePipeline, hstages]
    rfl
  have hparse : ∀ {count : Json} {k : Int64}, parseLimit count = .ok ⟨k⟩ →
      parsePipeline (.array (elements ++ [limitJson count])) =
        .ok ⟨stages ++ [.kLimit ⟨k⟩]⟩ := by
    intro count k hcount
    have hlast : parsePipeline (.array [limitJson count]) = .ok ⟨[.kLimit ⟨k⟩]⟩ := by
      rw [parsePipeline, parseStages, parseStage_limitJson, hcount]
      rfl
    rw [parsePipeline_append hbefore, hlast]
    rfl
  exact ⟨stages, Except.ok.inj (h.symm.trans (hparse hcount)), hparse⟩

/-- The plan is a limit over the plan of the stages before, whatever the limit. -/
theorem bindPipeline_limit_last {stages : List ParsedStage} {k : Int64} {plan : LogicalPlanNode}
    (h : bindPipeline table ⟨stages ++ [.kLimit ⟨k⟩]⟩ = .ok plan) :
    ∃ node, plan = .kLimit node k.toInt.toNat ∧ ∀ k : Int64, 0 ≤ k.toInt →
      bindPipeline table ⟨stages ++ [.kLimit ⟨k⟩]⟩ = .ok (.kLimit node k.toInt.toNat) := by
  have hsplit : ∀ k : Int64, bindPipeline table ⟨stages ++ [.kLimit ⟨k⟩]⟩ =
      (bindPipeline table ⟨stages⟩).bind fun node => (bindLimit k).map (.kLimit node ·) := by
    intro k
    refine (bindStages_append stages [.kLimit ⟨k⟩] (.kScan table)).trans ?_
    show (bindPipeline table ⟨stages⟩).bind _ = _
    cases bindPipeline table ⟨stages⟩ with
    | error e => rfl
    | ok node =>
      rw [Except.bind, Except.bind, bindStages, bindStage]
      cases bindLimit k with
      | error e => rfl
      | ok count => rfl
  rw [hsplit] at h
  obtain ⟨node, hnode, hlimit⟩ := Except.bind_eq_ok h
  obtain ⟨count, hcount, rfl⟩ := Except.map_eq_ok hlimit
  refine ⟨node, by rw [bindLimit_reference hcount], fun k hk => ?_⟩
  have hbound : bindLimit k = .ok k.toInt.toNat := by
    rw [bindLimit, if_neg]
    rw [Int64.lt_iff_toInt_lt, Int64.toInt_zero]
    omega
  rw [hsplit, hnode, Except.bind, hbound]
  rfl

/-- **Pages.**  Whatever stages come before: if a pipeline with `$limit b` at its end returns, then
    with `$limit a` for an `a` up to `b` it returns the first `a` of the rows, however the two
    numbers are stored. -/
theorem run_page [StdLibrary] {clock : Clock} {count count' : Json} {a b : Int64}
    {result : QueryResult} (htable : table.WellFormed)
    (hcount : parseLimit count = .ok ⟨a⟩) (hcount' : parseLimit count' = .ok ⟨b⟩)
    (hrun : runPipeline clock table (.array (elements ++ [limitJson count'])) = .ok result)
    (hnonneg : 0 ≤ a.toInt) (hle : a.toInt ≤ b.toInt) (clock' : Clock) :
    runPipeline clock' table (.array (elements ++ [limitJson count])) =
      .ok { result with rows := result.rows.take a.toInt.toNat } := by
  obtain ⟨parsed, plan, opened, hparse, hbind, hdenote, hfinish, hrows, hschema⟩ :=
    runPipeline_ok hrun
  obtain ⟨stages, rfl, hparseAll⟩ := parsePipeline_limit_last hcount' hparse
  obtain ⟨node, rfl, hbindAll⟩ := bindPipeline_limit_last hbind
  obtain ⟨hbound, hplan⟩ := bindPipeline_wellBound hbind
  have htable' : node.table.WellFormed := by
    rw [show node.table = table from hplan]
    exact htable
  have hbelow : node.WellBound := by
    obtain _ | _ | _ | _ | ⟨below⟩ | _ := hbound
    exact below
  obtain ⟨page, hpage, hpageFinish, hpageRows⟩ :=
    optimized_page hbelow htable' (Int.toNat_le_toNat hle) hdenote hfinish
  have hshown : ∀ k : Nat, outputSchemaOf (.kLimit node k) = outputSchemaOf node := fun _ => rfl
  rw [hshown] at hschema
  rw [runPipeline_of_denote (hparseAll hcount) (hbindAll a hnonneg) hpage hpageFinish, hpageRows, hrows,
    hshown, hschema]

end Pipelines

/-- A top-2 by `a`, and its first row. -/
theorem run_page_sample :
    letI := StdLibrary.reference
    runPipeline Clock.still missedTable
        (.array ([sortJson missedSort] ++ [limitJson (.numberUnsigned 1)])) =
      .ok { rows := [{ ordinal := 2, values := [.int64 1, .null] }],
            outputSchema := missedTable.schema } :=
  @run_page [sortJson missedSort] missedTable StdLibrary.reference Clock.still (.numberUnsigned 1)
    (.numberUnsigned 2) 1 2
    { rows := [{ ordinal := 2, values := [.int64 1, .null] },
        { ordinal := 0, values := [.int64 2, .int64 1] }], outputSchema := missedTable.schema }
    missedTable_wellFormed rfl rfl rfl (by decide) (by decide) Clock.still

end QueryLume
