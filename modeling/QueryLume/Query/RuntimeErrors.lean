/-
  What can go wrong once a query has been planned.

  A plan that was bound reads only columns that are there and asks only predicates for their truth,
  so its iterators throw nothing but what the comparison of two values throws
  (`WellBound.onlyComparisonErrors`).  The invariant is about denotations: opening throws nothing
  else, and no feed ends with anything else (`OnlyComparisonErrors`).

  EXPLAIN plans without running: a query it accepts cannot throw anything else, and one it rejects
  is rejected by a run with the same exception (`explain_decides`).
-/
import QueryLume.Foundation.RowWise
import QueryLume.Query.ErrorContract

namespace QueryLume

open BoundedHeap LogicalPlanNode StdAlgorithms

/-! ## Blocking stages -/

section Blocking

variable [StdLibrary] {fill : List Row → Row → Except Exception (List Row)}
  {comparator : RowComparator} {opened opened' : Opened} {e : Exception}

/-- The three ways a blocking stage fails to open. -/
theorem Opened.block_error (h : opened.block fill comparator = .error e) :
    opened.feed.rows.foldlM fill [] = .error e ∨ opened.feed.finish = some e ∨
      ∃ buffer, opened.feed.rows.foldlM fill [] = .ok buffer ∧
        stdSort comparator.call buffer = .error e := by
  unfold Opened.block at h
  cases hfold : opened.feed.rows.foldlM fill [] with
  | error e' =>
    rw [hfold] at h
    exact .inl (congrArg _ (Except.error.inj h))
  | ok buffer =>
    rw [hfold] at h
    cases hfinish : opened.feed.finish with
    | some e' =>
      simp only [hfinish] at h
      exact .inr (.inl (congrArg _ (Except.error.inj h)))
    | none =>
      simp only [hfinish] at h
      exact .inr (.inr ⟨buffer, rfl, Except.map_eq_error h⟩)

/-- It has to have drained its child to the end. -/
theorem Opened.finish_drained (h : opened.block fill comparator = .ok opened') :
    opened.feed.finish = none := by
  cases hfinish : opened.feed.finish with
  | none => rfl
  | some e' =>
    rw [Opened.block] at h
    simp only [hfinish] at h
    cases hfold : opened.feed.rows.foldlM fill [] with
    | error e => rw [hfold] at h; cases h
    | ok buffer => rw [hfold] at h; cases h

/-- Once it is open, it has nothing left to throw. -/
theorem Opened.finish_block (h : opened.block fill comparator = .ok opened') :
    opened'.feed.finish = none := by
  unfold Opened.block at h
  cases hfold : opened.feed.rows.foldlM fill [] with
  | error e' => rw [hfold] at h; cases h
  | ok buffer =>
    rw [hfold] at h
    cases hfinish : opened.feed.finish with
    | some e' => simp only [hfinish] at h; cases h
    | none =>
      simp only [hfinish] at h
      obtain ⟨sorted, -, rfl⟩ := Except.map_eq_ok h
      exact Feed.finish_ofList _ _

/-- A fill loop throws only what the comparator throws about two of the rows it was given. -/
def RaisesFrom (fill : List Row → Row → Except Exception (List Row)) (comparator : RowComparator) :
    Prop :=
  ∀ (rows : List Row) (e : Exception), rows.foldlM fill [] = .error e →
    ∃ a ∈ rows, ∃ b ∈ rows, comparator.call a b = .error e

omit [StdLibrary] in
theorem SortStage.raisesFrom : RaisesFrom SortStage.fill comparator := by
  intro rows e h
  rw [SortStage.foldlM_fill] at h
  cases h

theorem TopKStage.raisesFrom (k : Nat) : RaisesFrom (TopKStage.fill comparator k) comparator := by
  intro rows e h
  rw [TopKStage.fill, BoundedHeap.foldlM_offer] at h
  exact offerAll_error h

end Blocking

/-! ## The invariant -/

/-- Whatever a plan throws, as it is opened or as it is pulled, is about two values. -/
structure OnlyComparisonErrors (denoted : Except Exception Opened) : Prop where
  opening : ∀ e, denoted = .error e → e.IsComparisonError
  pulling : ∀ opened, denoted = .ok opened → ∀ e, opened.feed.finish = some e → e.IsComparisonError

namespace OnlyComparisonErrors

variable {denoted : Except Exception Opened}

/-- A stage that keeps no rows throws what its child throws, or something of its own. -/
theorem map {f : Opened → Opened} (h : OnlyComparisonErrors denoted)
    (hf : ∀ opened, denoted = .ok opened → ∀ e, (f opened).feed.finish = some e →
      opened.feed.finish = some e ∨ e.IsComparisonError) :
    OnlyComparisonErrors (denoted.map f) := by
  constructor
  · intro e herror
    exact h.opening e (Except.map_eq_error herror)
  · intro opened' hmap e hfinish
    obtain ⟨opened, hopened, rfl⟩ := Except.map_eq_ok hmap
    exact (hf opened hopened e hfinish).elim (h.pulling opened hopened e) id

/-- A stage that drains its child throws what its child throws, or about two rows it was given. -/
theorem block [StdLibrary] {table : Table} {schema : Schema} {fieldName : String}
    {fill : List Row → Row → Except Exception (List Row)} {comparator : RowComparator}
    (h : OnlyComparisonErrors denoted) (hok : DenotesOk table schema denoted)
    (haddresses : schema.Addresses comparator.columnIndex fieldName) (hfill : FillsFrom fill)
    (hraises : RaisesFrom fill comparator) :
    OnlyComparisonErrors (denoted.bind fun opened => opened.block fill comparator) := by
  constructor
  · intro e herror
    cases hdenoted : denoted with
    | error e' =>
      rw [hdenoted] at herror
      exact Except.error.inj herror ▸ h.opening e' hdenoted
    | ok opened =>
      rw [hdenoted] at herror
      have hrows := hok opened hdenoted
      have hcall : ∀ a ∈ opened.feed.rows, ∀ b ∈ opened.feed.rows,
          comparator.call a b = .error e → e.IsComparisonError := fun a ha b hb hthrows =>
        RowComparator.call_wide (hrows.wide haddresses a ha) (hrows.wide haddresses b hb) hthrows
      rcases Opened.block_error herror with hfold | hfinish | ⟨buffer, hfold, hsort⟩
      · obtain ⟨a, ha, b, hb, hthrows⟩ := hraises _ _ hfold
        exact hcall a ha b hb hthrows
      · exact h.pulling opened hdenoted e hfinish
      · obtain ⟨a, ha, b, hb, hthrows⟩ := rearrange_error hsort
        obtain ⟨-, hmem⟩ := hfill _ _ hrows.distinct hfold
        exact hcall a (hmem a ha) b (hmem b hb) hthrows
  · intro opened' hbind e hfinish
    obtain ⟨opened, -, hblock⟩ := Except.bind_eq_ok hbind
    rw [Opened.finish_block hblock] at hfinish
    cases hfinish

end OnlyComparisonErrors

/-- **Runtime errors.**  A well-bound plan over a well-formed table throws comparison errors only.
    -/
theorem LogicalPlanNode.WellBound.onlyComparisonErrors [StdLibrary] {node : LogicalPlanNode}
    (h : node.WellBound) (htable : node.table.WellFormed) :
    OnlyComparisonErrors (buildPhysicalPlan node).denote := by
  induction h with
  | scan table =>
    constructor
    · intro e herror
      cases herror
    · intro opened hopened e hfinish
      rw [← Except.ok.inj hopened, Feed.finish_scan] at hfinish
      cases hfinish
  | @filter child predicate below bound ih =>
    refine (ih htable).map fun opened hopened e hfinish => ?_
    have hok := below.denote_feedOk htable opened hopened
    simp only [Feed.filter_eq_filterMapM] at hfinish
    refine (Feed.finish_filterMapM hfinish).imp_right ?_
    rintro ⟨row, hrow, herror⟩
    exact bound.test_error (hok.derived row hrow).length_eq (Except.map_eq_error herror)
  | @project child columnIndices fieldNames below addresses distinct ih =>
    refine (ih htable).map fun opened hopened e hfinish => ?_
    have hok := below.denote_feedOk htable opened hopened
    simp only [Feed.mapRows_eq_filterMapM] at hfinish
    refine (Feed.finish_filterMapM hfinish).imp_right ?_
    rintro ⟨row, hrow, herror⟩
    -- no cell is missing
    obtain ⟨projected, hprojected⟩ :=
      ProjectStage.project_wide addresses distinct (hok.derived row hrow).length_eq
    rw [hprojected] at herror
    cases herror
  | @sort child columnIndex fieldName direction below addresses ih =>
    exact (ih htable).block (below.denote_feedOk htable) addresses SortStage.fillsFrom
      SortStage.raisesFrom
  | limit below ih =>
    refine (ih htable).map fun opened _ e hfinish => ?_
    exact .inl (Feed.finish_limit hfinish)
  | @topK child columnIndex fieldName direction k below addresses ih =>
    exact (ih htable).block (below.denote_feedOk htable) addresses (TopKStage.fillsFrom _ k)
      (TopKStage.raisesFrom k)

/-- What a run of such a plan throws. -/
theorem LogicalPlanNode.WellBound.collect_error [StdLibrary] {node : LogicalPlanNode}
    (h : node.WellBound) (htable : node.table.WellFormed) {e : Exception}
    (herror : (buildPhysicalPlan node).denote.bind (fun opened => opened.feed.collect) = .error e) :
    e.IsComparisonError := by
  have hthrows := h.onlyComparisonErrors htable
  cases hdenote : (buildPhysicalPlan node).denote with
  | error e' =>
    rw [hdenote] at herror
    exact Except.error.inj herror ▸ hthrows.opening e' hdenote
  | ok opened =>
    rw [hdenote, Except.bind, Feed.collect] at herror
    cases hfinish : opened.feed.finish with
    | none => simp only [hfinish] at herror; cases herror
    | some e' =>
      simp only [hfinish] at herror
      exact Except.error.inj herror ▸ hthrows.pulling opened hdenote e' hfinish

/-! ## The three entry points -/

section EntryPoints

variable [StdLibrary] {table : Table} {pipelineJson : Json} {clock clock' : Clock}

/-- Running and analyzing end alike. -/
theorem explainAnalyze_error (includeResults : Bool) (e : Exception) :
    explainAnalyzePipeline clock' table pipelineJson includeResults = .error e ↔
      runPipeline clock table pipelineJson = .error e := by
  rw [explainAnalyzePipeline, Except.map_eq_error_iff]
  cases hplanned : planQuery table pipelineJson with
  | error e' => simp only [analyze, runPipeline, hplanned, Except.error.injEq]
  | ok planned =>
    simp only [analyze, runPipeline, hplanned, Except.map_eq_error_iff,
      PlanStageTree.execute_denote]

/-- A query that EXPLAIN rejects is rejected by a run. -/
theorem runPipeline_unexplained {e : Exception}
    (h : explainPipeline table pipelineJson = .error e) :
    runPipeline clock table pipelineJson = .error e := by
  have hplanned : planQuery table pipelineJson = .error e := Except.map_eq_error h
  rw [runPipeline, hplanned]

/-- A run of a query that was planned throws comparison errors only. -/
theorem runPipeline_planned {planned : PlannedQuery} (htable : table.WellFormed)
    (hplanned : planQuery table pipelineJson = .ok planned) {e : Exception}
    (h : runPipeline clock table pipelineJson = .error e) : e.IsComparisonError := by
  obtain ⟨parsed, plan, hparse, hbind, -, -⟩ := planQuery_ok hplanned
  obtain ⟨hbound, rfl⟩ := bindPipeline_wellBound hbind
  obtain ⟨hbound', htable'⟩ := hbound.rewrite
  rw [runPipeline_eq hparse hbind, optimizedPlan, Optimizer.optimize_fst] at h
  exact hbound'.collect_error (htable' ▸ htable) (Except.map_eq_error h)

/-- **EXPLAIN decides.**  What EXPLAIN rejects, a run and an EXPLAIN ANALYZE reject with the same
    `QueryLumeError`.  What it accepts, these can fail on only in the comparison of two values, and
    then both with the same exception, whatever their clocks show. -/
theorem explain_decides (htable : table.WellFormed) (pipelineJson : Json) (clock clock' : Clock)
    (includeResults : Bool) :
    (∀ e, explainPipeline table pipelineJson = .error e → e.IsQueryLumeError ∧
      runPipeline clock table pipelineJson = .error e ∧
      explainAnalyzePipeline clock' table pipelineJson includeResults = .error e) ∧
    ∀ plan, explainPipeline table pipelineJson = .ok plan → ∀ e,
      (explainAnalyzePipeline clock' table pipelineJson includeResults = .error e ↔
        runPipeline clock table pipelineJson = .error e) ∧
      (runPipeline clock table pipelineJson = .error e → e.IsComparisonError) := by
  constructor
  · intro e hexplain
    have hrun : runPipeline clock table pipelineJson = .error e := runPipeline_unexplained hexplain
    exact ⟨runPipeline_raises htable hrun, hrun, (explainAnalyze_error includeResults e).mpr hrun⟩
  · intro plan hexplain e
    obtain ⟨planned, hplanned, -⟩ := Except.map_eq_ok hexplain
    exact ⟨explainAnalyze_error includeResults e, runPipeline_planned htable hplanned⟩

end EntryPoints

/-- `[{"$match": {"a": {"$lt": "x"}}}]`. -/
def belowText : Json :=
  .array [.object [("$match", .object [("a", .object [("$lt", .string "x")])])]]

/-- The number in the second row does not compare with a string. -/
theorem explain_decides_sample :
    letI := StdLibrary.reference
    ∃ e, runPipeline Clock.still sampleTable belowText = .error e ∧ e.IsComparisonError :=
  ⟨_, rfl, ((@explain_decides StdLibrary.reference sampleTable sampleTable_wellFormed
    belowText Clock.still Clock.still false).2 _ rfl _).2 rfl⟩

end QueryLume
