/-
  Documents that come later.

  A pipeline without a `$sort` answers a collection that only grows as a log is read: over more
  rows it returns what it returned before and possibly more, and an exception it has thrown once it
  throws again (`run_appended`).  A sort breaks this: a later row can come out first.

  The proof goes through the plan, node by node: without a sort every stage is lazy, so the feed
  over more rows continues the feed over the first ones (`Opened.Continues`).  No row is looked at
  for that.
-/
import QueryLume.Query.ExaminedPrefix
import QueryLume.Query.SavedResult

namespace QueryLume

open LogicalPlanNode

/-- Where the first plan has stopped, the second may go on. -/
structure Opened.Continues (opened opened' : Opened) : Prop where
  mark : opened.mark = opened'.mark
  feed : opened.feed.Continues opened'.feed

section Plans

variable [StdLibrary] {table : Table} {rows more : List Row}

/-- Two plans of the same stages without a sort; the second has more rows to scan.  By induction
    on the plan: each lazy operator keeps what `Feed.Continues` says. -/
theorem denote_continues : ∀ node : LogicalPlanNode, node.sorts = false →
    SameOutcome Opened.Continues
      (buildPhysicalPlan (graft (.kScan (table.withRows rows)) node)).denote
      (buildPhysicalPlan (graft (.kScan (table.withRows (rows ++ more))) node)).denote
  | .kScan _, _ => .ok ⟨rfl, Feed.continues_scan rows more 0⟩
  | .kFilter child predicate, hsorts =>
    (denote_continues child hsorts).map fun _ _ h => ⟨h.mark, h.feed.filter predicate.test⟩
  | .kProject child columnIndices _, hsorts =>
    (denote_continues child hsorts).map fun _ _ h =>
      ⟨h.mark, h.feed.mapRows (ProjectStage.project columnIndices)⟩
  | .kLimit child limit, hsorts =>
    (denote_continues child hsorts).map fun opened opened' h => by
      refine ⟨h.mark, ?_⟩
      rw [← h.mark]
      exact h.feed.limit limit opened.mark

/-- **More rows.**  Over rows with others appended, a pipeline without a `$sort` throws what it
    throws over the rows alone; and where it returns, it has returned over the rows alone, a prefix
    of what it returns now. -/
theorem run_appended {pipelineJson : Json} (hnever : NeverSorts pipelineJson) (clock clock' : Clock) :
    (∀ e, runPipeline clock (table.withRows rows) pipelineJson = .error e →
      runPipeline clock' (table.withRows (rows ++ more)) pipelineJson = .error e) ∧
    ∀ result, runPipeline clock' (table.withRows (rows ++ more)) pipelineJson = .ok result →
      ∃ earlier, runPipeline clock (table.withRows rows) pipelineJson = .ok earlier ∧
        earlier.outputSchema = result.outputSchema ∧ earlier.rows <+: result.rows := by
  cases hparse : parsePipeline pipelineJson with
  | error e =>
    simp only [runPipeline, planQuery, hparse]
    exact ⟨fun _ h => h, fun _ h => by cases h⟩
  | ok parsed =>
    cases hbind : bindPipeline table parsed with
    | error e =>
      have hrejected : ∀ rows : List Row, bindPipeline (table.withRows rows) parsed = .error e := by
        intro rows
        rw [bindPipeline_rows (table.withRows rows) table rfl, hbind]
        rfl
      simp only [runPipeline, planQuery, hparse, hrejected]
      exact ⟨fun _ h => h, fun _ h => by cases h⟩
    | ok plan =>
      rw [runPipeline_withRows hparse hbind, runPipeline_withRows hparse hbind,
        optimizedPlan_graft, optimizedPlan_graft]
      have hsorts : (SortLimitToTopKRule.rewrite plan).1.sorts = false :=
        (sorts_rewrite plan).trans (bindStages_sorts (hnever parsed hparse) rfl hbind)
      have hcontinues : SameOutcome Opened.Continues
          (buildPhysicalPlan (graft (.kScan (table.withRows rows))
            (SortLimitToTopKRule.rewrite plan).1)).denote
          (buildPhysicalPlan (graft (.kScan (table.withRows (rows ++ more)))
            (SortLimitToTopKRule.rewrite plan).1)).denote := denote_continues _ hsorts
      generalize (buildPhysicalPlan (graft (.kScan (table.withRows rows))
        (SortLimitToTopKRule.rewrite plan).1)).denote = denoted at hcontinues ⊢
      generalize (buildPhysicalPlan (graft (.kScan (table.withRows (rows ++ more)))
        (SortLimitToTopKRule.rewrite plan).1)).denote = denoted' at hcontinues ⊢
      cases hcontinues with
      | error e => exact ⟨fun _ h => h, fun _ h => by cases h⟩
      | @ok opened opened' h =>
        obtain ⟨hthrows, hreturns⟩ := h.feed.collect
        constructor
        · intro e herror
          exact Except.map_eq_error_iff.mpr (hthrows e (Except.map_eq_error herror))
        · intro result hresult
          obtain ⟨all, hall, rfl⟩ := Except.map_eq_ok hresult
          obtain ⟨earlier, hearlier, hrows⟩ := hreturns all hall
          refine ⟨{ rows := earlier, outputSchema := outputSchemaOf plan }, ?_, rfl, hrows⟩
          exact congrArg _ hearlier

end Plans

/-- Over the second sample document, too, the rows that are kept. -/
theorem run_appended_sample :
    letI := StdLibrary.reference
    ∃ earlier, runPipeline Clock.still (sampleTable.withRows (sampleTable.rows.take 1))
        (.array [positiveA]) = .ok earlier ∧
      earlier.rows <+: [{ ordinal := 1, values := [.int64 1] }] := by
  obtain ⟨earlier, hearlier, -, hrows⟩ :=
    (@run_appended StdLibrary.reference sampleTable (sampleTable.rows.take 1)
      (sampleTable.rows.drop 1) (.array [positiveA]) positiveA_neverSorts Clock.still Clock.still).2
      { rows := [{ ordinal := 1, values := [.int64 1] }], outputSchema := { fields := ["a"] } } rfl
  exact ⟨earlier, hearlier, hrows⟩

end QueryLume
