/-
  A query that stopped early does not depend on the documents it did not examine.

  When EXPLAIN ANALYZE has examined fewer documents than the table has, the others may be left out,
  replaced or reordered: the rows and the number of documents examined stay the same
  (`run_examined`).

  The proof goes through the plan: two scans that begin alike make feeds that cannot be told apart
  up to a mark (`Foundation/SamePrefix.lean`), and so does every stage over them, the blocking ones
  because they stop at the mark of their child's end (`denote_sameUpTo`).  The relation is not
  symmetric: the second table may end where the first was not read any further.
-/
import QueryLume.Foundation.SamePrefix
import QueryLume.Query.Distributed
import QueryLume.Query.InputRead

namespace QueryLume

open LogicalPlanNode

/-! ## Plans over tables that begin alike -/

/-- Where a plan opens, the other opens too and yields the same up to mark `n`; or nothing of what
    the first yields comes within the mark. -/
inductive Opened.SameUpTo (n : Nat) (opened : Opened) : Except Exception Opened → Prop where
  | same {feed : RowFeed} (same : opened.feed.SameUpTo n feed) :
      SameUpTo n opened (.ok { opened with feed })
  | beyond (other : Except Exception Opened) (late : n < opened.mark)
      (lateFeed : opened.feed.From (n + 1)) : SameUpTo n opened other

/-- The same for denotations: where the first opens. -/
def SameUpTo (n : Nat) (denoted other : Except Exception Opened) : Prop :=
  ∀ opened, denoted = .ok opened → opened.SameUpTo n other

section Stages

variable {n : Nat} {denoted other : Except Exception Opened}

/-- A lazy stage. -/
theorem SameUpTo.map (h : SameUpTo n denoted other) {f : Nat → RowFeed → RowFeed}
    (hsame : ∀ mark feed feed', feed.SameUpTo n feed' → (f mark feed).SameUpTo n (f mark feed'))
    (hlate : ∀ mark feed, n < mark → feed.From (n + 1) → (f mark feed).From (n + 1)) :
    SameUpTo n (denoted.map fun opened => { opened with feed := f opened.mark opened.feed })
      (other.map fun opened => { opened with feed := f opened.mark opened.feed }) := by
  intro opened hopened
  obtain ⟨below, rfl, rfl⟩ := Except.map_eq_ok hopened
  cases h below rfl with
  | same same => exact .same (hsame below.mark _ _ same)
  | beyond _ late lateFeed => exact .beyond _ late (hlate below.mark _ late lateFeed)

/-- A blocking stage: it reads its child to the end, which is within the mark or is not. -/
theorem SameUpTo.block [StdLibrary] (h : SameUpTo n denoted other)
    (fill : List Row → Row → Except Exception (List Row)) (comparator : RowComparator) :
    SameUpTo n (denoted.bind fun below => below.block fill comparator)
      (other.bind fun below => below.block fill comparator) := by
  intro opened hopened
  obtain ⟨below, rfl, hblock⟩ := Except.bind_eq_ok hopened
  obtain ⟨-, hmark, hatMark⟩ := block_drained hblock
  have hlate : n < below.feed.total →
      opened.SameUpTo n (other.bind fun below => below.block fill comparator) := by
    intro hlt
    exact .beyond _ (by rw [hmark]; exact hlt) (hatMark.from hlt)
  cases h below rfl with
  | @same feed same =>
    rcases Nat.lt_or_ge n below.feed.total with hlt | hle
    · exact hlate hlt
    · obtain rfl := same.eq hle
      show opened.SameUpTo n (below.block fill comparator)
      rw [hblock]
      exact .same hatMark.sameUpTo
  | beyond _ _ lateFeed => exact hlate lateFeed.total

end Stages

/-- **Beginnings.**  A plan over two tables whose first `n` rows are the same; by induction on
    the plan. -/
theorem denote_sameUpTo [StdLibrary] {table table' : Table} {n : Nat}
    (hmore : n < table.rows.length) (hsame : table'.rows.take n = table.rows.take n) :
    ∀ node : LogicalPlanNode, SameUpTo n (buildPhysicalPlan (graft (.kScan table) node)).denote
      (buildPhysicalPlan (graft (.kScan table') node)).denote
  | .kScan _ => by
    intro opened hopened
    obtain rfl := Except.ok.inj hopened
    exact .same (Feed.sameUpTo_scan (by omega) hsame)
  | .kFilter child predicate =>
    (denote_sameUpTo hmore hsame child).map
      (fun _ _ _ same => same.filter predicate.test) fun _ _ _ late => late.filter predicate.test
  | .kProject child columnIndices _ =>
    (denote_sameUpTo hmore hsame child).map
      (fun _ _ _ same => same.mapRows (ProjectStage.project columnIndices))
      fun _ _ _ late => late.mapRows (ProjectStage.project columnIndices)
  | .kSort child columnIndex _ direction =>
    (denote_sameUpTo hmore hsame child).block SortStage.fill { columnIndex, direction }
  | .kLimit child limit =>
    (denote_sameUpTo hmore hsame child).map
      (fun mark _ _ same => same.limit limit mark) fun _ _ hmark late => late.limit limit hmark
  | .kTopK child columnIndex _ direction k =>
    (denote_sameUpTo hmore hsame child).block (TopKStage.fill { columnIndex, direction } k)
      { columnIndex, direction }

/-! ## EXPLAIN ANALYZE -/

section Analyze

variable [StdLibrary] {table : Table} {pipelineJson : Json} {clock : Clock}
  {analysis : Analysis}

omit [StdLibrary] in
/-- A scan is no sort, so the rewrite leaves it alone. -/
theorem not_isSort_scan (table : Table) : ¬ (kScan table).IsSort := by
  rintro ⟨_, _, _, _, h⟩
  cases h

omit [StdLibrary] in
/-- A plan is optimized alike over every table. -/
theorem optimizedPlan_graft (table : Table) (plan : LogicalPlanNode) :
    optimizedPlan (graft (.kScan table) plan) =
      buildPhysicalPlan (graft (.kScan table) (SortLimitToTopKRule.rewrite plan).1) := by
  rw [optimizedPlan, Optimizer.optimize_fst,
    rewrite_graft (.kScan table) plan (.inl (not_isSort_scan table))]
  rfl

/-- What an analysis over another table has examined, from its plan. -/
theorem analyze_of_denote {parsed : ParsedPipeline} {plan : LogicalPlanNode} {opened : Opened}
    (hparse : parsePipeline pipelineJson = .ok parsed)
    (hbind : bindPipeline table parsed = .ok plan)
    (hdenote : (optimizedPlan plan).denote = .ok opened) (hfinish : opened.feed.finish = none)
    (clock : Clock) :
    ∃ analysis, analyze clock table pipelineJson = .ok analysis ∧
      analysis.rows = opened.feed.rows ∧ analysis.planned.outputSchema = outputSchemaOf plan ∧
      analysis.global.documentsExamined = opened.feed.total := by
  have hrun : runPipeline clock table pipelineJson =
      .ok { rows := opened.feed.rows, outputSchema := outputSchemaOf plan } :=
    runPipeline_of_denote hparse hbind hdenote hfinish
  rw [runPipeline_analyze clock clock] at hrun
  obtain ⟨analysis, hanalysis, hresult⟩ := Except.map_eq_ok hrun
  obtain ⟨hrows, hschema⟩ := QueryResult.mk.inj hresult
  refine ⟨analysis, hanalysis, hrows, hschema, ?_⟩
  obtain ⟨parsed', plan', opened', hparse', hbind', hdenote', -, -, hexamined, -⟩ :=
    analyze_ok hanalysis
  obtain rfl := Except.ok.inj (hparse.symm.trans hparse')
  obtain rfl := Except.ok.inj (hbind.symm.trans hbind')
  obtain rfl := Except.ok.inj (hdenote.symm.trans hdenote')
  exact hexamined

/-- **Documents that were not examined.**  When EXPLAIN ANALYZE reports that it has examined `n`
    documents and the table has more, the query depends on the first `n` only: over any other rows
    that begin with these it returns the same rows under the same schema, and again it examines `n`
    documents. -/
theorem run_examined (hrun : analyze clock table pipelineJson = .ok analysis)
    (hmore : analysis.global.documentsExamined < table.rows.length) {rows : List Row}
    (hsame : rows.take analysis.global.documentsExamined =
      table.rows.take analysis.global.documentsExamined) (clock' : Clock) :
    ∃ again, analyze clock' (table.withRows rows) pipelineJson = .ok again ∧
      again.rows = analysis.rows ∧ again.planned.outputSchema = analysis.planned.outputSchema ∧
      again.global.documentsExamined = analysis.global.documentsExamined := by
  obtain ⟨parsed, plan, opened, hparse, hbind, hdenote, hfinish, hrows, hexamined, -⟩ :=
    analyze_ok hrun
  rw [hexamined] at hmore hsame ⊢
  have hother : bindPipeline (table.withRows rows) parsed =
      .ok (graft (.kScan (table.withRows rows)) plan) := by
    rw [bindPipeline_rows (table.withRows rows) table rfl, hbind]
    rfl
  have hplan : graft (.kScan table) plan = plan := by
    rw [← (bindPipeline_wellBound hbind).2]
    exact graft_scan plan
  have hschema : outputSchemaOf (graft (.kScan (table.withRows rows)) plan) =
      outputSchemaOf plan := by
    have hscan : outputSchemaOf (.kScan (table.withRows rows)) = outputSchemaOf (.kScan table) := rfl
    rw [outputSchemaOf_graft hscan, hplan]
  -- the two optimized plans cannot be told apart up to what the first has read
  have hsameUpTo : SameUpTo opened.feed.total
      (buildPhysicalPlan (graft (.kScan table) (SortLimitToTopKRule.rewrite plan).1)).denote
      (buildPhysicalPlan (graft (.kScan (table.withRows rows))
        (SortLimitToTopKRule.rewrite plan).1)).denote := denote_sameUpTo hmore hsame _
  rw [← optimizedPlan_graft, ← optimizedPlan_graft, hplan] at hsameUpTo
  obtain ⟨opened', hdenote', hfeed⟩ : ∃ opened',
      (optimizedPlan (graft (.kScan (table.withRows rows)) plan)).denote = .ok opened' ∧
        opened'.feed = opened.feed := by
    generalize (optimizedPlan (graft (.kScan (table.withRows rows)) plan)).denote = other
      at hsameUpTo ⊢
    cases hsameUpTo opened hdenote with
    | same same => exact ⟨_, rfl, same.eq (Nat.le_refl _)⟩
    | beyond _ _ lateFeed => exact absurd lateFeed.total (Nat.lt_irrefl _)
  obtain ⟨again, hanalyze, hagain, hagainSchema, hagainExamined⟩ :=
    analyze_of_denote hparse hother hdenote' (hfeed ▸ hfinish) clock'
  have hresult : runPipeline clock table pipelineJson =
      .ok { rows := opened.feed.rows, outputSchema := outputSchemaOf plan } :=
    runPipeline_of_denote hparse hbind hdenote hfinish
  rw [runPipeline_analyze clock clock, hrun] at hresult
  obtain ⟨-, hplanSchema⟩ := QueryResult.mk.inj (Except.ok.inj hresult)
  refine ⟨again, hanalyze, ?_, ?_, ?_⟩
  · rw [hagain, hfeed, hrows]
  · rw [hagainSchema, hschema, hplanSchema]
  · rw [hagainExamined, hfeed]

end Analyze

/-- The limit is full after the first document: the second is not needed. -/
theorem run_examined_sample :
    ∃ again, @analyze StdLibrary.reference Clock.still
        (sampleTable.withRows (sampleTable.rows.take 1)) sampleLimitJson = .ok again ∧
      again.rows = sampleTable.rows.take 1 ∧ again.global.documentsExamined = 1 := by
  obtain ⟨analysis, hanalysis⟩ : ∃ analysis, @analyze StdLibrary.reference Clock.still
      sampleTable sampleLimitJson = .ok analysis := ⟨_, rfl⟩
  obtain rfl := Except.ok.inj hanalysis
  obtain ⟨again, hagain, hrows, -, hexamined⟩ :=
    @run_examined StdLibrary.reference sampleTable sampleLimitJson Clock.still _ rfl
      (by decide) (sampleTable.rows.take 1) rfl Clock.still
  exact ⟨again, hagain, hrows, hexamined⟩

end QueryLume
