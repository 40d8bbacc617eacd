/-
  Queries do not depend on the standard library they were built with.

  The standard says what its algorithms do for a strict weak order, not which pairs they compare.  A
  comparator that throws can tell two libraries apart: the one may ask about two keys that do not
  compare before the other does, or about two others.  Whether a sort throws, and what it returns,
  depends on its rows alone; and so does what a top-k returns, the rows it has to look at being the
  same for every library.  So two builds return the same, or both throw (`run_portable`).

  The libraries are those of `StdAlgorithms`: they meet their contracts and never compare an element
  with itself.  A library that does, such as libstdc++ in debug mode, is told apart by a single bool
  or NaN key, which throws when it is compared with itself and with no other key beside a null.
-/
import QueryLume.Query.DoubleSort
import QueryLume.Query.RuntimeErrors

namespace QueryLume

open BoundedHeap LogicalPlanNode StdAlgorithms

/-- The same outcome, or two rejections that are about a pair of values each. -/
inductive Portable {α : Type} : Except Exception α → Except Exception α → Prop where
  | same (outcome : Except Exception α) : Portable outcome outcome
  | rejected {e e' : Exception} (comparison : e.IsComparisonError)
      (comparison' : e'.IsComparisonError) : Portable (.error e) (.error e')

namespace Portable

variable {α β : Type} {x y : Except Exception α}

theorem map (f : α → β) (h : Portable x y) : Portable (x.map f) (y.map f) := by
  cases h with
  | same => exact .same _
  | rejected he he' => exact .rejected he he'

/-- One computation after another, in both builds. -/
theorem bind {f g : α → Except Exception β} (h : Portable x y)
    (hfg : ∀ a, x = .ok a → y = .ok a → Portable (f a) (g a)) :
    Portable (x.bind f) (y.bind g) := by
  cases h with
  | rejected he he' => exact .rejected he he'
  | same =>
    cases x with
    | error e => exact .same _
    | ok a => exact hfg a rfl rfl

end Portable

/-! ## Two libraries

  What a sort returned does not depend on the library, and whether it returns does not either: if
  two of the keys do not compare no sort can return.  Which pair is met first does depend on it,
  and with it the message. -/

section Libraries

variable (first second : StdAlgorithms) {comparator : RowComparator} {rows : List Row}

namespace RowComparator

/-- What a sort returned is THE arrangement of its rows in order, and the keys all compare. -/
theorem stdSort_ok_iff [StdAlgorithms] (hdistinct : DistinctOrdinals rows)
    (hwide : ∀ row ∈ rows, comparator.columnIndex < row.values.length) {sorted : List Row} :
    stdSort comparator.call rows = .ok sorted ↔ AnswersOn comparator.call rows ∧
      sorted.Perm rows ∧ IsSorted (comparator.before false) sorted := by
  have hstrict : IsStrictWeakOrder Row (comparator.before false) := before_strictWeak false
  have hagree : Agrees comparator.call (comparator.before false) (· ∈ rows) := call_agrees false _
  constructor
  · intro h
    exact ⟨stdSort_answers hdistinct hwide h, stdSort_sorted hstrict hdistinct.nodup hagree h⟩
  · rintro ⟨hanswers, hperm, hsorted⟩
    obtain ⟨sorted', h'⟩ := stdSort_total hdistinct.nodup hanswers
    obtain ⟨hperm', hsorted'⟩ := stdSort_sorted hstrict hdistinct.nodup hagree h'
    have hsame : sorted' = sorted := by
      refine eq_of_isSorted (comparator.before false) (fun a ha b hb hab => ?_)
        (hperm'.trans hperm.symm) hsorted hsorted'
      exact hdistinct.totalOn comparator false a (hperm.mem_iff.mp ha) b (hperm.mem_iff.mp hb) hab
    rw [h', hsame]

/-- So the one library returns it where the other does. -/
theorem stdSort_ported (hdistinct : DistinctOrdinals rows)
    (hwide : ∀ row ∈ rows, comparator.columnIndex < row.values.length) {sorted : List Row}
    (h : @stdSort _ _ first comparator.call rows = .ok sorted) :
    @stdSort _ _ second comparator.call rows = .ok sorted := by
  have hspec := fun library : StdAlgorithms =>
    (stdSort_ok_iff hdistinct hwide : @stdSort _ _ library comparator.call rows = .ok sorted ↔ _)
  exact (hspec second).mpr ((hspec first).mp h)

/-- And where the one throws, so does the other, about two of its keys. -/
theorem stdSort_portable (hdistinct : DistinctOrdinals rows)
    (hwide : ∀ row ∈ rows, comparator.columnIndex < row.values.length) :
    Portable (@stdSort _ _ first comparator.call rows)
      (@stdSort _ _ second comparator.call rows) := by
  have hthrows : ∀ (library : StdAlgorithms) e,
      @stdSort _ _ library comparator.call rows = .error e → e.IsComparisonError := by
    intro library e h
    obtain ⟨a, ha, b, hb, hcall⟩ := rearrange_error h
    exact call_wide (hwide a ha) (hwide b hb) hcall
  cases h : @stdSort _ _ first comparator.call rows with
  | ok sorted =>
    rw [stdSort_ported first second hdistinct hwide h]
    exact .same _
  | error e =>
    cases h' : @stdSort _ _ second comparator.call rows with
    | ok sorted =>
      rw [stdSort_ported second first hdistinct hwide h'] at h
      cases h
    | error e' => exact .rejected (hthrows first e h) (hthrows second e' h')

/-- What a top-k throws is about two of its rows. -/
theorem select_comparisonError [StdAlgorithms] {k : Nat} {e : Exception}
    (hwide : ∀ row ∈ rows, comparator.columnIndex < row.values.length)
    (hdistinct : DistinctOrdinals rows)
    (h : select comparator.call k rows = .error e) : e.IsComparisonError := by
  rw [select] at h
  cases hoffer : offerAll comparator.call k [] rows with
  | error e' =>
    rw [hoffer] at h
    obtain ⟨a, ha, b, hb, hcall⟩ := offerAll_error hoffer
    exact Except.error.inj h ▸ call_wide (hwide a ha) (hwide b hb) hcall
  | ok buffer =>
    rw [hoffer] at h
    obtain ⟨-, hsub, -⟩ := offerAll_retains_both hdistinct hoffer
    obtain ⟨a, ha, b, hb, hcall⟩ := rearrange_error h
    exact call_wide (hwide a (hsub a ha)) (hwide b (hsub b hb)) hcall

theorem select_portable (k : Nat) (hdistinct : DistinctOrdinals rows)
    (hwide : ∀ row ∈ rows, comparator.columnIndex < row.values.length) :
    Portable (@select _ _ first comparator.call k rows)
      (@select _ _ second comparator.call k rows) := by
  by_cases hcompared : Incomparable comparator.call (comparator.compared k rows)
  · -- both meet two keys that do not compare
    have hthrows : ∀ library : StdAlgorithms, ∃ e,
        @select _ _ library comparator.call k rows = .error e ∧ e.IsComparisonError := by
      intro library
      obtain ⟨e, h⟩ := select_rejects hdistinct hwide hcompared
      exact ⟨e, h, select_comparisonError hwide hdistinct h⟩
    obtain ⟨e, h, he⟩ := hthrows first
    obtain ⟨e', h', he'⟩ := hthrows second
    rw [h, h']
    exact .rejected he he'
  · by_cases hrows : Incomparable comparator.call rows
    · -- neither does, and both give out the first nulls
      have hnulls : ∀ library : StdAlgorithms, @select _ _ library comparator.call k rows =
          .ok (comparator.nullRows k rows) := fun library =>
        select_silent hdistinct hwide hcompared hrows
      rw [hnulls first, hnulls second]
      exact .same _
    · have hspec := fun library : StdAlgorithms =>
        @select_eq_take_sort _ _ library comparator.call (comparator.before false) k rows
          (before_strictWeak false) hdistinct.nodup (hdistinct.totalOn comparator false)
          (call_agrees false _) (not_incomparable_iff.mp hrows)
      obtain ⟨sorted, hsort, hselect⟩ := hspec first
      obtain ⟨sorted', hsort', hselect'⟩ := hspec second
      rw [stdSort_ported first second hdistinct hwide hsort] at hsort'
      rw [hselect, hselect', Except.ok.inj hsort']
      exact .same _

end RowComparator

end Libraries

/-! ## Two builds

  The denotation of a plan under both libraries, by induction on the plan. -/

section Builds

variable (first second : StdLibrary)

/-- Draining a child that ends with an exception fails, with one about two values. -/
theorem LogicalPlanNode.WellBound.topK_drain_error [StdLibrary] {child : LogicalPlanNode}
    {columnIndex k : Nat} {fieldName : String} {direction : SortDirection} {opened : Opened}
    {e : Exception}
    (h : (LogicalPlanNode.kTopK child columnIndex fieldName direction k).WellBound)
    (htable : child.table.WellFormed) (hdenote : (buildPhysicalPlan child).denote = .ok opened)
    (hfinish : opened.feed.finish = some e) :
    ∃ e', opened.block (TopKStage.fill { columnIndex, direction } k) { columnIndex, direction } =
      .error e' ∧ e'.IsComparisonError := by
  have hthrows := h.onlyComparisonErrors htable
  cases hblock : opened.block (TopKStage.fill { columnIndex, direction } k)
      { columnIndex, direction } with
  | error e' =>
    refine ⟨e', rfl, hthrows.opening e' ?_⟩
    rw [buildPhysicalPlan, PlanStageTree.denote, hdenote]
    exact hblock
  | ok opened' =>
    have hend := Opened.finish_drained hblock
    rw [hfinish] at hend
    cases hend

/-- **Portable plans.**  A well-bound plan denotes the same for two libraries, or both reject it. -/
theorem LogicalPlanNode.WellBound.denote_portable {node : LogicalPlanNode} (h : node.WellBound)
    (htable : node.table.WellFormed) :
    Portable (@PlanStageTree.denote first (buildPhysicalPlan node))
      (@PlanStageTree.denote second (buildPhysicalPlan node)) := by
  induction h with
  | scan table => exact .same _
  | filter _ _ ih => exact (ih htable).map _
  | project _ _ _ ih => exact (ih htable).map _
  | limit _ ih => exact (ih htable).map _
  | @sort child columnIndex fieldName direction below addresses ih =>
    refine (ih htable).bind fun opened hdenote _ => ?_
    have hok : FeedOk child.table (outputSchemaOf child) opened.feed.rows :=
      @WellBound.denote_feedOk first _ below htable opened hdenote
    cases hfinish : opened.feed.finish with
    | some e =>
      simp only [Opened.block, SortStage.foldlM_fill, hfinish]
      exact .same _
    | none =>
      rw [@Opened.block_sort first _ _ hfinish, @Opened.block_sort second _ _ hfinish]
      exact (RowComparator.stdSort_portable first.toStdAlgorithms second.toStdAlgorithms hok.distinct
        (hok.wide addresses)).map _
  | @topK child columnIndex fieldName direction k below addresses ih =>
    refine (ih htable).bind fun opened hdenote hdenote' => ?_
    have hok : FeedOk child.table (outputSchemaOf child) opened.feed.rows :=
      @WellBound.denote_feedOk first _ below htable opened hdenote
    cases hfinish : opened.feed.finish with
    | some e =>
      have hbound : (LogicalPlanNode.kTopK child columnIndex fieldName direction k).WellBound :=
        .topK below addresses
      obtain ⟨e₁, h₁, he₁⟩ := @topK_drain_error first _ _ _ _ _ _ _ hbound htable hdenote hfinish
      obtain ⟨e₂, h₂, he₂⟩ := @topK_drain_error second _ _ _ _ _ _ _ hbound htable hdenote' hfinish
      rw [h₁, h₂]
      exact .rejected he₁ he₂
    | none =>
      rw [@Opened.block_topK first _ k _ hfinish, @Opened.block_topK second _ k _ hfinish]
      exact (RowComparator.select_portable first.toStdAlgorithms second.toStdAlgorithms k hok.distinct
        (hok.wide addresses)).map _

/-- **Portability.**  Two builds of the engine with two standard libraries, on two clocks: a query
    over a well-formed table returns the same rows in both, or both reject it.  An exception can
    differ only between two that are about a pair of values each. -/
theorem run_portable {table : Table} (htable : table.WellFormed) (pipelineJson : Json)
    (clock clock' : Clock) :
    Portable (@runPipeline first clock table pipelineJson)
      (@runPipeline second clock' table pipelineJson) := by
  cases hparse : parsePipeline pipelineJson with
  | error e =>
    simp only [runPipeline, planQuery, hparse]
    exact .same _
  | ok parsed =>
    cases hbind : bindPipeline table parsed with
    | error e =>
      simp only [runPipeline, planQuery, hparse, hbind]
      exact .same _
    | ok plan =>
      obtain ⟨hbound, rfl⟩ := bindPipeline_wellBound hbind
      obtain ⟨hbound', htable'⟩ := hbound.rewrite
      have hportable := hbound'.denote_portable first second (htable' ▸ htable)
      rw [@runPipeline_eq first _ _ _ _ _ hparse hbind, @runPipeline_eq second _ _ _ _ _ hparse hbind,
        optimizedPlan, Optimizer.optimize_fst]
      exact (hportable.bind fun opened _ _ => .same _).map _

end Builds

/-! ## Another library

  A table on which the two builds give different messages. -/

/-- A number, a string and a number. -/
def mixedTable : Table where
  schema := { fields := ["a"] }
  rows := [{ ordinal := 0, values := [.int64 1] }, { ordinal := 1, values := [.string "x"] },
    { ordinal := 2, values := [.double (.infinity false)] }]

/-- The two libraries meet different pairs that do not compare; both reject the sort. -/
theorem run_portable_sample :
    Portable
      (@runPipeline StdLibrary.reference Clock.still mixedTable
        (.array [sortJson (.object [("a", .numberInteger 1)])]))
      (@runPipeline StdLibrary.backwards Clock.still mixedTable
        (.array [sortJson (.object [("a", .numberInteger 1)])])) :=
  run_portable StdLibrary.reference StdLibrary.backwards
    ⟨by decide, by unfold DistinctOrdinals; decide⟩ _ Clock.still Clock.still

end QueryLume
