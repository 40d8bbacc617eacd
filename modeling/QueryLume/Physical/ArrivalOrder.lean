/-
  The blocking stages do not see the order in which rows arrive.

  1. **Where all keys compare**, sorted order is total: the ordinals decide between equal keys.  So
     there is only one way to arrange the rows, and only one choice of the first `k`
     (`stdSort_arrival`, `select_arrival`), however they came in.

  2. **Where they do not**, a top-k that does not look at all of its rows does see the order:
     whether it meets two keys that do not compare depends on which rows came first.  What it gave
     out for one order it gives out for another exactly when it finds comparable what it then has
     to look at (`select_rearranged`).

  3. **Stages** — `Delivers` says what a child gives out when it is opened and pulled to its end,
     counters and clocks apart.  `sort_delivers` and `topK_delivers` carry the list facts to the
     stage objects, and `blocking_arrival` states them for two children that give out the same rows
     in two orders.

  The sort before a sort (`Query/DoubleSort.lean`), the rearranged and partitioned tables
  (`Query/Distributed.lean`) and the order of the documents in a file (`Query/DocumentOrder.lean`)
  rest on this.
-/
import QueryLume.Physical.Equivalence
import QueryLume.Physical.TopKRejection

namespace QueryLume

open BoundedHeap StdAlgorithms

/-! ## Rearranged rows

  Where all keys compare there is one sorted arrangement, and the order of arrival is lost.  Where
  some do not, a top-k may have looked at them in one order of arrival and not in the other. -/

namespace RowComparator

variable {comparator : RowComparator} {rows rows' : List Row} {k : Nat}

/-- What a heap has to look at are rows that arrived: nothing about a top-k depends on rows
    outside its input. -/
theorem compared_subset : ∀ row ∈ comparator.compared k rows, row ∈ rows := by
  intro row hrow
  unfold compared at hrow
  cases hdirection : comparator.direction with
  | kAscending =>
    simp only [hdirection] at hrow
    split at hrow
    · cases hrow
    · exact hrow
  | kDescending =>
    simp only [hdirection] at hrow
    cases k with
    | zero =>
      rw [upToNull] at hrow
      cases hrow
    | succ k =>
      rcases upToNull_cases k rows with ⟨hall, -⟩ | ⟨front, null, rest, hsplit, hfront, -, -⟩
      · rwa [hall] at hrow
      · rw [hfront] at hrow
        rw [hsplit, List.append_cons]
        exact List.mem_append_left _ hrow

/-- The first rows without a key are the same ones, in the order of their ordinals. -/
theorem nullRows_perm (hdistinct : DistinctOrdinals rows) (hperm : rows'.Perm rows) :
    comparator.nullRows k rows' = comparator.nullRows k rows := by
  let ordered := fun a b : Row => a.ordinal ≤ b.ordinal
  have hsorted : ∀ xs : List Row, (xs.insertionSort ordered).Pairwise ordered :=
    fun xs => List.pairwise_insertionSort ordered xs
  have hfilter := hperm.filter comparator.hasNullKey
  have hsame : (rows'.filter comparator.hasNullKey).insertionSort ordered =
      (rows.filter comparator.hasNullKey).insertionSort ordered := by
    refine List.Perm.eq_of_pairwise (fun a b ha hb hab hba => ?_) (hsorted _) (hsorted _)
      ((List.perm_insertionSort _ _).trans (hfilter.trans (List.perm_insertionSort _ _).symm))
    have hmem : ∀ {x : Row} {xs : List Row}, xs.Perm rows →
        x ∈ (xs.filter comparator.hasNullKey).insertionSort ordered → x ∈ rows := by
      intro x xs hxs hx
      rw [List.Perm.mem_iff (List.perm_insertionSort _ _)] at hx
      exact hxs.mem_iff.mp (List.mem_filter.mp hx).1
    by_contra hne
    exact hdistinct.ne (hmem hperm ha) (hmem (List.Perm.refl _) hb) hne (Nat.le_antisymm hab hba)
  rw [nullRows, nullRows]
  exact congrArg (List.take k) hsame

section Selection

variable [StdAlgorithms]

/-- **One sorted order.**  Where all keys compare, a sort returns the same for any arrival order:
    both results are sorted by one total order and hold the same rows. -/
theorem stdSort_arrival (hdistinct : DistinctOrdinals rows)
    (hanswers : AnswersOn comparator.call rows) (hperm : rows'.Perm rows) :
    stdSort comparator.call rows' = stdSort comparator.call rows :=
  stdSort_perm (before_strictWeak false) hdistinct.nodup (hdistinct.totalOn comparator false)
    (call_agrees false _) hanswers hperm

/-- And so does a top-k: both selections are the first `k` of that one order. -/
theorem select_arrival (hdistinct : DistinctOrdinals rows)
    (hanswers : AnswersOn comparator.call rows) (hperm : rows'.Perm rows) :
    select comparator.call k rows' = select comparator.call k rows :=
  select_perm (before_strictWeak false) hdistinct.nodup (hdistinct.totalOn comparator false)
    (call_agrees false _) hanswers hperm

/-- **Rearranged rows under a top-k.**  What a top-k gave out for one arrival order it gives out for
    another, exactly when it finds comparable the rows it then has to look at. -/
theorem select_rearranged (hdistinct : DistinctOrdinals rows)
    (hwide : ∀ row ∈ rows, comparator.columnIndex < row.values.length) (hperm : rows'.Perm rows)
    {selected : List Row} (h : select comparator.call k rows' = .ok selected) :
    select comparator.call k rows = .ok selected ↔
      ¬ Incomparable comparator.call (comparator.compared k rows) := by
  have hdistinct' := hdistinct.perm hperm
  have hwide' : ∀ row ∈ rows', comparator.columnIndex < row.values.length :=
    fun row hrow => hwide row (hperm.mem_iff.mp hrow)
  by_cases hrows : Incomparable comparator.call rows
  · -- some keys do not compare: what was given out are nulls
    have hcompared' : ¬ Incomparable comparator.call (comparator.compared k rows') := by
      intro hcompared'
      obtain ⟨e, herror⟩ := select_rejects hdistinct' hwide' hcompared'
      rw [herror] at h
      cases h
    have hrows' : Incomparable comparator.call rows' :=
      hrows.mono fun row hrow => hperm.mem_iff.mpr hrow
    rw [select_silent hdistinct' hwide' hcompared' hrows', nullRows_perm hdistinct hperm] at h
    constructor
    · intro hselect hcompared
      obtain ⟨e, herror⟩ := select_rejects hdistinct hwide hcompared
      rw [herror] at hselect
      cases hselect
    · intro hcompared
      rw [select_silent hdistinct hwide hcompared hrows, ← Except.ok.inj h]
  · rw [← select_arrival hdistinct (not_incomparable_iff.mp hrows) hperm]
    exact ⟨fun _ hcompared => hrows (hcompared.mono compared_subset), fun _ => h⟩

end Selection

/-- Sortable rows are rows whose comparison never throws, in either direction. -/
theorem Sortable.answersOn {columnIndex : Nat} (h : Sortable columnIndex (· ∈ rows))
    (direction : SortDirection) : AnswersOn (call { columnIndex, direction }) rows :=
  fun a ha b hb _ => ((call_strictTotal h).1 direction).answers a b ha hb

end RowComparator

/-! ## Two children, one sequence

  The same for stages over children that deliver the same rows in two orders. -/

section Stages

variable [StdLibrary] {σ σ' : Type}

/-- Opened and pulled to its end, this state gives out `rows` and throws nothing, whatever the
    clock says.  No counter is mentioned, so two children with different work behind them can be
    compared. -/
def Delivers (iterator : PlanStage σ) (s : σ) (rows : List Row) : Prop :=
  Opens iterator (fun _ => 0) s (.ok { mark := 0, feed := .ofList 0 rows })

omit [StdLibrary] in
/-- What a plan denotes is what it delivers, counters apart. -/
theorem Emits.delivers {iterator : PlanStage σ} {scanned : σ → Nat} : ∀ {feed : RowFeed} {s : σ},
    Emits iterator scanned feed s → feed.finish = none →
    Emits iterator (fun _ => 0) (.ofList 0 feed.rows) s
  | .stop none mark, s, h, _ => fun clock row => ⟨(h clock row).1, rfl⟩
  | .stop (some e) mark, s, _, hfinish => by cases hfinish
  | .row r mark rest, s, h, hfinish => fun clock row =>
    ⟨(h clock row).1, (h clock row).2.1, rfl, Emits.delivers (h clock row).2.2.2 hfinish⟩

/-- A plan that opens and comes through delivers the rows it denotes. -/
theorem PlanStageTree.delivers (tree : PlanStageTree) {opened : Opened}
    (hdenote : tree.denote = .ok opened) (hfinish : opened.feed.finish = none) :
    Delivers tree.planStage tree.constructed opened.feed.rows := by
  have hopens := tree.opens_denote
  rw [hdenote] at hopens
  exact fun clock => ⟨(hopens clock).1, rfl, (hopens clock).2.2.delivers hfinish⟩

/-- A sort over `child`, as constructed. -/
def SortStage.over (s : σ) : StageObject (SortStage σ) :=
  { members := { child := s, own := {} } }

/-- A top-k over `child`, as constructed. -/
def TopKStage.over (s : σ) : StageObject (TopKStage σ) :=
  { members := { child := s, own := {} } }

/-- A sort delivers what the library sort makes of the rows its child delivers. -/
theorem sort_delivers {child : PlanStage σ} {s : σ} {rows sorted : List Row}
    (h : Delivers child s rows) {comparator : RowComparator}
    (hsort : stdSort comparator.call rows = .ok sorted) :
    Delivers (SortStage.hooks child comparator).planStage (SortStage.over s) sorted := by
  have hopens : Opens (SortStage.hooks child comparator).planStage (childScanned fun _ => 0)
      (SortStage.over s) _ := blocking_opens SortStage.body_fillsBy comparator h
  rw [Except.bind, Opened.block_sort comparator (Feed.finish_ofList 0 rows), Feed.rows_ofList,
    Feed.total_ofList, hsort] at hopens
  exact hopens

/-- A top-k delivers what is selected of the rows its child delivers. -/
theorem topK_delivers {child : PlanStage σ} {s : σ} {rows selected : List Row}
    (h : Delivers child s rows) {comparator : RowComparator} {k : Nat}
    (hselect : select comparator.call k rows = .ok selected) :
    Delivers (TopKStage.hooks child comparator k).planStage (TopKStage.over s) selected := by
  have hopens : Opens (TopKStage.hooks child comparator k).planStage (childScanned fun _ => 0)
      (TopKStage.over s) _ := blocking_opens (TopKStage.body_fillsBy comparator k) comparator h
  rw [Except.bind, Opened.block_topK comparator k (Feed.finish_ofList 0 rows), Feed.rows_ofList,
    Feed.total_ofList, hselect] at hopens
  exact hopens

/-- **Arrival order.**  Over children that give out the same rows in two orders, a sort gives out
    one sequence, and a top-k the front of it. -/
theorem blocking_arrival {child : PlanStage σ} {child' : PlanStage σ'} {s : σ} {s' : σ'}
    {rows rows' : List Row} (h : Delivers child s rows) (h' : Delivers child' s' rows')
    (hperm : rows'.Perm rows) (hdistinct : DistinctOrdinals rows) {columnIndex : Nat}
    (hsortable : RowComparator.Sortable columnIndex (· ∈ rows)) (direction : SortDirection)
    (k : Nat) :
    let comparator : RowComparator := { columnIndex, direction }
    ∃ sorted, sorted.Perm rows ∧
      Delivers (SortStage.hooks child comparator).planStage (SortStage.over s) sorted ∧
      Delivers (SortStage.hooks child' comparator).planStage (SortStage.over s') sorted ∧
      Delivers (TopKStage.hooks child comparator k).planStage (TopKStage.over s) (sorted.take k) ∧
      Delivers (TopKStage.hooks child' comparator k).planStage (TopKStage.over s')
        (sorted.take k) := by
  intro comparator
  have hanswers : AnswersOn comparator.call rows := hsortable.answersOn direction
  obtain ⟨sorted, hsort, hselect⟩ := select_eq_take_sort (k := k)
    (RowComparator.before_strictWeak false) hdistinct.nodup (hdistinct.totalOn comparator false)
    (RowComparator.call_agrees false _) hanswers
  have hsort' := (RowComparator.stdSort_arrival hdistinct hanswers hperm).trans hsort
  have hselect' := (RowComparator.select_arrival hdistinct hanswers hperm).trans hselect
  obtain ⟨hsperm, -⟩ := stdSort_sorted (RowComparator.before_strictWeak false) hdistinct.nodup
    (RowComparator.call_agrees false _) hsort
  exact ⟨sorted, hsperm, sort_delivers h hsort, sort_delivers h' hsort', topK_delivers h hselect,
    topK_delivers h' hselect'⟩

end Stages

end QueryLume
