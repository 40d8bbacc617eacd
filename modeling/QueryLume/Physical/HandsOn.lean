/-
  What an optimized plan yields, read off the rows.

  The optimizer turns a limit over a sort into a top-k, and a top-k does not look at all of its
  rows. Whether it throws, and what it gives out when it does not, can nevertheless be said without
  running a heap.  It throws when two of the rows it has to find comparable are not (`compared`).
  Otherwise it gives out the first `k` rows in order; or, where not all of its rows compare,
  because two that do not came after the ones it looked at, the first `k` rows without a key
  (`nullRows`).

  `LogicalPlanNode.handsOn` evaluates a plan by this reading, one node after another, on lists of
  rows: no iterator, no heap, no optimizer and no library sort take part.  Filters and projections
  act row by row, a sort is an insertion sort, and a feed records where a filter throws, because a
  limit above may never get there.

  `optimized_handsOn` says that the optimized plan opens and yields exactly so: both throw before
  the first row, or both give out the same rows and end alike.  It is an induction along the
  rewrite, with `select_handsOn` at the pairs and `stdSort_toOption` at the sorts that are left.
  The condition under which the optimizer keeps an error (`Query/Rejection.lean`) is stated with
  it.
-/
import QueryLume.Foundation.InsertionSort
import QueryLume.Physical.Equivalence
import QueryLume.Physical.TopKRejection

namespace QueryLume

open BoundedHeap StdAlgorithms LogicalPlanNode

/-! ## A limit over a sort

  What is handed on is said with the rows a heap has to find comparable, the rows without a key and
  the insertion sort, and not with a heap. -/

namespace RowComparator

/-- What a limit `k` over a sort hands on of `rows`: `none`, an exception, if two of the rows
    that have to be comparable are not; the first `k` rows without a key if only other rows do
    not compare; and the first `k` rows in order if all do. -/
def handsOn (comparator : RowComparator) (k : Nat) (rows : List Row) : Option (List Row) :=
  if Incomparable comparator.call (comparator.compared k rows) then none
  else if Incomparable comparator.call rows then some (comparator.nullRows k rows)
  else (InsertionSort.sortBy comparator.call rows).toOption.map (List.take k)

section Selection

variable [StdAlgorithms] {comparator : RowComparator} {k : Nat} {rows : List Row}

/-- The library sort and insertion sort throw on the same rows and otherwise return the same. -/
theorem stdSort_toOption (hdistinct : DistinctOrdinals rows)
    (hwide : ∀ row ∈ rows, comparator.columnIndex < row.values.length) :
    (stdSort comparator.call rows).toOption =
      (InsertionSort.sortBy comparator.call rows).toOption := by
  by_cases hrows : Incomparable comparator.call rows
  · obtain ⟨e, herror⟩ := (stdSort_rejects hdistinct hwide).mpr hrows
    cases hsort : InsertionSort.sortBy comparator.call rows with
    | error e' => rw [herror]; rfl
    | ok sorted =>
      rw [stdSort_of_sortBy hdistinct hwide hsort] at herror
      cases herror
  · obtain ⟨sorted, hsort, -⟩ :=
      InsertionSort.sortBy_total hdistinct.nodup (not_incomparable_iff.mp hrows)
    rw [stdSort_of_sortBy hdistinct hwide hsort, hsort]

/-- What a heap of `k` rows selects, without the heap. -/
theorem select_handsOn (hdistinct : DistinctOrdinals rows)
    (hwide : ∀ row ∈ rows, comparator.columnIndex < row.values.length) :
    (select comparator.call k rows).toOption = comparator.handsOn k rows := by
  rw [handsOn]
  split_ifs with hcompared hrows
  · obtain ⟨e, herror⟩ := select_rejects hdistinct hwide hcompared
    rw [herror]
    rfl
  · rw [select_silent hdistinct hwide hcompared hrows]
    rfl
  · obtain ⟨sorted, hsort, hselect⟩ := select_eq_take_sort (k := k) (before_strictWeak false)
      hdistinct.nodup (hdistinct.totalOn comparator false) (call_agrees false _)
      (not_incomparable_iff.mp hrows)
    rw [← stdSort_toOption hdistinct hwide, hsort, hselect]
    rfl

end Selection

end RowComparator

/-! ## A plan

  The recursion follows the plan as bound.  Its result agrees with what the optimized plan yields,
  which is the theorem at the end. -/

/-- All the rows of a feed; `none` if it ends with an exception. -/
def drainedRows (feed : RowFeed) : Option (List Row) := feed.collect.toOption

/-- What a plan hands on, node by node and by lists of rows: a sort that no limit stands over
    throws when two of its rows do not compare, a limit over a sort hands on what
    `RowComparator.handsOn` says, filters and projections act row by row, and a feed ends where a
    filter throws at a row.  `none` if some node throws before the first row. -/
def LogicalPlanNode.handsOn : LogicalPlanNode → Option RowFeed
  | .kScan table => some (.scan table.rows 0)
  | .kFilter child predicate => child.handsOn.map (·.filter predicate.test)
  | .kProject child columnIndices _ =>
    child.handsOn.map (·.mapRows (ProjectStage.project columnIndices))
  | .kSort child columnIndex _ direction =>
    (child.handsOn.bind drainedRows).bind fun rows =>
      (InsertionSort.sortBy (RowComparator.call { columnIndex, direction }) rows).toOption.map
        (.ofList 0)
  | .kLimit (.kSort child columnIndex _ direction) k =>
    (child.handsOn.bind drainedRows).bind fun rows =>
      (RowComparator.handsOn { columnIndex, direction } k rows).map (.ofList 0)
  | .kLimit child limit => child.handsOn.map (·.limit limit 0)
  | .kTopK child columnIndex _ direction k =>
    (child.handsOn.bind drainedRows).bind fun rows =>
      (RowComparator.handsOn { columnIndex, direction } k rows).map (.ofList 0)

/-- Both throw at opening, or both open and yield the same. -/
inductive Yielded : Except Exception Opened → Option RowFeed → Prop where
  | error (e : Exception) : Yielded (.error e) none
  | ok {opened : Opened} {feed : RowFeed} (alike : opened.feed.Alike feed) :
      Yielded (.ok opened) (some feed)

/-- A node that drains its child throws where the child does. -/
theorem Opened.block_throws [StdLibrary] {opened : Opened} {e : Exception} (h : opened.feed.finish = some e)
    (fill : List Row → Row → Except Exception (List Row)) (comparator : RowComparator) :
    ∃ e', opened.block fill comparator = .error e' := by
  unfold Opened.block
  cases opened.feed.rows.foldlM fill [] with
  | error e' => exact ⟨e', rfl⟩
  | ok buffer =>
    rw [h]
    exact ⟨e, rfl⟩

namespace Yielded

variable {denoted : Except Exception Opened} {handed : Option RowFeed}

/-- A node that acts row by row. -/
theorem map (h : Yielded denoted handed) {f : Opened → Opened} {g : RowFeed → RowFeed}
    (hfg : ∀ {opened : Opened} {feed : RowFeed}, opened.feed.Alike feed →
      (f opened).feed.Alike (g feed)) : Yielded (denoted.map f) (handed.map g) := by
  cases h with
  | error e => exact .error e
  | ok alike => exact .ok (hfg alike)

/-- Draining either gives the same rows, or an exception. -/
theorem collect (h : Yielded denoted handed) :
    (denoted.bind fun opened => opened.feed.collect).toOption = handed.bind drainedRows := by
  cases h with
  | error e => rfl
  | ok alike => exact congrArg Except.toOption alike.collect

/-- **Draining nodes.**  A node that drains its child and prepares a list yields what the list is
    made of, if the two ways to make it agree. -/
theorem drain [StdLibrary] (h : Yielded denoted handed) {comparator : RowComparator}
    {fill : List Row → Row → Except Exception (List Row)}
    {prepare : List Row → Except Exception (List Row)} {hands : List Row → Option (List Row)}
    (hblock : ∀ {opened : Opened}, opened.feed.finish = none →
      opened.block fill comparator = (prepare opened.feed.rows).map fun prepared =>
        { mark := opened.feed.total, feed := .ofList opened.feed.total prepared })
    (hprepare : ∀ opened : Opened, denoted = .ok opened →
      (prepare opened.feed.rows).toOption = hands opened.feed.rows) :
    Yielded (denoted.bind (Opened.block fill comparator))
      ((handed.bind drainedRows).bind fun rows => (hands rows).map (.ofList 0)) := by
  cases h with
  | error e => exact .error e
  | @ok opened feed alike =>
    show Yielded (opened.block fill comparator) ((drainedRows feed).bind _)
    rw [drainedRows, ← alike.collect, Feed.collect]
    cases hfinish : opened.feed.finish with
    | some e =>
      obtain ⟨e', herror⟩ := Opened.block_throws hfinish fill comparator
      rw [herror]
      exact .error e'
    | none =>
      have hrows := hprepare opened rfl
      rw [hblock hfinish]
      show Yielded _ ((hands opened.feed.rows).map _)
      rw [← hrows]
      cases prepare opened.feed.rows with
      | error e => exact .error e
      | ok prepared =>
        refine .ok (Feed.alike_of_eq ?_ ?_)
        · rw [Feed.rows_ofList, Feed.rows_ofList]
        · rw [Feed.finish_ofList, Feed.finish_ofList]

end Yielded

section Optimized

variable [StdLibrary]

/-- **The optimized plan.**  It opens and yields what its nodes hand on. -/
theorem LogicalPlanNode.WellBound.optimized_handsOn {node : LogicalPlanNode} (h : node.WellBound)
    (htable : node.table.WellFormed) :
    Yielded (buildPhysicalPlan (SortLimitToTopKRule.rewrite node).1).denote node.handsOn := by
  fun_induction SortLimitToTopKRule.rewrite node with
  | case1 grandchild columnIndex fieldName direction limit ih =>
    have hbound := h.rewrite.1
    obtain _ | _ | _ | _ | ⟨hsort⟩ | _ := h
    obtain _ | _ | _ | ⟨below, -⟩ | _ | _ := hsort
    obtain _ | _ | _ | _ | _ | ⟨below', addresses⟩ := hbound
    refine (ih below htable).drain (Opened.block_topK _ limit) ?_
    intro opened hopened
    have hok := below'.denote_feedOk (below.rewrite.2 ▸ htable) opened hopened
    exact RowComparator.select_handsOn hok.distinct (hok.wide addresses)
  | case2 table => exact .ok (Feed.alike_of_eq rfl rfl)
  | case3 child predicate ih =>
    cases h with
    | filter below =>
      exact (ih below htable).map fun alike => alike.filter predicate.test
  | case4 child columnIndices fieldNames ih =>
    cases h with
    | project below =>
      exact (ih below htable).map fun alike =>
        alike.mapRows (ProjectStage.project columnIndices)
  | case5 child columnIndex fieldName direction ih =>
    have hbound := h.rewrite.1
    obtain _ | _ | _ | ⟨below, -⟩ | _ | _ := h
    obtain _ | _ | _ | ⟨below', addresses⟩ | _ | _ := hbound
    refine (ih below htable).drain (Opened.block_sort _) ?_
    intro opened hopened
    have hok := below'.denote_feedOk (below.rewrite.2 ▸ htable) opened hopened
    exact RowComparator.stdSort_toOption hok.distinct (hok.wide addresses)
  | case6 child limit hsort ih =>
    cases h with
    | limit below =>
      have hhands : (LogicalPlanNode.kLimit child limit).handsOn =
          child.handsOn.map (·.limit limit 0) := by
        cases child with
        | kSort grandchild columnIndex fieldName direction =>
          exact absurd rfl (hsort grandchild columnIndex fieldName direction)
        | kScan | kFilter | kProject | kLimit | kTopK => rfl
      rw [hhands]
      exact (ih below htable).map fun {opened _} alike =>
        alike.limit limit opened.mark 0
  | case7 child columnIndex fieldName direction k ih =>
    have hbound := h.rewrite.1
    obtain _ | _ | _ | _ | _ | ⟨below, -⟩ := h
    obtain _ | _ | _ | _ | _ | ⟨below', addresses⟩ := hbound
    refine (ih below htable).drain (Opened.block_topK _ k) ?_
    intro opened hopened
    have hok := below'.denote_feedOk (below.rewrite.2 ▸ htable) opened hopened
    exact RowComparator.select_handsOn hok.distinct (hok.wide addresses)

end Optimized

end QueryLume
