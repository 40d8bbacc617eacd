/-
  Sorting before or after filters and projections.

  Where a sort over the whole table comes through, it does not matter whether filters and
  projections stand before it or after it, as long as they leave its field (`run_sort_moves`).  The
  optimizer does not move them; this is what would make it safe.

  A comparator of the same field sees the same in a row before and after filters and projections:
  they leave its ordinal and its cells (`SeesSame`).  So the images of sorted rows are sorted, and
  there is only one way to arrange them (`stdSort_images`).  A failure can come from another place
  in the two pipelines: a filter that throws is asked about other rows first, so only that both
  fail is kept.
-/
import QueryLume.Foundation.SameSuccess
import QueryLume.Query.Distributed
import QueryLume.Query.Portability

namespace QueryLume

open LogicalPlanNode StdAlgorithms

/-! ## Rows that sort alike

  A comparator looks at the key and at the ordinal.  A row function that keeps both for every row
  can be applied before the sort or after it. -/

namespace RowComparator

variable {comparator comparator' : RowComparator}

/-- Two comparators see the same in two rows. -/
structure SeesSame (comparator comparator' : RowComparator) (row row' : Row) : Prop where
  ordinal : row'.ordinal = row.ordinal
  cell : ∃ value, row.values[comparator.columnIndex]? = some value ∧
    row'.values[comparator'.columnIndex]? = some value

theorem SeesSame.key {row row' : Row} (h : SeesSame comparator comparator' row row') :
    comparator'.key row' = comparator.key row := by
  obtain ⟨value, hvalue, hvalue'⟩ := h.cell
  rw [RowComparator.key, RowComparator.key, hvalue, hvalue']

variable {a a' b b' : Row}

theorem call_congr (hdirection : comparator'.direction = comparator.direction)
    (ha : SeesSame comparator comparator' a a') (hb : SeesSame comparator comparator' b b') :
    comparator'.call a' b' = comparator.call a b := by
  obtain ⟨va, hva, hva'⟩ := ha.cell
  obtain ⟨vb, hvb, hvb'⟩ := hb.cell
  simp only [RowComparator.call, Row.cell_eq_ok hva, Row.cell_eq_ok hva', Row.cell_eq_ok hvb,
    Row.cell_eq_ok hvb', ha.ordinal, hb.ordinal, hdirection]

theorem before_congr (flip : Bool) (hdirection : comparator'.direction = comparator.direction)
    (ha : SeesSame comparator comparator' a a') (hb : SeesSame comparator comparator' b b') :
    comparator'.before flip a' b' ↔ comparator.before flip a b := by
  have hreversed : comparator'.reversed = comparator.reversed := by
    rw [reversed, reversed, hdirection]
  have hnull : ∀ {r r' : Row}, SeesSame comparator comparator' r r' →
      comparator'.nullRank r' = comparator.nullRank r := fun h => by
    rw [nullRank, nullRank, h.key]
  have hkind : ∀ {r r' : Row}, SeesSame comparator comparator' r r' →
      comparator'.kindRank r' = comparator.kindRank r := fun h => by
    rw [kindRank, kindRank, h.key]
  have hisolated : ∀ {r r' : Row}, SeesSame comparator comparator' r r' →
      comparator'.isolatedRank r' = comparator.isolatedRank r := fun h => by
    rw [isolatedRank, isolatedRank, h.key, h.ordinal]
  rw [before, before, hreversed]
  apply LexOrder.thenBy_directed_transfer (hnull ha) (hnull hb)
  apply LexOrder.thenBy_directed_transfer (hkind ha) (hkind hb)
  apply LexOrder.thenBy_directed_transfer (hisolated ha) (hisolated hb)
  apply LexOrder.thenBy_directed_transfer (by rw [ha.key]) (by rw [hb.key])
  apply LexOrder.thenBy_directed_transfer (by rw [ha.key]) (by rw [hb.key])
  show a'.ordinal < b'.ordinal ↔ a.ordinal < b.ordinal
  rw [ha.ordinal, hb.ordinal]

/-- Rows that are sorted once are sorted after filters and projections. -/
theorem stdSort_images [StdLibrary] {rows sorted images images' : List Row}
    {f : Row → Except Exception (Option Row)}
    (hsees : ∀ row ∈ rows, ∀ row', f row = .ok (some row') →
      SeesSame comparator comparator' row row')
    (hdirection : comparator'.direction = comparator.direction) (hdistinct : DistinctOrdinals rows)
    (hwide : ∀ row ∈ rows, comparator.columnIndex < row.values.length)
    (hdistinct' : DistinctOrdinals images')
    (hwide' : ∀ row ∈ images', comparator'.columnIndex < row.values.length)
    (hsort : stdSort comparator.call rows = .ok sorted)
    (himages : sorted.filterMapM f = .ok images) (himages' : rows.filterMapM f = .ok images') :
    stdSort comparator'.call images' = .ok images := by
  obtain ⟨hanswers, hperm, hsorted⟩ := (stdSort_ok_iff hdistinct hwide).mp hsort
  refine (stdSort_ok_iff hdistinct' hwide').mpr ⟨?_, ?_, ?_⟩
  · intro a' ha' b' hb' hab
    obtain ⟨a, ha, hfa⟩ := Except.filterMapM_mem himages' ha'
    obtain ⟨b, hb, hfb⟩ := Except.filterMapM_mem himages' hb'
    rw [call_congr hdirection (hsees a ha a' hfa) (hsees b hb b' hfb)]
    refine hanswers a ha b hb ?_
    rintro rfl
    rw [hfa] at hfb
    exact hab (Option.some.inj (Except.ok.inj hfb))
  · obtain ⟨images'', himages'', hperm'⟩ := Except.filterMapM_perm himages' hperm
    rw [himages] at himages''
    obtain rfl := Except.ok.inj himages''
    exact hperm'
  · refine Except.filterMapM_pairwise himages hsorted fun a ha b hb hab a' b' hfa hfb => ?_
    rw [before_congr false hdirection (hsees b (hperm.mem_iff.mp hb) b' hfb)
      (hsees a (hperm.mem_iff.mp ha) a' hfa)]
    exact hab

end RowComparator

/-! ## What filters and projections leave of a row

  They keep the ordinal, and they keep the key because the sort behind them was bound, so its field
  is still there. -/

/-- They leave its ordinal, and the cells they leave are its cells. -/
theorem LogicalPlanNode.WellBound.perRow_shows {node : LogicalPlanNode} (h : node.WellBound)
    (hstreams : node.streams = true) {row row' : Row}
    (hwide : row.values.length = node.table.schema.columnCount)
    (hrow : node.perRow row = .ok (some row')) :
    ShowsFrom node.table (outputSchemaOf node) row row' := by
  induction h generalizing row' with
  | scan table =>
    obtain rfl := Option.some.inj (Except.ok.inj hrow)
    exact showsFrom_self hwide
  | @filter child predicate below bound ih =>
    obtain ⟨input, hinput, htest⟩ := Feed.andThen_eq_some hrow
    obtain ⟨accepted, -, haccepted⟩ := Except.map_eq_ok htest
    cases accepted with
    | false => cases haccepted
    | true => exact Option.some.inj haccepted ▸ ih hstreams hwide hinput
  | @project child columnIndices fieldNames below addresses distinct ih =>
    obtain ⟨input, hinput, hproject⟩ := Feed.andThen_eq_some hrow
    obtain ⟨projected, hprojected, heq⟩ := Except.map_eq_ok hproject
    obtain rfl := Option.some.inj heq
    exact (ih hstreams hwide hinput).project addresses hprojected
  | sort | limit | topK => cases hstreams

/-- So a comparator of the same field sees the same. -/
theorem ShowsFrom.seesSame {table : Table} {schema : Schema} {row row' : Row}
    {columnIndex columnIndex' : Nat} {fieldName : String} {direction direction' : SortDirection}
    (h : ShowsFrom table schema row row') (hfields : table.schema.fields.Nodup)
    (haddresses : table.schema.Addresses columnIndex fieldName)
    (haddresses' : schema.Addresses columnIndex' fieldName) :
    RowComparator.SeesSame ⟨columnIndex, direction⟩ ⟨columnIndex', direction'⟩ row row' := by
  refine ⟨h.ordinal, ?_⟩
  have hlt : columnIndex' < row'.values.length := by
    rw [← h.cells.length_eq]
    exact haddresses'.lt
  obtain ⟨column, hcolumn, hvalue⟩ :=
    h.cell haddresses' (List.getElem?_eq_getElem hlt)
  have hsame : column = columnIndex := by
    have hboth := hcolumn.trans haddresses.symm
    exact (List.getElem?_inj hcolumn.lt hfields).mp hboth
  exact ⟨_, hsame ▸ hvalue, List.getElem?_eq_getElem hlt⟩

/-! ## The two pipelines

  One of the two has the sort in front.  Where it comes through, all its rows compare, and so do
  those that are left by the other stages. -/

section Runs

variable [StdLibrary] {table : Table} {elements : List Json} {value : Json}

/-- What a `$sort` stage does to any rows of any schema that has its field. -/
theorem runPipeline_boundSort {schema : Schema} {sort : ParsedSortStage} {columnIndex : Nat}
    {direction : SortDirection} (clock : Clock) (rows : List Row)
    (hparse : parsePipeline (.array [sortJson value]) = .ok ⟨[.kSort sort]⟩)
    (hindex : resolveField schema sort.field.fieldName = .ok columnIndex)
    (hdirection : bindSortDirection sort.directionRaw = .ok direction) :
    runPipeline clock { schema, rows } (.array [sortJson value]) =
      (stdSort (RowComparator.call { columnIndex, direction }) rows).map
        fun rows => { rows, outputSchema := schema } := by
  have hbind : bindPipeline { schema, rows } ⟨[.kSort sort]⟩ =
      .ok (.kSort (.kScan { schema, rows }) columnIndex sort.field.fieldName direction) := by
    have hstage : bindStage schema (.kScan { schema, rows }) (.kSort sort) =
        .ok (schema, .kSort (.kScan { schema, rows }) columnIndex sort.field.fieldName direction) := by
      rw [bindStage_sort, hindex, hdirection]
      rfl
    rw [bindPipeline, bindStages_cons, hstage]
    rfl
  exact runPipeline_sortPlan hparse hbind clock rows

/-- The late sort puts what filters and projections leave into the order of the early one. -/
theorem late_sort {child : LogicalPlanNode} {columnIndex columnIndex' : Nat} {fieldName : String}
    {direction : SortDirection} {sorted images images' : List Row} (hbound : child.WellBound)
    (hstreams : child.streams = true) (htable : child.table.WellFormed)
    (hfields : child.table.schema.fields.Nodup)
    (haddresses : child.table.schema.Addresses columnIndex fieldName)
    (haddresses' : (outputSchemaOf child).Addresses columnIndex' fieldName)
    (hok : FeedOk child.table (outputSchemaOf child) images')
    (hsort : stdSort (RowComparator.call { columnIndex, direction }) child.table.rows = .ok sorted)
    (himages : sorted.filterMapM child.perRow = .ok images)
    (himages' : child.table.rows.filterMapM child.perRow = .ok images') :
    stdSort (RowComparator.call { columnIndex := columnIndex', direction }) images' = .ok images := by
  have hsees : ∀ row ∈ child.table.rows, ∀ row', child.perRow row = .ok (some row') →
      RowComparator.SeesSame ⟨columnIndex, direction⟩ ⟨columnIndex', direction⟩ row row' := by
    intro row hrow row' hrow'
    have hshows := hbound.perRow_shows hstreams (htable.wide row hrow) hrow'
    exact hshows.seesSame hfields haddresses haddresses'
  have hwide : ∀ row ∈ child.table.rows, columnIndex < row.values.length := fun row hrow =>
    htable.wide row hrow ▸ haddresses.lt
  exact RowComparator.stdSort_images hsees rfl htable.distinct hwide hok.distinct
    (hok.wide haddresses') hsort himages himages'

/-- Where one of the two pipelines returns, so does the other. -/
theorem run_sort_moved {clock : Clock} {sorted : QueryResult} {plan : Json}
    (htable : table.WellFormed) (hfields : table.schema.fields.Nodup)
    (hstreams : StreamsOnly (.array elements))
    (hsort : runPipeline clock table (.array [sortJson value]) = .ok sorted)
    (hexplain : explainPipeline table (.array (elements ++ [sortJson value])) = .ok plan)
    (clock' clock'' : Clock) :
    SameSuccess Eq (runPipeline clock' table (.array ([sortJson value] ++ elements)))
      (runPipeline clock'' table (.array (elements ++ [sortJson value]))) := by
  obtain ⟨planned, hplanned, -⟩ := Except.map_eq_ok hexplain
  obtain ⟨parsed, plan, hparse, hbind, -, -⟩ := planQuery_ok hplanned
  obtain ⟨before, child, sort, columnIndex', direction, hparseBefore, hchild, hparseSort, hindex',
    hdirection, -⟩ := accepts_sort hparse hbind
  obtain ⟨hbound, rfl⟩ := bindPipeline_wellBound hchild
  have hchildStreams : child.streams = true := bindStages_streams (hstreams _ hparseBefore) rfl hchild
  -- the sort over the table
  obtain ⟨_, _, _, hparseSort', hbindSort, -⟩ := runPipeline_ok hsort
  rw [hparseSort] at hparseSort'
  obtain rfl := Except.ok.inj hparseSort'
  obtain ⟨_, _, hstage, -⟩ := bindStages_cons_ok hbindSort
  obtain ⟨-, columnIndex, direction', hindex, hdirection', -⟩ := bindStage_sort_ok hstage
  obtain rfl := Except.ok.inj (hdirection.symm.trans hdirection')
  have hsorted := runPipeline_boundSort clock child.table.rows hparseSort hindex hdirection
  rw [hsort] at hsorted
  obtain ⟨arranged, harranged, rfl⟩ := Except.map_eq_ok hsorted.symm
  have hperm := (stdSort_sorted (RowComparator.before_strictWeak false) htable.distinct.nodup
    (RowComparator.call_agrees false _) harranged).1
  -- filters and projections over the rows and over the sorted rows
  have hbefore : ∀ (rows : List Row) (clock : Clock),
      runPipeline clock (child.table.withRows rows) (.array elements) =
        (rows.filterMapM child.perRow).map
          fun rows => { rows, outputSchema := outputSchemaOf child } := fun rows clock =>
    runPipeline_streaming hparseBefore hchild (hstreams _ hparseBefore) rfl
  have hearly : runPipeline clock' child.table (.array ([sortJson value] ++ elements)) =
      (arranged.filterMapM child.perRow).map
        fun rows => { rows, outputSchema := outputSchemaOf child } := by
    rw [runPipeline_append htable hsort elements clock' clock']
    exact hbefore arranged clock'
  have hrun := hbefore child.table.rows clock''
  rw [show child.table.withRows child.table.rows = child.table from rfl] at hrun
  rw [hearly]
  cases himages' : child.table.rows.filterMapM child.perRow with
  | ok images' =>
    obtain ⟨images, himages, -⟩ := Except.filterMapM_perm himages' hperm
    rw [himages'] at hrun
    have hok := runPipeline_feedOk htable hrun
    have hthen := runPipeline_boundSort clock'' images' hparseSort hindex' hdirection
    rw [late_sort hbound hchildStreams htable hfields (resolveField_addresses hindex)
      (resolveField_addresses hindex') hok harranged himages himages'] at hthen
    have hlate := (runPipeline_append htable hrun [sortJson value] clock'' clock'').trans hthen
    rw [himages, hlate]
    exact .ok rfl
  | error e =>
    -- neither gets beyond the filters and projections
    cases himages : arranged.filterMapM child.perRow with
    | ok images =>
      obtain ⟨images', hok, -⟩ := Except.filterMapM_perm himages hperm.symm
      rw [himages'] at hok
      cases hok
    | error e' =>
      cases hlate : runPipeline clock'' child.table (.array (elements ++ [sortJson value])) with
      | error e'' => exact .error e' e''
      | ok result =>
        obtain ⟨before, hreturns⟩ := runPipeline_before_sort hlate
        rw [hrun, himages'] at hreturns
        cases hreturns

/-- **Sorting early or late.**  Where a sort over a whole table comes through, filters and
    projections may stand before it or after it, if they leave its field: both pipelines return the
    same rows or both fail, and where they return, no later stage can tell them apart. -/
theorem run_sort_moves {clock : Clock} {sorted : QueryResult} {plan : Json}
    (htable : table.WellFormed) (hfields : table.schema.fields.Nodup)
    (hstreams : StreamsOnly (.array elements))
    (hsort : runPipeline clock table (.array [sortJson value]) = .ok sorted)
    (hexplain : explainPipeline table (.array (elements ++ [sortJson value])) = .ok plan)
    (clock' clock'' : Clock) :
    SameSuccess Eq (runPipeline clock' table (.array ([sortJson value] ++ elements)))
      (runPipeline clock'' table (.array (elements ++ [sortJson value]))) ∧
    ∀ result, runPipeline clock' table (.array ([sortJson value] ++ elements)) = .ok result →
      ∀ later, runPipeline clock' table (.array ([sortJson value] ++ elements ++ later)) =
        runPipeline clock'' table (.array (elements ++ [sortJson value] ++ later)) := by
  have hmoved := run_sort_moved htable hfields hstreams hsort hexplain clock' clock''
  refine ⟨hmoved, fun result hearly later => ?_⟩
  rw [hearly] at hmoved
  cases hlate : runPipeline clock'' table (.array (elements ++ [sortJson value])) with
  | error e => rw [hlate] at hmoved; cases hmoved
  | ok result' =>
    rw [hlate] at hmoved
    obtain rfl := hmoved.related
    rw [runPipeline_append htable hearly later clock' clock',
      runPipeline_append htable hlate later clock'' clock']

end Runs

/-- The filter before the sort and after it. -/
theorem run_sort_moves_sample :
    letI := StdLibrary.reference
    runPipeline Clock.still missedTable (.array ([sortJson missedSort] ++ [positiveA] ++ [limitOne])) =
      runPipeline Clock.still missedTable
        (.array ([positiveA] ++ [sortJson missedSort] ++ [limitOne])) :=
  (@run_sort_moves StdLibrary.reference missedTable [positiveA] missedSort Clock.still _ _
    missedTable_wellFormed (by decide) positiveA_streams rfl rfl Clock.still Clock.still).2 _ rfl
      [limitOne]

end QueryLume
