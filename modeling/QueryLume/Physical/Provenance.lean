/-
  Where the rows of a well-bound plan come from.

  Every row a plan gives out shows cells of ONE table row, under the names of the plan's output
  schema, and keeps that row's ordinal (`ShowsFrom`, `Derived`); no ordinal is given out twice.
  The two together are `FeedOk`, which is carried through the denotation stage by stage
  (`denote_feedOk`):

  * the leaf shows its own rows;
  * a filter, a limit and the blocking stages give out some of the rows they got, each once,
    perhaps in another order, so nothing is to be shown but that buffers are filled from the input
    (`FillsFrom`);
  * a projection shows some of the cells of the row it got, under the names it was given, and
    moving them is safe because it takes no column twice (`project_of_values`).

  That a row has a cell for each column of the schema is part of it, and is what makes the
  unchecked accesses of the stages above safe.
-/
import QueryLume.BoundPlan
import QueryLume.Physical.Execution
import QueryLume.Physical.RowOrder

namespace QueryLume

open LogicalPlanNode StdAlgorithms

/-- Rows as wide as the schema, with distinct ordinals: what loading produces. -/
structure Table.WellFormed (table : Table) : Prop where
  wide : ∀ row ∈ table.rows, row.values.length = table.schema.columnCount
  distinct : DistinctOrdinals table.rows

/-- `row` shows, under the names of `schema`, cells of the table row `source`. -/
structure ShowsFrom (table : Table) (schema : Schema) (source row : Row) : Prop where
  ordinal : row.ordinal = source.ordinal
  cells : List.Forall₂ (fun name value =>
    ∃ column, table.schema.Addresses column name ∧ source.values[column]? = some value)
    schema.fields row.values

/-- A row that shows cells of some row of the table. -/
def Derived (table : Table) (schema : Schema) (row : Row) : Prop :=
  ∃ source ∈ table.rows, ShowsFrom table schema source row

/-- A derived row has a cell for each column. -/
theorem Derived.length_eq {table : Table} {schema : Schema} {row : Row}
    (h : Derived table schema row) : row.values.length = schema.columnCount := by
  obtain ⟨source, -, -, hcells⟩ := h
  exact hcells.length_eq.symm

/-- The rows of a feed: derived from the table, each from another row. -/
structure FeedOk (table : Table) (schema : Schema) (rows : List Row) : Prop where
  derived : ∀ row ∈ rows, Derived table schema row
  distinct : DistinctOrdinals rows

/-- Some of the rows, in order. -/
theorem FeedOk.sublist {table : Table} {schema : Schema} {rows rows' : List Row}
    (h : FeedOk table schema rows) (hsub : rows'.Sublist rows) : FeedOk table schema rows' :=
  ⟨fun row hrow => h.derived row (hsub.subset hrow), h.distinct.sublist hsub⟩

/-! ## The leaf -/

/-- A row of the table shows itself. -/
theorem showsFrom_self {table : Table} {row : Row}
    (hwide : row.values.length = table.schema.columnCount) :
    ShowsFrom table table.schema row row := by
  refine ⟨rfl, List.forall₂_iff_get.mpr ⟨hwide.symm, fun i hfield hvalue => ⟨i, ?_, ?_⟩⟩⟩
  · exact List.getElem?_eq_getElem hfield
  · exact List.getElem?_eq_getElem hvalue

/-- The rows of a well-formed table. -/
theorem Table.WellFormed.feedOk {table : Table} (h : table.WellFormed) :
    FeedOk table table.schema table.rows :=
  ⟨fun row hrow => ⟨row, hrow, showsFrom_self (h.wide row hrow)⟩, h.distinct⟩

/-! ## Projections

  Cells are moved one after another.  With distinct indices no cell is asked for twice, so what is
  moved is what was there. -/

/-- The cells a projection moved are the cells it was asked for. -/
theorem ProjectStage.moveCells_values : ∀ {indices : List Nat} {cells : List (Option Value)}
    {values : List Value}, moveCells cells indices = .ok values →
    List.Forall₂ (fun index value => cells[index]? = some (some value)) indices values
  | [], _, _, h => by
    rw [← Except.ok.inj h]
    exact .nil
  | index :: indices, cells, values, h => by
    rw [moveCells] at h
    split at h
    · rename_i value hcell
      cases hrest : moveCells (cells.set index none) indices with
      | error e => simp only [hrest] at h; cases h
      | ok rest =>
        simp only [hrest] at h
        rw [← Except.ok.inj h]
        refine .cons hcell ((moveCells_values hrest).imp fun other value' hother => ?_)
        -- a cell that is still there was there before
        rw [List.getElem?_set] at hother
        split at hother
        · split at hother <;> cases hother
        · exact hother
    · cases h

/-- Cells that are there, each asked for once, can all be moved. -/
theorem ProjectStage.moveCells_of_values : ∀ {indices : List Nat} {cells : List (Option Value)}
    {values : List Value}, indices.Nodup →
    List.Forall₂ (fun index value => cells[index]? = some (some value)) indices values →
    moveCells cells indices = .ok values
  | [], _, _, _, h => by
    cases h
    rfl
  | index :: indices, cells, value :: values, hnodup, h => by
    obtain ⟨hcell, hrest⟩ := List.forall₂_cons.mp h
    obtain ⟨hnew, hnodup⟩ := List.nodup_cons.mp hnodup
    -- the cell just moved is not asked for again
    have hrest' : List.Forall₂ (fun other value' => (cells.set index none)[other]? = some (some value'))
        indices values := by
      refine List.forall₂_iff_zip.mpr ⟨hrest.length_eq, fun {other value'} hmem => ?_⟩
      have hne : index ≠ other := fun heq => hnew (heq ▸ (List.of_mem_zip hmem).1)
      rw [List.getElem?_set_ne hne]
      exact List.forall₂_zip hrest hmem
    rw [moveCells, hcell]
    simp only [moveCells_of_values hnodup hrest']

/-- Where the cells are there and no index comes twice, projecting takes them. -/
theorem ProjectStage.project_of_values {indices : List Nat} {input : Row} {values : List Value}
    (hnodup : indices.Nodup)
    (h : List.Forall₂ (fun index value => input.values[index]? = some value) indices values) :
    project indices input = .ok { ordinal := input.ordinal, values } := by
  rw [project, moveCells_of_values hnodup (h.imp fun index value hvalue => by
    rw [List.getElem?_map, hvalue]; rfl)]
  rfl

/-- What a projection gives out are the cells at its indices, with the ordinal of the row. -/
theorem ProjectStage.project_values {indices : List Nat} {input row : Row}
    (h : project indices input = .ok row) :
    row.ordinal = input.ordinal ∧
      List.Forall₂ (fun index value => input.values[index]? = some value) indices row.values := by
  unfold project at h
  cases hmoved : moveCells (input.values.map some) indices with
  | error e => rw [hmoved] at h; cases h
  | ok values =>
    rw [hmoved] at h
    rw [← Except.ok.inj h]
    refine ⟨rfl, (moveCells_values hmoved).imp fun index value hvalue => ?_⟩
    rw [List.getElem?_map] at hvalue
    exact Option.map_injective (fun _ _ => Option.some.inj) (hvalue.trans (Option.map_some ..).symm)

/-- A cell of a derived row, found through the schema. -/
theorem ShowsFrom.cell {table : Table} {schema : Schema} {source row : Row} {index : Nat}
    {name : String} {value : Value} (h : ShowsFrom table schema source row)
    (hname : schema.Addresses index name) (hvalue : row.values[index]? = some value) :
    ∃ column, table.schema.Addresses column name ∧ source.values[column]? = some value := by
  obtain ⟨hfield, rfl⟩ := List.getElem?_eq_some_iff.mp hname
  obtain ⟨hcell, rfl⟩ := List.getElem?_eq_some_iff.mp hvalue
  exact (List.forall₂_iff_get.mp h.cells).2 index hfield hcell

/-- A projected row shows cells of the same table row. -/
theorem ShowsFrom.project {table : Table} {schema : Schema} {source input row : Row}
    {indices : List Nat} {names : List String} (h : ShowsFrom table schema source input)
    (haddresses : List.Forall₂ schema.Addresses indices names)
    (hproject : ProjectStage.project indices input = .ok row) :
    ShowsFrom table { fields := names } source row := by
  obtain ⟨hordinal, hvalues⟩ := ProjectStage.project_values hproject
  refine ⟨hordinal.trans h.ordinal, ?_⟩
  generalize row.values = values at hvalues
  clear hproject hordinal
  induction haddresses generalizing values with
  | nil => cases hvalues; exact .nil
  | cons hname _ ih =>
    cases hvalues with
    | cons hvalue hrest => exact .cons (h.cell hname hvalue) (ih _ hrest)

/-- Projecting rows of a feed, one by one. -/
theorem FeedOk.project {table : Table} {schema : Schema} {rows rows' : List Row}
    {indices : List Nat} {names : List String} (h : FeedOk table schema rows)
    (haddresses : List.Forall₂ schema.Addresses indices names)
    (hproject : List.Forall₂ (fun input row => ProjectStage.project indices input = .ok row)
      rows rows') : FeedOk table { fields := names } rows' := by
  refine ⟨fun row hrow => ?_, ?_⟩
  · obtain ⟨input, hinput, hrow'⟩ := hproject.exists_of_mem_right hrow
    obtain ⟨source, hsource, hshows⟩ := h.derived input hinput
    exact ⟨source, hsource, hshows.project haddresses hrow'⟩
  · have hordinals : rows'.map Row.ordinal = rows.map Row.ordinal := by
      clear h
      induction hproject with
      | nil => rfl
      | cons hrow _ ih => rw [List.map_cons, List.map_cons, ih, (ProjectStage.project_values hrow).1]
    exact (congrArg List.Nodup hordinals).mpr h.distinct

/-! ## Blocking stages

  A buffer holds rows that were drained, each once, and sorting rearranges it.  Their ordinals stay
  distinct, and that makes the orders of the comparator total on them. -/

section Blocking

variable [StdLibrary]

/-- A fill loop only ever holds rows it was given, each once. -/
def FillsFrom (fill : List Row → Row → Except Exception (List Row)) : Prop :=
  ∀ rows buffer, DistinctOrdinals rows → rows.foldlM fill [] = .ok buffer →
    buffer.Nodup ∧ ∀ row ∈ buffer, row ∈ rows

omit [StdLibrary] in
/-- Draining into a sort appends everything. -/
theorem SortStage.foldlM_fill (rows buffer : List Row) :
    rows.foldlM SortStage.fill buffer = .ok (buffer ++ rows) := by
  induction rows generalizing buffer with
  | nil => rw [List.append_nil]; rfl
  | cons row rows ih =>
    rw [List.foldlM_cons, List.append_cons]
    exact ih (buffer ++ [row])

omit [StdLibrary] in
/-- A sort holds the rows it got. -/
theorem SortStage.fillsFrom : FillsFrom SortStage.fill := by
  intro rows buffer hdistinct h
  rw [SortStage.foldlM_fill] at h
  rw [← Except.ok.inj h]
  exact ⟨hdistinct.nodup, fun row hrow => hrow⟩

omit [StdLibrary] in
/-- Rows with different ordinals are all ordered. -/
theorem DistinctOrdinals.totalOn {rows : List Row} (h : DistinctOrdinals rows)
    (comparator : RowComparator) (flip : Bool) :
    BoundedHeap.TotalOn (comparator.before flip) rows := fun _ ha _ hb hab =>
  RowComparator.before_total flip (h.ne ha hb hab)

/-- A top-k holds some of the rows it got. -/
theorem TopKStage.fillsFrom (comparator : RowComparator) (k : Nat) :
    FillsFrom (TopKStage.fill comparator k) := by
  intro rows buffer hdistinct h
  rw [TopKStage.fill, BoundedHeap.foldlM_offer] at h
  obtain ⟨hnodup, hmem, -⟩ := BoundedHeap.offerAll_retains (RowComparator.before_strictWeak false)
    hdistinct.nodup (hdistinct.totalOn comparator false) (RowComparator.call_agrees false _) h
  exact ⟨hnodup, hmem⟩

/-- What a blocking stage gives out are rows it has drained, each once. -/
theorem FeedOk.block {table : Table} {schema : Schema}
    {fill : List Row → Row → Except Exception (List Row)} (hfill : FillsFrom fill)
    {comparator : RowComparator} {opened opened' : Opened}
    (h : FeedOk table schema opened.feed.rows) (hblock : opened.block fill comparator = .ok opened') :
    FeedOk table schema opened'.feed.rows := by
  unfold Opened.block at hblock
  cases hfold : opened.feed.rows.foldlM fill [] with
  | error e => rw [hfold] at hblock; cases hblock
  | ok buffer =>
    rw [hfold] at hblock
    obtain ⟨hnodup, hmem⟩ := hfill _ _ h.distinct hfold
    cases hfinish : opened.feed.finish with
    | some e => simp only [hfinish] at hblock; cases hblock
    | none =>
      simp only [hfinish] at hblock
      cases hsort : stdSort comparator.call buffer with
      | error e => rw [hsort] at hblock; cases hblock
      | ok sorted =>
        rw [hsort] at hblock
        rw [← Except.ok.inj hblock, Feed.rows_ofList]
        obtain ⟨hperm, -⟩ := stdSort_sorted (RowComparator.before_strictWeak false) hnodup
          (RowComparator.call_agrees false _) hsort
        have hdistinct : DistinctOrdinals buffer :=
          List.Nodup.map_on (fun a ha b hb heq => List.inj_on_of_nodup_map h.distinct (hmem a ha)
            (hmem b hb) heq) hnodup
        exact ⟨fun row hrow => h.derived row (hmem row (hperm.mem_iff.mp hrow)),
          hdistinct.perm hperm⟩

end Blocking

/-! ## Whole plans

  By induction on the plan, under the invariant that binding has established. -/

/-- A denotation whose feed is derived from the table. -/
def DenotesOk (table : Table) (schema : Schema) (denoted : Except Exception Opened) : Prop :=
  ∀ opened, denoted = .ok opened → FeedOk table schema opened.feed.rows

theorem DenotesOk.map {table : Table} {schema schema' : Schema} {denoted : Except Exception Opened}
    {f : Opened → Opened} (h : DenotesOk table schema denoted)
    (hf : ∀ opened, FeedOk table schema opened.feed.rows → FeedOk table schema' (f opened).feed.rows) :
    DenotesOk table schema' (denoted.map f) := by
  intro opened' hmap
  cases denoted with
  | error e => cases hmap
  | ok opened =>
    rw [← Except.ok.inj hmap]
    exact hf opened (h opened rfl)

theorem DenotesOk.bind {table : Table} {schema : Schema} {denoted : Except Exception Opened}
    {f : Opened → Except Exception Opened} (h : DenotesOk table schema denoted)
    (hf : ∀ opened, FeedOk table schema opened.feed.rows → DenotesOk table schema (f opened)) :
    DenotesOk table schema (denoted.bind f) := by
  intro opened' hbind
  cases denoted with
  | error e => cases hbind
  | ok opened => exact hf opened (h opened rfl) opened' hbind

/-- **Provenance.**  The rows of a well-bound plan over a well-formed table are derived from it. -/
theorem LogicalPlanNode.WellBound.denote_feedOk [StdLibrary] {node : LogicalPlanNode} (h : node.WellBound)
    (htable : node.table.WellFormed) :
    DenotesOk node.table (outputSchemaOf node) (buildPhysicalPlan node).denote := by
  induction h with
  | scan table =>
    intro opened hopened
    rw [← Except.ok.inj hopened, Feed.rows_scan]
    exact htable.feedOk
  | filter _ _ ih =>
    exact (ih htable).map fun opened hok => hok.sublist (Feed.rows_filter_sublist _ _)
  | project _ addresses _ ih =>
    refine (ih htable).map fun opened hok => ?_
    obtain ⟨taken, hsub, hall⟩ := Feed.rows_mapRows _ opened.feed
    exact (hok.sublist hsub).project addresses hall
  | sort _ _ ih =>
    exact (ih htable).bind fun opened hok opened' h => hok.block SortStage.fillsFrom h
  | limit _ ih =>
    refine (ih htable).map fun opened hok => ?_
    rw [Feed.rows_limit]
    exact hok.sublist (List.take_sublist _ _)
  | topK _ _ ih =>
    exact (ih htable).bind fun opened hok opened' h => hok.block (TopKStage.fillsFrom _ _) h

end QueryLume
