/-
  A run of a pipeline returns what the reference says.

  The simulation relates a reference view to a bound plan: pulling the plan gives exactly the rows
  of the view (`Shows`).  Binding a stage on one side and running the reference stage on the other
  keeps them related (`stage_shows`), and so for all stages (`stages_show`); the optimizer is then
  free to rewrite the plan.

  The reference finds cells by name and the plan by index.  What ties them is that binding resolves
  a name in the visible schema, and that a row shows a document under exactly these names
  (`Reference.Document.row_cell`): predicates, projections and comparisons read the same cells.
-/
import QueryLume.Query.Documents
import QueryLume.Query.Reference

namespace QueryLume

open LogicalPlanNode Reference

/-! ## Cells by index and by name -/

/-- An index that addresses a visible name reads the document's cell of that name. -/
theorem Reference.Document.row_cell {visible : List String} {index : Nat} {name : String}
    (h : Schema.Addresses ⟨visible⟩ index name) (document : Document) :
    (document.row visible).values[index]? = some (document.cell name) := by
  rw [Document.row, List.getElem?_map, show visible[index]? = some name from h]
  rfl

/-! ## Predicates

  A bound predicate on a row that shows a document, against the parsed one on the document. -/

theorem test_bindsComparison {visible : List String} {predicate : ParsedComparison}
    {expression : Expression} (h : BindsComparison ⟨visible⟩ predicate expression)
    (document : Document) : expression.test (document.row visible) = holds predicate document := by
  obtain ⟨index, op, addresses, known⟩ := h
  rw [Expression.test, Expression.evaluate, Expression.evaluate, Expression.evaluate, Row.cellAt,
    document.row_cell addresses, holds, known]
  simp only
  cases evaluateComparison op (document.cell predicate.field.fieldName) predicate.literal <;> rfl

/-- A conjunction of them, up to the first that fails. -/
theorem testAll_binds {visible : List String} {predicates : List ParsedComparison}
    {operands : List Expression}
    (h : List.Forall₂ (BindsComparison ⟨visible⟩) predicates operands) (document : Document) :
    (Expression.conjunction operands).test (document.row visible) =
      holdsAll predicates document := by
  rw [Expression.test, Expression.evaluate]
  induction h with
  | nil => rfl
  | @cons predicate operand predicates operands hfirst _ ih =>
    have htest := test_bindsComparison hfirst document
    rw [Expression.test] at htest
    rw [Expression.evaluateAll, holdsAll, ← htest]
    cases operand.evaluate (document.row visible) with
    | error e => rfl
    | ok result =>
      simp only
      cases result.getBool with
      | error e => rfl
      | ok accepted =>
        cases accepted with
        | false => rfl
        | true => exact ih

/-- A bound predicate tests a row as the parsed predicates test the document. -/
theorem test_bindsMatch {visible : List String} {predicates : List ParsedComparison}
    {expression : Expression} (h : BindsMatch ⟨visible⟩ predicates expression)
    (document : Document) :
    expression.test (document.row visible) = holdsAll predicates document := by
  cases h with
  | always => rfl
  | @single predicate _ binds =>
    rw [test_bindsComparison binds, holdsAll]
    cases holds predicate document with
    | error e => rfl
    | ok accepted => cases accepted <;> rfl
  | conjunction binds => exact testAll_binds binds document

/-! ## Projections -/

/-- A projection to visible names shows the document under those. -/
theorem project_row {visible names : List String} {indices : List Nat}
    (haddresses : List.Forall₂ (Schema.Addresses ⟨visible⟩) indices names) (hnames : names.Nodup)
    (document : Document) :
    ProjectStage.project indices (document.row visible) = .ok (document.row names) := by
  refine ProjectStage.project_of_values (nodup_of_addresses haddresses hnames) ?_
  refine List.forall₂_map_right_iff.mpr (haddresses.imp fun index name h => ?_)
  exact document.row_cell h

/-! ## Sorting

  The comparator reads the cell at its index and the reference the cell of that name, and both
  settle ties by the position in the input. -/

/-- On two values the comparator reads the verdict of `compare`. -/
theorem decideCells_values {direction : SortDirection} {aOrdinal bOrdinal : Nat} {key key' : Value}
    (hkey : typeOf key ≠ .kNull) (hkey' : typeOf key' ≠ .kNull) :
    RowComparator.decideCells direction aOrdinal bOrdinal key key' =
      (compare key key').map fun verdict =>
        match verdict with
        | .kEqual => decide (aOrdinal < bOrdinal)
        | .kLess => direction == .kAscending
        | .kGreater => !(direction == .kAscending)
        | .kUnordered => false := by
  simp only [RowComparator.decideCells, hkey, hkey', false_and, or_self, if_false]
  cases compare key key' with
  | error e => rfl
  | ok verdict => cases verdict <;> cases direction <;> rfl

/-- The row comparator decides on rows as the reference does on documents. -/
theorem call_row {visible : List String} (comparator : RowComparator) {field : String}
    (haddresses : Schema.Addresses ⟨visible⟩ comparator.columnIndex field) (a b : Document) :
    comparator.call (a.row visible) (b.row visible) =
      precedes (comparator.direction == .kAscending) field a b := by
  rw [RowComparator.call, Row.cell_eq_ok (a.row_cell haddresses),
    Row.cell_eq_ok (b.row_cell haddresses)]
  simp only [precedes, Document.row]
  generalize comparator.direction = direction
  generalize a.cell field = key
  generalize b.cell field = key'
  cases key with
  | null =>
    cases key' with
    | null => rfl
    | bool | int64 | double | string => cases direction <;> rfl
  | bool | int64 | double | string =>
    cases key' with
    | null => cases direction <;> rfl
    | bool | int64 | double | string =>
      exact decideCells_values (fun h => by cases h) (fun h => by cases h)

/-! ## The simulation

  The relation is `Shows`: pulling the plan gives the rows of the view and no exception.  One stage
  on each side is a step, so a pipeline is an induction over its stages. -/

/-- Pulling a bound plan gives exactly the rows of a view, without an exception. -/
structure Shows [StdLibrary] (view : View) (node : LogicalPlanNode) : Prop where
  schema : outputSchemaOf node = ⟨view.visible⟩
  denotes : ∃ opened, (buildPhysicalPlan node).denote = .ok opened ∧ opened.feed.finish = none ∧
    opened.feed.rows = view.rows

theorem bindSortDirection_reference {directionRaw : Int64} {direction : SortDirection}
    (h : bindSortDirection directionRaw = .ok direction) :
    (direction == .kAscending) = (directionRaw == 1) := by
  unfold bindSortDirection at h
  split at h
  · rename_i hone
    rw [← Except.ok.inj h, hone]
    rfl
  · rename_i hone
    split at h
    · rw [← Except.ok.inj h]
      exact (beq_eq_false_iff_ne.mpr hone).symm
    · cases h

theorem bindLimit_reference {countRaw : Int64} {count : Nat} (h : bindLimit countRaw = .ok count) :
    count = countRaw.toInt.toNat := by
  unfold bindLimit at h
  split at h
  · cases h
  · exact (Except.ok.inj h).symm

/-- **The step lemma.**  One stage, bound on one side and evaluated on the other. -/
theorem stage_shows [StdLibrary] {view view' : View} {node node' : LogicalPlanNode}
    {schema : Schema} {parsed : ParsedStage} (hbound : node.WellBound)
    (htable : node.table.WellFormed) (hshows : Shows view node)
    (hbinds : BindsStage (outputSchemaOf node) node parsed schema node')
    (hstage : Reference.stage parsed view = .ok view') : Shows view' node' := by
  obtain ⟨hschema, opened, hdenote, hfinish, hrows⟩ := hshows
  rw [hschema] at hbinds
  cases hbinds with
  | @«match» parsed predicate binds =>
    simp only [Reference.stage] at hstage
    cases hkeep : Feed.keep (holdsAll parsed.predicates) view.documents with
    | error e => rw [hkeep] at hstage; cases hstage
    | ok documents =>
      rw [hkeep] at hstage
      rw [← Except.ok.inj hstage]
      have hkept : Feed.keep predicate.test opened.feed.rows =
          .ok (documents.map (·.row view.visible)) := by
        rw [hrows, View.rows, Feed.keep_map]
        simp only [test_bindsMatch binds, hkeep]
        rfl
      obtain ⟨hrows', hfinish'⟩ := Feed.filter_of_keep hkept
      refine ⟨hschema, { opened with feed := opened.feed.filter predicate.test }, ?_,
        hfinish'.trans hfinish, hrows'⟩
      simp only [buildPhysicalPlan, PlanStageTree.denote, hdenote]
      rfl
  | @project parsed indices addresses distinct =>
    rw [← Except.ok.inj hstage]
    have hproject : List.Forall₂ (fun row row' => ProjectStage.project indices row = .ok row')
        opened.feed.rows (view.documents.map (·.row (parsed.fields.map (·.fieldName)))) := by
      rw [hrows, View.rows]
      refine List.forall₂_map_left_iff.mpr (List.forall₂_map_right_iff.mpr ?_)
      exact List.forall₂_same.mpr fun document _ => project_row addresses distinct document
    obtain ⟨hrows', hfinish'⟩ := Feed.mapRows_of_forall₂ hproject
    refine ⟨rfl, { opened with feed := opened.feed.mapRows (ProjectStage.project indices) }, ?_,
      hfinish'.trans hfinish, hrows'⟩
    simp only [buildPhysicalPlan, PlanStageTree.denote, hdenote]
    rfl
  | @sort parsed index direction addresses known =>
    simp only [Reference.stage] at hstage
    let comparator : RowComparator := { columnIndex := index, direction }
    have hok := hbound.denote_feedOk htable opened hdenote
    rw [hschema] at hok
    -- both sides sort the same rows by the same answers
    have hsortBy := InsertionSort.sortBy_map comparator.call (·.row view.visible) view.documents
    simp only [call_row comparator addresses, comparator,
      bindSortDirection_reference known] at hsortBy
    cases hsorted : InsertionSort.sortBy
        (precedes (parsed.directionRaw == 1) parsed.field.fieldName) view.documents with
    | error e => rw [hsorted] at hstage; cases hstage
    | ok documents =>
      rw [hsorted] at hstage hsortBy
      rw [← Except.ok.inj hstage]
      have hstd := RowComparator.stdSort_of_sortBy hok.distinct (hok.wide addresses)
        (by rw [hrows]; exact hsortBy)
      refine ⟨hschema, { mark := opened.feed.total, feed := .ofList opened.feed.total _ }, ?_,
        Feed.finish_ofList _ _, Feed.rows_ofList _ _⟩
      rw [denote_sort hdenote hfinish, hstd]
      rfl
  | @limit parsed count known =>
    rw [← Except.ok.inj hstage, bindLimit_reference known]
    refine ⟨hschema,
      { opened with feed := opened.feed.limit parsed.countRaw.toInt.toNat opened.mark }, ?_,
      Feed.finish_limit_none hfinish _ _, ?_⟩
    · simp only [buildPhysicalPlan, PlanStageTree.denote, hdenote]
      rfl
    · rw [Feed.rows_limit, hrows, View.rows, View.rows, List.map_take]

/-- **The run lemma.**  All the stages; by induction on them. -/
theorem stages_show [StdLibrary] : ∀ {stages : List ParsedStage} {view view' : View}
    {node plan : LogicalPlanNode}, node.WellBound → node.table.WellFormed → Shows view node →
    bindStages (outputSchemaOf node) node stages = .ok plan →
    Reference.evaluate stages view = .ok view' → Shows view' plan
  | [], view, view', node, plan, _, _, hshows, hbind, hevaluate => by
    rw [← Except.ok.inj hbind, ← Except.ok.inj hevaluate]
    exact hshows
  | parsed :: stages, view, view', node, plan, hbound, htable, hshows, hbind, hevaluate => by
    rw [Reference.evaluate] at hevaluate
    obtain ⟨schema, node', hstage, hbind⟩ := bindStages_cons_ok hbind
    cases hreference : Reference.stage parsed view with
    | error e => rw [hreference] at hevaluate; cases hevaluate
    | ok between =>
      rw [hreference] at hevaluate
      have hbinds := bindStage_cases hstage
      have hnext := stage_shows hbound htable hshows hbinds hreference
      obtain ⟨rfl, hbound', htable'⟩ := hbinds.wellBound hbound
      exact stages_show hbound' (htable' ▸ htable) hnext hbind hevaluate

/-! ## The input

  The scan of the loaded table shows the documents it was loaded from, in their order. -/

/-- The names of the input are the fields of the table. -/
theorem Reference.load_visible {documents : List Json} {table : Table}
    (hloaded : LoadedFrom documents table) :
    (Reference.load documents).visible = table.schema.fields := by
  have hmem : ∀ name, name ∈ (Reference.load documents).visible ↔ name ∈ table.schema.fields := by
    intro name
    rw [Reference.load, List.mem_insertionSort, List.mem_dedup, hloaded.names]
  have hnodup : (Reference.load documents).visible.Nodup :=
    (List.perm_insertionSort _ _).nodup_iff.mpr (List.nodup_dedup _)
  have hnodup' : table.schema.fields.Nodup := hloaded.ascending.imp fun h => ne_of_lt h
  refine List.Perm.eq_of_pairwise (fun a b _ _ hab hba => le_antisymm hab hba)
    (List.pairwise_insertionSort (· ≤ ·) _) (hloaded.ascending.imp fun h => le_of_lt h)
    ((List.perm_ext_iff_of_nodup hnodup hnodup').mpr hmem)

theorem Reference.load_rows {documents : List Json} {table : Table}
    (hloaded : LoadedFrom documents table) : (Reference.load documents).rows = table.rows := by
  have hrow : ∀ {document : Json × Nat} {row : Row}, LoadedRow table.schema.fields document row →
      Document.row
        { ordinal := document.2
          cell := fun name => (documentCell document.1 name).toOption.getD .null }
        table.schema.fields = row := by
    intro document row h
    obtain ⟨ordinal, values⟩ := row
    obtain ⟨rfl, hcells⟩ := h
    simp only [Document.row, Row.mk.injEq, true_and]
    simp only at hcells
    generalize table.schema.fields = fields at hcells
    induction hcells with
    | nil => rfl
    | cons hcell _ ih => rw [List.map_cons, hcell, ih]; rfl
  rw [View.rows, Reference.load_visible hloaded, Reference.load, List.map_map]
  have hrows := hloaded.rows
  generalize table.rows = rows at hrows
  generalize documents.zipIdx = indexed at hrows
  induction hrows with
  | nil => rfl
  | cons hloadedRow _ ih => rw [List.map_cons, ih, Function.comp, hrow hloadedRow]

theorem load_shows [StdLibrary] {documents : List Json} {table : Table}
    (hloaded : LoadedFrom documents table) : Shows (Reference.load documents) (.kScan table) := by
  refine ⟨?_, { mark := 0, feed := .scan table.rows 0 }, rfl, Feed.finish_scan _ _, ?_⟩
  · rw [Reference.load_visible hloaded]
    rfl
  · rw [Reference.load_rows hloaded]
    exact Feed.rows_scan _ _

/-- **Query semantics.**  Whenever the reference evaluates the whole pipeline, a run returns without
    an exception, and returns the reference's rows in its order under its visible fields. -/
theorem run_reference [StdLibrary] {documents : List Json} {table : Table} {pipelineJson : Json}
    {parsed : ParsedPipeline} {plan : LogicalPlanNode} {view : View} (clock : Clock)
    (hwf : (Json.array documents).WellFormed)
    (hload : loadTableFromJson (.array documents) = .ok table)
    (hparse : parsePipeline pipelineJson = .ok parsed)
    (hbind : bindPipeline table parsed = .ok plan)
    (hreference : Reference.evaluate parsed.stages (Reference.load documents) = .ok view) :
    runPipeline clock table pipelineJson =
      .ok { rows := view.rows, outputSchema := { fields := view.visible } } := by
  have hloaded := loadTableFromJson_loaded hwf hload
  obtain ⟨hbound, htable⟩ := bindPipeline_wellBound hbind
  obtain ⟨hschema, opened, hdenote, hfinish, hrows⟩ :=
    stages_show (.scan table) (loadTableFromJson_wellFormed hload) (load_shows hloaded) hbind hreference
  have hdenote' : (optimizedPlan plan).denote = .ok opened :=
    hbound.denote_rewrite (htable ▸ (loadTableFromJson_wellFormed hload)) hdenote
  rw [runPipeline_of_denote hparse hbind hdenote' hfinish, hrows, hschema]

/-- The second document by `a`, with the reference. -/
theorem run_reference_sample :
    letI := StdLibrary.reference
    runPipeline Clock.still sampleTable samplePipelineJson =
      .ok { rows := [{ ordinal := 1, values := [.int64 1] }], outputSchema := { fields := ["a"] } } :=
  @run_reference StdLibrary.reference sampleDocuments sampleTable samplePipelineJson
    samplePipeline _ _ Clock.still sampleDocuments_wellFormed rfl rfl rfl rfl

end QueryLume
