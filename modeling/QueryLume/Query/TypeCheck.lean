/-
  A type checker for pipelines.

  `ParsedPipeline.check` reads a parsed pipeline against the type of a table's rows and computes
  the type of the rows a run returns, or rejects the pipeline.  A `RowType` lists the visible
  columns in order, each with the type of its cells where it has one; the names are distinct, and
  the structure carries the proof.  A `$match` may compare a visible column with a literal of its
  type by a known operator, a `$project` keeps the visible columns it names and their types, a
  `$sort` needs a column whose cells can be ordered and a direction that is 1 or -1, a `$limit`
  must not be negative.

  The check takes over from both halves of the engine.

  1. **Binding** — what the binder would throw it rejects: a checked stage is bound, and the schema
     is that of the computed type (`checkStages_binds`).

  2. **Comparing** — what a comparison would throw at run time it rejects as well
     (`checkStages_wellTyped`). The by-name types of `Query/Typing.lean` are the invariant: at
     every stage the computed type is the restriction of the first one to the visible columns
     (`RowType.Within`).

  So a run of a checked pipeline ends with rows, and the rows have the type that was computed
  (`wellTyped_returns`).
-/
import QueryLume.BinderAcceptance
import QueryLume.Query.Typing

namespace QueryLume

/-! ## Row types

  A row type lists the columns in their order, each with a type or without one.  It describes
  tables as they are stored, by position. -/

/-- The type of a row: its columns in order, by name, each with the type of its cells if it has one.
    -/
structure RowType where
  columns : List (String × Option ColumnType)
  distinct : (columns.map Prod.fst).Nodup

namespace RowType

/-- The names of the columns. -/
def names (rowType : RowType) : List String := rowType.columns.map Prod.fst

/-- The types by name; what is no column has none. -/
def types (rowType : RowType) : ColumnTypes := fun name => (rowType.columns.lookup name).join

/-- The type of the rows a projection leaves; `none` if it names a column twice or one that is not
    there. -/
def project (rowType : RowType) (fieldNames : List String) : Option RowType :=
  if h : fieldNames.Nodup ∧ ∀ name ∈ fieldNames, name ∈ rowType.names then
    some {
      columns := fieldNames.map fun name => (name, rowType.types name)
      distinct := by
        rw [List.map_map]
        show (fieldNames.map fun name => name).Nodup
        rw [List.map_id']
        exact h.1 }
  else none

end RowType

/-- The cells of a row are of the types of their columns, one cell for each column. -/
def Row.HasType (rowType : RowType) (row : Row) : Prop :=
  List.Forall₂ (fun column value => ∀ type ∈ column.2, type.admits value = true)
    rowType.columns row.values

instance (rowType : RowType) (row : Row) : Decidable (row.HasType rowType) :=
  inferInstanceAs (Decidable (List.Forall₂ _ _ _))

/-- A table with the columns of the type, in their order, and with rows of the type. -/
structure Table.HasType (rowType : RowType) (table : Table) : Prop where
  fields : table.schema.fields = rowType.names
  rows : ∀ row ∈ table.rows, row.HasType rowType

/-! ## The checker

  One function per syntactic class.  Each returns the type of the rows behind the stage, or
  nothing. -/

/-- A comparison of a visible column with a literal it may be compared with. -/
def ParsedComparison.check (rowType : RowType) (predicate : ParsedComparison) : Bool :=
  decide (predicate.field.fieldName ∈ rowType.names) && predicate.wellTyped rowType.types

/-- The type of the rows after the stage; `none` if the stage does not fit the rows before it. -/
def ParsedStage.check (rowType : RowType) : ParsedStage → Option RowType
  | .kMatch stage => if stage.predicates.all (·.check rowType) then some rowType else none
  | .kProject stage => rowType.project (stage.fields.map (·.fieldName))
  | .kSort stage =>
    if (stage.directionRaw = 1 ∨ stage.directionRaw = -1) ∧
      rowType.types.sorts stage.field.fieldName then some rowType else none
  | .kLimit stage => if 0 ≤ stage.countRaw.toInt then some rowType else none

/-- Stage after stage. -/
def checkStages (rowType : RowType) : List ParsedStage → Option RowType
  | [] => some rowType
  | stage :: stages => (stage.check rowType).bind fun next => checkStages next stages

/-- The type of the rows a pipeline returns; `none` if it does not fit. -/
def ParsedPipeline.check (rowType : RowType) (pipeline : ParsedPipeline) : Option RowType :=
  checkStages rowType pipeline.stages

/-! ## Types by position and by name

  `Query/Typing.lean` has types by name; the two views are tied here. -/

namespace RowType

variable {rowType rowType' : RowType} {types : ColumnTypes}

/-- A column has the type it is listed with. -/
theorem types_of_mem {name : String} {type : Option ColumnType}
    (h : (name, type) ∈ rowType.columns) : rowType.types name = type := by
  have hlookup : ∀ {columns : List (String × Option ColumnType)}, (columns.map Prod.fst).Nodup →
      (name, type) ∈ columns → columns.lookup name = some type := by
    intro columns hdistinct hmem
    induction columns with
    | nil => cases hmem
    | cons column columns ih =>
      obtain ⟨hnew, hrest⟩ := List.nodup_cons.mp hdistinct
      rcases List.mem_cons.mp hmem with rfl | hmem
      · exact List.lookup_cons_self
      · have hne : name ≠ column.1 := by
          rintro rfl
          exact hnew (List.mem_map.mpr ⟨_, hmem, rfl⟩)
        rw [List.lookup_cons, beq_false_of_ne hne]
        exact ih hrest hmem
  rw [types, hlookup rowType.distinct h]
  rfl

/-- What is no column has no type. -/
theorem mem_of_types {name : String} {type : ColumnType} (h : rowType.types name = some type) :
    name ∈ rowType.names := by
  unfold types at h
  cases hlookup : rowType.columns.lookup name with
  | none =>
    rw [hlookup] at h
    cases h
  | some column =>
    obtain ⟨before, after, hcolumns, -⟩ := List.lookup_eq_some_iff.mp hlookup
    rw [names, hcolumns, List.map_append]
    exact List.mem_append_right _ List.mem_cons_self

/-- The columns are among those of `types`, and of the same types. -/
def Within (rowType : RowType) (types : ColumnTypes) : Prop :=
  ∀ name ∈ rowType.names, rowType.types name = types name

/-- A row type is within the types it gives by name. -/
theorem within_self (rowType : RowType) : rowType.Within rowType.types := fun _ _ => rfl

theorem project_names {fieldNames : List String}
    (h : rowType.project fieldNames = some rowType') : rowType'.names = fieldNames := by
  unfold project at h
  split at h
  · obtain rfl := Option.some.inj h
    show (fieldNames.map _).map _ = _
    rw [List.map_map]
    exact List.map_id' fieldNames
  · cases h

/-- A projection keeps the types of the columns it keeps. -/
theorem Within.project {fieldNames : List String} (hwithin : rowType.Within types)
    (h : rowType.project fieldNames = some rowType') : rowType'.Within types := by
  have hnames := project_names h
  intro name hname
  rw [hnames] at hname
  unfold RowType.project at h
  split at h
  · rename_i hvisible
    obtain rfl := Option.some.inj h
    rw [← hwithin name (hvisible.2 name hname)]
    exact types_of_mem (List.mem_map.mpr ⟨name, hname, rfl⟩)
  · cases h

/-- The cells of a typed row, by the names of the columns. -/
theorem typed_of_hasType {schema : Schema} {row : Row} (hfields : schema.fields = rowType.names)
    (h : row.HasType rowType) : row.Typed rowType.types schema := by
  obtain ⟨hlength, hcells⟩ := List.forall₂_iff_get.mp h
  intro index name type value hname htype hvalue
  rw [Schema.Addresses, hfields, names, List.getElem?_map] at hname
  obtain ⟨column, hcolumn, rfl⟩ := Option.map_eq_some_iff.mp hname
  obtain ⟨hlt, rfl⟩ := List.getElem?_eq_some_iff.mp hcolumn
  obtain ⟨hlt', rfl⟩ := List.getElem?_eq_some_iff.mp hvalue
  refine hcells index hlt hlt' type ?_
  exact (types_of_mem (List.getElem_mem hlt)).symm.trans htype

/-- And back. -/
theorem hasType_of_typed {schema : Schema} {row : Row} (hfields : schema.fields = rowType.names)
    (hwithin : rowType.Within types) (hwide : row.values.length = schema.columnCount)
    (h : row.Typed types schema) : row.HasType rowType := by
  have hlength : rowType.columns.length = row.values.length := by
    rw [hwide, Schema.columnCount, hfields, names, List.length_map]
  refine List.forall₂_iff_get.mpr ⟨hlength, fun index hlt hlt' type htype => ?_⟩
  have hcolumn := List.getElem_mem hlt
  have hmem : (rowType.columns[index].1) ∈ rowType.names := List.mem_map.mpr ⟨_, hcolumn, rfl⟩
  have hname : schema.Addresses index rowType.columns[index].1 := by
    rw [Schema.Addresses, hfields, names, List.getElem?_map, List.getElem?_eq_getElem hlt]
    rfl
  refine h index _ type _ hname ?_ (List.getElem?_eq_getElem hlt')
  rw [← hwithin _ hmem]
  exact (types_of_mem hcolumn).trans htype

end RowType

/-! ## What the checker accepts

  Two consequences for a stage, and for a pipeline by induction on its stages: the binder accepts
  it, and it compares only what has an order. -/

section Checked

variable {rowType rowType' : RowType} {types : ColumnTypes}

/-- A visible field, and a literal it may be compared with. -/
theorem ParsedComparison.check_iff {predicate : ParsedComparison} :
    predicate.check rowType = true ↔
      predicate.field.fieldName ∈ rowType.names ∧ predicate.wellTyped rowType.types = true := by
  rw [ParsedComparison.check, Bool.and_eq_true, decide_eq_true_iff]

/-- A well-typed comparison has a known operator. -/
theorem ParsedComparison.wellTyped_operator {predicate : ParsedComparison}
    (h : predicate.wellTyped types = true) : predicate.opToken ∈ operatorTokens := by
  by_contra hunknown
  rw [ParsedComparison.wellTyped, parseComparisonOperator_eq_none.mpr hunknown] at h
  cases h

/-- A comparison only asks for the type of its own field. -/
theorem ParsedComparison.wellTyped_congr {types' : ColumnTypes} {predicate : ParsedComparison}
    (htypes : types predicate.field.fieldName = types' predicate.field.fieldName) :
    predicate.wellTyped types = predicate.wellTyped types' := by
  unfold ParsedComparison.wellTyped ColumnTypes.compares
  rw [htypes]

/-- A field that can be sorted by has a type. -/
theorem ColumnTypes.sorts_some {name : String} (h : types.sorts name = true) :
    ∃ type, types name = some type := by
  unfold ColumnTypes.sorts at h
  cases htype : types name with
  | none =>
    rw [htype] at h
    cases h
  | some type => exact ⟨type, rfl⟩

/-- **Binding.**  What the checker accepts the binder finds nothing wrong with. -/
theorem ParsedStage.check_acceptable {stage : ParsedStage} {schema : Schema}
    (h : stage.check rowType = some rowType') (hfields : schema.fields = rowType.names) :
    Acceptable schema stage := by
  cases stage with
  | kMatch stage =>
    simp only [ParsedStage.check, Option.ite_none_right_eq_some] at h
    intro predicate hpredicate
    obtain ⟨hvisible, htyped⟩ :=
      ParsedComparison.check_iff.mp (List.all_eq_true.mp h.1 predicate hpredicate)
    exact ⟨hfields ▸ hvisible, ParsedComparison.wellTyped_operator htyped⟩
  | kProject stage =>
    simp only [ParsedStage.check, RowType.project, Option.dite_none_right_eq_some] at h
    obtain ⟨⟨hdistinct, hvisible⟩, -⟩ := h
    refine ⟨fun field hfield => ?_, hdistinct⟩
    rw [hfields]
    exact hvisible _ (List.mem_map.mpr ⟨field, hfield, rfl⟩)
  | kSort stage =>
    simp only [ParsedStage.check, Option.ite_none_right_eq_some] at h
    obtain ⟨⟨hdirection, hsorts⟩, -⟩ := h
    obtain ⟨type, htype⟩ := ColumnTypes.sorts_some hsorts
    exact ⟨hfields ▸ RowType.mem_of_types htype, hdirection⟩
  | kLimit stage =>
    simp only [ParsedStage.check, Option.ite_none_right_eq_some] at h
    exact h.1

/-- The type computed for the rows after a stage has the columns that are visible then. -/
theorem ParsedStage.check_names {stage : ParsedStage} {schema schema' : Schema}
    {node node' : LogicalPlanNode} (h : stage.check rowType = some rowType')
    (hfields : schema.fields = rowType.names) (hbinds : BindsStage schema node stage schema' node') :
    schema'.fields = rowType'.names := by
  cases hbinds with
  | «match» | sort | limit =>
    simp only [ParsedStage.check, Option.ite_none_right_eq_some] at h
    obtain ⟨-, h⟩ := h
    rw [hfields, Option.some.inj h]
  | project => exact (RowType.project_names h).symm

/-- **Comparing.**  What the checker accepts is well typed, and the types after the stage are those
    of the columns that are left. -/
theorem ParsedStage.check_wellTyped {stage : ParsedStage} (h : stage.check rowType = some rowType')
    (hwithin : rowType.Within types) :
    stage.wellTyped types = true ∧ rowType'.Within types := by
  cases stage with
  | kMatch stage =>
    simp only [ParsedStage.check, Option.ite_none_right_eq_some] at h
    obtain ⟨hall, hnext⟩ := h
    refine ⟨List.all_eq_true.mpr fun predicate hpredicate => ?_, Option.some.inj hnext ▸ hwithin⟩
    obtain ⟨hvisible, htyped⟩ :=
      ParsedComparison.check_iff.mp (List.all_eq_true.mp hall predicate hpredicate)
    rw [← ParsedComparison.wellTyped_congr (hwithin _ hvisible)]
    exact htyped
  | kProject stage => exact ⟨rfl, hwithin.project h⟩
  | kSort stage =>
    simp only [ParsedStage.check, Option.ite_none_right_eq_some] at h
    obtain ⟨⟨-, hsorts⟩, hnext⟩ := h
    obtain ⟨type, htype⟩ := ColumnTypes.sorts_some hsorts
    refine ⟨?_, Option.some.inj hnext ▸ hwithin⟩
    show types.sorts stage.field.fieldName = true
    rw [ColumnTypes.sorts, ← hwithin _ (RowType.mem_of_types htype)]
    exact hsorts
  | kLimit stage =>
    simp only [ParsedStage.check, Option.ite_none_right_eq_some] at h
    exact ⟨rfl, Option.some.inj h.2 ▸ hwithin⟩

/-- **The run lemma, for binding.**  Checked stages are bound, one after another. -/
theorem checkStages_binds : ∀ {stages : List ParsedStage} {rowType : RowType}
    {node : LogicalPlanNode}, checkStages rowType stages = some rowType' →
    (outputSchemaOf node).fields = rowType.names →
    ∃ plan, bindStages (outputSchemaOf node) node stages = .ok plan ∧
      (outputSchemaOf plan).fields = rowType'.names
  | [], rowType, node, h, hfields => ⟨node, rfl, Option.some.inj h ▸ hfields⟩
  | stage :: stages, rowType, node, h, hfields => by
    obtain ⟨between, hstage, hrest⟩ := Option.bind_eq_some_iff.mp h
    have hacceptable := stage.check_acceptable hstage hfields
    obtain ⟨⟨schema', node'⟩, hbind⟩ :=
      (bindStage_checked node stage).returns_iff.mpr (complaintsAbout_eq_nil.mpr hacceptable)
    have hbinds := bindStage_cases hbind
    have hnames := stage.check_names hstage hfields hbinds
    obtain ⟨rfl, -⟩ := hbinds.shows
    obtain ⟨plan, hplan, hresult⟩ := checkStages_binds hrest hnames
    refine ⟨plan, ?_, hresult⟩
    rw [bindStages, hbind]
    exact hplan

/-- **The run lemma, for comparing.**  Checked stages are all well typed under the first types. -/
theorem checkStages_wellTyped : ∀ {stages : List ParsedStage} {rowType : RowType},
    checkStages rowType stages = some rowType' → rowType.Within types →
    (∀ stage ∈ stages, stage.wellTyped types = true) ∧ rowType'.Within types
  | [], rowType, h, hwithin => ⟨fun _ hmem => (by cases hmem), Option.some.inj h ▸ hwithin⟩
  | stage :: stages, rowType, h, hwithin => by
    obtain ⟨between, hstage, hrest⟩ := Option.bind_eq_some_iff.mp h
    obtain ⟨hfirst, hbetween⟩ := stage.check_wellTyped hstage hwithin
    obtain ⟨hothers, hresult⟩ := checkStages_wellTyped hrest hbetween
    exact ⟨List.forall_mem_cons.mpr ⟨hfirst, hothers⟩, hresult⟩

end Checked

/-! ## Soundness

  A checked pipeline is bound to a well-typed plan, the optimizer keeps it one, and such a plan
  comes through. -/

/-- **Type soundness.**  A checked pipeline returns on every table of the type it was checked
    against, and the table it returns is of the type the check computed. -/
theorem wellTyped_returns [StdLibrary] {table : Table} {rowType rowType' : RowType}
    {pipelineJson : Json} {parsed : ParsedPipeline} (htable : table.WellFormed)
    (htype : table.HasType rowType) (hparse : parsePipeline pipelineJson = .ok parsed)
    (hcheck : parsed.check rowType = some rowType') (clock : Clock) :
    ∃ result, runPipeline clock table pipelineJson = .ok result ∧
      result.toTable.HasType rowType' := by
  obtain ⟨plan, hbind, hnames⟩ :
      ∃ plan, bindPipeline table parsed = .ok plan ∧
        (outputSchemaOf plan).fields = rowType'.names := by
    have hscan : (outputSchemaOf (.kScan table)).fields = rowType.names := htype.fields
    exact checkStages_binds hcheck hscan
  obtain ⟨hstages, hwithin⟩ := checkStages_wellTyped hcheck rowType.within_self
  have hrows : table.Typed rowType.types := fun row hrow =>
    RowType.typed_of_hasType htype.fields (htype.rows row hrow)
  obtain ⟨hbound, rfl⟩ := bindPipeline_wellBound hbind
  obtain ⟨hbound', htable'⟩ := hbound.rewrite
  have hscan : (LogicalPlanNode.kScan plan.table).WellTyped rowType.types := trivial
  have hplan : plan.WellTyped rowType.types := bindStages_typed hstages hscan hbind
  obtain ⟨opened, hdenote, hfinish⟩ :=
    hbound'.denote_typed hplan.rewrite (htable'.symm ▸ htable) (htable'.symm ▸ hrows)
  rw [← Optimizer.optimize_fst] at hdenote
  have hrun : runPipeline clock plan.table pipelineJson = .ok _ :=
    runPipeline_of_denote hparse hbind hdenote hfinish
  refine ⟨_, hrun, hnames, fun row hrow => ?_⟩
  have hderived := (runPipeline_feedOk htable hrun).derived row hrow
  exact RowType.hasType_of_typed hnames hwithin hderived.length_eq (hderived.typed hrows)

/-- One column `a` of numbers, and what a check knows of a column `b` is its name. -/
def numbersInA : RowType where
  columns := [("a", some .kNumber), ("b", none)]
  distinct := by decide

/-- Its rows: numbers and a null in `a`, anything in `b`. -/
def numbersTable : Table where
  schema := { fields := ["a", "b"] }
  rows := [{ ordinal := 0, values := [.int64 2, .string "x"] },
    { ordinal := 1, values := [.null, .bool true] }]

/-- `[{"$match": {"a": {"$gt": 0}}}, {"$project": ["a"]}, {"$sort": {"a": 1}}]`. -/
def numbersAboveJson : Json :=
  .array [.object [("$match", .object [("a", .object [("$gt", .numberInteger 0)])])],
    .object [("$project", .array [.string "a"])], .object [("$sort", .object [("a", .numberInteger 1)])]]

/-- Numbers above 0, sorted: the result has the one column `a`, of numbers. -/
theorem wellTyped_returns_sample :
    letI := StdLibrary.reference
    ∃ result, runPipeline Clock.still numbersTable numbersAboveJson = .ok result ∧
      result.toTable.HasType { columns := [("a", some .kNumber)], distinct := by decide } :=
  @wellTyped_returns StdLibrary.reference numbersTable numbersInA _ numbersAboveJson
    { stages := [.kMatch { predicates := [⟨⟨"a"⟩, "$gt", .int64 0⟩] },
        .kProject { fields := [⟨"a"⟩] }, .kSort { field := ⟨"a"⟩, directionRaw := 1 }] }
    ⟨by decide, by unfold DistinctOrdinals; decide⟩ ⟨rfl, by decide⟩ rfl rfl Clock.still

-- what the binder rejects has no type either
example : (ParsedStage.kSort { field := ⟨"a"⟩, directionRaw := 7 }).check numbersInA = none := rfl

example : (ParsedStage.kProject { fields := [⟨"zzz"⟩] }).check numbersInA = none := rfl

end QueryLume
