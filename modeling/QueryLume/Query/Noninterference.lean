/-
  Cells of fields a query neither tests, sorts by nor returns cannot influence its result.

  1. **The fields** a query tests are read off its stages (`ParsedStage.testedFields`); binding and
     optimizing do not change them, and those it returns are the output schema (`Relevant`).

  2. **Two tables** of one schema give two plans that differ in the table at the bottom
     (`withTable`).

  3. **Two runs** over them are compared.  Their rows agree in the relevant fields (`Agree`), and
     every stage keeps that: predicates and comparisons only see relevant cells, a projection moves
     cells of one name, and the library algorithms see rows through the comparator alone.

  The result is as strong as it can be (`run_noninterference`): the same rows, or the same
  exception with the same message.
-/
import QueryLume.Foundation.Parametricity
import QueryLume.Query.Semantics

namespace QueryLume

open LogicalPlanNode StdAlgorithms

/-! ## The fields a query tests

  Computed from the parsed stages and from the bound plan; binding and rewriting keep them. -/

namespace Expression

mutual

/-- The names of the fields an expression reads. -/
def fieldNames : Expression → List String
  | boundField _ fieldName => [fieldName]
  | literal _ => []
  | comparison lhs _ rhs => lhs.fieldNames ++ rhs.fieldNames
  | conjunction operands => operandFieldNames operands

/-- The same for the operands of a conjunction. -/
def operandFieldNames : List Expression → List String
  | [] => []
  | operand :: operands => operand.fieldNames ++ operandFieldNames operands

end

end Expression

/-- The fields a `$match` or a `$sort` names. -/
def ParsedStage.testedFields : ParsedStage → List String
  | .kMatch stage => stage.predicates.map (·.field.fieldName)
  | .kProject _ => []
  | .kSort stage => [stage.field.fieldName]
  | .kLimit _ => []

/-- The fields a plan tests or sorts by, from the root down. -/
def LogicalPlanNode.testedFields : LogicalPlanNode → List String
  | .kScan _ => []
  | .kFilter child predicate => predicate.fieldNames ++ child.testedFields
  | .kProject child _ _ => child.testedFields
  | .kSort child _ fieldName _ => fieldName :: child.testedFields
  | .kLimit child _ => child.testedFields
  | .kTopK child _ fieldName _ _ => fieldName :: child.testedFields

/-- A bound predicate reads the fields its comparisons name. -/
theorem BindsMatch.fieldNames {schema : Schema} {predicates : List ParsedComparison}
    {predicate : Expression} (h : BindsMatch schema predicates predicate) :
    predicate.fieldNames = predicates.map (·.field.fieldName) := by
  have hone : ∀ {parsed : ParsedComparison} {expression : Expression},
      BindsComparison schema parsed expression → expression.fieldNames = [parsed.field.fieldName] := by
    rintro parsed expression ⟨index, op, -, -⟩
    rfl
  cases h with
  | always => rfl
  | single binds => exact hone binds
  | conjunction binds =>
    rw [Expression.fieldNames]
    induction binds with
    | nil => rfl
    | cons hfirst _ ih => rw [Expression.operandFieldNames, hone hfirst, ih]; rfl

/-- A bound stage tests the fields it names, and what is below tests what it did. -/
theorem BindsStage.testedFields {schema schema' : Schema} {node node' : LogicalPlanNode}
    {stage : ParsedStage} (h : BindsStage schema node stage schema' node') :
    node'.testedFields = stage.testedFields ++ node.testedFields := by
  cases h with
  | «match» binds => rw [LogicalPlanNode.testedFields, binds.fieldNames]; rfl
  | project | sort | limit => rfl

/-- A bound plan tests what its stages name. -/
theorem bindStages_testedFields : ∀ {stages : List ParsedStage} {schema : Schema}
    {node plan : LogicalPlanNode}, bindStages schema node stages = .ok plan →
    ∀ name ∈ plan.testedFields, name ∈ node.testedFields ∨ ∃ stage ∈ stages, name ∈ stage.testedFields
  | [], _, node, plan, h, name, hname => by
    rw [← Except.ok.inj h] at hname
    exact .inl hname
  | stage :: stages, schema, node, plan, h, name, hname => by
    obtain ⟨schema', node', hstage, h⟩ := bindStages_cons_ok h
    rcases bindStages_testedFields h name hname with hnode' | ⟨other, hother, hname'⟩
    · rw [(bindStage_cases hstage).testedFields, List.mem_append] at hnode'
      rcases hnode' with hfirst | hnode
      · exact .inr ⟨stage, List.mem_cons_self, hfirst⟩
      · exact .inl hnode
    · exact .inr ⟨other, List.mem_cons_of_mem _ hother, hname'⟩

theorem testedFields_rewrite (node : LogicalPlanNode) :
    (SortLimitToTopKRule.rewrite node).1.testedFields = node.testedFields := by
  fun_induction SortLimitToTopKRule.rewrite node with
  | case1 grandchild columnIndex fieldName direction limit ih => exact congrArg (fieldName :: ·) ih
  | case2 table => rfl
  | case3 child predicate ih => exact congrArg (predicate.fieldNames ++ ·) ih
  | case4 child columnIndices fieldNames ih => exact ih
  | case5 child columnIndex fieldName direction ih => exact congrArg (fieldName :: ·) ih
  | case6 child limit hsort ih => exact ih
  | case7 child columnIndex fieldName direction k ih => exact congrArg (fieldName :: ·) ih

/-! ## The same plan over another table

  Binding looks at the schema of a table and not at its rows, so over two tables of one schema a
  pipeline is bound to one plan, up to the table at its bottom. -/

namespace LogicalPlanNode

/-- The plan with another table at the bottom. -/
def withTable (table : Table) : LogicalPlanNode → LogicalPlanNode
  | .kScan _ => .kScan table
  | .kFilter child predicate => .kFilter (child.withTable table) predicate
  | .kProject child columnIndices fieldNames =>
    .kProject (child.withTable table) columnIndices fieldNames
  | .kSort child columnIndex fieldName direction =>
    .kSort (child.withTable table) columnIndex fieldName direction
  | .kLimit child limit => .kLimit (child.withTable table) limit
  | .kTopK child columnIndex fieldName direction k =>
    .kTopK (child.withTable table) columnIndex fieldName direction k

/-- With the schema of the table, the schema of every node stays the same. -/
theorem outputSchemaOf_withTable {table : Table} : ∀ (node : LogicalPlanNode),
    table.schema = node.table.schema → outputSchemaOf (node.withTable table) = outputSchemaOf node
  | .kScan _, h => h
  | .kFilter child _, h => outputSchemaOf_withTable child h
  | .kProject _ _ _, _ => rfl
  | .kSort child _ _ _, h => outputSchemaOf_withTable child h
  | .kLimit child _, h => outputSchemaOf_withTable child h
  | .kTopK child _ _ _ _, h => outputSchemaOf_withTable child h

theorem rewrite_withTable (table : Table) (node : LogicalPlanNode) :
    (SortLimitToTopKRule.rewrite (node.withTable table)).1 =
      (SortLimitToTopKRule.rewrite node).1.withTable table := by
  fun_induction SortLimitToTopKRule.rewrite node with
  | case1 grandchild columnIndex fieldName direction limit ih =>
    simp only [withTable, SortLimitToTopKRule.rewrite, ih]
  | case2 table' => rfl
  | case3 child predicate ih => simp only [withTable, SortLimitToTopKRule.rewrite, ih]
  | case4 child columnIndices fieldNames ih =>
    simp only [withTable, SortLimitToTopKRule.rewrite, ih]
  | case5 child columnIndex fieldName direction ih =>
    simp only [withTable, SortLimitToTopKRule.rewrite, ih]
  | case6 child limit hsort ih =>
    rw [withTable]
    rw [SortLimitToTopKRule.rewrite]
    · rw [ih]; rfl
    · intro grandchild columnIndex fieldName direction heq
      cases child <;> simp only [withTable, reduceCtorEq] at heq
      exact hsort _ _ _ _ rfl
  | case7 child columnIndex fieldName direction k ih =>
    simp only [withTable, SortLimitToTopKRule.rewrite, ih]

end LogicalPlanNode

theorem bindStage_withTable (table : Table) (schema : Schema) (node : LogicalPlanNode)
    (stage : ParsedStage) :
    bindStage schema (node.withTable table) stage =
      (bindStage schema node stage).map fun next => (next.1, next.2.withTable table) := by
  cases stage with
  | kMatch parsed =>
    simp only [bindStage]
    cases bindMatch schema parsed <;> rfl
  | kProject parsed =>
    simp only [bindStage]
    cases bindFields schema [] parsed.fields <;> rfl
  | kSort parsed =>
    simp only [bindStage]
    cases resolveField schema parsed.field.fieldName with
    | error e => rfl
    | ok index => cases bindSortDirection parsed.directionRaw <;> rfl
  | kLimit parsed =>
    simp only [bindStage]
    cases bindLimit parsed.countRaw <;> rfl

/-- Binding sees the table's schema only. -/
theorem bindStages_withTable (table : Table) : ∀ (stages : List ParsedStage) (schema : Schema)
    (node : LogicalPlanNode), bindStages schema (node.withTable table) stages =
      (bindStages schema node stages).map (·.withTable table)
  | [], _, _ => rfl
  | stage :: stages, schema, node => by
    rw [bindStages, bindStages, bindStage_withTable]
    cases bindStage schema node stage with
    | error e => rfl
    | ok next => exact bindStages_withTable table stages next.1 next.2

/-- A pipeline is bound to one plan over tables of one schema. -/
theorem bindPipeline_withTable {table table' : Table} (hschema : table'.schema = table.schema)
    (pipeline : ParsedPipeline) :
    bindPipeline table' pipeline = (bindPipeline table pipeline).map (·.withTable table') := by
  rw [bindPipeline, hschema]
  exact bindStages_withTable table' pipeline.stages table.schema (.kScan table)

/-! ## Rows that agree

  What a stage does with a row depends on the cells it reads.  Agreeing rows pass the same tests,
  are ordered alike and are projected to agreeing rows. -/

/-- Rows of one width and ordinal that agree in the fields of `S`. -/
structure Agree (S : String → Prop) (schema : Schema) (row row' : Row) : Prop where
  ordinal : row.ordinal = row'.ordinal
  width : row.values.length = schema.columnCount
  width' : row'.values.length = schema.columnCount
  cells : ∀ {column name}, schema.Addresses column name → S name →
    row.values[column]? = row'.values[column]?

section Agree

variable {S : String → Prop} {schema : Schema}

/-- A predicate over relevant fields cannot tell agreeing rows apart. -/
theorem test_agree {predicate : Expression} (hbound : BoundPredicate schema predicate)
    (hnames : ∀ name ∈ predicate.fieldNames, S name) (row row' : Row)
    (h : Agree S schema row row') : predicate.test row = predicate.test row' := by
  have hone : ∀ {comparison : Expression}, BoundComparison schema comparison →
      (∀ name ∈ comparison.fieldNames, S name) → comparison.evaluate row = comparison.evaluate row' := by
    rintro comparison ⟨index, name, op, literal, addresses⟩ hnames
    simp only [Expression.evaluate, Row.cellAt,
      h.cells addresses (hnames name List.mem_cons_self)]
  cases hbound with
  | always => rfl
  | single bound => rw [Expression.test, Expression.test, hone bound hnames]
  | @conjunction operands bound =>
    have hall : Expression.evaluateAll operands row = Expression.evaluateAll operands row' := by
      rw [Expression.fieldNames] at hnames
      induction operands with
      | nil => rfl
      | cons operand operands ih =>
        rw [Expression.operandFieldNames] at hnames
        have hfirst := hone (bound operand List.mem_cons_self)
          (fun name hname => hnames name (List.mem_append_left _ hname))
        have hrest := ih (fun other hother => bound other (List.mem_cons_of_mem _ hother))
          (fun name hname => hnames name (List.mem_append_right _ hname))
        rw [Expression.evaluateAll, Expression.evaluateAll, hfirst, hrest]
    rw [Expression.test, Expression.test, Expression.evaluate, Expression.evaluate, hall]

/-- A comparator of a relevant field cannot tell agreeing rows apart. -/
theorem call_agree {comparator : RowComparator} {name : String}
    (haddresses : schema.Addresses comparator.columnIndex name) (hname : S name) (a a' b b' : Row)
    (ha : Agree S schema a a') (hb : Agree S schema b b') :
    comparator.call a b = comparator.call a' b' := by
  simp only [RowComparator.call, Row.cell, ha.cells haddresses hname, hb.cells haddresses hname,
    ha.ordinal, hb.ordinal]

/-- Projecting agreeing rows. -/
theorem project_agree {indices : List Nat} {names : List String}
    (haddresses : List.Forall₂ schema.Addresses indices names) (hnames : names.Nodup)
    (row row' : Row) (h : Agree S schema row row') :
    SameOutcome (Agree S { fields := names }) (ProjectStage.project indices row)
      (ProjectStage.project indices row') := by
  have hproject : ∀ row : Row, row.values.length = schema.columnCount →
      ProjectStage.project indices row =
        .ok { ordinal := row.ordinal, values := indices.map (row.values.getD · .null) } := by
    intro row hwidth
    refine ProjectStage.project_of_values (nodup_of_addresses haddresses hnames) ?_
    refine List.forall₂_map_right_iff.mpr (List.forall₂_same.mpr fun index hindex => ?_)
    obtain ⟨name, -, hname⟩ := haddresses.exists_of_mem_left hindex
    have hlt : index < row.values.length := hwidth ▸ hname.lt
    rw [List.getD_eq_getElem?_getD, List.getElem?_eq_getElem hlt]
    rfl
  have hlength : indices.length = names.length := haddresses.length_eq
  rw [hproject row h.width, hproject row' h.width']
  refine .ok ⟨h.ordinal, (List.length_map ..).trans hlength, (List.length_map ..).trans hlength,
    fun {column name} hname hS => ?_⟩
  -- the column shows the cell the index at its place addresses
  obtain ⟨hlt, hget⟩ := List.getElem?_eq_some_iff.mp hname
  have hlt' : column < indices.length := hlength ▸ hlt
  have haddress := (List.forall₂_iff_get.mp haddresses).2 column hlt' hlt
  simp only [List.get_eq_getElem] at haddress
  rw [show names[column] = name from hget] at haddress
  simp only [List.getElem?_map, List.getElem?_eq_getElem hlt', Option.map_some,
    List.getD_eq_getElem?_getD, h.cells haddress hS]

/-- Rows that agree in every field are equal. -/
theorem Agree.eq {row row' : Row} (h : Agree S schema row row')
    (hall : ∀ name ∈ schema.fields, S name) : row = row' := by
  obtain ⟨ordinal, values⟩ := row
  obtain ⟨ordinal', values'⟩ := row'
  obtain ⟨rfl, hwidth, hwidth', hcells⟩ := h
  simp only at hwidth hwidth' hcells
  have hvalues : values = values' := by
    refine List.ext_getElem? fun column => ?_
    by_cases hlt : column < schema.columnCount
    · exact hcells (List.getElem?_eq_getElem hlt) (hall _ (List.getElem_mem hlt))
    · rw [List.getElem?_eq_none (by omega), List.getElem?_eq_none (by omega)]
  rw [hvalues]

end Agree

/-! ## Two runs

  The two runs side by side, stage by stage: the same marks, the same exceptions, and rows that
  agree. -/

/-- Two denotations that cannot be told apart in the fields of `S`. -/
structure OpenedAlike (S : String → Prop) (schema : Schema) (opened opened' : Opened) : Prop where
  mark : opened.mark = opened'.mark
  feed : Feed.Related (Agree S schema) opened.feed opened'.feed

/-- Two denotations with the same marks that give out related rows. -/
structure Opened.Related (R : Row → Row → Prop) (opened opened' : Opened) : Prop where
  mark : opened.mark = opened'.mark
  feed : Feed.Related R opened.feed opened'.feed

/-- Pulled to their ends, they end alike. -/
theorem Opened.Related.collect {R : Row → Row → Prop} {opened opened' : Opened}
    (h : opened.Related R opened') :
    SameOutcome (List.Forall₂ R) opened.feed.collect opened'.feed.collect := by
  rw [Feed.collect, Feed.collect, h.feed.finish]
  cases opened'.feed.finish with
  | some e => exact .error e
  | none => exact .ok h.feed.rows

section TwoRuns

variable [StdLibrary] {S : String → Prop} {schema : Schema}

/-- A blocking stage cannot tell rows apart that its comparator and its fill loop do not. -/
theorem block_related {R : Row → Row → Prop}
    {fill fill' : List Row → Row → Except Exception (List Row)} {comparator comparator' : RowComparator}
    {opened opened' : Opened}
    (hcall : ∀ a a' b b', R a a' → R b b' → comparator.call a b = comparator'.call a' b')
    (hfill : ∀ buffer buffer' row row', List.Forall₂ R buffer buffer' → R row row' →
      SameOutcome (List.Forall₂ R) (fill buffer row) (fill' buffer' row'))
    (h : Feed.Related R opened.feed opened'.feed) :
    SameOutcome (Opened.Related R) (opened.block fill comparator)
      (opened'.block fill' comparator') := by
  have hfold : SameOutcome (List.Forall₂ R) (opened.feed.rows.foldlM fill [])
      (opened'.feed.rows.foldlM fill' []) := SameOutcome.foldlM hfill h.rows .nil
  have htotal := h.total
  unfold Opened.block
  generalize opened.feed.rows.foldlM fill [] = filled at hfold
  generalize opened'.feed.rows.foldlM fill' [] = filled' at hfold
  cases hfold with
  | error e => exact .error e
  | @ok buffer buffer' hbuffer =>
    simp only [h.finish]
    cases opened'.feed.finish with
    | some e => exact .error e
    | none =>
      have hsort : SameOutcome (List.Forall₂ R) (stdSort comparator.call buffer)
          (stdSort comparator'.call buffer') := rearrange_forall₂ sort hcall hbuffer
      simp only [htotal]
      exact hsort.map fun sorted sorted' hsorted => ⟨rfl, Feed.related_ofList _ hsorted⟩

/-- A blocking stage whose comparator reads a relevant column. -/
theorem block_alike {fill fill' : List Row → Row → Except Exception (List Row)}
    {comparator : RowComparator} {name : String} {opened opened' : Opened}
    (haddresses : schema.Addresses comparator.columnIndex name) (hname : S name)
    (hfill : ∀ buffer buffer' row row', List.Forall₂ (Agree S schema) buffer buffer' →
      Agree S schema row row' →
      SameOutcome (List.Forall₂ (Agree S schema)) (fill buffer row) (fill' buffer' row'))
    (h : OpenedAlike S schema opened opened') :
    SameOutcome (OpenedAlike S schema) (opened.block fill comparator)
      (opened'.block fill' comparator) :=
  (block_related (call_agree haddresses hname) hfill h.feed).imp fun _ _ hrelated =>
    ⟨hrelated.mark, hrelated.feed⟩

/-- **Two runs.**  A well-bound plan that tests fields of `S` only, over two tables that agree in
    them. -/
theorem LogicalPlanNode.WellBound.denote_alike {node : LogicalPlanNode} {table : Table}
    (h : node.WellBound) (htested : ∀ name ∈ node.testedFields, S name)
    (hschema : table.schema = node.table.schema)
    (hrows : List.Forall₂ (Agree S table.schema) node.table.rows table.rows) :
    SameOutcome (OpenedAlike S (outputSchemaOf node)) (buildPhysicalPlan node).denote
      (buildPhysicalPlan (node.withTable table)).denote := by
  induction h with
  | scan table' =>
    rw [hschema] at hrows
    exact .ok ⟨rfl, Feed.related_scan hrows 0⟩
  | filter _ bound ih =>
    have hchild := ih (fun name hname => htested name (List.mem_append_right _ hname)) hschema hrows
    refine hchild.map fun opened opened' hopened => ⟨hopened.mark, hopened.feed.filter ?_⟩
    exact test_agree bound fun name hname => htested name (List.mem_append_left _ hname)
  | project _ addresses distinct ih =>
    refine (ih htested hschema hrows).map fun opened opened' hopened => ⟨hopened.mark, ?_⟩
    exact hopened.feed.mapRows (project_agree addresses distinct)
  | sort _ addresses ih =>
    have hchild := ih (fun name hname => htested name (List.mem_cons_of_mem _ hname)) hschema hrows
    refine hchild.bind fun opened opened' hopened => ?_
    refine block_alike addresses (htested _ List.mem_cons_self) ?_ hopened
    exact fun buffer buffer' row row' hbuffer hrow => .ok (hbuffer.append (.cons hrow .nil))
  | limit _ ih =>
    refine (ih htested hschema hrows).map fun opened opened' hopened => ⟨hopened.mark, ?_⟩
    rw [hopened.mark]
    exact hopened.feed.limit _ _
  | topK _ addresses ih =>
    have hchild := ih (fun name hname => htested name (List.mem_cons_of_mem _ hname)) hschema hrows
    have hname := htested _ List.mem_cons_self
    refine hchild.bind fun opened opened' hopened => block_alike addresses hname ?_ hopened
    exact fun buffer buffer' row row' hbuffer hrow =>
      BoundedHeap.offer_related (call_agree addresses hname) _ hbuffer hrow

end TwoRuns

/-- The fields a query tests, sorts by or returns. -/
def Relevant (table : Table) (pipelineJson : Json) (name : String) : Prop :=
  ∃ parsed plan, parsePipeline pipelineJson = .ok parsed ∧ bindPipeline table parsed = .ok plan ∧
    ((∃ stage ∈ parsed.stages, name ∈ stage.testedFields) ∨ name ∈ (outputSchemaOf plan).fields)

/-- **Noninterference.**  Two tables with one schema, as wide as it, with the same ordinals and the
    same cells in every relevant field: a query ends alike on both, with the same rows or with the
    same exception. -/
theorem run_noninterference [StdLibrary] {table table' : Table} {pipelineJson : Json}
    (clock clock' : Clock) (hschema : table'.schema = table.schema)
    (hwide : ∀ row ∈ table.rows, row.values.length = table.schema.columnCount)
    (hwide' : ∀ row ∈ table'.rows, row.values.length = table'.schema.columnCount)
    (hagree : List.Forall₂ (fun row row' => row.ordinal = row'.ordinal ∧
      ∀ column name, table.schema.Addresses column name → Relevant table pipelineJson name →
        row.values[column]? = row'.values[column]?) table.rows table'.rows) :
    runPipeline clock table pipelineJson = runPipeline clock' table' pipelineJson := by
  cases hparse : parsePipeline pipelineJson with
  | error e => simp only [runPipeline, planQuery, hparse]
  | ok parsed =>
    have hbind' := bindPipeline_withTable hschema parsed
    cases hbind : bindPipeline table parsed with
    | error e =>
      rw [hbind] at hbind'
      simp only [runPipeline, planQuery, hparse, hbind]
      rw [show bindPipeline table' parsed = .error e from hbind']
    | ok plan =>
      rw [hbind] at hbind'
      obtain ⟨hbound, rfl⟩ := bindPipeline_wellBound hbind
      obtain ⟨hbound', htable⟩ := hbound.rewrite
      have hrows : List.Forall₂ (Agree (Relevant plan.table pipelineJson) table'.schema)
          plan.table.rows table'.rows := by
        rw [hschema] at hwide' ⊢
        refine List.forall₂_iff_zip.mpr ⟨hagree.length_eq, fun {row row'} hmem => ?_⟩
        obtain ⟨hordinal, hcells⟩ := List.forall₂_zip hagree hmem
        obtain ⟨hrow, hrow'⟩ := List.of_mem_zip hmem
        exact ⟨hordinal, hwide row hrow, hwide' row' hrow', hcells _ _⟩
      have htested : ∀ name ∈ (SortLimitToTopKRule.rewrite plan).1.testedFields,
          Relevant plan.table pipelineJson name := by
        intro name hname
        rw [testedFields_rewrite] at hname
        rcases bindStages_testedFields hbind name hname with hnone | hstage
        · cases hnone
        · exact ⟨parsed, plan, hparse, hbind, .inl hstage⟩
      have halike := hbound'.denote_alike htested (hschema.trans (congrArg Table.schema htable.symm))
        (htable.symm ▸ hrows)
      rw [← rewrite_withTable, outputSchemaOf_rewrite] at halike
      rw [runPipeline_eq hparse hbind, runPipeline_eq hparse hbind',
        outputSchemaOf_withTable _ hschema]
      have hcollect : SameOutcome (· = ·)
          ((optimizedPlan plan).denote.bind fun opened => opened.feed.collect)
          ((optimizedPlan (plan.withTable table')).denote.bind fun opened => opened.feed.collect) := by
        refine halike.bind fun opened opened' hopened => ?_
        have hrows : opened.feed.rows = opened'.feed.rows := by
          refine List.forall₂_eq_eq_eq ▸ hopened.feed.rows.imp fun row row' h => ?_
          exact h.eq fun name hname => ⟨parsed, plan, hparse, hbind, .inr hname⟩
        rw [Feed.collect, Feed.collect, hopened.feed.finish, hrows]
        cases opened'.feed.finish with
        | some e => exact .error e
        | none => exact .ok rfl
      generalize (optimizedPlan plan).denote.bind (fun opened => opened.feed.collect) = run at hcollect
      generalize (optimizedPlan (plan.withTable table')).denote.bind
        (fun opened => opened.feed.collect) = run' at hcollect
      cases hcollect with
      | error e => rfl
      | ok heq => rw [heq]

/-- Two tables that differ in the cells of `b` only. -/
def secretTable (secret : Value) : Table where
  schema := { fields := ["a", "b"] }
  rows := [{ ordinal := 0, values := [.int64 2, secret] }, { ordinal := 1, values := [.int64 1, .null] }]

/-- Sorts by `a` and returns `a`. -/
def publicPipelineJson : Json :=
  .array [.object [("$sort", .object [("a", .numberInteger 1)])],
    .object [("$project", .array [.string "a"])]]

theorem publicPipelineJson_relevant {secret : Value} {name : String}
    (h : Relevant (secretTable secret) publicPipelineJson name) : name = "a" := by
  obtain ⟨parsed, plan, hparse, hbind, hname⟩ := h
  obtain rfl := Except.ok.inj hparse
  obtain rfl := Except.ok.inj hbind
  simpa [ParsedStage.testedFields, outputSchemaOf] using hname

theorem run_noninterference_sample :
    @runPipeline StdLibrary.reference Clock.still (secretTable (.bool true))
        publicPipelineJson =
      @runPipeline StdLibrary.reference Clock.still (secretTable (.string "x"))
        publicPipelineJson :=
  @run_noninterference StdLibrary.reference _ _ _ Clock.still Clock.still rfl
    (by decide) (by decide)
    (.cons ⟨rfl, fun column name haddresses hrelevant => by
      obtain rfl := publicPipelineJson_relevant hrelevant
      match column with
      | 0 => rfl
      | 1 => exact absurd (Option.some.inj haddresses) (by decide)
      | _ + 2 => exact absurd haddresses (fun h => by cases h)⟩
    (.cons ⟨rfl, fun _ _ _ _ => rfl⟩ .nil))

end QueryLume
