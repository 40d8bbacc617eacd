/-
  Columns of one type, and queries that respect them.

  The engine checks no types before it runs: a comparison throws when it meets two values that have
  no order, and the binder only asks whether a field exists.  What goes wrong at run time is always
  a comparison, in a filter (`evaluateComparison`) or in a sort (`RowComparator.call`), so a type
  has to say no more of a column than which values may meet there.

  1. **Types** — `ColumnTypes` says of what type the cells of a field are, nulls apart.  Types go
     by name: a field keeps its name through a projection, so the same `ColumnTypes` serve before
     and after every stage, and a row that shows cells of a typed table is typed (`Derived.typed`).

  2. **Queries** — a stage is `wellTyped` when it compares fields with literals of their own type
     only, orders no bools, and sorts by no bools.  Binding and optimizing keep this.

  3. **Progress** — a well-typed plan over a typed table opens and comes through to its end
     (`denote_typed`), by induction on the plan.

  The checker of `Query/TypeCheck.lean` computes the types stage by stage and also does what the
  binder does; its soundness rests on this module.
-/
import QueryLume.Query.Composition
import QueryLume.Query.OperatorLaws
import QueryLume.Query.RuntimeErrors

namespace QueryLume

open BoundedHeap LogicalPlanNode StdAlgorithms

/-! ## Types

  Types are about what compares with what.  A row is typed under a schema, by the names of its
  columns, so a projection does not change the types. -/

/-- What the cells of a column are, nulls apart.  Integers and doubles compare with each other,
    so they are one type. -/
inductive ColumnType where
  | kNumber
  | kString
  | kBool
deriving DecidableEq, Repr

/-- Null is of every type, NaN of none. -/
def ColumnType.admits : ColumnType → Value → Bool
  | _, .null => true
  | .kNumber, .int64 _ => true
  | .kNumber, .double d => !d.isNaN
  | .kString, .string _ => true
  | .kBool, .bool _ => true
  | _, _ => false

/-- The types of the fields that have one. -/
def ColumnTypes := String → Option ColumnType

/-- May the operator be applied to a cell of the field and the literal? -/
def ColumnTypes.compares (types : ColumnTypes) (fieldName : String) (op : ComparisonOperator)
    (literal : Value) : Bool :=
  decide (typeOf literal = .kNull) ||
    match types fieldName with
    | some type => type.admits literal && (type != .kBool || !op.isOrdered)
    | none => false

/-- May rows be sorted by the field? -/
def ColumnTypes.sorts (types : ColumnTypes) (fieldName : String) : Bool :=
  match types fieldName with
  | some type => type != .kBool
  | none => false

/-- A known operator, and a literal of the type of the field. -/
def ParsedComparison.wellTyped (types : ColumnTypes) (predicate : ParsedComparison) : Bool :=
  match parseComparisonOperator predicate.opToken with
  | some op => types.compares predicate.field.fieldName op predicate.literal
  | none => false

/-- Does the stage only compare what has an order? -/
def ParsedStage.wellTyped (types : ColumnTypes) : ParsedStage → Bool
  | .kMatch stage => stage.predicates.all (·.wellTyped types)
  | .kProject _ => true
  | .kSort stage => types.sorts stage.field.fieldName
  | .kLimit _ => true

/-- The cells of a row, read under a schema, are of the types of their fields. -/
def Row.Typed (types : ColumnTypes) (schema : Schema) (row : Row) : Prop :=
  ∀ column name type value, schema.Addresses column name → types name = some type →
    row.values[column]? = some value → type.admits value = true

/-- All rows are. -/
def Table.Typed (types : ColumnTypes) (table : Table) : Prop :=
  ∀ row ∈ table.rows, row.Typed types table.schema

/-! ## Values of one type

  Between values of one type neither comparison throws, `compare` on bools excepted. -/

section Values

variable {type : ColumnType} {a b : Value}

/-- Two values of a type other than bool compare. -/
theorem compare_admitted (htype : type ≠ .kBool) (ha : type.admits a = true)
    (hb : type.admits b = true) : ¬ Throws (compare a b) := by
  intro hthrows
  obtain ⟨left, right, apart⟩ := compare_error_iff.mp hthrows
  have hkind : ∀ {value : Value}, type.admits value = true → value.kind ≠ .null →
      value.kind = if type = .kNumber then .number else .string := by
    intro value hadmits hnull
    cases type with
    | kBool => exact absurd rfl htype
    | kNumber =>
      cases value with
      | null => exact absurd rfl hnull
      | int64 i => rfl
      | double d => exact kind_double (by simpa [ColumnType.admits] using hadmits)
      | bool x | string s => cases hadmits
    | kString =>
      cases value with
      | null => exact absurd rfl hnull
      | string s => rfl
      | bool x | int64 i | double d => cases hadmits
  have hisolated := apart ((hkind ha left).trans (hkind hb right).symm)
  rw [hkind ha left] at hisolated
  split at hisolated <;> cases hisolated

/-- Two values of any type can be told equal or not. -/
theorem valuesEqual_admitted (ha : type.admits a = true) (hb : type.admits b = true) :
    ¬ Throws (valuesEqual a b) := by
  by_cases htype : type = .kBool
  · subst htype
    rintro ⟨e, h⟩
    cases a with
    | int64 i | double d | string s => cases ha
    | null =>
      cases b with
      | int64 j | double d | string t => cases hb
      | null | bool y => cases h
    | bool x =>
      cases b with
      | int64 j | double d | string t => cases hb
      | null | bool y => cases h
  · exact fun hthrows => compare_admitted htype ha hb (compare_throws_iff.mpr (.inl hthrows))

/-- What a well-typed comparison does with a cell of the field's type. -/
theorem evaluateComparison_admitted {op : ComparisonOperator} {types : ColumnTypes}
    {fieldName : String} {literal cell : Value} (h : types.compares fieldName op literal = true)
    (hcell : ∀ type, types fieldName = some type → type.admits cell = true) :
    ¬ Throws (evaluateComparison op cell literal) := by
  by_cases hnull : typeOf literal = .kNull
  · -- nothing is thrown about a null
    have hcompare : ¬ Throws (compare cell literal) := by
      rw [compare_null (.inr (kind_eq_null.mpr hnull))]
      rintro ⟨e, h⟩
      cases h
    cases hop : op.isOrdered with
    | true => exact fun hthrows => hcompare ((evaluateComparison_ordered_throws hop).mp hthrows)
    | false =>
      intro hthrows
      have hequal := (evaluateComparison_equality_throws hop).mp hthrows
      exact hcompare (compare_throws_iff.mpr (.inl hequal))
  · rw [ColumnTypes.compares, decide_eq_false hnull, Bool.false_or] at h
    cases htypes : types fieldName with
    | none =>
      rw [htypes] at h
      cases h
    | some type =>
      rw [htypes] at h
      obtain ⟨hliteral, hordered⟩ := Bool.and_eq_true_iff.mp h
      have hadmits := hcell type htypes
      intro hthrows
      cases hop : op.isOrdered with
      | false =>
        have hequal := (evaluateComparison_equality_throws hop).mp hthrows
        exact valuesEqual_admitted hadmits hliteral hequal
      | true =>
        have htype : type ≠ .kBool := by
          rintro rfl
          rw [hop] at hordered
          cases hordered
        have hcompare := (evaluateComparison_ordered_throws hop).mp hthrows
        exact compare_admitted htype hadmits hliteral hcompare

end Values

/-! ## Typed plans

  Progress is proved of the denotation: no predicate and no comparator of a well-typed plan throws
  on the rows that reach it, because these show cells of the typed table. -/

/-- A comparison of a field with a literal of its type. -/
inductive TypedComparison (types : ColumnTypes) : Expression → Prop where
  | intro (index : Nat) (name : String) (op : ComparisonOperator) (literal : Value)
      (compares : types.compares name op literal = true) :
      TypedComparison types (.comparison (.boundField index name) op (.literal literal))

/-- What a well-typed `$match` is bound to, in its three forms. -/
inductive TypedPredicate (types : ColumnTypes) : Expression → Prop where
  | always : TypedPredicate types (.literal (.bool true))
  | single {expression : Expression} (typed : TypedComparison types expression) :
      TypedPredicate types expression
  | conjunction {operands : List Expression}
      (typed : ∀ operand ∈ operands, TypedComparison types operand) :
      TypedPredicate types (.conjunction operands)

/-- All filters test, and all sorts sort by, cells that have an order. -/
def LogicalPlanNode.WellTyped (types : ColumnTypes) : LogicalPlanNode → Prop
  | .kScan _ => True
  | .kFilter child predicate => child.WellTyped types ∧ TypedPredicate types predicate
  | .kProject child _ _ => child.WellTyped types
  | .kSort child _ fieldName _ => child.WellTyped types ∧ types.sorts fieldName = true
  | .kLimit child _ => child.WellTyped types
  | .kTopK child _ fieldName _ _ => child.WellTyped types ∧ types.sorts fieldName = true

section Plans

variable {types : ColumnTypes} {schema : Schema} {row : Row}

/-- A row that shows cells of a typed table is typed. -/
theorem Derived.typed {table : Table} (h : Derived table schema row) (htable : table.Typed types) :
    row.Typed types schema := by
  obtain ⟨source, hsource, hshows⟩ := h
  intro column name type value hname htype hvalue
  obtain ⟨column', hname', hvalue'⟩ := hshows.cell hname hvalue
  exact htable source hsource column' name type value hname' htype hvalue'

/-- A well-typed comparison has a truth value on every typed row. -/
theorem BoundComparison.evaluate_typed {expression : Expression}
    (h : BoundComparison schema expression) (htyped : TypedComparison types expression)
    (hwide : row.values.length = schema.columnCount) (hrow : row.Typed types schema) :
    ∃ b, expression.evaluate row = .ok (.bool b) := by
  rcases h.evaluate hwide with hok | ⟨e, herror, -⟩
  · exact hok
  · obtain ⟨index, name, op, literal, haddresses⟩ := h
    obtain ⟨_, _, _, _, hcompares⟩ := htyped
    have hlt : index < row.values.length := hwide ▸ haddresses.lt
    have hcell : row.values[index]? = some row.values[index] := List.getElem?_eq_getElem hlt
    have hread : row.cellAt index = .ok row.values[index] := by
      rw [Row.cellAt, hcell]
    rw [Expression.evaluate, Expression.evaluate, Expression.evaluate, hread] at herror
    refine absurd ⟨e, herror⟩ (evaluateComparison_admitted hcompares fun type htype => ?_)
    exact hrow index name type _ haddresses htype hcell

theorem evaluateAll_typed (hwide : row.values.length = schema.columnCount)
    (hrow : row.Typed types schema) : ∀ {operands : List Expression},
    (∀ operand ∈ operands, BoundComparison schema operand) →
    (∀ operand ∈ operands, TypedComparison types operand) →
    ∃ b, Expression.evaluateAll operands row = .ok (.bool b)
  | [], _, _ => ⟨true, by rw [Expression.evaluateAll]⟩
  | operand :: operands, hbound, htyped => by
    obtain ⟨hfirst, hrest⟩ := List.forall_mem_cons.mp hbound
    obtain ⟨hfirst', hrest'⟩ := List.forall_mem_cons.mp htyped
    obtain ⟨b, hb⟩ := hfirst.evaluate_typed hfirst' hwide hrow
    rw [Expression.evaluateAll, hb]
    cases b with
    | true => exact evaluateAll_typed hwide hrow hrest hrest'
    | false => exact ⟨false, rfl⟩

/-- A well-typed predicate has a truth value on every typed row. -/
theorem BoundPredicate.test_typed {predicate : Expression} (h : BoundPredicate schema predicate)
    (htyped : TypedPredicate types predicate) (hwide : row.values.length = schema.columnCount)
    (hrow : row.Typed types schema) : ∃ accepted, predicate.test row = .ok accepted := by
  have hevaluate : ∃ b, predicate.evaluate row = .ok (.bool b) := by
    cases h with
    | always => exact ⟨true, by rw [Expression.evaluate]⟩
    | single bound =>
      cases htyped with
      | always | conjunction => cases bound
      | single typed => exact bound.evaluate_typed typed hwide hrow
    | conjunction bound =>
      cases htyped with
      | single typed => cases typed
      | conjunction typed =>
        rw [Expression.evaluate]
        exact evaluateAll_typed hwide hrow bound typed
  obtain ⟨b, hb⟩ := hevaluate
  refine ⟨b, ?_⟩
  rw [Expression.test, hb]
  rfl

/-- Rows of one type, other than bool, under a field all compare by it. -/
theorem answersOn_typed {rows : List Row} {comparator : RowComparator} {fieldName : String}
    (haddresses : schema.Addresses comparator.columnIndex fieldName)
    (hsorts : types.sorts fieldName = true)
    (hwide : ∀ row ∈ rows, row.values.length = schema.columnCount)
    (hrows : ∀ row ∈ rows, row.Typed types schema) : AnswersOn comparator.call rows := by
  intro a ha b hb _
  cases hcall : comparator.call a b with
  | ok answer => exact ⟨answer, rfl⟩
  | error e =>
    have hlt := haddresses.lt
    have hwide' : ∀ row ∈ rows, comparator.columnIndex < row.values.length :=
      fun row hrow => hwide row hrow ▸ hlt
    have hclash := (RowComparator.call_error_iff (hwide' a ha) (hwide' b hb)).mp ⟨e, hcall⟩
    cases htypes : types fieldName with
    | none =>
      rw [ColumnTypes.sorts, htypes] at hsorts
      cases hsorts
    | some type =>
      rw [ColumnTypes.sorts, htypes] at hsorts
      have hkey : ∀ row ∈ rows, type.admits (comparator.key row) = true := by
        intro row hrow
        have hcell := List.getElem?_eq_getElem (hwide' row hrow)
        rw [RowComparator.key, hcell]
        exact hrows row hrow _ fieldName type _ haddresses htypes hcell
      have htype : type ≠ .kBool := by simpa using hsorts
      exact absurd (compare_error_iff.mpr hclash) (compare_admitted htype (hkey a ha) (hkey b hb))

/-- **Progress.**  A well-typed plan over a typed table opens and comes through to its end. -/
theorem LogicalPlanNode.WellBound.denote_typed [StdLibrary] {node : LogicalPlanNode}
    (h : node.WellBound) (htyped : node.WellTyped types) (htable : node.table.WellFormed)
    (hrows : node.table.Typed types) :
    ∃ opened, (buildPhysicalPlan node).denote = .ok opened ∧ opened.feed.finish = none := by
  have htyped' : ∀ {node : LogicalPlanNode} {opened : Opened}, node.WellBound →
      node.table.WellFormed → node.table.Typed types →
      (buildPhysicalPlan node).denote = .ok opened → ∀ row ∈ opened.feed.rows,
      row.values.length = (outputSchemaOf node).columnCount ∧
        row.Typed types (outputSchemaOf node) := by
    intro node opened hbound hwell hcells hdenote row hrow
    have hderived := (hbound.denote_feedOk hwell opened hdenote).derived row hrow
    exact ⟨hderived.length_eq, hderived.typed hcells⟩
  induction h with
  | scan table => exact ⟨_, rfl, Feed.finish_scan _ _⟩
  | @filter child predicate below bound ih =>
    obtain ⟨hchild, hpredicate⟩ := htyped
    obtain ⟨opened, hdenote, hfinish⟩ := ih hchild htable hrows
    refine ⟨{ opened with feed := opened.feed.filter predicate.test }, ?_, ?_⟩
    · rw [buildPhysicalPlan, PlanStageTree.denote, hdenote]
      rfl
    · rw [Feed.filter_eq_filterMapM]
      refine Feed.finish_filterMapM_none hfinish fun row hrow => ?_
      obtain ⟨hwide, hcells⟩ := htyped' below htable hrows hdenote row hrow
      obtain ⟨accepted, htest⟩ := bound.test_typed hpredicate hwide hcells
      rw [htest]
      exact ⟨_, rfl⟩
  | @project child columnIndices fieldNames below addresses distinct ih =>
    obtain ⟨opened, hdenote, hfinish⟩ := ih htyped htable hrows
    refine ⟨{ opened with feed := opened.feed.mapRows (ProjectStage.project columnIndices) }, ?_, ?_⟩
    · rw [buildPhysicalPlan, PlanStageTree.denote, hdenote]
      rfl
    · rw [Feed.mapRows_eq_filterMapM]
      refine Feed.finish_filterMapM_none hfinish fun row hrow => ?_
      obtain ⟨hwide, -⟩ := htyped' below htable hrows hdenote row hrow
      obtain ⟨projected, hprojected⟩ := ProjectStage.project_wide addresses distinct hwide
      rw [hprojected]
      exact ⟨_, rfl⟩
  | @sort child columnIndex fieldName direction below addresses ih =>
    obtain ⟨hchild, hsorts⟩ := htyped
    obtain ⟨opened, hdenote, hfinish⟩ := ih hchild htable hrows
    have hcells := htyped' below htable hrows hdenote
    have hanswers : AnswersOn (RowComparator.call { columnIndex, direction }) opened.feed.rows :=
      answersOn_typed addresses hsorts (fun row hrow => (hcells row hrow).1)
        fun row hrow => (hcells row hrow).2
    have hdistinct := (below.denote_feedOk htable opened hdenote).distinct
    obtain ⟨sorted, hsort⟩ := stdSort_total hdistinct.nodup hanswers
    rw [denote_sort hdenote hfinish, hsort]
    exact ⟨_, rfl, Feed.finish_ofList _ _⟩
  | @limit child limit below ih =>
    obtain ⟨opened, hdenote, hfinish⟩ := ih htyped htable hrows
    refine ⟨{ opened with feed := opened.feed.limit limit opened.mark }, ?_, ?_⟩
    · rw [buildPhysicalPlan, PlanStageTree.denote, hdenote]
      rfl
    · exact Feed.finish_limit_none hfinish limit opened.mark
  | @topK child columnIndex fieldName direction k below addresses ih =>
    obtain ⟨hchild, hsorts⟩ := htyped
    obtain ⟨opened, hdenote, hfinish⟩ := ih hchild htable hrows
    have hcells := htyped' below htable hrows hdenote
    have hanswers : AnswersOn (RowComparator.call { columnIndex, direction }) opened.feed.rows :=
      answersOn_typed addresses hsorts (fun row hrow => (hcells row hrow).1)
        fun row hrow => (hcells row hrow).2
    have hdistinct := (below.denote_feedOk htable opened hdenote).distinct
    obtain ⟨sorted, -, hselect⟩ := select_eq_take_sort (k := k)
      (RowComparator.before_strictWeak false) hdistinct.nodup (hdistinct.totalOn _ false)
      (RowComparator.call_agrees false _) hanswers
    rw [denote_topK hdenote hfinish, hselect]
    exact ⟨_, rfl, Feed.finish_ofList _ _⟩

end Plans

/-! ## Typed queries

  From the parsed stages to the plan they are bound to, and through the rewrite. -/

section Queries

variable {types : ColumnTypes}

theorem BindsComparison.typed {schema : Schema} {parsed : ParsedComparison}
    {expression : Expression} (h : BindsComparison schema parsed expression)
    (htyped : parsed.wellTyped types = true) : TypedComparison types expression := by
  obtain ⟨index, op, -, known⟩ := h
  rw [ParsedComparison.wellTyped, known] at htyped
  exact .intro index _ op _ htyped

theorem BindsMatch.typed {schema : Schema} {parsed : List ParsedComparison}
    {predicate : Expression} (h : BindsMatch schema parsed predicate)
    (htyped : ∀ comparison ∈ parsed, comparison.wellTyped types = true) :
    TypedPredicate types predicate := by
  cases h with
  | always => exact .always
  | single binds => exact .single (binds.typed (htyped _ List.mem_cons_self))
  | conjunction binds =>
    refine .conjunction fun operand hoperand => ?_
    obtain ⟨comparison, hcomparison, hbinds⟩ := binds.exists_of_mem_right hoperand
    exact hbinds.typed (htyped comparison hcomparison)

/-- Binding well-typed stages makes a well-typed plan. -/
theorem bindStages_typed : ∀ {stages : List ParsedStage} {schema : Schema}
    {node plan : LogicalPlanNode}, (∀ stage ∈ stages, stage.wellTyped types = true) →
    node.WellTyped types → bindStages schema node stages = .ok plan → plan.WellTyped types
  | [], _, _, _, _, hnode, h => Except.ok.inj h ▸ hnode
  | stage :: stages, schema, node, plan, hstages, hnode, h => by
    obtain ⟨hstage, hrest⟩ := List.forall_mem_cons.mp hstages
    obtain ⟨schema', node', hbind, h⟩ := bindStages_cons_ok h
    have hnode' : node'.WellTyped types := by
      cases bindStage_cases hbind with
      | «match» binds => exact ⟨hnode, binds.typed (List.all_eq_true.mp hstage)⟩
      | project => exact hnode
      | sort => exact ⟨hnode, hstage⟩
      | limit => exact hnode
    exact bindStages_typed hrest hnode' h

/-- The optimizer keeps the types. -/
theorem LogicalPlanNode.WellTyped.rewrite {node : LogicalPlanNode} (h : node.WellTyped types) :
    (SortLimitToTopKRule.rewrite node).1.WellTyped types := by
  fun_induction SortLimitToTopKRule.rewrite node with
  | case1 grandchild columnIndex fieldName direction limit ih => exact ⟨ih h.1, h.2⟩
  | case2 table => exact h
  | case3 child predicate ih => exact ⟨ih h.1, h.2⟩
  | case4 child columnIndices fieldNames ih => exact ih h
  | case5 child columnIndex fieldName direction ih => exact ⟨ih h.1, h.2⟩
  | case6 child limit hsort ih => exact ih h
  | case7 child columnIndex fieldName direction k ih => exact ⟨ih h.1, h.2⟩

end Queries

end QueryLume
