/-
  Bound plans run safely.

  Rows are indexed unchecked, predicates are trusted to be bools and cells are moved out of rows;
  what makes this safe is that every stage delivers rows as wide as the schema of its node, and
  that binding resolved every column in the schema of the child.

  1. **Nodes** — every column index addresses the field of its name, no projection takes a column
     twice (`ColumnsAddressed`), and a predicate that returns, returns a bool (`PredicateBoolean`).

  2. **Stages** — the widths are carried through every reachable state of every stage by the row
     contract of `Physical/RowContract.lean` (`WellBound.yields`), also after exceptions and calls
     out of turn.

  3. **Plans** — a stage inside a running plan is only ever called, so it is in such a state
     (`bound_plans_safe`).  An access out of bounds, a variant without its bool and a cell that was
     moved out twice are exceptions of their own in the model, and are not among the allowed ones.
-/
import QueryLume.Physical.RowContract
import QueryLume.Query.Documents

namespace QueryLume

open LogicalPlanNode

/-! ## The columns a node uses

  What the source leaves unchecked is stated here of a plan: indices within the schema of the child
  and no column moved twice. -/

mutual

/-- The bound fields of an expression: column index and name. -/
def Expression.boundFields : Expression → List (Nat × String)
  | .boundField columnIndex fieldName => [(columnIndex, fieldName)]
  | .literal _ => []
  | .comparison lhs _ rhs => lhs.boundFields ++ rhs.boundFields
  | .conjunction operands => Expression.boundFieldsAll operands

/-- The same for the operands of a conjunction. -/
def Expression.boundFieldsAll : List Expression → List (Nat × String)
  | [] => []
  | operand :: operands => operand.boundFields ++ Expression.boundFieldsAll operands

end

/-- A field of a conjunction is one of an operand. -/
theorem Expression.mem_boundFieldsAll {field : Nat × String} : ∀ {operands : List Expression},
    field ∈ Expression.boundFieldsAll operands → ∃ operand ∈ operands, field ∈ operand.boundFields
  | operand :: operands, h => by
    rw [Expression.boundFieldsAll] at h
    rcases List.mem_append.mp h with h | h
    · exact ⟨operand, List.mem_cons_self, h⟩
    · obtain ⟨other, hother, hfield⟩ := Expression.mem_boundFieldsAll h
      exact ⟨other, List.mem_cons_of_mem _ hother, hfield⟩

namespace LogicalPlanNode

/-- Every column index of a node addresses, in the schema of its child, the field of the name it was
    bound to, and no projection takes a column twice. -/
def ColumnsAddressed : LogicalPlanNode → Prop
  | .kScan _ => True
  | .kFilter child predicate =>
    ∀ field ∈ predicate.boundFields, (outputSchemaOf child).Addresses field.1 field.2
  | .kProject child columnIndices fieldNames =>
    List.Forall₂ (outputSchemaOf child).Addresses columnIndices fieldNames ∧ columnIndices.Nodup
  | .kSort child columnIndex fieldName _ => (outputSchemaOf child).Addresses columnIndex fieldName
  | .kLimit _ _ => True
  | .kTopK child columnIndex fieldName _ _ => (outputSchemaOf child).Addresses columnIndex fieldName

/-- The predicate of a filter, where it returns, returns a bool. -/
def PredicateBoolean : LogicalPlanNode → Prop
  | .kFilter _ predicate =>
    ∀ row value, predicate.evaluate row = .ok value → ∃ b, value = .bool b
  | _ => True

end LogicalPlanNode

/-! ## Predicates

  A bound predicate reads within the row and is a bool, so what evaluating it can end with, besides
  a value, is a comparison error. -/

theorem evaluateComparison_bool {op : ComparisonOperator} {lhs rhs value : Value}
    (h : evaluateComparison op lhs rhs = .ok value) : ∃ b, value = .bool b := by
  have hmap : ∀ {α : Type} {x : Except Exception α} {f : α → Bool},
      x.map (fun a => Value.bool (f a)) = .ok value → ∃ b, value = .bool b := by
    intro α x f hmap
    cases x with
    | error e => cases hmap
    | ok a => exact ⟨f a, (Except.ok.inj hmap).symm⟩
  cases op with
  | kEq | kNe => exact hmap h
  | kLt | kLte | kGt | kGte => exact hmap h

section Predicates

variable {schema : Schema} {predicate : Expression} {row : Row}

/-- What evaluating a bound comparison can end with, on a row of the schema's width. -/
theorem BoundComparison.evaluate (h : BoundComparison schema predicate)
    (hwide : row.values.length = schema.columnCount) :
    (∃ b, predicate.evaluate row = .ok (.bool b)) ∨
      ∃ e, predicate.evaluate row = .error e ∧ e.IsComparisonError := by
  obtain ⟨index, name, op, literal, haddresses⟩ := h
  have hlt : index < row.values.length := hwide ▸ haddresses.lt
  have hcell : row.cellAt index = .ok row.values[index] := by
    rw [Row.cellAt, List.getElem?_eq_getElem hlt]
  rw [Expression.evaluate, Expression.evaluate, Expression.evaluate, hcell]
  simp only
  cases hresult : evaluateComparison op row.values[index] literal with
  | error e => exact .inr ⟨e, rfl, Expression.evaluateComparison_error hresult⟩
  | ok value =>
    obtain ⟨b, rfl⟩ := evaluateComparison_bool hresult
    exact .inl ⟨b, rfl⟩

/-- And so can a conjunction of bound comparisons; by induction on its operands. -/
theorem evaluateAll_bound : ∀ {operands : List Expression},
    (∀ operand ∈ operands, BoundComparison schema operand) →
    row.values.length = schema.columnCount →
    (∃ b, Expression.evaluateAll operands row = .ok (.bool b)) ∨
      ∃ e, Expression.evaluateAll operands row = .error e ∧ e.IsComparisonError
  | [], _, _ => .inl ⟨true, by rw [Expression.evaluateAll]⟩
  | operand :: operands, h, hwide => by
    rw [Expression.evaluateAll]
    rcases (h operand List.mem_cons_self).evaluate hwide with ⟨b, hb⟩ | ⟨e, he, hcomparison⟩
    · rw [hb]
      cases b with
      | true => exact evaluateAll_bound (fun o ho => h o (List.mem_cons_of_mem _ ho)) hwide
      | false => exact .inl ⟨false, rfl⟩
    · rw [he]
      exact .inr ⟨e, rfl, hcomparison⟩

/-- A bound predicate reads no cell outside the row, and is asked for a bool it has. -/
theorem BoundPredicate.test_error (h : BoundPredicate schema predicate)
    (hwide : row.values.length = schema.columnCount) {e : Exception}
    (herr : predicate.test row = .error e) : e.IsComparisonError := by
  have hevaluate : (∃ b, predicate.evaluate row = .ok (.bool b)) ∨
      ∃ e, predicate.evaluate row = .error e ∧ e.IsComparisonError := by
    cases h with
    | always => exact .inl ⟨true, by rw [Expression.evaluate]⟩
    | single bound => exact bound.evaluate hwide
    | conjunction bound =>
      rw [Expression.evaluate]
      exact evaluateAll_bound bound hwide
  rw [Expression.test] at herr
  rcases hevaluate with ⟨b, hb⟩ | ⟨e', he, hcomparison⟩
  · rw [hb] at herr
    cases herr
  · rw [he] at herr
    rw [← Except.error.inj herr]
    exact hcomparison

/-- A bound comparison that returns, returns a bool. -/
theorem BoundComparison.bool (h : BoundComparison schema predicate) {value : Value}
    (hok : predicate.evaluate row = .ok value) : ∃ b, value = .bool b := by
  obtain ⟨index, name, op, literal, -⟩ := h
  rw [Expression.evaluate] at hok
  split at hok
  · cases hok
  · split at hok
    · cases hok
    · exact evaluateComparison_bool hok

theorem evaluateAll_bool : ∀ {operands : List Expression} {value : Value},
    Expression.evaluateAll operands row = .ok value → ∃ b, value = .bool b
  | [], value, h => by
    rw [Expression.evaluateAll] at h
    exact ⟨true, (Except.ok.inj h).symm⟩
  | operand :: operands, value, h => by
    rw [Expression.evaluateAll] at h
    split at h
    · cases h
    · split at h
      · cases h
      · exact evaluateAll_bool h
      · exact ⟨false, (Except.ok.inj h).symm⟩

theorem BoundPredicate.bool (h : BoundPredicate schema predicate) {value : Value}
    (hok : predicate.evaluate row = .ok value) : ∃ b, value = .bool b := by
  cases h with
  | always =>
    rw [Expression.evaluate] at hok
    exact ⟨true, (Except.ok.inj hok).symm⟩
  | single bound => exact bound.bool hok
  | conjunction bound =>
    rw [Expression.evaluate] at hok
    exact evaluateAll_bool hok

/-- The field of a bound comparison addresses its column. -/
theorem BoundComparison.addresses (h : BoundComparison schema predicate) :
    ∀ field ∈ predicate.boundFields, schema.Addresses field.1 field.2 := by
  obtain ⟨index, name, op, literal, haddresses⟩ := h
  intro field hfield
  simp only [Expression.boundFields, List.append_nil, List.mem_singleton] at hfield
  rw [hfield]
  exact haddresses

theorem BoundPredicate.addresses (h : BoundPredicate schema predicate) :
    ∀ field ∈ predicate.boundFields, schema.Addresses field.1 field.2 := by
  intro field hfield
  cases h with
  | always =>
    rw [Expression.boundFields] at hfield
    cases hfield
  | single bound => exact bound.addresses field hfield
  | conjunction bound =>
    rw [Expression.boundFields] at hfield
    obtain ⟨operand, hoperand, hfield⟩ := Expression.mem_boundFieldsAll hfield
    exact (bound operand hoperand).addresses field hfield

end Predicates

/-- Binding resolves every column in the schema of the child. -/
theorem LogicalPlanNode.WellBound.columnsAddressed {node : LogicalPlanNode} (h : node.WellBound) :
    node.ColumnsAddressed := by
  cases h with
  | scan table => trivial
  | filter below bound => exact bound.addresses
  | project below addresses distinct => exact ⟨addresses, nodup_of_addresses addresses distinct⟩
  | sort below addresses => exact addresses
  | limit below => trivial
  | topK below addresses => exact addresses

theorem LogicalPlanNode.WellBound.predicateBoolean {node : LogicalPlanNode} (h : node.WellBound) :
    node.PredicateBoolean := by
  cases h with
  | filter below bound => exact fun row value hok => bound.bool hok
  | scan | project | sort | limit | topK => trivial

/-! ## Projections and comparisons on wide rows

  The unchecked accesses: the cells of a projection and the key of a sort.  On a row as wide as its
  schema asks for none of them leaves the row. -/

/-- On a row that is wide enough a projection finds every cell, and none twice. -/
theorem ProjectStage.project_wide {schema : Schema} {columnIndices : List Nat}
    {fieldNames : List String} {row : Row}
    (haddresses : List.Forall₂ schema.Addresses columnIndices fieldNames)
    (hdistinct : fieldNames.Nodup) (hwide : row.values.length = schema.columnCount) :
    ∃ projected, project columnIndices row = .ok projected := by
  have hcells : ∃ values,
      List.Forall₂ (fun index value => row.values[index]? = some value) columnIndices values := by
    clear hdistinct
    induction haddresses with
    | nil => exact ⟨[], .nil⟩
    | cons hfirst _ ih =>
      obtain ⟨values, hvalues⟩ := ih
      exact ⟨_, .cons (List.getElem?_eq_getElem (hwide ▸ hfirst.lt)) hvalues⟩
  obtain ⟨values, hvalues⟩ := hcells
  exact ⟨_, project_of_values (nodup_of_addresses haddresses hdistinct) hvalues⟩

/-- On such rows a comparator throws about the two values only. -/
theorem RowComparator.call_wide {comparator : RowComparator} {a b : Row} {e : Exception}
    (ha : comparator.columnIndex < a.values.length) (hb : comparator.columnIndex < b.values.length)
    (herr : comparator.call a b = .error e) : e.IsComparisonError := by
  rw [call, Row.cell_eq_ok (List.getElem?_eq_getElem ha),
    Row.cell_eq_ok (List.getElem?_eq_getElem hb)] at herr
  simp only [decideCells] at herr
  split at herr
  · cases herr
  · split at herr
    · cases herr
    · cases hcmp : compare a.values[comparator.columnIndex] b.values[comparator.columnIndex] with
      | error e' =>
        rw [hcmp] at herr
        rw [← Except.error.inj herr]
        exact compare_error hcmp
      | ok r =>
        rw [hcmp] at herr
        cases r <;> cases herr

/-! ## Every stage of a well-bound plan

  Width is the invariant of the rows between stages: every stage delivers rows of the width of its
  own schema if its child does. -/

/-- What a call on a stage may throw: values that have no order, or a call its lifecycle forbids.
    An index out of bounds, a variant without the bool and a moved-out cell are not among them. -/
def Exception.Allowed (e : Exception) : Prop :=
  e.IsComparisonError ∨ e.code = some .kInvalidStageLifecycle

/-- A row of the width a schema asks for. -/
def Schema.Fits (schema : Schema) (row : Row) : Prop := row.values.length = schema.columnCount

theorem RowComparator.call_fits {schema : Schema} {comparator : RowComparator} {name : String}
    (haddresses : schema.Addresses comparator.columnIndex name) :
    ∀ a b e, schema.Fits a → schema.Fits b → comparator.call a b = .error e → e.Allowed := by
  intro a b e ha hb herr
  have hlt := haddresses.lt
  exact .inl (call_wide (ha ▸ hlt) (hb ▸ hlt) herr)

/-- **The invariant.**  In a well-bound plan over a well-formed table, the stage of every node
    delivers rows of the node's schema and throws allowed exceptions only. -/
theorem LogicalPlanNode.WellBound.yields [StdLibrary] {node : LogicalPlanNode}
    (h : node.WellBound) (htable : node.table.WellFormed) :
    ∃ Inv, Yields (buildPhysicalPlan node).planStage Inv (outputSchemaOf node).Fits
      Exception.Allowed ∧ Inv (buildPhysicalPlan node).constructed := by
  have hlifecycle : ∀ e : Exception, e.code = some .kInvalidStageLifecycle → e.Allowed :=
    fun e he => .inr he
  induction h with
  | scan table =>
    exact ⟨_, (CollectionScanStage.hooksYield htable.wide).yields hlifecycle, trivial⟩
  | filter below bound ih =>
    obtain ⟨Inv, hyields, hinit⟩ := ih htable
    have hhooks := FilterStage.hooksYield hyields _ fun row e hfits htest =>
      Or.inl (bound.test_error hfits htest)
    exact ⟨_, hhooks.yields hlifecycle, hinit⟩
  | @project child columnIndices fieldNames below addresses distinct ih =>
    obtain ⟨Inv, hyields, hinit⟩ := ih htable
    have hhooks : HooksYield (ProjectStage.hooks (buildPhysicalPlan child).planStage columnIndices)
        (ChildInv Inv) (Schema.Fits { fields := fieldNames }) Exception.Allowed := by
      refine ProjectStage.hooksYield hyields columnIndices (fun row projected hfits hok => ?_)
        fun row e hfits herr => ?_
      · obtain ⟨-, hcells⟩ := ProjectStage.project_values hok
        exact hcells.length_eq.symm.trans addresses.length_eq
      · obtain ⟨projected, hok⟩ := ProjectStage.project_wide addresses distinct hfits
        rw [hok] at herr
        cases herr
    exact ⟨_, hhooks.yields hlifecycle, hinit⟩
  | @sort child columnIndex fieldName direction below addresses ih =>
    obtain ⟨Inv, hyields, hinit⟩ := ih htable
    have hhooks := SortStage.hooksYield hyields { columnIndex, direction }
      (RowComparator.call_fits addresses)
    exact ⟨_, hhooks.yields hlifecycle, hinit, fun _ => rfl, fun _ hrow => by cases hrow⟩
  | limit below ih =>
    obtain ⟨Inv, hyields, hinit⟩ := ih htable
    exact ⟨_, (LimitStage.hooksYield hyields _).yields hlifecycle, hinit⟩
  | @topK child columnIndex fieldName direction k below addresses ih =>
    obtain ⟨Inv, hyields, hinit⟩ := ih htable
    have hhooks := TopKStage.hooksYield hyields { columnIndex, direction } k
      (RowComparator.call_fits addresses)
    exact ⟨_, hhooks.yields hlifecycle, hinit, fun _ => rfl, fun _ hrow => by cases hrow⟩

/-! ## Execution safety

  The invariant holds in every state that calls lead to, at every stage of the plan, and it says
  what the next call does. -/

/-- What the next call on a stage does, in one of its states. -/
structure SafeState {σ : Type} (iterator : PlanStage σ) (width : Nat) (s : σ) : Prop where
  wide : ∀ clock row, (iterator.getNext clock s row).result = .ok .kAdvanced →
    (iterator.getNext clock s row).output.values.length = width
  openRaises : ∀ clock e, (iterator.open clock s).result = .error e → e.Allowed
  getNextRaises : ∀ clock row e, (iterator.getNext clock s row).result = .error e → e.Allowed

theorem LogicalPlanNode.WellBound.safeState [StdLibrary] {node : LogicalPlanNode}
    (h : node.WellBound) (htable : node.table.WellFormed) {this : (buildPhysicalPlan node).Object}
    (hthis : (buildPhysicalPlan node).Reached this) :
    SafeState (buildPhysicalPlan node).planStage (outputSchemaOf node).columnCount this := by
  obtain ⟨Inv, hyields, hinit⟩ := h.yields htable
  have hInv : Inv this := hyields.reachable hthis hinit
  refine ⟨fun clock row hadvanced => ?_, fun clock e herr => ?_, fun clock row e herr => ?_⟩
  · exact (hyields.pulled clock row hInv).row hadvanced
  · exact (hyields.opened clock hInv).raises e herr
  · exact (hyields.pulled clock row hInv).raises e herr

/-- **Execution safety.**  Take the plan of an accepted pipeline over a loaded table, as bound or as
    optimized.  The columns a node uses address the fields of their names in its child's schema;
    where its predicate returns, it returns a bool; and in every state calls can lead to, the node's
    stage delivers rows of exactly its schema's width and throws nothing but the errors of value
    comparison and of the lifecycle checks.  While the plan runs, its stages are in such states. -/
theorem bound_plans_safe [StdLibrary] {document : Json} {table : Table}
    {pipeline : ParsedPipeline} {plan root : LogicalPlanNode}
    (hload : loadTableFromJson document = .ok table)
    (hbind : bindPipeline table pipeline = .ok plan)
    (hroot : root = plan ∨ root = (Optimizer.optimize plan).1) :
    (∀ node, root.Contains node → node.ColumnsAddressed ∧ node.PredicateBoolean ∧
      ∀ this, (buildPhysicalPlan node).Reached this →
        SafeState (buildPhysicalPlan node).planStage (outputSchemaOf node).columnCount this) ∧
    ∀ this, (buildPhysicalPlan root).Reached this →
      ∀ sub s, PlanStageTree.Within (buildPhysicalPlan root) this sub s → sub.Reached s := by
  obtain ⟨hplan, htable⟩ := bindPipeline_wellBound hbind
  have hbound : root.WellBound ∧ root.table = table := by
    rcases hroot with rfl | rfl
    · exact ⟨hplan, htable⟩
    · rw [Optimizer.optimize_fst]
      exact ⟨hplan.rewrite.1, hplan.rewrite.2.trans htable⟩
  constructor
  · intro node hnode
    obtain ⟨hnodeBound, hnodeTable⟩ := hnode.wellBound hbound.1
    have hwellFormed : node.table.WellFormed := by
      rw [hnodeTable, hbound.2]
      exact loadTableFromJson_wellFormed hload
    refine ⟨hnodeBound.columnsAddressed, hnodeBound.predicateBoolean, fun this hthis => ?_⟩
    exact hnodeBound.safeState hwellFormed hthis
  · intro this hthis sub s hwithin
    exact PlanStageTree.reachable_within hwithin hthis

/-- The optimized sample plan, after it has been opened. -/
theorem bound_plans_safe_sample :
    letI := StdLibrary.reference
    let topK := buildPhysicalPlan (.kTopK (.kScan sampleTable) 0 "a" .kAscending 1)
    SafeState topK.planStage 1 (topK.planStage.open Clock.still topK.constructed).stage :=
  ((@bound_plans_safe StdLibrary.reference (.array sampleDocuments) sampleTable
    samplePipeline (.kLimit (.kSort (.kScan sampleTable) 0 "a" .kAscending) 1)
    (.kTopK (.kScan sampleTable) 0 "a" .kAscending 1) rfl rfl (.inr rfl)).1 _ (.here _)).2.2 _
    (.opened Clock.still .init)

end QueryLume
