/-
  What binding guarantees about a plan.

  `bindStage_cases` says once what binding a stage can do: which node it puts on top, which schema
  is visible next, and what was checked on the way.  Whatever is proved of bound plans later goes
  through it; no proof after this module unfolds the binder.

  `WellBound` is the invariant it keeps.  In a well-bound plan every column index addresses, in the
  schema of the node it is applied to, the field of the name it was resolved from; every predicate
  has one of the three shapes `bindMatch` builds; and no projection takes a column twice.  The
  first is what makes unchecked row access safe, the second what makes `get<bool>` on a predicate
  safe, the third what makes it safe to MOVE the cells a projection takes.

  The optimizer preserves all of it (`WellBound.rewrite`), together with the table at the bottom
  and the output schema, so everything that follows from the invariant holds of the plan that is
  run as well as of the plan that was bound.
-/
import QueryLume.Binder
import QueryLume.Foundation.Checked
import QueryLume.Optimizer
import QueryLume.Foundation.Lists

namespace QueryLume

/-- The column `index` is the field `name`. -/
def Schema.Addresses (schema : Schema) (index : Nat) (name : String) : Prop :=
  schema.fields[index]? = some name

/-- An addressed column is a column. -/
theorem Schema.Addresses.lt {schema : Schema} {index : Nat} {name : String}
    (h : schema.Addresses index name) : index < schema.columnCount :=
  (List.getElem?_eq_some_iff.mp h).1

/-- What was resolved is the column of that name. -/
theorem resolveField_addresses {schema : Schema} {name : String} {index : Nat}
    (h : resolveField schema name = .ok index) : schema.Addresses index name := by
  unfold resolveField at h
  cases hindex : schema.indexOf name with
  | none => rw [hindex] at h; cases h
  | some index' =>
    rw [hindex] at h
    rw [← Except.ok.inj h]
    exact Schema.getElem?_of_indexOf _ hindex

/-! ## What binding a stage can do -/

/-- A bound comparison: the column of the field the parser named, and the parser's literal. -/
inductive BindsComparison (schema : Schema) (parsed : ParsedComparison) : Expression → Prop where
  | intro (index : Nat) (op : ComparisonOperator)
      (addresses : schema.Addresses index parsed.field.fieldName)
      (known : parseComparisonOperator parsed.opToken = some op) :
      BindsComparison schema parsed
        (.comparison (.boundField index parsed.field.fieldName) op (.literal parsed.literal))

/-- The three shapes of a bound `$match`. -/
inductive BindsMatch (schema : Schema) : List ParsedComparison → Expression → Prop where
  | always : BindsMatch schema [] (.literal (.bool true))
  | single {predicate : ParsedComparison} {expression : Expression}
      (binds : BindsComparison schema predicate expression) :
      BindsMatch schema [predicate] expression
  | conjunction {predicates : List ParsedComparison} {operands : List Expression}
      (binds : List.Forall₂ (BindsComparison schema) predicates operands) :
      BindsMatch schema predicates (.conjunction operands)

/-- A bound stage: the schema visible next, and the node built over `node`. -/
inductive BindsStage (schema : Schema) (node : LogicalPlanNode) :
    ParsedStage → Schema → LogicalPlanNode → Prop where
  | match {parsed : ParsedMatchStage} {predicate : Expression}
      (binds : BindsMatch schema parsed.predicates predicate) :
      BindsStage schema node (.kMatch parsed) schema (.kFilter node predicate)
  | project {parsed : ParsedProjectStage} {indices : List Nat}
      (addresses : List.Forall₂ schema.Addresses indices (parsed.fields.map (·.fieldName)))
      (distinct : (parsed.fields.map (·.fieldName)).Nodup) :
      BindsStage schema node (.kProject parsed) { fields := parsed.fields.map (·.fieldName) }
        (.kProject node indices (parsed.fields.map (·.fieldName)))
  | sort {parsed : ParsedSortStage} {index : Nat} {direction : SortDirection}
      (addresses : schema.Addresses index parsed.field.fieldName)
      (known : bindSortDirection parsed.directionRaw = .ok direction) :
      BindsStage schema node (.kSort parsed) schema
        (.kSort node index parsed.field.fieldName direction)
  | limit {parsed : ParsedLimitStage} {count : Nat} (known : bindLimit parsed.countRaw = .ok count) :
      BindsStage schema node (.kLimit parsed) schema (.kLimit node count)

/-- A bound comparison is about the column of its field. -/
theorem bindComparison_binds {schema : Schema} {parsed : ParsedComparison} {expression : Expression}
    (h : bindComparison schema parsed = .ok expression) :
    BindsComparison schema parsed expression := by
  unfold bindComparison at h
  cases hindex : resolveField schema parsed.field.fieldName with
  | error e => rw [hindex] at h; cases h
  | ok index =>
    rw [hindex] at h
    cases hop : parseComparisonOperator parsed.opToken with
    | none => simp only [hop] at h; cases h
    | some op =>
      simp only [hop] at h
      rw [← Except.ok.inj h]
      exact .intro index op (resolveField_addresses hindex) hop

/-- Operand by operand. -/
theorem bindComparisons_binds {schema : Schema} : ∀ {parsed : List ParsedComparison}
    {operands : List Expression}, bindComparisons schema parsed = .ok operands →
    List.Forall₂ (BindsComparison schema) parsed operands
  | [], _, h => by
    rw [← Except.ok.inj h]
    exact .nil
  | predicate :: predicates, operands, h => by
    rw [bindComparisons] at h
    cases hfirst : bindComparison schema predicate with
    | error e => rw [hfirst] at h; cases h
    | ok operand =>
      rw [hfirst] at h
      cases hrest : bindComparisons schema predicates with
      | error e => simp only [hrest] at h; cases h
      | ok rest =>
        simp only [hrest] at h
        rw [← Except.ok.inj h]
        exact .cons (bindComparison_binds hfirst) (bindComparisons_binds hrest)

/-- The three shapes of a bound `$match`, read off the code. -/
theorem bindMatch_binds {schema : Schema} {parsed : ParsedMatchStage} {predicate : Expression}
    (h : bindMatch schema parsed = .ok predicate) :
    BindsMatch schema parsed.predicates predicate := by
  unfold bindMatch at h
  split at h
  · rename_i hnil
    rw [hnil, ← Except.ok.inj h]
    exact .always
  · rename_i single hsingle
    rw [hsingle]
    exact .single (bindComparison_binds h)
  · cases hall : bindComparisons schema parsed.predicates with
    | error e => rw [hall] at h; cases h
    | ok operands =>
      rw [hall] at h
      rw [← Except.ok.inj h]
      exact .conjunction (bindComparisons_binds hall)

/-- A projection addresses its fields one by one, and takes none twice. -/
theorem bindFields_binds {schema : Schema} : ∀ {fields : List UnresolvedFieldExpression}
    {seen : List String} {indices : List Nat}, bindFields schema seen fields = .ok indices →
    List.Forall₂ schema.Addresses indices (fields.map (·.fieldName)) ∧
      (fields.map (·.fieldName)).Nodup ∧ ∀ field ∈ fields, field.fieldName ∉ seen
  | [], _, _, h => by
    rw [← Except.ok.inj h]
    exact ⟨.nil, List.nodup_nil, fun _ hmem => by cases hmem⟩
  | field :: fields, seen, indices, h => by
    rw [bindFields] at h
    split at h
    · cases h
    · rename_i hnew
      cases hindex : resolveField schema field.fieldName with
      | error e => rw [hindex] at h; cases h
      | ok index =>
        rw [hindex] at h
        cases hrest : bindFields schema (field.fieldName :: seen) fields with
        | error e => simp only [hrest] at h; cases h
        | ok rest =>
          simp only [hrest] at h
          rw [← Except.ok.inj h]
          obtain ⟨haddresses, hnodup, hfresh⟩ := bindFields_binds hrest
          refine ⟨.cons (resolveField_addresses hindex) haddresses,
            List.nodup_cons.mpr ⟨fun hmem => ?_, hnodup⟩, fun other hmem => ?_⟩
          · obtain ⟨other, hother, heq⟩ := List.mem_map.mp hmem
            exact hfresh other hother (heq ▸ List.mem_cons_self)
          · rcases List.mem_cons.mp hmem with rfl | hmem
            · exact hnew
            · exact fun hseen => hfresh other hmem (List.mem_cons_of_mem _ hseen)

/-- **The inversion lemma.**  All that binding one stage can do. -/
theorem bindStage_cases {schema schema' : Schema} {node node' : LogicalPlanNode}
    {stage : ParsedStage} (h : bindStage schema node stage = .ok (schema', node')) :
    BindsStage schema node stage schema' node' := by
  cases stage with
  | kMatch parsed =>
    simp only [bindStage] at h
    cases hpredicate : bindMatch schema parsed with
    | error e => rw [hpredicate] at h; cases h
    | ok predicate =>
      rw [hpredicate] at h
      obtain ⟨rfl, rfl⟩ := Prod.mk.inj (Except.ok.inj h)
      exact .match (bindMatch_binds hpredicate)
  | kProject parsed =>
    simp only [bindStage] at h
    cases hindices : bindFields schema [] parsed.fields with
    | error e => rw [hindices] at h; cases h
    | ok indices =>
      rw [hindices] at h
      obtain ⟨rfl, rfl⟩ := Prod.mk.inj (Except.ok.inj h)
      obtain ⟨haddresses, hnodup, -⟩ := bindFields_binds hindices
      exact .project haddresses hnodup
  | kSort parsed =>
    simp only [bindStage] at h
    cases hindex : resolveField schema parsed.field.fieldName with
    | error e => rw [hindex] at h; cases h
    | ok index =>
      rw [hindex] at h
      cases hdirection : bindSortDirection parsed.directionRaw with
      | error e => simp only [hdirection] at h; cases h
      | ok direction =>
        simp only [hdirection] at h
        obtain ⟨rfl, rfl⟩ := Prod.mk.inj (Except.ok.inj h)
        exact .sort (resolveField_addresses hindex) hdirection
  | kLimit parsed =>
    simp only [bindStage] at h
    cases hcount : bindLimit parsed.countRaw with
    | error e => rw [hcount] at h; cases h
    | ok count =>
      rw [hcount] at h
      obtain ⟨rfl, rfl⟩ := Prod.mk.inj (Except.ok.inj h)
      exact .limit hcount

/-! ## Well-bound plans -/

/-- A comparison of a column of the schema with a literal. -/
inductive BoundComparison (schema : Schema) : Expression → Prop where
  | intro (index : Nat) (name : String) (op : ComparisonOperator) (literal : Value)
      (addresses : schema.Addresses index name) :
      BoundComparison schema (.comparison (.boundField index name) op (.literal literal))

/-- A predicate over rows of the schema. -/
inductive BoundPredicate (schema : Schema) : Expression → Prop where
  | always : BoundPredicate schema (.literal (.bool true))
  | single {expression : Expression} (bound : BoundComparison schema expression) :
      BoundPredicate schema expression
  | conjunction {operands : List Expression}
      (bound : ∀ operand ∈ operands, BoundComparison schema operand) :
      BoundPredicate schema (.conjunction operands)

namespace LogicalPlanNode

/-- The invariant of bound plans.  A node is well bound if what it applies to its child fits the
    schema of the child. -/
inductive WellBound : LogicalPlanNode → Prop where
  | scan (table : Table) : WellBound (.kScan table)
  | filter {child : LogicalPlanNode} {predicate : Expression} (below : WellBound child)
      (bound : BoundPredicate (outputSchemaOf child) predicate) :
      WellBound (.kFilter child predicate)
  | project {child : LogicalPlanNode} {columnIndices : List Nat} {fieldNames : List String}
      (below : WellBound child)
      (addresses : List.Forall₂ (outputSchemaOf child).Addresses columnIndices fieldNames)
      (distinct : fieldNames.Nodup) :
      WellBound (.kProject child columnIndices fieldNames)
  | sort {child : LogicalPlanNode} {columnIndex : Nat} {fieldName : String}
      {direction : SortDirection} (below : WellBound child)
      (addresses : (outputSchemaOf child).Addresses columnIndex fieldName) :
      WellBound (.kSort child columnIndex fieldName direction)
  | limit {child : LogicalPlanNode} {limit : Nat} (below : WellBound child) :
      WellBound (.kLimit child limit)
  | topK {child : LogicalPlanNode} {columnIndex : Nat} {fieldName : String}
      {direction : SortDirection} {k : Nat} (below : WellBound child)
      (addresses : (outputSchemaOf child).Addresses columnIndex fieldName) :
      WellBound (.kTopK child columnIndex fieldName direction k)

/-- The table at the bottom of the chain. -/
def table : LogicalPlanNode → Table
  | .kScan table => table
  | .kFilter child _ => child.table
  | .kProject child _ _ => child.table
  | .kSort child _ _ _ => child.table
  | .kLimit child _ => child.table
  | .kTopK child _ _ _ _ => child.table

end LogicalPlanNode

open LogicalPlanNode

/-- A comparison that was bound addresses a column. -/
theorem BindsComparison.bound {schema : Schema} {parsed : ParsedComparison} {expression : Expression}
    (h : BindsComparison schema parsed expression) : BoundComparison schema expression := by
  obtain ⟨index, op, addresses, -⟩ := h
  exact .intro index _ op _ addresses

/-- And so does every operand of a predicate. -/
theorem BindsMatch.bound {schema : Schema} {parsed : List ParsedComparison} {predicate : Expression}
    (h : BindsMatch schema parsed predicate) : BoundPredicate schema predicate := by
  cases h with
  | always => exact .always
  | single binds => exact .single binds.bound
  | conjunction binds =>
    refine .conjunction fun operand hmem => ?_
    obtain ⟨parsed, -, hbinds⟩ := binds.exists_of_mem_right hmem
    exact hbinds.bound

/-- Binding a stage keeps the plan well bound and shows the schema of its new root. -/
theorem BindsStage.wellBound {node node' : LogicalPlanNode} {stage : ParsedStage} {schema : Schema}
    (h : BindsStage (outputSchemaOf node) node stage schema node') (hnode : node.WellBound) :
    schema = outputSchemaOf node' ∧ node'.WellBound ∧ node'.table = node.table := by
  cases h with
  | «match» binds => exact ⟨rfl, .filter hnode binds.bound, rfl⟩
  | project addresses distinct => exact ⟨rfl, .project hnode addresses distinct, rfl⟩
  | sort addresses known => exact ⟨rfl, .sort hnode addresses, rfl⟩
  | limit known => exact ⟨rfl, .limit hnode, rfl⟩

theorem bindStages_cons (schema : Schema) (node : LogicalPlanNode) (stage : ParsedStage)
    (stages : List ParsedStage) :
    bindStages schema node (stage :: stages) =
      (bindStage schema node stage).bind fun next => bindStages next.1 next.2 stages := by
  rw [bindStages]
  cases bindStage schema node stage with
  | error e => rfl
  | ok next => rfl

/-- What binding a first stage and the others gives. -/
theorem bindStages_cons_ok {schema : Schema} {node plan : LogicalPlanNode} {stage : ParsedStage}
    {stages : List ParsedStage} (h : bindStages schema node (stage :: stages) = .ok plan) :
    ∃ schema' node', bindStage schema node stage = .ok (schema', node') ∧
      bindStages schema' node' stages = .ok plan := by
  rw [bindStages_cons] at h
  obtain ⟨⟨schema', node'⟩, hstage, hrest⟩ := Except.bind_eq_ok h
  exact ⟨schema', node', hstage, hrest⟩

/-- Binding stage after stage, in two parts. -/
theorem bindStages_append : ∀ (stages stages' : List ParsedStage) (node : LogicalPlanNode),
    bindStages (outputSchemaOf node) node (stages ++ stages') =
      (bindStages (outputSchemaOf node) node stages).bind fun node' =>
        bindStages (outputSchemaOf node') node' stages'
  | [], _, _ => rfl
  | stage :: stages, stages', node => by
    rw [List.cons_append, bindStages_cons, bindStages_cons]
    cases hstage : bindStage (outputSchemaOf node) node stage with
    | error e => rfl
    | ok next =>
      obtain ⟨schema, node'⟩ := next
      obtain rfl : schema = outputSchemaOf node' := by
        cases bindStage_cases hstage <;> rfl
      exact bindStages_append stages stages' node'

/-- **The run lemma.**  Stage after stage, the plan stays well bound over the same table. -/
theorem bindStages_wellBound : ∀ {stages : List ParsedStage} {node plan : LogicalPlanNode},
    node.WellBound → bindStages (outputSchemaOf node) node stages = .ok plan →
    plan.WellBound ∧ plan.table = node.table
  | [], node, plan, hnode, h => by
    rw [← Except.ok.inj h]
    exact ⟨hnode, rfl⟩
  | stage :: stages, node, plan, hnode, h => by
    obtain ⟨schema, node', hstage, h⟩ := bindStages_cons_ok h
    obtain ⟨rfl, hbound, htable⟩ := (bindStage_cases hstage).wellBound hnode
    obtain ⟨hplan, hplanTable⟩ := bindStages_wellBound hbound h
    exact ⟨hplan, hplanTable.trans htable⟩

/-- **Binding.**  A plan that was bound is well bound, over the table it was bound to. -/
theorem bindPipeline_wellBound {table : Table} {pipeline : ParsedPipeline} {plan : LogicalPlanNode}
    (h : bindPipeline table pipeline = .ok plan) : plan.WellBound ∧ plan.table = table :=
  bindStages_wellBound (.scan table) h

/-- **Rewriting.**  The optimizer keeps a plan well bound. -/
theorem LogicalPlanNode.WellBound.rewrite {node : LogicalPlanNode} (h : node.WellBound) :
    (SortLimitToTopKRule.rewrite node).1.WellBound ∧
      (SortLimitToTopKRule.rewrite node).1.table = node.table := by
  fun_induction SortLimitToTopKRule.rewrite node with
  | case1 grandchild columnIndex fieldName direction limit ih =>
    obtain _ | _ | _ | _ | ⟨hsort⟩ | _ := h
    obtain _ | _ | _ | ⟨below, addresses⟩ | _ | _ := hsort
    refine ⟨.topK (ih below).1 ?_, (ih below).2⟩
    rw [outputSchemaOf_rewrite]
    exact addresses
  | case2 table => exact ⟨h, rfl⟩
  | case3 child predicate ih =>
    cases h with
    | filter below bound =>
      refine ⟨.filter (ih below).1 ?_, (ih below).2⟩
      rw [outputSchemaOf_rewrite]
      exact bound
  | case4 child columnIndices fieldNames ih =>
    cases h with
    | project below addresses distinct =>
      refine ⟨.project (ih below).1 ?_ distinct, (ih below).2⟩
      rw [outputSchemaOf_rewrite]
      exact addresses
  | case5 child columnIndex fieldName direction ih =>
    cases h with
    | sort below addresses =>
      refine ⟨.sort (ih below).1 ?_, (ih below).2⟩
      rw [outputSchemaOf_rewrite]
      exact addresses
  | case6 child limit hsort ih =>
    cases h with
    | limit below => exact ⟨.limit (ih below).1, (ih below).2⟩
  | case7 child columnIndex fieldName direction k ih =>
    cases h with
    | topK below addresses =>
      refine ⟨.topK (ih below).1 ?_, (ih below).2⟩
      rw [outputSchemaOf_rewrite]
      exact addresses

/-- Every part of a well-bound plan is well bound, over the same table. -/
theorem LogicalPlanNode.Contains.wellBound {plan node : LogicalPlanNode} (h : plan.Contains node)
    (hplan : plan.WellBound) : node.WellBound ∧ node.table = plan.table := by
  induction h with
  | here node => exact ⟨hplan, rfl⟩
  | filter predicate _ ih => cases hplan with | filter below => exact ih below
  | project columnIndices fieldNames _ ih => cases hplan with | project below => exact ih below
  | sort columnIndex fieldName direction _ ih => cases hplan with | sort below => exact ih below
  | limit limit _ ih => cases hplan with | limit below => exact ih below
  | topK columnIndex fieldName direction k _ ih => cases hplan with | topK below => exact ih below

/-- A projection of a well-bound plan takes no column twice. -/
theorem nodup_of_addresses {schema : Schema} {indices : List Nat} {names : List String}
    (h : List.Forall₂ schema.Addresses indices names) (hnames : names.Nodup) : indices.Nodup := by
  induction h with
  | nil => exact List.nodup_nil
  | @cons index name indices names haddresses hrest ih =>
    obtain ⟨hnew, hnodup⟩ := List.nodup_cons.mp hnames
    refine List.nodup_cons.mpr ⟨fun hmem => hnew ?_, ih hnodup⟩
    obtain ⟨name', hname', haddresses'⟩ := hrest.exists_of_mem_left hmem
    have heq : name = name' := Option.some.inj (haddresses.symm.trans haddresses')
    exact heq ▸ hname'

end QueryLume
