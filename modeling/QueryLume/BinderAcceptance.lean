/-
  What the binder accepts, and what it builds.

  1. **Specification of acceptance** — a stage is `Acceptable` under the schema visible to it: its
     fields are there, its operators are among the six, a projection takes no field twice, a
     direction is 1 or -1, a limit is not negative.  The visible schema is the field list of the
     nearest projection before the stage, or else the table's (`visibleSchema`), said without the
     loop.

  2. **Specification of errors** — `complaintsAbout` lists everything that is wrong with a stage,
     in the order of the binder's checks, and is empty exactly when the stage is acceptable.  What
     is thrown is the FIRST complaint about the FIRST stage that has one.

  3. **Specification of the plan** — `ChainOf`: one node per stage, in pipeline order, over one
     scan, and every column index is the position of its name in the schema of the child
     (`Positioned`).

  4. **The crux** — every function of the binder is `Checked`: it throws the head of its list of
     complaints, and returns something good when the list is empty.  `Checked` is closed under
     `bind` and `map` with the lists appended, so the binder is proved by following its code
     (`bindStage_checked`), and the loop by induction over the stages with the plan built so far as
     the chain of the stages before (`bindStages_checked`).

  `bindPipeline_exact` puts the three together.
-/
import QueryLume.BoundPlan
import QueryLume.Foundation.Checked

namespace QueryLume

open Checked

/-! ## The specification: what a stage may name, and what is wrong with it

  Acceptability is about one stage and the schema it sees.  The complaints say the same with the
  texts of the source, in the order of the checks. -/

/-- The field list a projection leaves.  No other stage has one. -/
def ParsedStage.projected : ParsedStage → Option (List String)
  | .kProject stage => some (stage.fields.map (·.fieldName))
  | _ => none

/-- The field list of the nearest preceding projection, or the table's schema.  The binder
    threads it through its loop; here it is read off the stages before. -/
def visibleSchema (table : Table) (preceding : List ParsedStage) : Schema :=
  match preceding.reverse.findSome? ParsedStage.projected with
  | some fields => { fields }
  | none => table.schema

/-- The six supported operators, by their tokens. -/
def operatorTokens : List String := ["$eq", "$ne", "$gt", "$gte", "$lt", "$lte"]

/-- What a stage has to satisfy under the schema visible to it.  Types play no part. -/
def Acceptable (visible : Schema) : ParsedStage → Prop
  | .kMatch stage => ∀ predicate ∈ stage.predicates,
      predicate.field.fieldName ∈ visible.fields ∧ predicate.opToken ∈ operatorTokens
  | .kProject stage =>
      (∀ field ∈ stage.fields, field.fieldName ∈ visible.fields) ∧
        (stage.fields.map (·.fieldName)).Nodup
  | .kSort stage =>
      stage.field.fieldName ∈ visible.fields ∧ (stage.directionRaw = 1 ∨ stage.directionRaw = -1)
  | .kLimit stage => 0 ≤ stage.countRaw.toInt

/-- The complaint about a field that is not visible, in a comparison, a projection or a sort
    alike. -/
def unknownField (name : String) : Exception :=
  .queryLumeError .kUnknownField ("unknown field: '" ++ name ++ "'")

/-- The complaint about a token that is none of the six. -/
def unsupportedOperator (token : String) : Exception :=
  .queryLumeError .kUnsupportedOperator ("unsupported operator: '" ++ token ++ "'")

/-- The complaint about a field that is projected twice.  Its code is the parser's
    `kPipelineSyntaxError`. -/
def duplicateField (name : String) : Exception :=
  .queryLumeError .kPipelineSyntaxError ("duplicate $project field: '" ++ name ++ "'")

/-- The complaint about a direction other than 1 and -1. -/
def invalidSortDirection (directionRaw : Int64) : Exception :=
  .queryLumeError .kInvalidSortDirection
    ("invalid sort direction: " ++ toString directionRaw.toInt ++ " (must be 1 or -1)")

/-- The complaint about a negative limit. -/
def invalidLimit (countRaw : Int64) : Exception :=
  .queryLumeError .kInvalidLimit
    ("invalid limit: " ++ toString countRaw.toInt ++ " (must be non-negative)")

/-- What is wrong with a comparison: the field before the operator.  Both may be wrong; the
    binder throws the first. -/
def predicateComplaints (visible : Schema) (predicate : ParsedComparison) : List Exception :=
  complainUnless (predicate.field.fieldName ∈ visible.fields)
      (unknownField predicate.field.fieldName) ++
    complainUnless (predicate.opToken ∈ operatorTokens) (unsupportedOperator predicate.opToken)

/-- What is wrong with the fields of a projection, field by field, duplicate before unknown;
    `earlier` are the names before the field. -/
def fieldComplaints (visible : Schema) (earlier : List String) :
    List UnresolvedFieldExpression → List Exception
  | [] => []
  | field :: fields =>
    complainUnless (field.fieldName ∉ earlier) (duplicateField field.fieldName) ++
      (complainUnless (field.fieldName ∈ visible.fields) (unknownField field.fieldName) ++
        fieldComplaints visible (field.fieldName :: earlier) fields)

/-- Everything that is wrong with a stage, in the order of the checks: comparison by comparison,
    field by field, and for a sort the field before the direction. -/
def complaintsAbout (visible : Schema) : ParsedStage → List Exception
  | .kMatch stage => stage.predicates.flatMap (predicateComplaints visible)
  | .kProject stage => fieldComplaints visible [] stage.fields
  | .kSort stage =>
    complainUnless (stage.field.fieldName ∈ visible.fields) (unknownField stage.field.fieldName) ++
      complainUnless (stage.directionRaw = 1 ∨ stage.directionRaw = -1)
        (invalidSortDirection stage.directionRaw)
  | .kLimit stage => complainUnless (0 ≤ stage.countRaw.toInt) (invalidLimit stage.countRaw)

/-- The complaints about the stages that follow `preceding`, in pipeline order, each stage under
    the schema that is visible where it stands. -/
def pipelineComplaints (table : Table) (preceding : List ParsedStage) :
    List ParsedStage → List Exception
  | [] => []
  | stage :: following =>
    complaintsAbout (visibleSchema table preceding) stage ++
      pipelineComplaints table (preceding ++ [stage]) following

/-! ## The specification: what a plan stores

  A plan that comes out is not only accepted but right: the nodes are those of the stages, and
  every stored index points at the stored name. -/

/-- Every column index in an expression is the position of its field name in the schema the rows
    have. -/
inductive Expression.PositionedIn (schema : Schema) : Expression → Prop where
  | boundField {columnIndex : Nat} {fieldName : String}
      (position : schema.indexOf fieldName = some columnIndex) :
      PositionedIn schema (.boundField columnIndex fieldName)
  | literal (value : Value) : PositionedIn schema (.literal value)
  | comparison {lhs rhs : Expression} (op : ComparisonOperator) (left : PositionedIn schema lhs)
      (right : PositionedIn schema rhs) : PositionedIn schema (.comparison lhs op rhs)
  | conjunction {operands : List Expression}
      (each : ∀ operand ∈ operands, PositionedIn schema operand) :
      PositionedIn schema (.conjunction operands)

/-- Every column index a node stores is the position of its field name in the schema of its
    child. -/
def LogicalPlanNode.Positioned : LogicalPlanNode → Prop
  | .kScan _ => True
  | .kFilter child predicate => predicate.PositionedIn (outputSchemaOf child)
  | .kProject child columnIndices fieldNames =>
    List.Forall₂ (fun columnIndex fieldName =>
      (outputSchemaOf child).indexOf fieldName = some columnIndex) columnIndices fieldNames
  | .kSort child columnIndex fieldName _ =>
    (outputSchemaOf child).indexOf fieldName = some columnIndex
  | .kLimit _ _ => True
  | .kTopK child columnIndex fieldName _ _ =>
    (outputSchemaOf child).indexOf fieldName = some columnIndex

/-- The chain over one scan: one node per stage, in pipeline order.  Each node is what its stage
    binds to over the chain below, shows the schema that is visible to the next stage, and stores
    positions in the schema of its child. -/
inductive ChainOf (table : Table) : List ParsedStage → LogicalPlanNode → Prop where
  | scan : ChainOf table [] (.kScan table)
  | stage {preceding : List ParsedStage} {child node : LogicalPlanNode} {stage : ParsedStage}
      (below : ChainOf table preceding child)
      (binds : BindsStage (outputSchemaOf child) child stage (outputSchemaOf node) node)
      (shows : outputSchemaOf node = visibleSchema table (preceding ++ [stage]))
      (positioned : node.Positioned) : ChainOf table (preceding ++ [stage]) node

/-! ## The visible schema -/

/-- One more stage: the visible schema is its field list if it projects, and what it was
    otherwise. -/
theorem visibleSchema_concat (table : Table) (preceding : List ParsedStage) (stage : ParsedStage) :
    visibleSchema table (preceding ++ [stage]) =
      match stage.projected with
      | some fields => { fields }
      | none => visibleSchema table preceding := by
  unfold visibleSchema
  rw [List.reverse_append, List.reverse_singleton, List.singleton_append, List.findSome?_cons]
  cases stage.projected with
  | some fields => rfl
  | none => rfl

/-! ## Acceptable stages -/

theorem predicateComplaints_eq_nil {visible : Schema} {predicate : ParsedComparison} :
    predicateComplaints visible predicate = [] ↔
      predicate.field.fieldName ∈ visible.fields ∧ predicate.opToken ∈ operatorTokens := by
  rw [predicateComplaints, List.append_eq_nil_iff, complainUnless_eq_nil, complainUnless_eq_nil]

theorem fieldComplaints_eq_nil {visible : Schema} : ∀ {fields : List UnresolvedFieldExpression}
    {earlier : List String}, fieldComplaints visible earlier fields = [] ↔
      (∀ field ∈ fields, field.fieldName ∈ visible.fields ∧ field.fieldName ∉ earlier) ∧
        (fields.map (·.fieldName)).Nodup
  | [], _ => by simp [fieldComplaints]
  | field :: fields, earlier => by
    rw [fieldComplaints, List.append_eq_nil_iff, List.append_eq_nil_iff, complainUnless_eq_nil,
      complainUnless_eq_nil, fieldComplaints_eq_nil, List.map_cons, List.nodup_cons,
      List.forall_mem_cons]
    constructor
    · rintro ⟨hnew, hknown, hfields, hnodup⟩
      refine ⟨⟨⟨hknown, hnew⟩, fun other hother => ?_⟩, fun hmem => ?_, hnodup⟩
      · exact ⟨(hfields other hother).1,
          fun hmem => (hfields other hother).2 (List.mem_cons_of_mem _ hmem)⟩
      · obtain ⟨other, hother, heq⟩ := List.mem_map.mp hmem
        exact (hfields other hother).2 (heq ▸ List.mem_cons_self)
    · rintro ⟨⟨⟨hknown, hnew⟩, hfields⟩, hfresh, hnodup⟩
      refine ⟨hnew, hknown, fun other hother => ⟨(hfields other hother).1, fun hmem => ?_⟩, hnodup⟩
      rcases List.mem_cons.mp hmem with heq | hmem
      · exact hfresh (List.mem_map.mpr ⟨other, hother, heq⟩)
      · exact (hfields other hother).2 hmem

/-- A stage is acceptable exactly when there is nothing to complain about. -/
theorem complaintsAbout_eq_nil {visible : Schema} {stage : ParsedStage} :
    complaintsAbout visible stage = [] ↔ Acceptable visible stage := by
  cases stage with
  | kMatch stage =>
    show stage.predicates.flatMap (predicateComplaints visible) = [] ↔ _
    rw [List.flatMap_eq_nil_iff]
    exact forall₂_congr fun predicate _ => predicateComplaints_eq_nil
  | kProject stage =>
    show fieldComplaints visible [] stage.fields = [] ↔ _
    rw [fieldComplaints_eq_nil]
    simp [Acceptable]
  | kSort stage =>
    show _ ++ _ = [] ↔ _
    rw [List.append_eq_nil_iff, complainUnless_eq_nil, complainUnless_eq_nil]
    rfl
  | kLimit stage => exact complainUnless_eq_nil

/-- Nothing is wrong with the stages exactly when each one is acceptable where it stands. -/
theorem pipelineComplaints_eq_nil {table : Table} : ∀ {following preceding : List ParsedStage},
    pipelineComplaints table preceding following = [] ↔
      ∀ between stage after, following = between ++ stage :: after →
        Acceptable (visibleSchema table (preceding ++ between)) stage
  | [], preceding => by
    refine ⟨fun _ between stage after heq => ?_, fun _ => rfl⟩
    exact absurd heq.symm (List.append_ne_nil_of_right_ne_nil _ (List.cons_ne_nil _ _))
  | first :: following, preceding => by
    rw [pipelineComplaints, List.append_eq_nil_iff, complaintsAbout_eq_nil,
      pipelineComplaints_eq_nil]
    constructor
    · rintro ⟨hfirst, hrest⟩ between stage after heq
      rcases List.cons_eq_append_iff.mp heq with ⟨rfl, hcons⟩ | ⟨between, rfl, hrest'⟩
      · obtain ⟨rfl, -⟩ := List.cons.inj hcons
        rw [List.append_nil]
        exact hfirst
      · rw [List.append_cons]
        exact hrest between stage after hrest'
    · intro h
      constructor
      · have hfirst := h [] first following rfl
        rwa [List.append_nil] at hfirst
      · intro between stage after heq
        have hstage := h (first :: between) stage after (by rw [heq, List.cons_append])
        rwa [List.append_cons] at hstage

/-! ## The functions of the binder

  Each function is rewritten as a chain of binds and demands where it is not one already, and then
  shown to be checked by the rules. -/

/-- Resolution complains exactly where the name is not visible. -/
theorem resolveField_checked (schema : Schema) (name : String) :
    Checked (fun index => schema.indexOf name = some index)
      (complainUnless (name ∈ schema.fields) (unknownField name)) (resolveField schema name) := by
  unfold resolveField complainUnless
  cases hindex : schema.indexOf name with
  | none =>
    rw [if_neg (Schema.indexOf_eq_none.mp hindex)]
    exact .error _ []
  | some index =>
    have hmem : name ∈ schema.fields := by
      by_contra hnot
      rw [Schema.indexOf_eq_none.mpr hnot] at hindex
      cases hindex
    rw [if_pos hmem]
    exact .ok rfl

/-- The tokens the binder knows are the six. -/
theorem parseComparisonOperator_eq_none {token : String} :
    parseComparisonOperator token = none ↔ token ∉ operatorTokens := by
  unfold parseComparisonOperator operatorTokens
  constructor
  · intro h
    split at h
    · cases h
    · grind
  · intro h
    simp only [List.mem_cons, List.not_mem_nil, or_false, not_or] at h
    obtain ⟨heq, hne, hgt, hgte, hlt, hlte⟩ := h
    rw [if_neg heq, if_neg hne, if_neg hlt, if_neg hlte, if_neg hgt, if_neg hgte]

/-- The checks of a comparison as a bind, so that `Checked.bind` applies. -/
theorem bindComparison_eq (schema : Schema) (parsed : ParsedComparison) :
    bindComparison schema parsed =
      (resolveField schema parsed.field.fieldName).bind fun index =>
        match parseComparisonOperator parsed.opToken with
        | none => .error (unsupportedOperator parsed.opToken)
        | some op =>
          .ok (.comparison (.boundField index parsed.field.fieldName) op
            (.literal parsed.literal)) := by
  unfold bindComparison
  cases resolveField schema parsed.field.fieldName with
  | error e => rfl
  | ok index => rfl

/-- A comparison: the field first, then the operator. -/
theorem bindComparison_checked (schema : Schema) (parsed : ParsedComparison) :
    Checked (Expression.PositionedIn schema) (predicateComplaints schema parsed)
      (bindComparison schema parsed) := by
  rw [bindComparison_eq]
  refine (resolveField_checked schema parsed.field.fieldName).bind fun index hindex => ?_
  unfold complainUnless
  cases hop : parseComparisonOperator parsed.opToken with
  | none =>
    rw [if_neg (parseComparisonOperator_eq_none.mp hop)]
    exact .error _ []
  | some op =>
    have hmem : parsed.opToken ∈ operatorTokens := by
      by_contra hnot
      rw [parseComparisonOperator_eq_none.mpr hnot] at hop
      cases hop
    rw [if_pos hmem]
    exact .ok (.comparison op (.boundField hindex) (.literal _))

/-- The operand loop as a bind. -/
theorem bindComparisons_cons (schema : Schema) (predicate : ParsedComparison)
    (predicates : List ParsedComparison) :
    bindComparisons schema (predicate :: predicates) =
      (bindComparison schema predicate).bind fun operand =>
        (bindComparisons schema predicates).bind fun operands => .ok (operand :: operands) := by
  rw [bindComparisons]
  cases bindComparison schema predicate with
  | error e => rfl
  | ok operand =>
    cases bindComparisons schema predicates with
    | error e => rfl
    | ok operands => rfl

/-- Comparisons are checked in the order of the list, which is that of the member names. -/
theorem bindComparisons_checked (schema : Schema) : ∀ predicates : List ParsedComparison,
    Checked (fun operands => ∀ operand ∈ operands, Expression.PositionedIn schema operand)
      (predicates.flatMap (predicateComplaints schema)) (bindComparisons schema predicates)
  | [] => .ok fun _ hmem => by cases hmem
  | predicate :: predicates => by
    rw [bindComparisons_cons, List.flatMap_cons]
    exact (bindComparison_checked schema predicate).cons (bindComparisons_checked schema predicates)
      fun _ _ hfirst hrest => List.forall_mem_cons.mpr ⟨hfirst, hrest⟩

/-- The three shapes of a predicate make no difference to what is checked. -/
theorem bindMatch_checked (schema : Schema) (parsed : ParsedMatchStage) :
    Checked (Expression.PositionedIn schema)
      (parsed.predicates.flatMap (predicateComplaints schema)) (bindMatch schema parsed) := by
  unfold bindMatch
  split
  · rename_i hnil
    rw [hnil]
    exact .ok (.literal _)
  · rename_i predicate hsingle
    rw [hsingle, List.flatMap_singleton]
    exact bindComparison_checked schema predicate
  · exact (bindComparisons_checked schema parsed.predicates).map fun _ hall => .conjunction hall

/-- The field loop as a bind under the test for a duplicate. -/
theorem bindFields_cons (schema : Schema) (seen : List String) (field : UnresolvedFieldExpression)
    (fields : List UnresolvedFieldExpression) :
    bindFields schema seen (field :: fields) =
      if field.fieldName ∉ seen then
        (resolveField schema field.fieldName).bind fun index =>
          (bindFields schema (field.fieldName :: seen) fields).bind fun indices =>
            .ok (index :: indices)
      else .error (duplicateField field.fieldName) := by
  rw [bindFields, ite_not]
  cases resolveField schema field.fieldName with
  | error e => rfl
  | ok index =>
    cases bindFields schema (field.fieldName :: seen) fields with
    | error e => rfl
    | ok indices => rfl

/-- The field loop of a projection, with the names met so far. -/
theorem bindFields_checked (schema : Schema) : ∀ (fields : List UnresolvedFieldExpression)
    (seen : List String),
    Checked (fun indices => List.Forall₂
        (fun index name => schema.indexOf name = some index) indices (fields.map (·.fieldName)))
      (fieldComplaints schema seen fields) (bindFields schema seen fields)
  | [], _ => .ok .nil
  | field :: fields, seen => by
    rw [bindFields_cons, fieldComplaints]
    exact demand fun _ => (resolveField_checked schema field.fieldName).cons
      (bindFields_checked schema fields (field.fieldName :: seen))
      fun _ _ hindex hindices => .cons hindex hindices

/-- A direction is checked by its value alone. -/
theorem bindSortDirection_checked (directionRaw : Int64) :
    Checked (fun _ => True)
      (complainUnless (directionRaw = 1 ∨ directionRaw = -1) (invalidSortDirection directionRaw))
      (bindSortDirection directionRaw) := by
  unfold bindSortDirection complainUnless
  by_cases hup : directionRaw = 1
  · rw [if_pos hup, if_pos (Or.inl hup)]
    exact .ok trivial
  · by_cases hdown : directionRaw = -1
    · rw [if_neg hup, if_pos hdown, if_pos (Or.inr hdown)]
      exact .ok trivial
    · rw [if_neg hup, if_neg hdown, if_neg (not_or.mpr ⟨hup, hdown⟩)]
      exact .error _ []

/-- So is a limit. -/
theorem bindLimit_checked (countRaw : Int64) :
    Checked (fun _ => True) (complainUnless (0 ≤ countRaw.toInt) (invalidLimit countRaw))
      (bindLimit countRaw) := by
  have hneg : countRaw < 0 ↔ ¬0 ≤ countRaw.toInt := by
    rw [Int64.lt_iff_toInt_lt, Int64.toInt_zero, not_le]
  unfold bindLimit complainUnless
  by_cases h : 0 ≤ countRaw.toInt
  · rw [if_pos h, if_neg fun hlt => hneg.mp hlt h]
    exact .ok trivial
  · rw [if_neg h, if_pos (hneg.mpr h)]
    exact .error _ []

/-- A sort: the field, then the direction. -/
theorem bindStage_sort (schema : Schema) (node : LogicalPlanNode) (sort : ParsedSortStage) :
    bindStage schema node (.kSort sort) =
      (resolveField schema sort.field.fieldName).bind fun index =>
        (bindSortDirection sort.directionRaw).map fun direction =>
          (schema, .kSort node index sort.field.fieldName direction) := by
  simp only [bindStage]
  cases resolveField schema sort.field.fieldName with
  | error e => rfl
  | ok index => rfl

/-- **Binding a stage.** -/
theorem bindStage_checked (node : LogicalPlanNode) (stage : ParsedStage) :
    Checked (fun next => next.2.Positioned)
      (complaintsAbout (outputSchemaOf node) stage)
      (bindStage (outputSchemaOf node) node stage) := by
  cases stage with
  | kMatch stage => exact (bindMatch_checked _ stage).map fun _ hpredicate => hpredicate
  | kProject stage => exact (bindFields_checked _ stage.fields []).map fun _ hindices => hindices
  | kSort stage =>
    rw [bindStage_sort]
    exact (resolveField_checked _ stage.field.fieldName).bind fun _ hindex =>
      (bindSortDirection_checked stage.directionRaw).map fun _ _ => hindex
  | kLimit stage => exact (bindLimit_checked stage.countRaw).map fun _ _ => trivial

/-! ## The stage loop

  The invariant is `ChainOf`: the plan built so far is the chain of the stages before, and its
  schema is the visible one. -/

/-- The plan built so far yields the visible schema. -/
theorem ChainOf.shows {table : Table} {preceding : List ParsedStage} {node : LogicalPlanNode}
    (h : ChainOf table preceding node) : outputSchemaOf node = visibleSchema table preceding := by
  cases h with
  | scan => rfl
  | stage below binds shows positioned => exact shows

/-- A stage narrows the visible schema if it is a projection, and passes it on if it is not. -/
theorem BindsStage.shows {node node' : LogicalPlanNode} {stage : ParsedStage} {schema : Schema}
    (h : BindsStage (outputSchemaOf node) node stage schema node') :
    schema = outputSchemaOf node' ∧
      ∀ {table : Table} {preceding : List ParsedStage},
        outputSchemaOf node = visibleSchema table preceding →
        outputSchemaOf node' = visibleSchema table (preceding ++ [stage]) := by
  constructor
  · cases h <;> rfl
  · intro table preceding hnode
    rw [visibleSchema_concat]
    cases h with
    | «match» binds => exact hnode
    | project addresses distinct => rfl
    | sort addresses known => exact hnode
    | limit known => exact hnode

/-- **The stage loop.**  The plan built so far is the chain of the stages before. -/
theorem bindStages_checked (table : Table) : ∀ (following preceding : List ParsedStage)
    (node : LogicalPlanNode), ChainOf table preceding node →
    Checked (ChainOf table (preceding ++ following)) (pipelineComplaints table preceding following)
      (bindStages (outputSchemaOf node) node following)
  | [], preceding, node, hchain => by
    rw [List.append_nil]
    exact .ok hchain
  | stage :: following, preceding, node, hchain => by
    rw [bindStages_cons, pipelineComplaints, ← hchain.shows, List.append_cons]
    refine (bindStage_checked node stage).keepResult.bind ?_
    rintro ⟨schema, node'⟩ ⟨hpositioned, hbound⟩
    have hbinds := bindStage_cases hbound
    obtain ⟨rfl, hshows⟩ := hbinds.shows
    exact bindStages_checked table following (preceding ++ [stage]) node'
      (.stage hchain hbinds (hshows hchain.shows) hpositioned)

/-- The loop starts with no stage before, over the scan. -/
theorem bindPipeline_checked (table : Table) (pipeline : ParsedPipeline) :
    Checked (ChainOf table pipeline.stages) (pipelineComplaints table [] pipeline.stages)
      (bindPipeline table pipeline) :=
  bindStages_checked table pipeline.stages [] (.kScan table) .scan

/-- **The binder is sound and complete.**  It accepts exactly the pipelines whose every stage is
    acceptable under the schema visible to it; it throws the first complaint in pipeline order; and
    what it builds is the chain of the stages, with the position of every field name. -/
theorem bindPipeline_exact (table : Table) (pipeline : ParsedPipeline) :
    ((∃ plan, bindPipeline table pipeline = .ok plan) ↔
      ∀ preceding stage following, pipeline.stages = preceding ++ stage :: following →
        Acceptable (visibleSchema table preceding) stage) ∧
    (∀ e, bindPipeline table pipeline = .error e ↔
      (pipelineComplaints table [] pipeline.stages).head? = some e) ∧
    (∀ plan, bindPipeline table pipeline = .ok plan → ChainOf table pipeline.stages plan) := by
  have hchecked := bindPipeline_checked table pipeline
  refine ⟨?_, fun e => hchecked.throws_iff, fun plan hplan => hchecked.of_ok hplan⟩
  rw [hchecked.returns_iff, pipelineComplaints_eq_nil]
  rfl

/-- A sort after a projection resolves against the projected schema. -/
example :
    (pipelineComplaints { schema := { fields := ["a", "b"] } } []
      [.kProject { fields := [⟨"b"⟩] }, .kSort { field := ⟨"a"⟩, directionRaw := 2 }]).map
        (·.code) = [some .kUnknownField, some .kInvalidSortDirection] := by decide

end QueryLume
