/-
  Plans that EXPLAIN shows alike.

  1. **What the JSON tells** — `toJson_cases` says once what two plans with the same JSON have in
     common at their roots: all but the column indices, which are not shown, and the predicates, of
     which the text is.

  2. **What it does not tell** — the indices of a bound plan are told by the names, as every index
     is the position of its name (`ChainOf`).  The predicates read back from legible texts
     (`matchText_reads`) differ at most in numbers that are shown alike.

  3. **The same plan** — where those are equal numbers, no comparison tells the literals apart
     (`Value.Indistinct`), and the plans are `SamePlan`: the same nodes, with filters that accept
     the same rows.  Such plans stay alike under the optimizer (`SamePlan.rewrite`) and give out
     the same rows (`SamePlan.denote`).

  `samePlan_of_toJson` goes from the JSON of two bound plans to `SamePlan` by induction over the
  chain, node by node from the root, with the stages they were bound from alongside.
-/
import QueryLume.Data.ValueOrder
import QueryLume.Explain.JsonSerialize
import QueryLume.Explain.Legible
import QueryLume.Foundation.SameSuccess
import QueryLume.Physical.Cascade

namespace QueryLume

/-! ## Literals no comparison tells apart

  An integer and a double that are equal as numbers are shown alike and are two different literals.
  No comparison can tell them apart, so for the rows of a query it does not matter which of the two
  was meant. -/

/-- The same value, or the same number stored in two ways. -/
def Value.Indistinct (a b : Value) : Prop :=
  a = b ∨ a.kind = .number ∧ b.kind = .number ∧ a.numberRank = b.numberRank

/-- What the two numbers compare as. -/
theorem indistinct_of_valuesEqual {a b : Value} (ha : isNumeric (typeOf a) = true)
    (hb : isNumeric (typeOf b) = true) (h : valuesEqual a b = .ok true) : a.Indistinct b := by
  have hnull : ∀ {value : Value}, isNumeric (typeOf value) = true → value ≠ .null := by
    rintro value hnumeric rfl
    cases hnumeric
  have hbool : ¬ (typeOf a = .kBool ∧ typeOf b = .kBool) := by
    rintro ⟨hbool, -⟩
    rw [hbool] at ha
    cases ha
  rw [valuesEqual_eq_compare (hnull ha) (hnull hb) hbool] at h
  obtain ⟨verdict, hcompare, hverdict⟩ := Except.map_eq_ok h
  rw [beq_iff_eq] at hverdict
  have hcompared := compare_cases a b
  rw [hcompare, hverdict] at hcompared
  generalize hequal : (Except.ok .kEqual : Except Exception CompareResult) = outcome at hcompared
  cases hcompared with
  | unordered null => cases hequal
  | numbers left right =>
    exact .inr ⟨left, right, orderOf_eq_kEqual.mp (Except.ok.inj hequal).symm⟩
  | strings left right =>
    cases a with
    | string s => cases ha
    | double d => rw [Value.kind] at left; split at left <;> cases left
    | null | bool x | int64 i => cases left
  | error e left right apart => cases hequal

/-- `compare` does not tell them apart. -/
theorem compare_indistinct (value : Value) {a b : Value} (h : a.Indistinct b) :
    SameSuccess Eq (compare value a) (compare value b) := by
  rcases h with rfl | ⟨ha, hb, hrank⟩
  · exact .refl (fun _ => rfl) _
  · by_cases hnull : value.kind = .null
    · rw [compare_null (.inl hnull), compare_null (.inl hnull)]
      exact .ok rfl
    by_cases hnumber : value.kind = .number
    · rw [compare_number hnumber ha, compare_number hnumber hb, hrank]
      exact .ok rfl
    · have hclash : ∀ {number : Value}, number.kind = .number →
          ∃ e, compare value number = .error e := by
        intro number hkind
        refine compare_error_iff.mpr ⟨hnull, fun hnone => ?_, fun hsame => ?_⟩
        · rw [hkind] at hnone
          cases hnone
        · exact absurd (hsame.trans hkind) hnumber
      obtain ⟨e, he⟩ := hclash ha
      obtain ⟨e', he'⟩ := hclash hb
      rw [he, he']
      exact .error e e'

/-- Neither does `valuesEqual`. -/
theorem valuesEqual_indistinct (value : Value) {a b : Value} (h : a.Indistinct b) :
    SameSuccess Eq (valuesEqual value a) (valuesEqual value b) := by
  have hcompare := compare_indistinct value h
  rcases h with rfl | ⟨ha, hb, -⟩
  · exact .refl (fun _ => rfl) _
  · have hnumber : ∀ {number : Value}, number.kind = .number →
        valuesEqual value number =
          if value = .null then .ok false else (compare value number).map (· == .kEqual) := by
      intro number hkind
      have hnotNull : number ≠ .null := by
        rintro rfl
        cases hkind
      have hnotBool : typeOf number ≠ .kBool := by
        intro hbool
        rw [kind_of_kBool hbool] at hkind
        cases hkind
      split
      · rename_i hnull
        rw [hnull]
        cases number with
        | null => exact absurd rfl hnotNull
        | bool x | int64 i | double d | string s => rfl
      · rename_i hnull
        exact valuesEqual_eq_compare hnull hnotNull fun hbools => hnotBool hbools.2
    rw [hnumber ha, hnumber hb]
    split
    · exact .ok rfl
    · exact hcompare.mapEq _

/-- **Comparisons.** -/
theorem evaluateComparison_indistinct (op : ComparisonOperator) (value : Value) {a b : Value}
    (h : a.Indistinct b) :
    SameSuccess Eq (evaluateComparison op value a) (evaluateComparison op value b) := by
  have hequal := valuesEqual_indistinct value h
  have hcompare := compare_indistinct value h
  cases op with
  | kEq | kNe => exact hequal.mapEq _
  | kLt | kLte | kGt | kGte => exact hcompare.mapEq _

/-! ## Predicates with the same reading

  Two matches over the same fields and operators, with literals that cannot be told apart, accept
  the same rows.  They may throw different exceptions at the same row: a message names the types of
  both operands. -/

/-- Comparisons of the same field of one schema, with literals that no comparison tells apart. -/
theorem comparison_sameSuccess {schema : Schema} {parsed parsed' : ParsedComparison}
    {expression expression' : Expression} (hbinds : BindsComparison schema parsed expression)
    (hposition : expression.PositionedIn schema)
    (hbinds' : BindsComparison schema parsed' expression')
    (hposition' : expression'.PositionedIn schema) (hsame : parsed.SameText parsed')
    (hliteral : parsed.literal.Indistinct parsed'.literal) (row : Row) :
    SameSuccess Eq (expression.test row) (expression'.test row) := by
  obtain ⟨index, op, -, known⟩ := hbinds
  obtain ⟨index', op', -, known'⟩ := hbinds'
  obtain rfl : op = op' := by
    rw [hsame.opToken, known'] at known
    exact (Option.some.inj known).symm
  obtain rfl : index = index' := by
    cases hposition with
    | comparison _ left _ =>
      cases hposition' with
      | comparison _ left' _ =>
        cases left with
        | boundField position =>
          cases left' with
          | boundField position' =>
            rw [hsame.field, position'] at position
            exact (Option.some.inj position).symm
  have htest : ∀ literal : Value,
      (Expression.comparison (.boundField index parsed.field.fieldName) op (.literal literal)).test
        row = (row.cellAt index).bind fun value =>
          (evaluateComparison op value literal).bind Value.getBool := by
    intro literal
    simp only [Expression.test, Expression.evaluate]
    cases row.cellAt index with
    | error e => rfl
    | ok value =>
      simp only [Except.bind]
      cases evaluateComparison op value literal with
      | error e => rfl
      | ok verdict => rfl
  rw [htest, ← hsame.field, htest]
  refine (SameSuccess.refl (fun _ => rfl) (row.cellAt index)).bind ?_
  rintro value _ rfl
  refine (evaluateComparison_indistinct op value hliteral).bind ?_
  rintro verdict _ rfl
  exact .refl (fun _ => rfl) _

/-- The operands of a bound match. -/
theorem BindsMatch.operands {schema : Schema} {predicates : List ParsedComparison}
    {predicate : Expression} (h : BindsMatch schema predicates predicate)
    (hposition : predicate.PositionedIn schema) :
    ∃ operands, List.Forall₂ (BindsComparison schema) predicates operands ∧
      (∀ operand ∈ operands, operand.PositionedIn schema) ∧
      ∀ row, predicate.test row = testAll operands row := by
  cases h with
  | always => exact ⟨[], .nil, fun _ hmem => absurd hmem List.not_mem_nil, fun _ => rfl⟩
  | single binds =>
    refine ⟨[predicate], .cons binds .nil, fun operand hmem => ?_, fun row => ?_⟩
    · rw [List.mem_singleton.mp hmem]
      exact hposition
    · exact MatchForm.test_eq (.inr (.inl rfl)) row
  | @conjunction predicates operands binds =>
    refine ⟨operands, binds, ?_, test_conjunction operands⟩
    cases hposition with
    | conjunction each => exact each

/-- Operand by operand: both conjunctions answer the same, or both throw. -/
theorem testAll_sameSuccess {operands operands' : List Expression}
    (h : List.Forall₂ (fun operand operand' =>
      ∀ row, SameSuccess Eq (operand.test row) (operand'.test row)) operands operands') (row : Row) :
    SameSuccess Eq (testAll operands row) (testAll operands' row) := by
  induction h with
  | nil => exact .ok rfl
  | @cons operand operand' operands operands' hfirst _ ih =>
    have hoperand := hfirst row
    rw [testAll, testAll]
    generalize operand.test row = verdict at hoperand
    generalize operand'.test row = verdict' at hoperand
    cases hoperand with
    | error e e' => exact .error e e'
    | @ok accepted accepted' related =>
      subst related
      cases accepted with
      | true => exact ih
      | false => exact .ok rfl

/-- **Matches.**  Bound matches with the same reading accept the same rows, and throw at the same.
    -/
theorem match_sameSuccess {schema : Schema} {predicates predicates' : List ParsedComparison}
    {predicate predicate' : Expression} (hbinds : BindsMatch schema predicates predicate)
    (hposition : predicate.PositionedIn schema)
    (hbinds' : BindsMatch schema predicates' predicate')
    (hposition' : predicate'.PositionedIn schema)
    (hsame : List.Forall₂ (fun parsed parsed' => parsed.SameText parsed' ∧
      parsed.literal.Indistinct parsed'.literal) predicates predicates') (row : Row) :
    SameSuccess Eq (predicate.test row) (predicate'.test row) := by
  obtain ⟨operands, hoperands, hpositions, htest⟩ := hbinds.operands hposition
  obtain ⟨operands', hoperands', hpositions', htest'⟩ := hbinds'.operands hposition'
  rw [htest, htest']
  refine testAll_sameSuccess ?_ row
  clear htest htest' hbinds hbinds' hposition hposition'
  induction hsame generalizing operands operands' with
  | nil =>
    cases hoperands
    cases hoperands'
    exact .nil
  | cons hfirst _ ih =>
    cases hoperands with
    | cons hbinds hoperands =>
      cases hoperands' with
      | cons hbinds' hoperands' =>
        refine .cons (comparison_sameSuccess hbinds (hpositions _ List.mem_cons_self) hbinds'
          (hpositions' _ List.mem_cons_self) hfirst.1 hfirst.2) ?_
        exact ih _ hoperands (fun operand hmem => hpositions operand (List.mem_cons_of_mem _ hmem))
          _ hoperands' (fun operand hmem => hpositions' operand (List.mem_cons_of_mem _ hmem))

/-! ## The same plan

  The relation that is preserved from the bound plan to the rows.  It relates filters by what they
  accept and everything else by equality. -/

/-- The same nodes over the same table, with filters that accept the same rows. -/
inductive SamePlan : LogicalPlanNode → LogicalPlanNode → Prop where
  | scan (table : Table) : SamePlan (.kScan table) (.kScan table)
  | filter {child child' : LogicalPlanNode} {predicate predicate' : Expression}
      (below : SamePlan child child')
      (test : ∀ row, SameSuccess Eq (predicate.test row) (predicate'.test row)) :
      SamePlan (.kFilter child predicate) (.kFilter child' predicate')
  | project {child child' : LogicalPlanNode} (columnIndices : List Nat) (fieldNames : List String)
      (below : SamePlan child child') :
      SamePlan (.kProject child columnIndices fieldNames) (.kProject child' columnIndices fieldNames)
  | sort {child child' : LogicalPlanNode} (columnIndex : Nat) (fieldName : String)
      (direction : SortDirection) (below : SamePlan child child') :
      SamePlan (.kSort child columnIndex fieldName direction)
        (.kSort child' columnIndex fieldName direction)
  | limit {child child' : LogicalPlanNode} (limit : Nat) (below : SamePlan child child') :
      SamePlan (.kLimit child limit) (.kLimit child' limit)
  | topK {child child' : LogicalPlanNode} (columnIndex : Nat) (fieldName : String)
      (direction : SortDirection) (k : Nat) (below : SamePlan child child') :
      SamePlan (.kTopK child columnIndex fieldName direction k)
        (.kTopK child' columnIndex fieldName direction k)

namespace SamePlan

variable {node node' : LogicalPlanNode}

/-- The same plan has the same schema. -/
theorem outputSchema (h : SamePlan node node') : outputSchemaOf node = outputSchemaOf node' := by
  induction h with
  | scan table => rfl
  | project columnIndices fieldNames => rfl
  | filter _ _ ih => exact ih
  | sort _ _ _ _ ih | limit _ _ ih | topK _ _ _ _ _ ih => exact ih

/-- The optimizer treats them alike. -/
theorem rewrite (h : SamePlan node node') :
    SamePlan (SortLimitToTopKRule.rewrite node).1 (SortLimitToTopKRule.rewrite node').1 := by
  induction h with
  | scan table => exact .scan table
  | filter _ test ih => exact .filter ih test
  | project columnIndices fieldNames _ ih => exact .project columnIndices fieldNames ih
  | sort columnIndex fieldName direction _ ih => exact .sort columnIndex fieldName direction ih
  | topK columnIndex fieldName direction k _ ih => exact .topK columnIndex fieldName direction k ih
  | limit limit below ih =>
    cases below with
    | sort columnIndex fieldName direction _ =>
      -- a top-k for both: the sort below is rewritten to a sort of what is below it
      cases ih with
      | sort _ _ _ hgrandchild => exact .topK columnIndex fieldName direction limit hgrandchild
    | scan | filter | project | limit | topK => exact .limit limit ih

section Denotations

variable [StdLibrary]

/-- A blocking stage does the same with the same rows. -/
theorem block {opened opened' : Opened} (h : opened.feed.SameRows opened'.feed)
    (fill : List Row → Row → Except Exception (List Row)) (comparator : RowComparator) :
    SameSuccess (fun sorted sorted' : Opened => sorted.feed.SameRows sorted'.feed)
      (opened.block fill comparator) (opened'.block fill comparator) := by
  have hfinish := h.finish
  unfold Opened.block
  rw [h.rows]
  cases opened'.feed.rows.foldlM fill [] with
  | error e => exact .error e e
  | ok buffer =>
    generalize opened.feed.finish = finish at hfinish
    generalize opened'.feed.finish = finish' at hfinish
    rcases finish with - | e
    · rcases finish' with - | e'
      · simp only
        cases StdAlgorithms.stdSort comparator.call buffer with
        | error e => exact .error e e
        | ok sorted => exact .ok (.ofList _ _ sorted)
      · cases hfinish
    · rcases finish' with - | e'
      · cases hfinish
      · exact .error e e'

/-- **The same rows.** -/
theorem denote (h : SamePlan node node') :
    SameSuccess (fun opened opened' : Opened => opened.feed.SameRows opened'.feed)
      (buildPhysicalPlan node).denote (buildPhysicalPlan node').denote := by
  induction h with
  | scan table => exact .ok (.scan 0 table.rows)
  | filter _ test ih => exact ih.map fun _ _ hsame => hsame.filter test
  | project columnIndices _ _ ih =>
    exact ih.map fun _ _ hsame => hsame.mapRows (ProjectStage.project columnIndices)
  | sort columnIndex _ direction _ ih =>
    exact ih.bind fun _ _ hsame => block hsame SortStage.fill { columnIndex, direction }
  | limit limit _ ih =>
    exact ih.map fun opened opened' hsame => hsame.limit limit opened.mark opened'.mark
  | topK columnIndex _ direction k _ ih =>
    exact ih.bind fun _ _ hsame =>
      block hsame (TopKStage.fill { columnIndex, direction } k) { columnIndex, direction }

end Denotations

end SamePlan

/-! ## What the JSON of a plan tells

  Inverting the rendering, one node at a time: the kind of a node, its own members, and the JSON of
  its child. -/

/-- Two nodes that are shown alike: what is shown of the roots is equal, and what is shown of the
    children. -/
inductive ShownAlike : LogicalPlanNode → LogicalPlanNode → Prop where
  | scan (table table' : Table) : ShownAlike (.kScan table) (.kScan table')
  | filter {child child' : LogicalPlanNode} {predicate predicate' : Expression}
      (below : child.toJson = child'.toJson) (text : predicate.describe = predicate'.describe) :
      ShownAlike (.kFilter child predicate) (.kFilter child' predicate')
  | project {child child' : LogicalPlanNode} (columnIndices columnIndices' : List Nat)
      (fieldNames : List String) (below : child.toJson = child'.toJson) :
      ShownAlike (.kProject child columnIndices fieldNames)
        (.kProject child' columnIndices' fieldNames)
  | sort {child child' : LogicalPlanNode} (columnIndex columnIndex' : Nat) (fieldName : String)
      (direction : SortDirection) (below : child.toJson = child'.toJson) :
      ShownAlike (.kSort child columnIndex fieldName direction)
        (.kSort child' columnIndex' fieldName direction)
  | limit {child child' : LogicalPlanNode} {limit limit' : Nat}
      (count : Json.ofNat limit = Json.ofNat limit') (below : child.toJson = child'.toJson) :
      ShownAlike (.kLimit child limit) (.kLimit child' limit')
  | topK {child child' : LogicalPlanNode} (columnIndex columnIndex' : Nat) (fieldName : String)
      (direction : SortDirection) {k k' : Nat} (count : Json.ofNat k = Json.ofNat k')
      (below : child.toJson = child'.toJson) :
      ShownAlike (.kTopK child columnIndex fieldName direction k)
        (.kTopK child' columnIndex' fieldName direction k')

/-- The members of a node, as `nlohmann::json` orders them. -/
def LogicalPlanNode.members : LogicalPlanNode → List (String × Json)
  | .kScan table =>
    [("fields", .array (table.schema.fields.map .string)), ("node", .string "Scan"),
      ("rowCount", .ofNat table.rows.length)]
  | .kFilter child predicate =>
    [("child", child.toJson), ("node", .string "Filter"), ("predicate", .string predicate.describe)]
  | .kProject child _ fieldNames =>
    [("child", child.toJson), ("fields", .array (fieldNames.map .string)),
      ("node", .string "Project")]
  | .kSort child _ fieldName direction =>
    [("child", child.toJson), ("direction", .numberInteger (directionToInt direction)),
      ("field", .string fieldName), ("node", .string "Sort")]
  | .kLimit child limit =>
    [("child", child.toJson), ("count", .ofNat limit), ("node", .string "Limit")]
  | .kTopK child _ fieldName direction k =>
    [("child", child.toJson), ("direction", .numberInteger (directionToInt direction)),
      ("field", .string fieldName), ("k", .ofNat k), ("node", .string "TopK")]

/-- The members of a node, as a list. -/
theorem toJson_eq_members (node : LogicalPlanNode) : node.toJson = .object node.members := by
  cases node <;>
    simp +decide only [LogicalPlanNode.toJson, LogicalPlanNode.members, Json.ofMembers,
      Json.setMember, List.foldl, ↓reduceIte]

/-- Two directions are written differently. -/
theorem directionToInt_injective {direction direction' : SortDirection}
    (h : directionToInt direction = directionToInt direction') : direction = direction' := by
  revert h
  cases direction <;> cases direction' <;> decide

/-- **The inversion lemma.** -/
theorem toJson_cases {node node' : LogicalPlanNode} (h : node.toJson = node'.toJson) :
    ShownAlike node node' := by
  rw [toJson_eq_members, toJson_eq_members] at h
  have hmembers := Json.object.inj h
  cases node <;> cases node' <;>
    simp only [LogicalPlanNode.members, List.cons.injEq, Prod.mk.injEq, Json.string.injEq,
      Json.array.injEq, Json.numberInteger.injEq, String.reduceEq, reduceCtorEq, and_true, true_and,
      and_false, false_and] at hmembers
  case kScan.kScan table table' => exact .scan table table'
  case kFilter.kFilter => exact .filter hmembers.1 hmembers.2
  case kProject.kProject child columnIndices fieldNames child' columnIndices' fieldNames' =>
    obtain ⟨hbelow, hnames⟩ := hmembers
    obtain rfl : fieldNames = fieldNames' :=
      List.map_injective_iff.mpr (fun _ _ => Json.string.inj) hnames
    exact .project columnIndices columnIndices' fieldNames hbelow
  case kSort.kSort =>
    obtain ⟨hbelow, hdirection, rfl⟩ := hmembers
    obtain rfl := directionToInt_injective hdirection
    exact .sort _ _ _ _ hbelow
  case kLimit.kLimit => exact .limit hmembers.2 hmembers.1
  case kTopK.kTopK =>
    obtain ⟨hbelow, hdirection, rfl, hcount⟩ := hmembers
    obtain rfl := directionToInt_injective hdirection
    exact .topK _ _ _ _ hcount hbelow

/-! ## Bound plans that are shown alike

  A column index is not shown, but a bound plan has the index of the name it shows.  The text of a
  predicate is read back by `Explain/Legible.lean`, where it can be. -/

/-- The comparisons of a stage. -/
def ParsedStage.comparisons : ParsedStage → List ParsedComparison
  | .kMatch stage => stage.predicates
  | .kProject _ | .kSort _ | .kLimit _ => []

/-- The texts of all comparisons show where their parts end. -/
def LegibleStages (stages : List ParsedStage) : Prop :=
  ∀ stage ∈ stages, ∀ predicate ∈ stage.comparisons, predicate.Legible

/-- At the same place of two matches, a double of the one is shown like a number of the other only
    where the two are equal. -/
def NumbersShown (predicates predicates' : List ParsedComparison) : Prop :=
  ∀ (i : Nat) (predicate predicate' : ParsedComparison),
    predicates[i]? = some predicate → predicates'[i]? = some predicate' →
    typeOf predicate.literal = .kDouble ∨ typeOf predicate'.literal = .kDouble →
    predicate.literal.describe = predicate'.literal.describe →
    predicate.literal = predicate'.literal ∨
      valuesEqual predicate.literal predicate'.literal = .ok true

/-- The same, of the matches at the same places of two pipelines. -/
def StagesShown (stages stages' : List ParsedStage) : Prop :=
  ∀ (i : Nat) (parsed parsed' : ParsedMatchStage),
    stages[i]? = some (.kMatch parsed) → stages'[i]? = some (.kMatch parsed') →
    NumbersShown parsed.predicates parsed'.predicates

/-- The root of a chain, and what is below it. -/
def LogicalPlanNode.RootOf (table : Table) (stages : List ParsedStage) : LogicalPlanNode → Prop
  | .kScan table' => stages = [] ∧ table' = table
  | .kFilter child predicate =>
    ∃ preceding parsed, stages = preceding ++ [.kMatch parsed] ∧ ChainOf table preceding child ∧
      BindsMatch (outputSchemaOf child) parsed.predicates predicate ∧
      predicate.PositionedIn (outputSchemaOf child)
  | .kProject child columnIndices fieldNames =>
    ∃ preceding stage, stages = preceding ++ [stage] ∧ ChainOf table preceding child ∧
      List.Forall₂ (fun columnIndex fieldName =>
        (outputSchemaOf child).indexOf fieldName = some columnIndex) columnIndices fieldNames
  | .kSort child columnIndex fieldName _ =>
    ∃ preceding stage, stages = preceding ++ [stage] ∧ ChainOf table preceding child ∧
      (outputSchemaOf child).indexOf fieldName = some columnIndex
  | .kLimit child limit =>
    ∃ preceding stage, stages = preceding ++ [stage] ∧ ChainOf table preceding child ∧
      limit < 2 ^ 63
  | .kTopK _ _ _ _ _ => False

/-- The root of a bound plan is the node of the last stage. -/
theorem ChainOf.root {table : Table} {stages : List ParsedStage} {node : LogicalPlanNode}
    (h : ChainOf table stages node) : node.RootOf table stages := by
  cases h with
  | scan => exact ⟨rfl, rfl⟩
  | @stage preceding child node stage below binds shows positioned =>
    generalize outputSchemaOf node = schema at binds
    cases binds with
    | «match» binds => exact ⟨preceding, _, rfl, below, binds, positioned⟩
    | project addresses distinct => exact ⟨preceding, _, rfl, below, positioned⟩
    | sort addresses known => exact ⟨preceding, _, rfl, below, positioned⟩
    | @limit parsed count known =>
      refine ⟨preceding, _, rfl, below, ?_⟩
      unfold bindLimit at known
      split at known
      · cases known
      · rw [← Except.ok.inj known]
        have hlt := parsed.countRaw.toInt_lt
        omega

/-- A bound comparison has an operator the binder knows. -/
theorem BindsComparison.known {schema : Schema} {parsed : ParsedComparison}
    {expression : Expression} (h : BindsComparison schema parsed expression) :
    parsed.opToken ∈ operatorTokens := by
  obtain ⟨index, op, -, known⟩ := h
  by_contra hunknown
  rw [parseComparisonOperator_eq_none.mpr hunknown] at known
  cases known

/-- Counters below the limit of an unsigned integer are told apart. -/
theorem Json.ofNat_injective {m n : Nat} (hm : m < 2 ^ 63) (hn : n < 2 ^ 63)
    (h : Json.ofNat m = Json.ofNat n) : m = n := by
  have htoNat := congrArg UInt64.toNat (Json.numberUnsigned.inj h)
  rwa [UInt64.toNat_ofNat_of_lt' (hm.trans (by decide)),
    UInt64.toNat_ofNat_of_lt' (hn.trans (by decide))] at htoNat

/-- What is shown of two matches, read back. -/
theorem match_reads {schema : Schema} {predicates predicates' : List ParsedComparison}
    {predicate predicate' : Expression} (hlegible : ∀ comparison ∈ predicates, comparison.Legible)
    (hlegible' : ∀ comparison ∈ predicates', comparison.Legible)
    (hnumbers : NumbersShown predicates predicates')
    (hbinds : BindsMatch schema predicates predicate) (hposition : predicate.PositionedIn schema)
    (hbinds' : BindsMatch schema predicates' predicate')
    (hposition' : predicate'.PositionedIn schema)
    (htext : predicate.describe = predicate'.describe) (row : Row) :
    SameSuccess Eq (predicate.test row) (predicate'.test row) := by
  have hknown : ∀ {predicates : List ParsedComparison} {predicate : Expression},
      BindsMatch schema predicates predicate → predicate.PositionedIn schema →
      ∀ comparison ∈ predicates, comparison.opToken ∈ operatorTokens := by
    intro predicates predicate hbinds hposition comparison hmem
    obtain ⟨operands, hoperands, -, -⟩ := hbinds.operands hposition
    obtain ⟨operand, -, hoperand⟩ := hoperands.exists_of_mem_left hmem
    exact hoperand.known
  have hsame := matchText_reads
    (fun comparison hmem => ⟨hknown hbinds hposition comparison hmem, hlegible comparison hmem⟩)
    (fun comparison hmem => ⟨hknown hbinds' hposition' comparison hmem, hlegible' comparison hmem⟩)
    (by rw [← describe_match hbinds, ← describe_match hbinds', htext])
  refine match_sameSuccess hbinds hposition hbinds' hposition' ?_ row
  obtain ⟨hlength, hplaces⟩ := List.forall₂_iff_get.mp hsame
  refine List.forall₂_iff_get.mpr ⟨hlength, fun i hi hi' => ?_⟩
  have hcomparison := hplaces i hi hi'
  refine ⟨hcomparison, ?_⟩
  rcases eq_of_describe hcomparison.literal with hequal | ⟨hnumeric, hnumeric', hdouble⟩
  · exact .inl hequal
  · rcases hnumbers i _ _ (List.getElem?_eq_getElem hi) (List.getElem?_eq_getElem hi') hdouble
      hcomparison.literal with hequal | hequal
    · exact .inl hequal
    · exact indistinct_of_valuesEqual hnumeric hnumeric' hequal

/-- What is shown of the stages before the last. -/
theorem StagesShown.below {preceding preceding' : List ParsedStage} {stage stage' : ParsedStage}
    (h : StagesShown (preceding ++ [stage]) (preceding' ++ [stage'])) :
    StagesShown preceding preceding' := by
  intro i parsed parsed' hparsed hparsed'
  refine h i parsed parsed' ?_ ?_
  · rw [List.getElem?_append_left (List.getElem?_eq_some_iff.mp hparsed).1]
    exact hparsed
  · rw [List.getElem?_append_left (List.getElem?_eq_some_iff.mp hparsed').1]
    exact hparsed'

/-- **Plans that are shown alike are the same**, by induction on the one: the JSON tells the kind of
    the root and what is below it.  The chains are as long as each other, so the matches that are
    read stand at the same place. -/
theorem samePlan_of_toJson {table : Table} {node node' : LogicalPlanNode}
    {stages stages' : List ParsedStage} (hchain : ChainOf table stages node)
    (hchain' : ChainOf table stages' node') (hlegible : LegibleStages stages)
    (hlegible' : LegibleStages stages') (hnumbers : StagesShown stages stages')
    (h : node.toJson = node'.toJson) :
    SamePlan node node' ∧ stages.length = stages'.length := by
  have hbelow : ∀ {preceding : List ParsedStage} {stage : ParsedStage},
      LegibleStages (preceding ++ [stage]) → LegibleStages preceding :=
    fun hlegible earlier hmem => hlegible earlier (List.mem_append_left _ hmem)
  have hlast : ∀ {preceding : List ParsedStage} {stage : ParsedStage},
      stage ∈ preceding ++ [stage] := List.mem_append_right _ List.mem_cons_self
  have hlonger : ∀ {preceding preceding' : List ParsedStage} {stage stage' : ParsedStage},
      preceding.length = preceding'.length →
      (preceding ++ [stage]).length = (preceding' ++ [stage']).length := by
    intro preceding preceding' stage stage' hlength
    rw [List.length_append, List.length_append, hlength]
    rfl
  induction node generalizing node' stages stages' with
  | kScan table' =>
    cases toJson_cases h with
    | scan _ table'' =>
      obtain ⟨rfl, rfl⟩ := hchain.root
      obtain ⟨rfl, rfl⟩ := hchain'.root
      exact ⟨.scan _, rfl⟩
  | kFilter child predicate ih =>
    cases toJson_cases h with
    | @filter _ child' _ predicate' below text =>
      obtain ⟨preceding, parsed, rfl, hchild, hbinds, hposition⟩ := hchain.root
      obtain ⟨preceding', parsed', rfl, hchild', hbinds', hposition'⟩ := hchain'.root
      obtain ⟨hsame, hlength⟩ :=
        ih hchild hchild' (hbelow hlegible) (hbelow hlegible') hnumbers.below below
      rw [← hsame.outputSchema] at hbinds' hposition'
      have hnumbersHere : NumbersShown parsed.predicates parsed'.predicates := by
        refine hnumbers preceding.length parsed parsed' List.getElem?_concat_length ?_
        rw [hlength]
        exact List.getElem?_concat_length
      exact ⟨.filter hsame (match_reads (hlegible _ hlast) (hlegible' _ hlast) hnumbersHere hbinds
        hposition hbinds' hposition' text), hlonger hlength⟩
  | kProject child columnIndices fieldNames ih =>
    cases toJson_cases h with
    | @project _ child' _ columnIndices' _ below =>
      obtain ⟨preceding, stage, rfl, hchild, hposition⟩ := hchain.root
      obtain ⟨preceding', stage', rfl, hchild', hposition'⟩ := hchain'.root
      obtain ⟨hsame, hlength⟩ :=
        ih hchild hchild' (hbelow hlegible) (hbelow hlegible') hnumbers.below below
      rw [← hsame.outputSchema] at hposition'
      obtain rfl : columnIndices = columnIndices' :=
        List.left_unique_forall₂' (fun _ _ _ hfirst hsecond =>
          Option.some.inj (hfirst.symm.trans hsecond)) hposition hposition'
      exact ⟨.project columnIndices fieldNames hsame, hlonger hlength⟩
  | kSort child columnIndex fieldName direction ih =>
    cases toJson_cases h with
    | @sort _ child' _ columnIndex' _ _ below =>
      obtain ⟨preceding, stage, rfl, hchild, hposition⟩ := hchain.root
      obtain ⟨preceding', stage', rfl, hchild', hposition'⟩ := hchain'.root
      obtain ⟨hsame, hlength⟩ :=
        ih hchild hchild' (hbelow hlegible) (hbelow hlegible') hnumbers.below below
      rw [← hsame.outputSchema, hposition] at hposition'
      obtain rfl := Option.some.inj hposition'
      exact ⟨.sort columnIndex fieldName direction hsame, hlonger hlength⟩
  | kLimit child limit ih =>
    cases toJson_cases h with
    | @limit _ child' _ limit' count below =>
      obtain ⟨preceding, stage, rfl, hchild, hsmall⟩ := hchain.root
      obtain ⟨preceding', stage', rfl, hchild', hsmall'⟩ := hchain'.root
      obtain ⟨hsame, hlength⟩ :=
        ih hchild hchild' (hbelow hlegible) (hbelow hlegible') hnumbers.below below
      obtain rfl := Json.ofNat_injective hsmall hsmall' count
      exact ⟨.limit limit hsame, hlonger hlength⟩
  | kTopK child columnIndex fieldName direction k => exact absurd hchain.root not_false

end QueryLume
