/-
  Projecting before or after filters, sorts and limits.

  A projection at the end of a pipeline can be moved to its beginning when the stages before it use
  no other field: the run ends alike, with the same rows or with the same exception
  (`run_project_moves`).  Only the rows that are kept on the way are narrower.

  1. **Acceptance** — filters, sorts and limits hand on the fields they were given (`keepsFields`),
     and can be bound over any schema that has the fields they name (`bindStages_elsewhere`).

  2. **Running** — a projection makes of a table a narrower one (`Table.narrow`), whose rows agree
     with those of the table in the fields that are left; then the two runs are runs over tables
     with other columns (`Query/OtherFields.lean`).  Projecting the result to the fields it shows
     anyway adds nothing.
-/
import QueryLume.BinderAcceptance
import QueryLume.Query.Composition
import QueryLume.Query.OtherFields
import QueryLume.Query.Streaming

namespace QueryLume

open Checked LogicalPlanNode Reference StdAlgorithms

/-! ## Parsing and binding a projection

  Filters, sorts and limits leave the fields they are given, and what they name has to be visible
  to them.  So everything they name is among the projected fields when the projection comes first.
-/

/-- A `$project` stage. -/
def projectJson (value : Json) : Json := .object [("$project", value)]

theorem parseStage_project {value : Json} {stage : ParsedStage}
    (h : parseStage (projectJson value) = .ok stage) : ∃ project, stage = .kProject project := by
  have hproject : parseStage (projectJson value) = (parseProject value).map .kProject := by
    unfold parseStage projectJson
    dsimp only
    rw [if_neg (by decide), if_pos rfl]
  rw [hproject] at h
  obtain ⟨project, -, rfl⟩ := Except.map_eq_ok h
  exact ⟨project, rfl⟩

/-- A pipeline that begins with a projection is parsed in two parts. -/
theorem parsePipeline_project_cons {value : Json} {elements : List Json} {parsed : ParsedPipeline}
    (h : parsePipeline (.array ([projectJson value] ++ elements)) = .ok parsed) :
    ∃ project stages, parsePipeline (.array [projectJson value]) = .ok ⟨[.kProject project]⟩ ∧
      parsePipeline (.array elements) = .ok ⟨stages⟩ ∧ parsed = ⟨.kProject project :: stages⟩ := by
  obtain ⟨all, hall, rfl⟩ := Except.map_eq_ok h
  cases parseStages_ok.mp hall with
  | @cons _ _ _ stages hstage hrest =>
    obtain ⟨project, rfl⟩ := parseStage_project hstage
    refine ⟨project, stages, ?_, ?_, rfl⟩
    · rw [parsePipeline, parseStages_ok.mpr (.cons hstage .nil)]
      rfl
    · have helements : parseStages elements = .ok stages := parseStages_ok.mpr hrest
      rw [parsePipeline, helements]
      rfl

/-- Does the stage hand on the fields it was given? -/
def ParsedStage.keepsFields : ParsedStage → Bool
  | .kMatch _ => true
  | .kProject _ => false
  | .kSort _ => true
  | .kLimit _ => true

/-- The stages, where they parse, are filters, sorts and limits. -/
def KeepsFields (pipelineJson : Json) : Prop :=
  ∀ parsed, parsePipeline pipelineJson = .ok parsed → ∀ stage ∈ parsed.stages,
    stage.keepsFields = true

/-- A `$match` that was bound compares visible fields. -/
theorem BindsMatch.visible {schema : Schema} {predicates : List ParsedComparison}
    {predicate : Expression} (h : BindsMatch schema predicates predicate) :
    ∀ comparison ∈ predicates, comparison.field.fieldName ∈ schema.fields := by
  have hone : ∀ {comparison : ParsedComparison} {expression : Expression},
      BindsComparison schema comparison expression → comparison.field.fieldName ∈ schema.fields := by
    rintro comparison expression ⟨index, op, addresses, -⟩
    exact List.mem_of_getElem? addresses
  intro comparison hcomparison
  cases h with
  | always => cases hcomparison
  | single binds =>
    obtain rfl := List.mem_singleton.mp hcomparison
    exact hone binds
  | conjunction binds =>
    obtain ⟨operand, -, hbinds⟩ := binds.exists_of_mem_left hcomparison
    exact hone hbinds

/-- Such a stage leaves the schema as it is, and tests fields of it. -/
theorem BindsStage.keeps {schema schema' : Schema} {node node' : LogicalPlanNode}
    {stage : ParsedStage} (h : BindsStage schema node stage schema' node')
    (hkeeps : stage.keepsFields = true) :
    schema' = schema ∧ ∀ name ∈ stage.testedFields, name ∈ schema.fields := by
  cases h with
  | @«match» parsed predicate binds =>
    refine ⟨rfl, fun name hname => ?_⟩
    obtain ⟨comparison, hcomparison, rfl⟩ := List.mem_map.mp hname
    exact binds.visible comparison hcomparison
  | project => cases hkeeps
  | sort addresses known =>
    refine ⟨rfl, fun name hname => ?_⟩
    obtain rfl := List.mem_singleton.mp hname
    exact List.mem_of_getElem? addresses
  | limit known => exact ⟨rfl, fun name hname => absurd hname List.not_mem_nil⟩

/-- Such stages test visible fields and leave them visible. -/
theorem bindStages_keeps : ∀ {stages : List ParsedStage} {node plan : LogicalPlanNode},
    (∀ stage ∈ stages, stage.keepsFields = true) →
    bindStages (outputSchemaOf node) node stages = .ok plan →
    outputSchemaOf plan = outputSchemaOf node ∧
      ∀ stage ∈ stages, ∀ name ∈ stage.testedFields, name ∈ (outputSchemaOf node).fields
  | [], node, plan, _, h => by
    obtain rfl := Except.ok.inj h
    exact ⟨rfl, fun stage hstage => absurd hstage List.not_mem_nil⟩
  | stage :: stages, node, plan, hkeeps, h => by
    obtain ⟨hfirst, hrest⟩ := List.forall_mem_cons.mp hkeeps
    obtain ⟨schema, next, hstage, h⟩ := bindStages_cons_ok h
    have hbinds := bindStage_cases hstage
    obtain ⟨hsame, hvisible⟩ := hbinds.keeps hfirst
    have hnext : outputSchemaOf next = outputSchemaOf node := hbinds.schema_eq.symm.trans hsame
    rw [hbinds.schema_eq] at h
    obtain ⟨hschema, htested⟩ := bindStages_keeps hrest h
    rw [hnext] at hschema htested
    exact ⟨hschema, List.forall_mem_cons.mpr ⟨hvisible, htested⟩⟩

/-! ## Binding over another schema

  The binder complains about a stage only where a name is missing, so what it accepts over the
  projected fields it accepts over all of them, at other positions. -/

/-- The fields a stage names. -/
def ParsedStage.mentions : ParsedStage → List String
  | .kMatch stage => stage.predicates.map (·.field.fieldName)
  | .kProject stage => stage.fields.map (·.fieldName)
  | .kSort stage => [stage.field.fieldName]
  | .kLimit _ => []

/-- The names of a projection are looked up in the schema, and compared with each other. -/
theorem fieldComplaints_elsewhere {schema schema' : Schema} : ∀ {fields : List UnresolvedFieldExpression}
    {earlier : List String}, fieldComplaints schema earlier fields = [] →
    (∀ name ∈ fields.map (·.fieldName), name ∈ schema'.fields) →
    fieldComplaints schema' earlier fields = []
  | [], _, _, _ => rfl
  | field :: fields, earlier, h, hnames => by
    obtain ⟨hfirst, hrest⟩ := List.forall_mem_cons.mp hnames
    rw [fieldComplaints, List.append_eq_nil_iff, List.append_eq_nil_iff, complainUnless_eq_nil] at h ⊢
    exact ⟨h.1, complainUnless_eq_nil.mpr hfirst, fieldComplaints_elsewhere h.2.2 hrest⟩

theorem bindFields_elsewhere {schema schema' : Schema} {fields : List UnresolvedFieldExpression}
    {indices : List Nat} (h : bindFields schema [] fields = .ok indices)
    (hnames : ∀ name ∈ fields.map (·.fieldName), name ∈ schema'.fields) :
    ∃ indices', bindFields schema' [] fields = .ok indices' := by
  have hnone := (bindFields_checked schema fields []).returns_iff.mp ⟨indices, h⟩
  exact (bindFields_checked schema' fields []).returns_iff.mpr
    (fieldComplaints_elsewhere hnone hnames)

/-- What one schema has no complaint about, neither has another with the fields that are named. -/
theorem complaintsAbout_elsewhere {schema schema' : Schema} {stage : ParsedStage}
    (h : complaintsAbout schema stage = []) (hnames : ∀ name ∈ stage.mentions, name ∈ schema'.fields) :
    complaintsAbout schema' stage = [] := by
  cases stage with
  | kMatch stage =>
    rw [complaintsAbout, List.flatMap_eq_nil_iff] at h ⊢
    intro predicate hpredicate
    have hone := h predicate hpredicate
    rw [predicateComplaints, List.append_eq_nil_iff] at hone ⊢
    exact ⟨complainUnless_eq_nil.mpr (hnames _ (List.mem_map_of_mem hpredicate)), hone.2⟩
  | kProject stage => exact fieldComplaints_elsewhere h hnames
  | kSort stage =>
    rw [complaintsAbout, List.append_eq_nil_iff] at h ⊢
    exact ⟨complainUnless_eq_nil.mpr (hnames _ List.mem_cons_self), h.2⟩
  | kLimit stage => exact h

/-- One stage, bound elsewhere; its schema is that of its plan. -/
theorem bindStage_elsewhere {node node' next : LogicalPlanNode} {stage : ParsedStage}
    {schema : Schema} (h : bindStage (outputSchemaOf node) node stage = .ok (schema, next))
    (hnames : ∀ name ∈ stage.mentions, name ∈ (outputSchemaOf node').fields) :
    ∃ next', bindStage (outputSchemaOf node') node' stage = .ok (outputSchemaOf next', next') := by
  have hnone := (bindStage_checked node stage).returns_iff.mp ⟨_, h⟩
  obtain ⟨⟨schema', next'⟩, hnext⟩ := (bindStage_checked node' stage).returns_iff.mpr
    (complaintsAbout_elsewhere hnone hnames)
  obtain rfl := (bindStage_cases hnext).schema_eq
  exact ⟨next', hnext⟩

theorem ParsedStage.mentions_of_keeps {stage : ParsedStage} (h : stage.keepsFields = true) :
    stage.mentions = stage.testedFields := by
  cases stage with
  | kMatch stage | kSort stage | kLimit stage => rfl
  | kProject stage => cases h

/-- Filters, sorts and limits can be bound over any schema that has all the fields. -/
theorem bindStages_elsewhere : ∀ {stages : List ParsedStage} {node node' plan : LogicalPlanNode},
    (∀ stage ∈ stages, stage.keepsFields = true) →
    bindStages (outputSchemaOf node) node stages = .ok plan →
    (outputSchemaOf node).fields ⊆ (outputSchemaOf node').fields →
    ∃ plan', bindStages (outputSchemaOf node') node' stages = .ok plan'
  | [], node, node', plan, _, _, _ => ⟨node', rfl⟩
  | stage :: stages, node, node', plan, hkeeps, h, hsub => by
    obtain ⟨hfirst, hrest⟩ := List.forall_mem_cons.mp hkeeps
    obtain ⟨schema, next, hstage, h⟩ := bindStages_cons_ok h
    have hbinds := bindStage_cases hstage
    obtain ⟨hsame, hvisible⟩ := hbinds.keeps hfirst
    obtain ⟨next', hstage'⟩ : ∃ next', bindStage (outputSchemaOf node') node' stage =
        .ok (outputSchemaOf next', next') :=
      bindStage_elsewhere hstage fun name hname =>
        hsub (hvisible name (stage.mentions_of_keeps hfirst ▸ hname))
    have hsame' := ((bindStage_cases hstage').keeps hfirst).1
    have hnext : outputSchemaOf next = outputSchemaOf node := hbinds.schema_eq.symm.trans hsame
    rw [hbinds.schema_eq] at h
    rw [bindStages_cons, hstage']
    refine bindStages_elsewhere hrest h ?_
    rw [hnext, hsame']
    exact hsub

theorem bindPipeline_keeps {table : Table} {stages : List ParsedStage} {plan : LogicalPlanNode}
    (hkeeps : ∀ stage ∈ stages, stage.keepsFields = true)
    (h : bindPipeline table ⟨stages⟩ = .ok plan) :
    outputSchemaOf plan = table.schema ∧
      ∀ stage ∈ stages, ∀ name ∈ stage.testedFields, name ∈ table.schema.fields := by
  have hstages : bindStages (outputSchemaOf (.kScan table)) (.kScan table) stages = .ok plan := h
  exact bindStages_keeps hkeeps hstages

theorem bindPipeline_elsewhere {table table' : Table} {stages : List ParsedStage}
    {plan : LogicalPlanNode} (hkeeps : ∀ stage ∈ stages, stage.keepsFields = true)
    (h : bindPipeline table ⟨stages⟩ = .ok plan)
    (hsub : table.schema.fields ⊆ table'.schema.fields) :
    ∃ plan', bindPipeline table' ⟨stages⟩ = .ok plan' := by
  have hstages : bindStages (outputSchemaOf (.kScan table)) (.kScan table) stages = .ok plan := h
  have hschemas : (outputSchemaOf (.kScan table)).fields ⊆ (outputSchemaOf (.kScan table')).fields :=
    hsub
  exact bindStages_elsewhere hkeeps hstages hschemas

/-! ## Projecting all columns

  The two pipelines are compared by a third one, with the projection at both ends: the second of
  them adds nothing. -/

theorem Feed.mapRows_eq_self {α ε : Type} {f : α → Except ε α} : ∀ {feed : Feed α ε},
    (∀ r ∈ feed.rows, f r = .ok r) → feed.mapRows f = feed
  | .stop finish mark, _ => rfl
  | .row r mark rest, h => by
    obtain ⟨hfirst, hrest⟩ := List.forall_mem_cons.mp h
    rw [Feed.mapRows, hfirst]
    exact congrArg (Feed.row r mark) (Feed.mapRows_eq_self hrest)

/-- A row with all of its cells moved to where they were. -/
theorem ProjectStage.project_self {schema : Schema} {indices : List Nat} {row : Row}
    (haddresses : List.Forall₂ schema.Addresses indices schema.fields) (hfields : schema.fields.Nodup)
    (hwide : row.values.length = schema.columnCount) : project indices row = .ok row := by
  have hproject := project_row haddresses hfields (row.document schema)
  rwa [row.row_document hfields hwide] at hproject

/-- Projecting a plan to its own fields adds nothing. -/
theorem LogicalPlanNode.WellBound.collect_project_self [StdLibrary] {node : LogicalPlanNode}
    (h : node.WellBound) (htable : node.table.WellFormed) {indices : List Nat}
    (haddresses : List.Forall₂ (outputSchemaOf node).Addresses indices (outputSchemaOf node).fields)
    (hfields : (outputSchemaOf node).fields.Nodup) :
    (optimizedPlan (.kProject node indices (outputSchemaOf node).fields)).denote =
      (optimizedPlan node).denote := by
  obtain ⟨hbound, hbelow⟩ := h.rewrite
  unfold optimizedPlan
  rw [Optimizer.optimize_fst, Optimizer.optimize_fst, SortLimitToTopKRule.rewrite,
    buildPhysicalPlan, PlanStageTree.denote]
  cases hdenote : (buildPhysicalPlan (SortLimitToTopKRule.rewrite node).1).denote with
  | error e => rfl
  | ok opened =>
    have hok := hbound.denote_feedOk (hbelow ▸ htable) opened hdenote
    rw [outputSchemaOf_rewrite] at hok
    rw [Except.map, Feed.mapRows_eq_self fun row hrow =>
      ProjectStage.project_self haddresses hfields (hok.derived row hrow).length_eq]

/-! ## The two pipelines

  Before and after a projection the rows agree in the fields that are left, and that is what
  `Query/OtherFields.lean` needs to run the same stages on both. -/

/-- The table with the columns of some names, in their order. -/
def Table.narrow (table : Table) (names : List String) : Table where
  schema := { fields := names }
  rows := table.rows.map fun row => (row.document table.schema).row names

section Runs

variable [StdLibrary] {table : Table} {elements : List Json} {value : Json}
  {project : ParsedProjectStage} {indices : List Nat}

omit [StdLibrary] in
theorem bindStage_project {schema : Schema} (node : LogicalPlanNode)
    (hfields : bindFields schema [] project.fields = .ok indices) :
    bindStage schema node (.kProject project) = .ok ({ fields := project.fields.map (·.fieldName) },
      .kProject node indices (project.fields.map (·.fieldName))) := by
  rw [bindStage, hfields]
  rfl

omit [StdLibrary] in
/-- The cell of a document among others, by its name. -/
theorem Reference.Document.named_row (document : Document) {visible : List String} {name : String}
    (hname : name ∈ visible) : (document.row visible).named ⟨visible⟩ name = document.cell name := by
  cases hindex : Schema.indexOf ⟨visible⟩ name with
  | none => exact absurd hname (Schema.indexOf_eq_none.mp hindex)
  | some index =>
    rw [Row.named, hindex, Option.bind, document.row_cell (Schema.getElem?_of_indexOf _ hindex)]
    rfl

/-- What a projection makes of a table. -/
theorem runPipeline_project (htable : table.Rectangular)
    (hparse : parsePipeline (.array [projectJson value]) = .ok ⟨[.kProject project]⟩)
    (hfields : bindFields table.schema [] project.fields = .ok indices) (clock : Clock) :
    runPipeline clock table (.array [projectJson value]) =
      .ok { rows := (table.narrow (project.fields.map (·.fieldName))).rows,
            outputSchema := { fields := project.fields.map (·.fieldName) } } := by
  have hbind : bindPipeline table ⟨[.kProject project]⟩ =
      .ok (.kProject (.kScan table) indices (project.fields.map (·.fieldName))) := by
    rw [bindPipeline, bindStages_cons, bindStage_project _ hfields]
    rfl
  obtain ⟨haddresses, hdistinct, -⟩ := bindFields_binds hfields
  rw [runPipeline_streaming hparse hbind (by simp [ParsedStage.streams]) rfl]
  have hrows : table.rows.filterMapM
      (perRow (.kProject (.kScan table) indices (project.fields.map (·.fieldName)))) =
        .ok (table.rows.map fun row =>
          (row.document table.schema).row (project.fields.map (·.fieldName))) := by
    refine Except.filterMapM_map fun row hrow => ?_
    have hproject := project_row haddresses hdistinct (row.document table.schema)
    rw [Row.row_document htable.distinct (htable.wide row hrow)] at hproject
    show (ProjectStage.project indices row).map some = _
    rw [hproject]
    rfl
  rw [hrows]
  rfl

omit [StdLibrary] in
/-- A projection over bound stages. -/
theorem bindPipeline_project {stages : List ParsedStage} {node : LogicalPlanNode}
    (hbind : bindPipeline table ⟨stages⟩ = .ok node)
    (hfields : bindFields (outputSchemaOf node) [] project.fields = .ok indices) :
    bindPipeline table ⟨stages ++ [.kProject project]⟩ =
      .ok (.kProject node indices (project.fields.map (·.fieldName))) := by
  have hboth := bindStages_append stages [.kProject project] (.kScan table)
  rw [show bindStages (outputSchemaOf (.kScan table)) (.kScan table) stages = .ok node from hbind,
    Except.bind, bindStages_cons, bindStage_project node hfields] at hboth
  exact hboth

omit [StdLibrary] in
/-- A pipeline with a projection at its end is parsed in two parts. -/
theorem parsePipeline_concat {stages : List ParsedStage}
    (hparse : parsePipeline (.array elements) = .ok ⟨stages⟩)
    (hlast : parsePipeline (.array [projectJson value]) = .ok ⟨[.kProject project]⟩) :
    parsePipeline (.array (elements ++ [projectJson value])) =
      .ok ⟨stages ++ [.kProject project]⟩ := by
  rw [parsePipeline_append hparse, hlast]
  rfl

/-- A projection to the fields that are shown anyway makes no difference. -/
theorem runPipeline_project_last {stages : List ParsedStage} {node : LogicalPlanNode}
    (htable : table.WellFormed) (hparse : parsePipeline (.array elements) = .ok ⟨stages⟩)
    (hlast : parsePipeline (.array [projectJson value]) = .ok ⟨[.kProject project]⟩)
    (hbind : bindPipeline table ⟨stages⟩ = .ok node)
    (hshown : (outputSchemaOf node).fields = project.fields.map (·.fieldName))
    (hfields : bindFields (outputSchemaOf node) [] project.fields = .ok indices) (clock : Clock) :
    runPipeline clock table (.array (elements ++ [projectJson value])) =
      runPipeline clock table (.array elements) := by
  obtain ⟨hbound, rfl⟩ := bindPipeline_wellBound hbind
  obtain ⟨haddresses, hdistinct, -⟩ := bindFields_binds hfields
  rw [runPipeline_eq (parsePipeline_concat hparse hlast) (bindPipeline_project hbind hfields),
    runPipeline_eq hparse hbind, ← hshown]
  rw [← hshown] at haddresses hdistinct
  rw [hbound.collect_project_self htable haddresses hdistinct]
  rfl

omit [StdLibrary] in
/-- The rows before and after a projection agree in what is left. -/
theorem agreeIn_project (table : Table) (names : List String) :
    table.AgreeIn (· ∈ names) (· = ·) (table.narrow names) := by
  refine List.forall₂_map_right_iff.mpr (List.forall₂_same.mpr fun row _ => ⟨rfl, ?_⟩)
  intro name hname
  exact ((row.document table.schema).named_row hname).symm

/-- **Projecting early or late.**  A pipeline that begins with a projection and goes on with
    filters, sorts and limits may as well end with it: where it is accepted, the two runs end alike,
    with the same rows or with the same exception. -/
theorem run_project_moves (htable : table.WellFormed) (hdistinct : table.schema.fields.Nodup)
    (hkeeps : KeepsFields (.array elements)) {plan : Json}
    (hexplain : explainPipeline table (.array ([projectJson value] ++ elements)) = .ok plan)
    (clock clock' : Clock) :
    runPipeline clock table (.array ([projectJson value] ++ elements)) =
      runPipeline clock' table (.array (elements ++ [projectJson value])) := by
  obtain ⟨planned, hplanned, -⟩ := Except.map_eq_ok hexplain
  obtain ⟨parsed, early, hparse, hbind, -, -⟩ := planQuery_ok hplanned
  obtain ⟨project, stages, hfirst, helements, rfl⟩ := parsePipeline_project_cons hparse
  obtain ⟨_, _, hstage, -⟩ := bindStages_cons_ok hbind
  obtain ⟨indices, hfields, -⟩ := Except.map_eq_ok hstage
  have hrect : table.Rectangular := ⟨htable.wide, hdistinct⟩
  obtain ⟨haddresses, hnames, -⟩ := bindFields_binds hfields
  have hbefore := runPipeline_project hrect hfirst hfields clock
  have hnarrow : (table.narrow (project.fields.map (·.fieldName))).WellFormed :=
    toTable_wellFormed htable hbefore
  -- the stages over the projected table, and over the table
  have hempty : bindPipeline table ⟨[]⟩ = .ok (.kScan table) := rfl
  have hbindFirst := bindPipeline_project hempty hfields
  have hschema : (table.narrow (project.fields.map (·.fieldName))).schema = outputSchemaOf
      (.kProject (.kScan table) indices (project.fields.map (·.fieldName))) := rfl
  have hboth := bindPipeline_append hbindFirst hschema ⟨stages⟩
  rw [show bindPipeline table ⟨[] ++ [.kProject project] ++ stages⟩ = .ok early from hbind] at hboth
  obtain ⟨node, hnode, -⟩ := Except.map_eq_ok hboth.symm
  obtain ⟨hshown, htested⟩ := bindPipeline_keeps (hkeeps _ helements) hnode
  obtain ⟨wide, hwide⟩ : ∃ wide, bindPipeline table ⟨stages⟩ = .ok wide := by
    refine bindPipeline_elsewhere (hkeeps _ helements) hnode fun name hname => ?_
    obtain ⟨column, -, hcolumn⟩ := haddresses.exists_of_mem_right hname
    exact List.mem_of_getElem? hcolumn
  have hlate : bindPipeline table ⟨stages ++ [.kProject project]⟩ =
      .ok (.kProject wide indices (project.fields.map (·.fieldName))) := by
    refine bindPipeline_project hwide ?_
    rw [(bindPipeline_keeps (hkeeps _ helements) hwide).1]
    exact hfields
  -- a projection of the projected table finds all of its fields
  obtain ⟨indices', hfields'⟩ : ∃ indices', bindFields (outputSchemaOf node) [] project.fields =
      .ok indices' := by
    refine bindFields_elsewhere hfields fun name hname => ?_
    rw [hshown]
    exact hname
  have hlate' := bindPipeline_project hnode hfields'
  calc runPipeline clock table (.array ([projectJson value] ++ elements))
    _ = runPipeline clock (table.narrow (project.fields.map (·.fieldName))) (.array elements) :=
      runPipeline_append htable hbefore elements clock clock
    _ = runPipeline clock (table.narrow (project.fields.map (·.fieldName)))
          (.array (elements ++ [projectJson value])) := by
      rw [runPipeline_project_last hnarrow helements hfirst hnode (congrArg Schema.fields hshown)
        hfields' clock]
    _ = runPipeline clock' table (.array (elements ++ [projectJson value])) := by
      refine (runPipeline_agree clock' clock (parsePipeline_concat helements hfirst) hlate hlate' rfl
        ?_ (fun name hname => hname) hrect ⟨hnarrow.wide, hnames⟩ (agreeIn_project table _)).symm
      intro stage hstage name hname
      rcases List.mem_append.mp hstage with hbelow | hlast
      · exact htested stage hbelow name hname
      · obtain rfl := List.mem_singleton.mp hlast
        cases hname

end Runs

theorem sortedFirst_keeps : KeepsFields (.array [sortJson missedSort, limitOne]) := by
  intro parsed hparse
  obtain rfl := Except.ok.inj hparse
  simp [ParsedStage.keepsFields]

/-- Dropping `b` before a top-k by `a`, or after it. -/
theorem run_project_moves_sample :
    letI := StdLibrary.reference
    runPipeline Clock.still missedTable
        (.array ([projectJson (.array [.string "a"])] ++ [sortJson missedSort, limitOne])) =
      runPipeline Clock.still missedTable
        (.array ([sortJson missedSort, limitOne] ++ [projectJson (.array [.string "a"])])) :=
  @run_project_moves StdLibrary.reference missedTable [sortJson missedSort, limitOne]
    (.array [.string "a"]) missedTable_wellFormed (by decide) sortedFirst_keeps _ rfl Clock.still
    Clock.still

end QueryLume
