/-
  The plans of a report are one plan.

  A report shows a query five times: parsed, bound, optimized, as the rewrites that were tried, and
  as physical stages.  Whoever has read the parsed pipeline can tell the other four beforehand, up
  to the fields of the table and how many documents it has (`report_plans`): node after node for
  the logical plan, with each limit and the sort right below it joined for the optimized one, and a
  stage for each node of that.

  `ShownNode` is a node as it is shown, and `ShowsNodes` reads a chain of them from a JSON value.
  On such chains the optimizer is a function on lists (`mergePairs`, with `rewrite_shown`), and
  whether it applied is whether that function changed anything.
-/
import QueryLume.Explain.SamePlan
import QueryLume.Query.ReportFigures

namespace QueryLume

/-! ## Nodes

  What a report shows of a plan is a chain of nodes, each with a name and some members.  The three
  plans of a report are three such chains. -/

/-- A node of a logical plan, as it is shown. -/
inductive ShownNode where
  | scan (fields : List String) (rowCount : Nat)
  | filter (predicate : String)
  | project (fields : List String)
  | sort (field : String) (direction : Int64)
  | limit (count : Nat)
  | topK (field : String) (direction : Int64) (k : Nat)
deriving DecidableEq

namespace ShownNode

/-- The members in which a node is shown. -/
def members : ShownNode → List (String × Json)
  | scan fields rowCount => [("node", .string "Scan"), ("fields", .array (fields.map .string)),
      ("rowCount", .ofNat rowCount)]
  | filter predicate => [("node", .string "Filter"), ("predicate", .string predicate)]
  | project fields => [("node", .string "Project"), ("fields", .array (fields.map .string))]
  | sort field direction => [("node", .string "Sort"), ("field", .string field),
      ("direction", .numberInteger direction)]
  | limit count => [("node", .string "Limit"), ("count", .ofNat count)]
  | topK field direction k => [("node", .string "TopK"), ("field", .string field),
      ("direction", .numberInteger direction), ("k", .ofNat k)]

/-- The stage that carries a node out. -/
def stageName : ShownNode → String
  | scan _ _ => "CollectionScanStage"
  | filter _ => "FilterStage"
  | project _ => "ProjectStage"
  | sort _ _ => "SortStage"
  | limit _ => "LimitStage"
  | topK _ _ _ => "TopKStage"

/-- Every limit joined with the sort right below it. -/
def mergePairs : List ShownNode → List ShownNode
  | limit count :: sort field direction :: below => topK field direction count :: mergePairs below
  | node :: below => node :: mergePairs below
  | [] => []

/-- No member is shown twice, and none is called like the one for the node below. -/
theorem members_nodup (node : ShownNode) : (node.members.map Prod.fst ++ ["child"]).Nodup := by
  cases node with
  | scan | filter | project | sort | limit | topK =>
    simp only [members, List.map_cons, List.map_nil]
    decide

end ShownNode

/-- The nodes of a reported plan, from the root down: each has its members, and the node below it
    under `child`. -/
inductive ShowsNodes : Json → List ShownNode → Prop where
  | scan {json : Json} {node : ShownNode}
      (members : ∀ m ∈ node.members, json.at? m.1 = some m.2) (last : json.at? "child" = none) :
      ShowsNodes json [node]
  | over {json below : Json} {node : ShownNode} {rest : List ShownNode}
      (members : ∀ m ∈ node.members, json.at? m.1 = some m.2)
      (child : json.at? "child" = some below) (shows : ShowsNodes below rest) :
      ShowsNodes json (node :: rest)

/-- The nodes of a plan, from the root down. -/
def LogicalPlanNode.shown : LogicalPlanNode → List ShownNode
  | .kScan table => [.scan table.schema.fields table.rows.length]
  | .kFilter child predicate => .filter predicate.describe :: child.shown
  | .kProject child _ fieldNames => .project fieldNames :: child.shown
  | .kSort child _ fieldName direction =>
    .sort fieldName (directionToInt direction) :: child.shown
  | .kLimit child limit => .limit limit :: child.shown
  | .kTopK child _ fieldName direction k =>
    .topK fieldName (directionToInt direction) k :: child.shown

/-- The node a stage becomes. -/
def ParsedStage.shown : ParsedStage → ShownNode
  | .kMatch stage => .filter (String.ofList (matchText stage.predicates))
  | .kProject stage => .project (stage.fields.map (·.fieldName))
  | .kSort stage => .sort stage.field.fieldName stage.directionRaw
  | .kLimit stage => .limit stage.countRaw.toInt.toNat

/-- The nodes a pipeline becomes, the last stage first. -/
def ParsedPipeline.shown (parsed : ParsedPipeline) (table : Table) : List ShownNode :=
  (parsed.stages.map ParsedStage.shown).reverse ++
    [.scan table.schema.fields table.rows.length]

/-! ## Showing

  Rendering a logical plan shows its nodes, and a physical plan has one stage for each of them. -/

theorem ShowsNodes.node (node : ShownNode) {below : Json} {rest : List ShownNode}
    (h : ShowsNodes below rest) :
    ShowsNodes (Json.ofMembers (node.members ++ [("child", below)])) (node :: rest) := by
  have hnodup : ((node.members ++ [("child", below)]).map Prod.fst).Nodup := by
    rw [List.map_append]
    exact node.members_nodup
  refine .over (fun m hm => ?_) ?_ h
  · exact Json.at?_ofMembers hnodup (List.mem_append_left _ hm)
  · exact Json.at?_ofMembers hnodup (List.mem_append_right _ (List.mem_singleton_self _))

/-- The JSON of a logical plan shows its nodes. -/
theorem LogicalPlanNode.toJson_shows : ∀ plan : LogicalPlanNode, ShowsNodes plan.toJson plan.shown
  | .kScan table => by
    have hnodup : (["node", "fields", "rowCount"] : List String).Nodup := by decide
    refine .scan (fun m hm => ?_) ?_
    · exact Json.at?_ofMembers hnodup hm
    · exact @Json.at?_ofMembers_eq [("node", _), ("fields", _), ("rowCount", _)] hnodup "child"
  | .kFilter child predicate => child.toJson_shows.node (.filter predicate.describe)
  | .kProject child _ fieldNames => child.toJson_shows.node (.project fieldNames)
  | .kSort child _ fieldName direction =>
    child.toJson_shows.node (.sort fieldName (directionToInt direction))
  | .kLimit child limit => child.toJson_shows.node (.limit limit)
  | .kTopK child _ fieldName direction k =>
    child.toJson_shows.node (.topK fieldName (directionToInt direction) k)

/-- A physical plan has a stage for each node. -/
theorem buildPhysicalPlan_shown : ∀ (plan : LogicalPlanNode) (this : (buildPhysicalPlan plan).Object),
    ((buildPhysicalPlan plan).stages this).map (·.tree.stageName) =
      plan.shown.map ShownNode.stageName
  | .kScan _, _ => rfl
  | .kFilter child _, _ | .kProject child _ _, _ | .kSort child _ _ _, _ | .kLimit child _, _
  | .kTopK child _ _ _ _, _ => congrArg (_ :: ·) (buildPhysicalPlan_shown child _)

/-! ## Binding -/

theorem bindSortDirection_shown {directionRaw : Int64} {direction : SortDirection}
    (h : bindSortDirection directionRaw = .ok direction) :
    directionToInt direction = directionRaw := by
  unfold bindSortDirection at h
  split at h
  · rename_i hone
    rw [← Except.ok.inj h, hone]
    rfl
  split at h
  · rename_i hminus
    rw [← Except.ok.inj h, hminus]
    rfl
  cases h

theorem bindLimit_shown {countRaw : Int64} {count : Nat} (h : bindLimit countRaw = .ok count) :
    countRaw.toInt.toNat = count := by
  unfold bindLimit at h
  split at h
  · cases h
  · exact Except.ok.inj h

/-- Binding a stage puts its node over the plan. -/
theorem BindsStage.shown {schema schema' : Schema} {node node' : LogicalPlanNode}
    {stage : ParsedStage} (h : BindsStage schema node stage schema' node') :
    node'.shown = stage.shown :: node.shown := by
  cases h with
  | «match» binds =>
    rw [LogicalPlanNode.shown, ParsedStage.shown, ← describe_match binds, String.ofList_toList]
  | project => rfl
  | sort _ known => rw [LogicalPlanNode.shown, ParsedStage.shown, bindSortDirection_shown known]
  | limit known => rw [LogicalPlanNode.shown, ParsedStage.shown, bindLimit_shown known]

/-- Binding stages puts their nodes over the plan, the last one on top. -/
theorem bindStages_shown : ∀ {stages : List ParsedStage} {schema : Schema}
    {node plan : LogicalPlanNode}, bindStages schema node stages = .ok plan →
    plan.shown = (stages.map ParsedStage.shown).reverse ++ node.shown
  | [], _, _, _, h => by
    rw [← Except.ok.inj h]
    rfl
  | stage :: stages, schema, node, plan, h => by
    obtain ⟨schema', node', hstage, hrest⟩ := bindStages_cons_ok h
    rw [bindStages_shown hrest, (bindStage_cases hstage).shown, List.map_cons, List.reverse_cons,
      List.append_assoc]
    rfl

/-! ## Rewriting -/

/-- The rewrite joins the pairs, and its flag says whether that changes the plan. -/
theorem rewrite_shown (plan : LogicalPlanNode) :
    (SortLimitToTopKRule.rewrite plan).1.shown = ShownNode.mergePairs plan.shown ∧
      ((SortLimitToTopKRule.rewrite plan).2 = true ↔
        ShownNode.mergePairs plan.shown ≠ plan.shown) := by
  have hkept : ∀ {node : ShownNode} {rest rest' : List ShownNode} {applied : Bool},
      (applied = true ↔ rest' ≠ rest) → (applied = true ↔ node :: rest' ≠ node :: rest) := by
    intro node rest rest' applied h
    rw [h, not_iff_not, List.cons_inj_right]
  fun_induction SortLimitToTopKRule.rewrite plan with
  | case1 grandchild columnIndex fieldName direction limit ih =>
    refine ⟨congrArg (_ :: ·) ih.1, iff_of_true rfl fun h => ?_⟩
    cases (List.cons.inj h).1
  | case2 table => exact ⟨rfl, iff_of_false Bool.false_ne_true fun h => h rfl⟩
  | case3 child predicate ih | case4 child columnIndices fieldNames ih
  | case5 child columnIndex fieldName direction ih
  | case7 child columnIndex fieldName direction k ih =>
    exact ⟨congrArg (_ :: ·) ih.1, hkept ih.2⟩
  | case6 child limit hsort ih =>
    have hmerge : ShownNode.mergePairs (.limit limit :: child.shown) =
        .limit limit :: ShownNode.mergePairs child.shown := by
      cases child with
      | kSort => exact absurd rfl (hsort _ _ _ _)
      | kScan | kFilter | kProject | kLimit | kTopK => rfl
    rw [LogicalPlanNode.shown, LogicalPlanNode.shown, hmerge, ih.1]
    exact ⟨rfl, hkept ih.2⟩

/-! ## Reports

  All plans of a report come from one planned query, so they are related as binding, rewriting and
  planning relate them. -/

/-- The plans, rewrites and stages of a report are those of a parsed pipeline over the table. -/
structure PlansOf (table : Table) (parsed : ParsedPipeline) (report : Json) : Prop where
  logical : ∃ plan, report.at? "logicalPlan" = some plan ∧ ShowsNodes plan (parsed.shown table)
  optimized : ∃ plan, report.at? "optimizedLogicalPlan" = some plan ∧
    ShowsNodes plan (ShownNode.mergePairs (parsed.shown table))
  rewrites : report.at? "rewrites" = some (.array [.ofMembers
    [("rule", .string "SortLimitToTopK"),
      ("applied", .boolean (ShownNode.mergePairs (parsed.shown table) != parsed.shown table))]])
  physical : ∃ plan stages, report.at? "physicalPlan" = some plan ∧ ShowsStages plan stages ∧
    stages.map Prod.fst = (ShownNode.mergePairs (parsed.shown table)).map ShownNode.stageName

section Reports

variable [StdLibrary] {table : Table} {pipelineJson : Json}

/-- Both reports show the plans of the query, and its stages in some state. -/
theorem Reports.planned {report : Json} (h : Reports table pipelineJson report) :
    ∃ planned, planQuery table pipelineJson = .ok planned ∧
      (∀ m ∈ planned.planMembers, report.at? m.1 = some m.2) ∧
      ∃ this includeStats, report.at? "physicalPlan" =
        some (planned.physicalRoot.toJson this includeStats) := by
  cases h with
  | explain explains =>
    obtain ⟨planned, hplanned, rfl⟩ := Except.map_eq_ok explains
    refine ⟨planned, hplanned, fun m hm => ?_, planned.physicalRoot.constructed, false, ?_⟩
    · exact planned.at?_explained (List.mem_append_left _ hm)
    · exact planned.at?_explained (List.mem_append_right _ (List.mem_singleton_self _))
  | analyze clock includeResults analyzes =>
    obtain ⟨analysis, hanalysis, rfl⟩ := Except.map_eq_ok analyzes
    refine ⟨analysis.planned, analyze_planned hanalysis, fun m hm => ?_, analysis.stage, true, ?_⟩
    · exact analysis.at?_toJson includeResults
        (List.mem_append_left _ (List.mem_append_left _ hm))
    · exact analysis.at?_toJson includeResults
        (List.mem_append_left _ (List.mem_append_right _ List.mem_cons_self))

omit [StdLibrary] in
/-- All plans of a planned query come from the one that was bound. -/
theorem planQuery_bound {planned : PlannedQuery} (h : planQuery table pipelineJson = .ok planned) :
    ∃ plan, bindPipeline table planned.parsed = .ok plan ∧
      planned.planMembers = [("parsedPipeline", planned.parsed.toJson), ("logicalPlan", plan.toJson),
        ("optimizedLogicalPlan", (SortLimitToTopKRule.rewrite plan).1.toJson),
        ("rewrites", traceToJson [{ rule := SortLimitToTopKRule.name
                                    applied := (SortLimitToTopKRule.rewrite plan).2 }])] ∧
      planned.physicalRoot = buildPhysicalPlan (SortLimitToTopKRule.rewrite plan).1 := by
  cases hparse : parsePipeline pipelineJson with
  | error e => simp only [planQuery, hparse] at h; cases h
  | ok parsed =>
    cases hbind : bindPipeline table parsed with
    | error e => simp only [planQuery, hparse, hbind] at h; cases h
    | ok plan =>
      simp only [planQuery, hparse, hbind] at h
      obtain rfl := Except.ok.inj h
      exact ⟨plan, hbind, rfl, rfl⟩

/-- **One plan.**  Every report of a query, by EXPLAIN or by EXPLAIN ANALYZE, shows the pipeline
    that was parsed; its two logical plans, its rewrites and its stages are those of this pipeline.
    -/
theorem report_plans {report : Json} (hreport : Reports table pipelineJson report) :
    ∃ parsed, parsePipeline pipelineJson = .ok parsed ∧ readReport report = some parsed ∧
      PlansOf table parsed report := by
  obtain ⟨planned, hplanned, hmembers, this, includeStats, hphysical⟩ := hreport.planned
  obtain ⟨plan, hbind, hplans, hroot⟩ := planQuery_bound hplanned
  rw [hplans] at hmembers
  simp only [List.forall_mem_cons] at hmembers
  obtain ⟨hparsed, hlogical, hoptimized, hrewrites, -⟩ := hmembers
  have hshown : plan.shown = planned.parsed.shown table := bindStages_shown hbind
  obtain ⟨hrewritten, happlied⟩ := rewrite_shown plan
  rw [hshown] at hrewritten happlied
  refine ⟨planned.parsed, planQuery_parsed hplanned, readReport_shows hparsed, ?logical, ?optimized,
    ?rewrites, ?physical⟩
  case logical => exact ⟨_, hlogical, hshown ▸ plan.toJson_shows⟩
  case optimized => exact ⟨_, hoptimized, hrewritten ▸ LogicalPlanNode.toJson_shows _⟩
  case rewrites =>
    have hflag : (SortLimitToTopKRule.rewrite plan).2 =
        (ShownNode.mergePairs (planned.parsed.shown table) != planned.parsed.shown table) := by
      rw [Bool.eq_iff_iff, happlied, bne_iff_ne]
    rw [← hflag]
    exact hrewrites
  case physical =>
    refine ⟨_, _, hphysical, PlanStageTree.toJson_shows _ this includeStats, ?_⟩
    rw [List.map_map, ← hrewritten]
    generalize planned.physicalRoot = root at hroot this ⊢
    subst hroot
    exact buildPhysicalPlan_shown _ this

end Reports

/-- The limit over the sort of the sample is shown as the pair it was written as, as the node it is
    rewritten to, and as the stage that carries this out. -/
theorem report_plans_sample :
    letI := StdLibrary.reference
    ∃ report parsed, explainPipeline sampleTable samplePipelineJson = .ok report ∧
      parsePipeline samplePipelineJson = .ok parsed ∧ readReport report = some parsed ∧
      PlansOf sampleTable parsed report := by
  obtain ⟨report, hreport⟩ : ∃ report,
      explainPipeline sampleTable samplePipelineJson = .ok report := ⟨_, rfl⟩
  obtain ⟨parsed, hparse, hread, hplans⟩ :=
    @report_plans StdLibrary.reference sampleTable samplePipelineJson report
      (@Reports.explain StdLibrary.reference _ _ _ hreport)
  exact ⟨report, parsed, hreport, hparse, hread, hplans⟩

end QueryLume
