/-
  What the figures of an EXPLAIN ANALYZE have to do with each other.

  The counters of a report are kept by different stages, and its totals are computed from the plan,
  the rows and the rewrite trace.  Whoever reads one may rely on this (`report_consistent`): the
  plans are those EXPLAIN shows; every stage has taken in the rows that the stage below it gave out
  and covers its time; and each total can be read off the stages, the rewrites and the result.

  What the counters are after a run comes from the invariants of whole plans — conservation
  (`Physical/Guarantees.lean`) and nesting of times (`Physical/Timing.lean`) — and from counting
  the calls of the result loop (`pullRows_counts`).  What a report shows of them is read back from
  its JSON, stage by stage from the root down (`ShowsStages`).
-/
import QueryLume.Physical.Timing
import QueryLume.Query.InputRead
import QueryLume.Query.Replay
import Mathlib.Data.List.Chain

namespace QueryLume

/-! ## A run that returns -/

namespace PlanStageTree

variable [StdLibrary] {tree : PlanStageTree}

/-- The result loop asks the root once for each row, and once more. -/
theorem pullRows_counts {s : tree.Object} (clock : Clock) (hinv : tree.Inv true s)
    (hopen : (tree.base s).state = .kOpen) (hout : (tree.base s).stats.rowsOut = 0)
    (hcalls : (tree.base s).stats.getNextCalls = 0) :
    let loop := pullRows tree.planStage clock s
    ∀ state, loop.result = .ok state → tree.Inv true loop.stage ∧
      (tree.base loop.stage).stats.rowsOut = loop.locals.length ∧
      (tree.base loop.stage).stats.getNextCalls = loop.locals.length + 1 := by
  refine whileAdvanced_rule tree.planStage collectRow
    (I := fun _ s rows => tree.Inv true s ∧ (tree.base s).state = .kOpen ∧
      (tree.base s).stats.rowsOut = rows.length ∧ (tree.base s).stats.getNextCalls = rows.length)
    (Q := fun loop => ∀ state, loop.result = .ok state → tree.Inv true loop.stage ∧
      (tree.base loop.stage).stats.rowsOut = loop.locals.length ∧
      (tree.base loop.stage).stats.getNextCalls = loop.locals.length + 1)
    ?_ clock s [] {} ⟨hinv, hopen, hout, hcalls⟩
  rintro clock s rows row ⟨hinv, hopen, hout, hcalls⟩
  obtain ⟨hasked, hresult⟩ := tree.contract.next clock row hinv hopen
  generalize tree.planStage.getNext clock s row = call at hasked hresult ⊢
  obtain ⟨result, output, s', clock'⟩ := call
  cases result with
  | error e =>
    intro state h
    cases h
  | ok state =>
    cases state with
    | kEof =>
      intro _ _
      obtain ⟨hinv', -, hout', -⟩ := hresult
      exact ⟨hinv', hout'.trans hout, by rw [hasked, hcalls]⟩
    | kAdvanced =>
      obtain ⟨hinv', hopen', hout'⟩ := hresult
      refine ⟨hinv', hopen', ?_, ?_⟩
      · rw [hout', hout, List.length_append, List.length_singleton]
      · rw [hasked, hcalls, List.length_append, List.length_singleton]

/-- After a run that returned nothing has thrown, and the root has counted the rows. -/
theorem execute_counts {clock : Clock} {rows : List Row}
    (h : (execute tree.planStage clock tree.constructed).result = .ok rows) :
    let stage := (execute tree.planStage clock tree.constructed).stage
    tree.Inv true stage ∧ (tree.base stage).stats.rowsOut = rows.length ∧
      (tree.base stage).stats.getNextCalls = rows.length + 1 := by
  have hfresh := tree.base_constructed
  obtain ⟨hout, hresult⟩ := tree.contract.opened clock tree.inv_constructed (by rw [hfresh])
  cases hopened : (tree.planStage.open clock tree.constructed).result with
  | error e =>
    rw [execute_open_error hopened] at h
    cases h
  | ok u =>
    rw [hopened] at hresult
    obtain ⟨hinv, hopen, hcalls⟩ := hresult
    rw [hfresh] at hout hcalls
    have hloop := tree.pullRows_counts (tree.planStage.open clock tree.constructed).clock hinv hopen
      hout hcalls
    rw [execute_opened hopened] at h ⊢
    obtain ⟨state, hstate, rfl⟩ := Except.map_eq_ok h
    obtain ⟨hinv', hout', hcalls'⟩ := hloop state hstate
    have hclosed := tree.contract.closed hinv'
    exact ⟨hclosed.inv, hclosed.rowsOut.trans hout', hclosed.getNextCalls.trans hcalls'⟩

/-! ## The list of stages -/

omit [StdLibrary] in
/-- Which stages there are does not depend on their objects. -/
theorem stages_tree : ∀ (tree : PlanStageTree) (this that : tree.Object),
    (tree.stages this).map StageView.tree = (tree.stages that).map StageView.tree
  | collectionScanStage _, _, _ => rfl
  | filterStage child _, _, _ | projectStage child _, _, _ | sortStage child _, _, _
  | limitStage child _, _, _ | topKStage child _ _, _, _ =>
    congrArg (_ :: ·) (child.stages_tree _ _)

omit [StdLibrary] in
/-- The last of them is the scan. -/
theorem stages_last : ∀ (tree : PlanStageTree) (this : tree.Object),
    (tree.stages this).getLast?.map (·.base.stats) = some (tree.leafScan this)
  | collectionScanStage _, _ => rfl
  | filterStage child _, this | projectStage child _, this | sortStage child _, this
  | limitStage child _, this | topKStage child _ _, this => by
    have hlast := child.stages_last (StageObject.members this).child
    simp only [stages, leafScan, List.getLast?_cons]
    cases hviews : (child.stages (StageObject.members this).child).getLast? with
    | none => rw [hviews] at hlast; cases hlast
    | some view =>
      rw [hviews] at hlast
      exact hlast

end PlanStageTree

/-! ## Reading a report -/

namespace Json

/-- Setting members one after another: the keys set last are found first. -/
theorem member?_foldl {key : String} : ∀ (rest set : List (String × Json)),
    (rest.map Prod.fst).Nodup →
    member? (rest.foldl (fun object m => setMember m.1 m.2 object) set) key =
      (member? rest key).or (member? set key)
  | [], _, _ => rfl
  | (k, value) :: rest, set, hnodup => by
    obtain ⟨hfresh, hrest⟩ := List.nodup_cons.mp hnodup
    rw [List.foldl_cons, member?_foldl rest _ hrest, member?_setMember, member?_cons]
    by_cases hk : k = key
    · subst hk
      rw [if_pos rfl, if_pos rfl, member?_eq_none.mpr hfresh]
      rfl
    · rw [if_neg hk, if_neg hk]

/-- An object made from a list without duplicate keys has the members of the list. -/
theorem at?_ofMembers_eq {members : List (String × Json)} (hnodup : (members.map Prod.fst).Nodup)
    (key : String) : (ofMembers members).at? key = member? members key := by
  show member? (members.foldl (fun object m => setMember m.1 m.2 object) []) key = _
  rw [member?_foldl members [] hnodup]
  exact Option.or_none

end Json

/-- The stages of a reported plan, from the root down: each says its name, may show its counters,
    and has the stage below it under `child`. -/
inductive ShowsStages : Json → List (String × Option Json) → Prop where
  | scan {stage : Json} {name : String} (named : stage.at? "stage" = some (.string name))
      (last : stage.at? "child" = none) : ShowsStages stage [(name, stage.at? "stats")]
  | over {stage below : Json} {name : String} {rest : List (String × Option Json)}
      (named : stage.at? "stage" = some (.string name)) (child : stage.at? "child" = some below)
      (shows : ShowsStages below rest) : ShowsStages stage ((name, stage.at? "stats") :: rest)

/-- How many rewrites a report shows as applied. -/
def readApplied : Json → Nat
  | .array entries => entries.countP fun entry =>
    match entry.at? "applied" with
    | some (.boolean applied) => applied
    | _ => false
  | _ => 0

theorem readApplied_trace (trace : List RewriteTraceEntry) :
    readApplied (traceToJson trace) = trace.countP (·.applied) := by
  have hnodup : (["rule", "applied"] : List String).Nodup := by decide
  rw [traceToJson, readApplied, List.countP_map]
  refine List.countP_congr fun entry _ => ?_
  have happlied : (Json.ofMembers [("rule", .string entry.rule),
      ("applied", .boolean entry.applied)]).at? "applied" = some (.boolean entry.applied) :=
    Json.at?_ofMembers hnodup (by simp)
  simp only [Function.comp_apply, happlied]

/-- The members of one stage. -/
theorem stageMembers (name : String) (includeStats : Bool) (stats : Json) (child : Option Json) :
    let stage := Json.ofMembers ([("stage", .string name)] ++
      (if includeStats then [("stats", stats)] else []) ++
      match child with
      | none => []
      | some child => [("child", child)])
    stage.at? "stage" = some (.string name) ∧
      stage.at? "stats" = (if includeStats then some stats else none) ∧
      stage.at? "child" = child := by
  cases includeStats with
  | false =>
    cases child with
    | none =>
      have hnodup : (["stage"] : List String).Nodup := by decide
      have hmember := @Json.at?_ofMembers_eq [("stage", .string name)] hnodup
      exact ⟨hmember "stage", hmember "stats", hmember "child"⟩
    | some child =>
      have hnodup : (["stage", "child"] : List String).Nodup := by decide
      have hmember := @Json.at?_ofMembers_eq [("stage", .string name), ("child", child)] hnodup
      exact ⟨hmember "stage", hmember "stats", hmember "child"⟩
  | true =>
    cases child with
    | none =>
      have hnodup : (["stage", "stats"] : List String).Nodup := by decide
      have hmember := @Json.at?_ofMembers_eq [("stage", .string name), ("stats", stats)] hnodup
      exact ⟨hmember "stage", hmember "stats", hmember "child"⟩
    | some child =>
      have hnodup : (["stage", "stats", "child"] : List String).Nodup := by decide
      have hmember := @Json.at?_ofMembers_eq
        [("stage", .string name), ("stats", stats), ("child", child)] hnodup
      exact ⟨hmember "stage", hmember "stats", hmember "child"⟩

/-- A stage and the stages below it, as a report shows them. -/
theorem stagesToJson_shows (includeStats : Bool) : ∀ (view : PlanStageTree.StageView)
    (below : List PlanStageTree.StageView), ∃ json,
      stagesToJson includeStats (view :: below) = some json ∧
      ShowsStages json ((view :: below).map fun view =>
        (view.tree.stageName, if includeStats then some view.base.stats.toJson else none))
  | view, [] => by
    obtain ⟨hstage, hstats, hchild⟩ :=
      stageMembers view.tree.stageName includeStats view.base.stats.toJson none
    refine ⟨_, rfl, ?_⟩
    rw [List.map_singleton, ← hstats]
    exact .scan hstage hchild
  | view, next :: below => by
    obtain ⟨json, hjson, hshows⟩ := stagesToJson_shows includeStats next below
    obtain ⟨hstage, hstats, hchild⟩ :=
      stageMembers view.tree.stageName includeStats view.base.stats.toJson (some json)
    refine ⟨_, by rw [stagesToJson, hjson], ?_⟩
    rw [List.map_cons, ← hstats]
    exact .over hstage hchild hshows

/-- The JSON of a plan shows its stages from the root down. -/
theorem PlanStageTree.toJson_shows (tree : PlanStageTree) (this : tree.Object)
    (includeStats : Bool) : ShowsStages (tree.toJson this includeStats)
      ((tree.stages this).map fun view =>
        (view.tree.stageName, if includeStats then some view.base.stats.toJson else none)) := by
  obtain ⟨view, below, hviews⟩ : ∃ view below, tree.stages this = view :: below := by
    cases tree <;> exact ⟨_, _, rfl⟩
  obtain ⟨json, hjson, hshows⟩ := stagesToJson_shows includeStats view below
  rw [PlanStageTree.toJson, hviews, hjson]
  exact hshows

/-! ## Consistency -/

/-- A report of an execution that agrees with EXPLAIN's and with itself.  `stages` are the stages it
    shows, from the root down, and `documents` its result. -/
structure ConsistentReport (explained report : Json) (stages : List (String × StageStats))
    (documents : List Json) : Prop where
  plans : ∀ key ∈ ["parsedPipeline", "logicalPlan", "optimizedLogicalPlan", "rewrites"],
    ∃ shown, explained.at? key = some shown ∧ report.at? key = some shown
  explainedStages : ∃ plan, explained.at? "physicalPlan" = some plan ∧
    ShowsStages plan (stages.map fun stage => (stage.1, none))
  reportedStages : ∃ plan, report.at? "physicalPlan" = some plan ∧
    ShowsStages plan (stages.map fun stage => (stage.1, some stage.2.toJson))
  rowsOut_le : ∀ stage ∈ stages, stage.2.rowsOut ≤ stage.2.rowsIn
  /-- A stage takes in all that the one below it gives out. -/
  passedOn : stages.IsChain fun parent child => parent.2.rowsIn = child.2.rowsOut
  /-- It waits for the one below it. -/
  covered : stages.IsChain fun parent child =>
    child.2.executionTimeMicros ≤ parent.2.executionTimeMicros
  /-- It does not ask the one below it again after its EOF. -/
  asked : stages.IsChain fun _ child => child.2.getNextCalls = child.2.rowsOut ∨
    child.2.getNextCalls = child.2.rowsOut + 1
  result : report.at? "result" = some (.array documents)
  /-- The totals are those of the root, of the scan, of the rewrites and of the result. -/
  totals : ∃ root scan rewrites, stages.head? = some root ∧ stages.getLast? = some scan ∧
    report.at? "rewrites" = some rewrites ∧ root.2.rowsOut = documents.length ∧
    root.2.getNextCalls = documents.length + 1 ∧
    report.at? "globalStats" = some (GlobalStats.toJson
      { documentsExamined := scan.2.rowsOut
        documentsReturned := documents.length
        totalExecutionTimeMicros := root.2.executionTimeMicros
        optimizerRulesApplied := readApplied rewrites })

section Consistency

variable [StdLibrary] {clock : Clock} {table : Table} {pipelineJson : Json}

/-- What the execution behind an analysis has left behind. -/
theorem analyze_executed {analysis : Analysis} (h : analyze clock table pipelineJson = .ok analysis) :
    let done := execute analysis.planned.physicalRoot.planStage clock
      analysis.planned.physicalRoot.constructed
    done.result = .ok analysis.rows ∧ done.stage = analysis.stage := by
  cases hplanned : planQuery table pipelineJson with
  | error e => simp only [analyze, hplanned] at h; cases h
  | ok planned =>
    simp only [analyze, hplanned] at h
    obtain ⟨rows, hrows, rfl⟩ := Except.map_eq_ok h
    exact ⟨hrows, rfl⟩

omit [StdLibrary] in
/-- A stage that is never called again after its EOF was asked once for each row, and at most once
    more. -/
theorem Balanced.asked {base : PlanStageBase} (h : Balanced base) :
    base.stats.getNextCalls = base.stats.rowsOut ∨
      base.stats.getNextCalls = base.stats.rowsOut + 1 := by
  unfold Balanced at h
  split at h
  · exact .inl h
  · exact .inl h
  · exact .inr h
  · exact h

/-- The stages an analysis shows. -/
def Analysis.shownStages (analysis : Analysis) : List (String × StageStats) :=
  (analysis.planned.physicalRoot.stages analysis.stage).map fun view =>
    (view.tree.stageName, view.base.stats)

omit [StdLibrary] in
/-- EXPLAIN shows the same stages, without figures. -/
theorem Analysis.shownStages_explained (analysis : Analysis) :
    analysis.shownStages.map (fun stage => (stage.1, (none : Option Json))) =
      (analysis.planned.physicalRoot.stages analysis.planned.physicalRoot.constructed).map
        fun view => (view.tree.stageName, none) := by
  have htree := congrArg (List.map fun tree : PlanStageTree => (tree.stageName, (none : Option Json)))
    (analysis.planned.physicalRoot.stages_tree analysis.stage
      analysis.planned.physicalRoot.constructed)
  rw [List.map_map, List.map_map] at htree
  rw [Analysis.shownStages, List.map_map]
  exact htree

/-- **A report adds up.**  Every EXPLAIN ANALYZE with its result shows the plans that EXPLAIN shows,
    its stages pass on all rows and cover each other's time, and its totals are those of its root,
    its scan, its rewrites and its result. -/
theorem report_consistent {report : Json}
    (hreport : explainAnalyzePipeline clock table pipelineJson true = .ok report) :
    ∃ explained stages result, explainPipeline table pipelineJson = .ok explained ∧
      ConsistentReport explained report stages result := by
  obtain ⟨analysis, hanalysis, rfl⟩ := Except.map_eq_ok hreport
  obtain ⟨hrows, hstage⟩ := analyze_executed hanalysis
  obtain ⟨hinv, hout, hcalls⟩ := PlanStageTree.execute_counts hrows
  have htimes := analysis.planned.physicalRoot.timesNested_stages
    (analysis.planned.physicalRoot.timed.execute
      analysis.planned.physicalRoot.timesNested_constructed hrows)
  rw [hstage] at hinv hout hcalls htimes
  obtain ⟨hroot, heach, hlinked⟩ := analysis.planned.physicalRoot.stages_ok hinv
  have hexplain : explainPipeline table pipelineJson =
      .ok (Json.ofMembers analysis.planned.members) := by
    rw [explainPipeline, analyze_planned hanalysis]
    rfl
  refine ⟨_, analysis.shownStages,
    analysis.rows.map (·.toJson analysis.planned.outputSchema), hexplain, ?_⟩
  constructor
  case plans =>
    intro key hkey
    obtain ⟨shown, hmember⟩ : ∃ shown, (key, shown) ∈ analysis.planned.planMembers := by
      obtain ⟨⟨_, shown⟩, hmember, rfl⟩ := List.mem_map.mp
        (show key ∈ analysis.planned.planMembers.map Prod.fst from hkey)
      exact ⟨shown, hmember⟩
    exact ⟨shown, analysis.planned.at?_explained (List.mem_append_left _ hmember),
      analysis.at?_toJson true (List.mem_append_left _ (List.mem_append_left _ hmember))⟩
  case explainedStages =>
    refine ⟨_, analysis.planned.at?_explained (List.mem_append_right _ (List.mem_singleton_self _)),
      ?_⟩
    rw [analysis.shownStages_explained]
    exact analysis.planned.physicalRoot.toJson_shows _ false
  case reportedStages =>
    refine ⟨_, analysis.at?_toJson true
      (List.mem_append_left _ (List.mem_append_right _ List.mem_cons_self)), ?_⟩
    rw [Analysis.shownStages, List.map_map]
    exact analysis.planned.physicalRoot.toJson_shows _ true
  case rowsOut_le =>
    intro stage hmem
    obtain ⟨view, hview, rfl⟩ := List.mem_map.mp hmem
    exact (heach view hview).base.rowsOut_le
  case passedOn => exact (List.isChain_map _).mpr (hlinked.imp fun _ _ hlink => hlink.rows)
  case covered => exact (List.isChain_map _).mpr htimes.linked
  case asked =>
    exact (List.isChain_map _).mpr (hlinked.imp fun _ _ hlink => (hlink.balanced rfl).asked)
  case result =>
    exact analysis.at?_toJson true (List.mem_append_right _ (List.mem_singleton_self _))
  case totals =>
    obtain ⟨root, hhead, hbase⟩ := Option.map_eq_some_iff.mp hroot
    obtain ⟨scan, hleaf, hscan⟩ := Option.map_eq_some_iff.mp
      (analysis.planned.physicalRoot.stages_last analysis.stage)
    refine ⟨(root.tree.stageName, root.base.stats), (scan.tree.stageName, scan.base.stats),
      traceToJson analysis.planned.optimizationContext.trace, ?_, ?_, ?_, ?_, ?_, ?_⟩
    · rw [Analysis.shownStages, List.head?_map, hhead]
      rfl
    · rw [Analysis.shownStages, List.getLast?_map, hleaf]
      rfl
    · exact analysis.at?_toJson true (List.mem_append_left _ (List.mem_append_left _
        (by simp [PlannedQuery.planMembers])))
    · rw [List.length_map, hbase, hout]
    · rw [List.length_map, hbase, hcalls]
    · rw [readApplied_trace, List.length_map, hbase, hscan]
      exact analysis.at?_toJson true
        (List.mem_append_left _ (List.mem_append_right _ (by simp [Analysis.global, globalStats])))

end Consistency

/-- One of the two documents is examined and returned. -/
theorem report_consistent_sample :
    letI := StdLibrary.reference
    ∃ report explained stages documents,
      explainAnalyzePipeline Clock.still sampleTable sampleLimitJson true = .ok report ∧
      explainPipeline sampleTable sampleLimitJson = .ok explained ∧
      ConsistentReport explained report stages documents := by
  obtain ⟨report, hreport⟩ : ∃ report, @explainAnalyzePipeline StdLibrary.reference
      Clock.still sampleTable sampleLimitJson true = .ok report := ⟨_, rfl⟩
  obtain ⟨explained, stages, documents, hexplain, hconsistent⟩ :=
    @report_consistent StdLibrary.reference Clock.still sampleTable sampleLimitJson report
      hreport
  exact ⟨report, explained, stages, documents, hreport, hexplain, hconsistent⟩

end QueryLume
