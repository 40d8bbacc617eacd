/-
  A query can be run again from its report.

  The logical plan of an EXPLAIN is made for people and does not determine the query.  The parsed
  pipeline beside it does: it is read back exactly, and written as a pipeline again it is the one
  that was explained, up to how its integers are stored (`report_replays`).

  A report as the engine returns it holds a direction and a count as signed integers, and after it
  was printed and parsed it holds the non-negative ones as unsigned ones.  `readReport` reads
  either: it goes by the signed form of the report, and the serialized pipeline is its own signed
  form (`ParsedPipeline.toJson_signed`).
-/
import QueryLume.Data.JsonObjects
import QueryLume.ParserGrammar
import QueryLume.Query.ExplainedPlan
import QueryLume.Query.RoundTrip

namespace QueryLume

/-! ## Objects

  Reports are built from initializer lists, and members are found in them by key.  A report that
  was printed and parsed again has the same signed form, so the members are looked up there. -/

/-- A member of an object that was made from a list without duplicate keys. -/
theorem Json.at?_ofMembers {members : List (String × Json)} {key : String} {value : Json}
    (hnodup : (members.map Prod.fst).Nodup) (hmem : (key, value) ∈ members) :
    (Json.ofMembers members).at? key = some value :=
  member?_foldl_of_mem members [] hnodup hmem

/-- Setting a member before or after all integers are put into their signed form. -/
theorem Json.signed_setMember (key : String) (value : Json) : ∀ members : List (String × Json),
    (Json.setMember key value members).map (fun m => (m.1, m.2.signed)) =
      Json.setMember key value.signed (members.map fun m => (m.1, m.2.signed))
  | [] => rfl
  | (k, v) :: members => by
    rw [List.map_cons, Json.setMember, Json.setMember]
    split
    · rfl
    split
    · rfl
    · rw [List.map_cons, Json.signed_setMember key value members]

/-- The signed form of an object from an initializer list. -/
theorem Json.signed_ofMembers (members : List (String × Json)) :
    (Json.ofMembers members).signed =
      Json.ofMembers (members.map fun m => (m.1, m.2.signed)) := by
  have hfold : ∀ (members set : List (String × Json)),
      (members.foldl (fun object m => Json.setMember m.1 m.2 object) set).map
          (fun m => (m.1, m.2.signed)) =
        (members.map fun m => (m.1, m.2.signed)).foldl
          (fun object m => Json.setMember m.1 m.2 object) (set.map fun m => (m.1, m.2.signed)) := by
    intro members
    induction members with
    | nil => exact fun set => rfl
    | cons m members ih =>
      intro set
      rw [List.foldl_cons, ih, Json.signed_setMember]
      rfl
  rw [Json.ofMembers, Json.signed_object, hfold]
  rfl

/-- A member of the signed form is the signed form of the member. -/
theorem Json.at?_signed (json : Json) (key : String) :
    json.signed.at? key = (json.at? key).map Json.signed := by
  cases json with
  | object members =>
    rw [Json.signed_object]
    show Json.member? _ key = (Json.member? members key).map Json.signed
    rw [Json.member?, Json.member?, List.find?_map, Option.map_map, Option.map_map]
    rfl
  | numberUnsigned u =>
    rw [Json.signed]
    split
    · rfl
    · rfl
  | array elements =>
    rw [Json.signed_array]
    rfl
  | null | boolean b | numberInteger i | numberFloat d | string s | binary bytes | discarded =>
    rw [Json.signed]
    rfl

/-! ## Reading a parsed pipeline back

  One reader for each writer.  The readers look up members by key, so they do not depend on the
  order in which an object holds them. -/

/-- A literal is read as the parser reads it. -/
def readLiteral (json : Json) : Option Value := (jsonToLiteral json).toOption

/-- A comparison: field, operator and literal. -/
def readComparison (json : Json) : Option ParsedComparison :=
  match json.at? "field", json.at? "operator", json.at? "literal" with
  | some (.string fieldName), some (.string opToken), some literal =>
    (readLiteral literal).map fun literal => { field := ⟨fieldName⟩, opToken, literal }
  | _, _, _ => none

/-- A field of a projection. -/
def readFieldName : Json → Option UnresolvedFieldExpression
  | .string fieldName => some { fieldName }
  | _ => none

/-- A stage, told by the word under `stage`. -/
def readStage (json : Json) : Option ParsedStage :=
  match json.at? "stage" with
  | some (.string stageName) =>
    if stageName = "$match" then
      match json.at? "predicates" with
      | some (.array elements) => (elements.mapM readComparison).map fun predicates =>
        .kMatch { predicates }
      | _ => none
    else if stageName = "$project" then
      match json.at? "fields" with
      | some (.array elements) => (elements.mapM readFieldName).map fun fields => .kProject { fields }
      | _ => none
    else if stageName = "$sort" then
      match json.at? "field", json.at? "direction" with
      | some (.string fieldName), some (.numberInteger directionRaw) =>
        some (.kSort { field := ⟨fieldName⟩, directionRaw })
      | _, _ => none
    else if stageName = "$limit" then
      match json.at? "count" with
      | some (.numberInteger countRaw) => some (.kLimit { countRaw })
      | _ => none
    else none
  | _ => none

/-- A pipeline: an array of stages. -/
def readPipeline : Json → Option ParsedPipeline
  | .array elements => (elements.mapM readStage).map fun stages => { stages }
  | _ => none

/-- The parsed pipeline that a report shows, however its integers are stored. -/
def readReport (report : Json) : Option ParsedPipeline :=
  (report.signed.at? "parsedPipeline").bind readPipeline

theorem mapM_read {α β : Type} {encode : α → β} {read : β → Option α}
    (h : ∀ x, read (encode x) = some x) : ∀ xs : List α, (xs.map encode).mapM read = some xs
  | [] => rfl
  | x :: xs => by
    rw [List.map_cons, List.mapM_cons, h x, mapM_read h xs]
    rfl

theorem readLiteral_toJson (value : Value) : readLiteral value.toJson = some value := by
  cases value <;> rfl

theorem readComparison_toJson (predicate : ParsedComparison) :
    readComparison predicate.toJson = some predicate := by
  have hnodup : (["field", "operator", "literal"] : List String).Nodup := by decide
  have hfield : predicate.toJson.at? "field" = some (.string predicate.field.fieldName) :=
    Json.at?_ofMembers hnodup (by simp)
  have hoperator : predicate.toJson.at? "operator" = some (.string predicate.opToken) :=
    Json.at?_ofMembers hnodup (by simp)
  have hliteral : predicate.toJson.at? "literal" = some predicate.literal.toJson :=
    Json.at?_ofMembers hnodup (by simp)
  simp only [readComparison, hfield, hoperator, hliteral, readLiteral_toJson, Option.map_some]

theorem readMatch_toJson (stage : ParsedMatchStage) :
    readStage (ParsedStage.kMatch stage).toJson = some (.kMatch stage) := by
  have hnodup : (["stage", "predicates"] : List String).Nodup := by decide
  have hstage : (ParsedStage.kMatch stage).toJson.at? "stage" = some (.string "$match") :=
    Json.at?_ofMembers hnodup (by simp)
  have hpredicates : (ParsedStage.kMatch stage).toJson.at? "predicates" =
      some (.array (stage.predicates.map ParsedComparison.toJson)) :=
    Json.at?_ofMembers hnodup (by simp)
  rw [readStage, hstage]
  simp only
  rw [if_pos trivial, hpredicates]
  simp only [mapM_read readComparison_toJson, Option.map_some]

theorem readProject_toJson (stage : ParsedProjectStage) :
    readStage (ParsedStage.kProject stage).toJson = some (.kProject stage) := by
  have hnodup : (["stage", "fields"] : List String).Nodup := by decide
  have hstage : (ParsedStage.kProject stage).toJson.at? "stage" = some (.string "$project") :=
    Json.at?_ofMembers hnodup (by simp)
  have hfields : (ParsedStage.kProject stage).toJson.at? "fields" =
      some (.array (stage.fields.map fun field => .string field.fieldName)) :=
    Json.at?_ofMembers hnodup (by simp)
  have hread : ∀ field : UnresolvedFieldExpression,
      readFieldName (.string field.fieldName) = some field := fun _ => rfl
  rw [readStage, hstage]
  simp only
  rw [if_neg (by decide), if_pos trivial, hfields]
  simp only [mapM_read hread, Option.map_some]

theorem readSort_toJson (stage : ParsedSortStage) :
    readStage (ParsedStage.kSort stage).toJson = some (.kSort stage) := by
  have hnodup : (["stage", "field", "direction"] : List String).Nodup := by decide
  have hstage : (ParsedStage.kSort stage).toJson.at? "stage" = some (.string "$sort") :=
    Json.at?_ofMembers hnodup (by simp)
  have hfield : (ParsedStage.kSort stage).toJson.at? "field" =
      some (.string stage.field.fieldName) := Json.at?_ofMembers hnodup (by simp)
  have hdirection : (ParsedStage.kSort stage).toJson.at? "direction" =
      some (.numberInteger stage.directionRaw) := Json.at?_ofMembers hnodup (by simp)
  rw [readStage, hstage]
  simp only
  rw [if_neg (by decide), if_neg (by decide), if_pos trivial, hfield, hdirection]

theorem readLimit_toJson (stage : ParsedLimitStage) :
    readStage (ParsedStage.kLimit stage).toJson = some (.kLimit stage) := by
  have hnodup : (["stage", "count"] : List String).Nodup := by decide
  have hstage : (ParsedStage.kLimit stage).toJson.at? "stage" = some (.string "$limit") :=
    Json.at?_ofMembers hnodup (by simp)
  have hcount : (ParsedStage.kLimit stage).toJson.at? "count" =
      some (.numberInteger stage.countRaw) := Json.at?_ofMembers hnodup (by simp)
  rw [readStage, hstage]
  simp only
  rw [if_neg (by decide), if_neg (by decide), if_neg (by decide), if_pos trivial, hcount]

theorem readStage_toJson (stage : ParsedStage) : readStage stage.toJson = some stage := by
  cases stage with
  | kMatch stage => exact readMatch_toJson stage
  | kProject stage => exact readProject_toJson stage
  | kSort stage => exact readSort_toJson stage
  | kLimit stage => exact readLimit_toJson stage

/-- **Nothing is lost** in the JSON of a parsed pipeline. -/
theorem readPipeline_toJson (parsed : ParsedPipeline) : readPipeline parsed.toJson = some parsed := by
  rw [ParsedPipeline.toJson, readPipeline, mapM_read readStage_toJson]
  rfl

/-- All integers of a serialized pipeline are stored signed. -/
theorem ParsedPipeline.toJson_signed (parsed : ParsedPipeline) :
    parsed.toJson.signed = parsed.toJson := by
  have hstage : ∀ stage : ParsedStage, stage.toJson.signed = stage.toJson := by
    intro stage
    cases stage with
    | kMatch stage =>
      have hpredicate : ∀ predicate : ParsedComparison,
          predicate.toJson.signed = predicate.toJson := by
        intro predicate
        rw [ParsedComparison.toJson, Json.signed_ofMembers]
        simp only [List.map_cons, List.map_nil, Json.signed_string, Value.signed_toJson]
      rw [ParsedStage.toJson, Json.signed_ofMembers]
      simp only [List.map_cons, List.map_nil, Json.signed_string, Json.signed_array, List.map_map]
      rw [show Json.signed ∘ ParsedComparison.toJson = ParsedComparison.toJson from
        funext hpredicate]
    | kProject stage =>
      rw [ParsedStage.toJson, Json.signed_ofMembers]
      simp only [List.map_cons, List.map_nil, Json.signed_string, Json.signed_array, List.map_map,
        Function.comp_def]
    | kSort stage =>
      rw [ParsedStage.toJson, Json.signed_ofMembers]
      simp only [List.map_cons, List.map_nil, Json.signed_string, Json.signed_numberInteger]
    | kLimit stage =>
      rw [ParsedStage.toJson, Json.signed_ofMembers]
      simp only [List.map_cons, List.map_nil, Json.signed_string, Json.signed_numberInteger]
  rw [ParsedPipeline.toJson, Json.signed_array, List.map_map]
  rw [show Json.signed ∘ ParsedStage.toJson = ParsedStage.toJson from funext hstage]

/-- A report that shows a pipeline is read back as it. -/
theorem readReport_shows {report : Json} {parsed : ParsedPipeline}
    (h : report.at? "parsedPipeline" = some parsed.toJson) : readReport report = some parsed := by
  rw [readReport, Json.at?_signed, h, Option.map_some, parsed.toJson_signed, Option.bind_some]
  exact readPipeline_toJson parsed

/-! ## Writing it as a pipeline

  What is read back is written in the language of pipelines, and the parser reads it again. -/

theorem jsonToLiteral_toJson (value : Value) : jsonToLiteral value.toJson = .ok value := by
  cases value <;> rfl

theorem parsePredicates_source : ∀ predicates : List ParsedComparison,
    parsePredicates (predicates.map (·.source)) = .ok predicates
  | [] => rfl
  | predicate :: predicates => by
    rw [List.map_cons, ParsedComparison.source, parsePredicates, jsonToLiteral_toJson]
    simp only [parsePredicates_source predicates]

theorem parseFields_source : ∀ fields : List UnresolvedFieldExpression,
    parseFields (fields.map fun field => .string field.fieldName) = .ok fields
  | [] => rfl
  | field :: fields => by
    rw [List.map_cons, parseFields, parseFields_source fields]

/-- A stage, written out as the user would, is parsed to itself. -/
theorem parseStage_source (stage : ParsedStage) : parseStage stage.source = .ok stage := by
  cases stage with
  | kMatch stage =>
    rw [ParsedStage.source, parseStage, if_pos rfl, parseMatch, parsePredicates_source]
    rfl
  | kProject stage =>
    rw [ParsedStage.source, parseStage, if_neg (by decide), if_pos rfl, parseProject,
      parseFields_source]
    rfl
  | kSort stage => rfl
  | kLimit stage => rfl

/-- The parser reads what is written. -/
theorem parsePipeline_source (parsed : ParsedPipeline) : parsePipeline parsed.source = .ok parsed := by
  have hstages : parseStages (parsed.stages.map (·.source)) = .ok parsed.stages :=
    parseStages_ok.mpr (List.forall₂_map_left_iff.mpr
      (List.forall₂_same.mpr fun stage _ => parseStage_source stage))
  rw [ParsedPipeline.source, parsePipeline, hstages]
  rfl

theorem Json.wellFormed_single {key : String} {value : Json} (h : value.WellFormed) :
    (Json.object [(key, value)]).WellFormed := by
  refine .object (List.pairwise_singleton _ _) fun m hm => ?_
  rw [List.mem_singleton.mp hm]
  exact h

/-- What is written is a JSON value: no object has a key twice. -/
theorem ParsedPipeline.source_wellFormed {parsed : ParsedPipeline}
    (h : ∀ stage, .kMatch stage ∈ parsed.stages →
      (stage.predicates.map (·.field.fieldName)).Pairwise (· < ·)) : parsed.source.WellFormed := by
  refine .array fun json hjson => ?_
  obtain ⟨stage, hstage, rfl⟩ := List.mem_map.mp hjson
  cases stage with
  | kMatch stage =>
    refine Json.wellFormed_single (.object ?_ fun m hm => ?_)
    · have hascending := h stage hstage
      rw [List.map_map]
      exact hascending
    · obtain ⟨predicate, -, rfl⟩ := List.mem_map.mp hm
      exact Json.wellFormed_single predicate.literal.toJson_wellFormed
  | kProject stage =>
    refine Json.wellFormed_single (.array fun json hjson => ?_)
    obtain ⟨field, -, rfl⟩ := List.mem_map.mp hjson
    exact .string field.fieldName
  | kSort stage => exact Json.wellFormed_single (Json.wellFormed_single (.numberInteger _))
  | kLimit stage => exact Json.wellFormed_single (.numberInteger _)

/-! ## Reports

  Both reports show the parsed pipeline under one key, so either can be replayed. -/

/-- What an EXPLAIN shows under each key. -/
def PlannedQuery.members (planned : PlannedQuery) : List (String × Json) :=
  planned.planMembers ++
    [("physicalPlan", planned.physicalRoot.toJson planned.physicalRoot.constructed false)]

/-- What an EXPLAIN ANALYZE shows under each key. -/
def Analysis.members (analysis : Analysis) (includeResults : Bool) : List (String × Json) :=
  analysis.planned.planMembers ++
    [("physicalPlan", analysis.planned.physicalRoot.toJson analysis.stage true),
      ("globalStats", analysis.global.toJson)] ++
    if includeResults then
      [("result", .array (analysis.rows.map (·.toJson analysis.planned.outputSchema)))]
    else []

/-- A member of EXPLAIN's report is found under its key. -/
theorem PlannedQuery.at?_explained (planned : PlannedQuery) {key : String} {value : Json}
    (h : (key, value) ∈ planned.members) : (Json.ofMembers planned.members).at? key = some value := by
  have hnodup : (["parsedPipeline", "logicalPlan", "optimizedLogicalPlan", "rewrites",
    "physicalPlan"] : List String).Nodup := by decide
  exact Json.at?_ofMembers hnodup h

theorem Analysis.at?_toJson (analysis : Analysis) (includeResults : Bool) {key : String}
    {value : Json} (h : (key, value) ∈ analysis.members includeResults) :
    (analysis.toJson includeResults).at? key = some value := by
  cases includeResults with
  | false =>
    have hnodup : (["parsedPipeline", "logicalPlan", "optimizedLogicalPlan", "rewrites",
      "physicalPlan", "globalStats"] : List String).Nodup := by decide
    exact Json.at?_ofMembers hnodup h
  | true =>
    have hnodup : (["parsedPipeline", "logicalPlan", "optimizedLogicalPlan", "rewrites",
      "physicalPlan", "globalStats", "result"] : List String).Nodup := by decide
    exact Json.at?_ofMembers hnodup h

section Reports

variable [StdLibrary] {table : Table} {pipelineJson : Json} {parsed : ParsedPipeline}

/-- What EXPLAIN or EXPLAIN ANALYZE return for a query. -/
inductive Reports (table : Table) (pipelineJson : Json) : Json → Prop where
  | explain {report : Json} (explains : explainPipeline table pipelineJson = .ok report) :
      Reports table pipelineJson report
  | analyze {report : Json} (clock : Clock) (includeResults : Bool)
      (analyzes : explainAnalyzePipeline clock table pipelineJson includeResults = .ok report) :
      Reports table pipelineJson report

omit [StdLibrary] in
/-- What a planned query has parsed is the pipeline. -/
theorem planQuery_parsed {planned : PlannedQuery} (h : planQuery table pipelineJson = .ok planned) :
    parsePipeline pipelineJson = .ok planned.parsed := by
  cases hparse : parsePipeline pipelineJson with
  | error e => simp only [planQuery, hparse] at h; cases h
  | ok parsed =>
    cases hbind : bindPipeline table parsed with
    | error e => simp only [planQuery, hparse, hbind] at h; cases h
    | ok plan =>
      simp only [planQuery, hparse, hbind] at h
      obtain rfl := Except.ok.inj h
      rfl

theorem analyze_planned {clock : Clock} {analysis : Analysis}
    (h : analyze clock table pipelineJson = .ok analysis) :
    planQuery table pipelineJson = .ok analysis.planned := by
  cases hplanned : planQuery table pipelineJson with
  | error e => simp only [analyze, hplanned] at h; cases h
  | ok planned =>
    simp only [analyze, hplanned] at h
    obtain ⟨rows, -, rfl⟩ := Except.map_eq_ok h
    rfl

/-- A report of a query shows what was parsed. -/
theorem Reports.read {report : Json} (h : Reports table pipelineJson report) :
    ∃ parsed, parsePipeline pipelineJson = .ok parsed ∧ readReport report = some parsed := by
  cases h with
  | explain explains =>
    obtain ⟨planned, hplanned, rfl⟩ := Except.map_eq_ok explains
    exact ⟨planned.parsed, planQuery_parsed hplanned,
      readReport_shows (planned.at?_explained List.mem_cons_self)⟩
  | analyze clock includeResults analyzes =>
    obtain ⟨analysis, hanalysis, rfl⟩ := Except.map_eq_ok analyzes
    exact ⟨analysis.planned.parsed, planQuery_parsed (analyze_planned hanalysis),
      readReport_shows (analysis.at?_toJson includeResults List.mem_cons_self)⟩

/-- Two texts that parse alike are one query, on every table. -/
theorem sameQuery {other : Json} (h : parsePipeline other = parsePipeline pipelineJson) :
    (∀ table, explainPipeline table other = explainPipeline table pipelineJson) ∧
    (∀ table clock, runPipeline clock table other = runPipeline clock table pipelineJson) ∧
    ∀ table clock includeResults, explainAnalyzePipeline clock table other includeResults =
      explainAnalyzePipeline clock table pipelineJson includeResults := by
  have hplan : ∀ table, planQuery table other = planQuery table pipelineJson := by
    intro table
    rw [planQuery, planQuery, h]
  refine ⟨?_, ?_, ?_⟩
  · intro table
    rw [explainPipeline, explainPipeline, hplan]
  · intro table clock
    rw [runPipeline, runPipeline, hplan]
  · intro table clock includeResults
    rw [explainAnalyzePipeline, explainAnalyzePipeline, analyze, analyze, hplan]

/-- **Replay.**  From any report of a query, by EXPLAIN or by EXPLAIN ANALYZE, as it was returned or
    after it was printed and parsed, the query can be written down again: it is the pipeline that
    was explained, up to how its integers are stored, and on every table it is explained, run and
    analyzed in the same way. -/
theorem report_replays {report printed : Json} (hwf : pipelineJson.WellFormed)
    (hreport : Reports table pipelineJson report) (hprinted : printed.signed = report.signed) :
    ∃ parsed, readReport printed = some parsed ∧ parsed.source.WellFormed ∧
      parsed.source = pipelineJson.signed ∧
      (∀ table, explainPipeline table parsed.source = explainPipeline table pipelineJson) ∧
      (∀ table clock,
        runPipeline clock table parsed.source = runPipeline clock table pipelineJson) ∧
      ∀ table clock includeResults,
        explainAnalyzePipeline clock table parsed.source includeResults =
          explainAnalyzePipeline clock table pipelineJson includeResults := by
  obtain ⟨parsed, hparse, hread⟩ := hreport.read
  refine ⟨parsed, by rw [readReport, hprinted]; exact hread, ?_, (parsePipeline_checked pipelineJson).of_ok hparse, ?_⟩
  · exact ParsedPipeline.source_wellFormed fun stage => parsePipeline_ascending hwf hparse
  · exact sameQuery ((parsePipeline_source parsed).trans hparse.symm)

end Reports

theorem samplePipelineJson_wellFormed : samplePipelineJson.WellFormed := by
  refine .array fun json hjson => ?_
  simp only [List.mem_cons, List.not_mem_nil, or_false] at hjson
  rcases hjson with rfl | rfl
  · exact Json.wellFormed_single (Json.wellFormed_single (.numberInteger 1))
  · exact Json.wellFormed_single (.numberUnsigned 1)

/-- The pipeline of the sample as a parser of a printed report stores it. -/
def printedPipelineJson : Json :=
  .array [.ofMembers [("stage", .string "$sort"), ("field", .string "a"),
      ("direction", .numberUnsigned 1)],
    .ofMembers [("stage", .string "$limit"), ("count", .numberUnsigned 1)]]

/-- The sample is replayed from a report whose integers are stored unsigned. -/
theorem report_replays_sample :
    ∃ printed parsed, printed.at? "parsedPipeline" = some printedPipelineJson ∧
      readReport printed = some parsed ∧ parsed.source.WellFormed ∧
      parsed.source = samplePipelineJson.signed := by
  obtain ⟨planned, hplanned, hparsed⟩ : ∃ planned,
      planQuery sampleTable samplePipelineJson = .ok planned ∧
        planned.parsed.toJson = printedPipelineJson.signed := ⟨_, rfl, rfl⟩
  have hreport : explainPipeline sampleTable samplePipelineJson =
      .ok (Json.ofMembers planned.members) := by
    rw [explainPipeline, hplanned]
    rfl
  have hprinted : (Json.ofMembers (("parsedPipeline", printedPipelineJson) ::
      planned.members.tail)).signed = (Json.ofMembers planned.members).signed := by
    rw [Json.signed_ofMembers, Json.signed_ofMembers]
    show Json.ofMembers (("parsedPipeline", printedPipelineJson.signed) :: _) =
      Json.ofMembers (("parsedPipeline", planned.parsed.toJson.signed) :: _)
    rw [planned.parsed.toJson_signed, hparsed]
    rfl
  obtain ⟨parsed, hread, hwf, hsource, -⟩ := @report_replays StdLibrary.reference sampleTable
    samplePipelineJson _ _ samplePipelineJson_wellFormed
    (@Reports.explain StdLibrary.reference _ _ _ hreport) hprinted
  refine ⟨_, parsed, ?_, hread, hwf, hsource⟩
  have hnodup : (["parsedPipeline", "logicalPlan", "optimizedLogicalPlan", "rewrites",
    "physicalPlan"] : List String).Nodup := by decide
  exact Json.at?_ofMembers hnodup List.mem_cons_self

end QueryLume
