/-
  Does EXPLAIN's logical plan determine the query?

  Not by itself: the predicate of a filter is shown as text for people, and different predicates
  can have the same text — doubles are rounded to six digits, a string can hold a quote and ` AND
  `, a field name an operator (`plans_mislead`, one pair of pipelines for each kind).

  Where the texts show where their parts end (`LegibleStages`), and doubles are not shown like
  other numbers (`StagesShown`), two pipelines with the same logical plan return the same
  (`logicalPlan_determines`).  The conditions are about the parsed stages alone; reading the texts
  back is done in `Explain/Legible.lean`, and the comparison of the two plans, which need not be
  equal, in `Explain/SamePlan.lean`.
-/
import QueryLume.Explain.SamePlan
import QueryLume.Query.Runs

namespace QueryLume

/-- A member of an object. -/
def Json.at? : Json → String → Option Json
  | .object members, key => Json.member? members key
  | _, _ => none

/-- EXPLAIN accepts the pipeline and reports the logical plan. -/
def ShowsPlan (table : Table) (pipelineJson shown : Json) : Prop :=
  ∃ report, explainPipeline table pipelineJson = .ok report ∧ report.at? "logicalPlan" = some shown

/-- What it reports is the JSON of the plan that was bound. -/
theorem showsPlan_iff {table : Table} {pipelineJson shown : Json} {parsed : ParsedPipeline}
    (hparse : parsePipeline pipelineJson = .ok parsed) :
    ShowsPlan table pipelineJson shown ↔
      ∃ plan, bindPipeline table parsed = .ok plan ∧ plan.toJson = shown := by
  have hmember : ∀ (parsed plan optimized rewrites physical : Json),
      (Json.ofMembers [("parsedPipeline", parsed), ("logicalPlan", plan),
        ("optimizedLogicalPlan", optimized), ("rewrites", rewrites),
        ("physicalPlan", physical)]).at? "logicalPlan" = some plan := by
    intro parsed plan optimized rewrites physical
    simp +decide only [Json.ofMembers, Json.setMember, List.foldl, Json.at?, Json.member?,
      List.find?, beq_self_eq_true, Option.map_some, ↓reduceIte]
  cases hbind : bindPipeline table parsed with
  | error e =>
    have hexplain : explainPipeline table pipelineJson = .error e := by
      simp only [explainPipeline, planQuery, hparse, hbind]
      rfl
    constructor
    · rintro ⟨report, hreport, -⟩
      rw [hexplain] at hreport
      cases hreport
    · rintro ⟨plan, hplan, -⟩
      cases hplan
  | ok plan =>
    obtain ⟨parsedMember, optimized, rewrites, physical, hexplain⟩ :
        ∃ parsedMember optimized rewrites physical, explainPipeline table pipelineJson =
          .ok (Json.ofMembers [("parsedPipeline", parsedMember), ("logicalPlan", plan.toJson),
            ("optimizedLogicalPlan", optimized), ("rewrites", rewrites),
            ("physicalPlan", physical)]) := by
      simp only [explainPipeline, planQuery, hparse, hbind]
      exact ⟨_, _, _, _, rfl⟩
    have hplan := hmember parsedMember plan.toJson optimized rewrites physical
    constructor
    · rintro ⟨report, hreport, hshown⟩
      rw [hexplain] at hreport
      rw [← Except.ok.inj hreport, hplan] at hshown
      exact ⟨plan, rfl, Option.some.inj hshown⟩
    · rintro ⟨plan', heq, rfl⟩
      rw [← Except.ok.inj heq]
      exact ⟨_, hexplain, hplan⟩

/-- **The logical plan determines the query** of two pipelines over one table whose predicates are
    legible: no field name with an operator between blanks, no string with a quote before ` AND `,
    no double shown like a different number at the same place.  The rows are the same, or both
    fail. -/
theorem logicalPlan_determines [StdLibrary] {table : Table} {pipelineJson pipelineJson' : Json}
    {parsed parsed' : ParsedPipeline} {shown : Json} (clock clock' : Clock)
    (hparse : parsePipeline pipelineJson = .ok parsed)
    (hparse' : parsePipeline pipelineJson' = .ok parsed')
    (hshown : ShowsPlan table pipelineJson shown) (hshown' : ShowsPlan table pipelineJson' shown)
    (hlegible : LegibleStages parsed.stages) (hlegible' : LegibleStages parsed'.stages)
    (hnumbers : StagesShown parsed.stages parsed'.stages) :
    SameSuccess Eq (runPipeline clock table pipelineJson) (runPipeline clock' table pipelineJson') := by
  obtain ⟨plan, hbind, hplan⟩ := (showsPlan_iff hparse).mp hshown
  obtain ⟨plan', hbind', hplan'⟩ := (showsPlan_iff hparse').mp hshown'
  obtain ⟨hsame, -⟩ := samePlan_of_toJson ((bindPipeline_checked table parsed).of_ok hbind)
    ((bindPipeline_checked table parsed').of_ok hbind') hlegible hlegible' hnumbers
    (hplan.trans hplan'.symm)
  rw [runPipeline_eq hparse hbind, runPipeline_eq hparse' hbind', hsame.outputSchema]
  have hdenote := hsame.rewrite.denote
  rw [← Optimizer.optimize_fst, ← Optimizer.optimize_fst] at hdenote
  exact (hdenote.bind fun opened opened' hfeeds => hfeeds.collect).mapEq _

/-! ## Plans that mislead -/

/-- One plan is shown for both, and they return different rows. -/
def Misleads [StdLibrary] (table : Table) (pipelineJson pipelineJson' : Json) : Prop :=
  (∃ shown, ShowsPlan table pipelineJson shown ∧ ShowsPlan table pipelineJson' shown) ∧
    ¬ SameSuccess (fun result result' : QueryResult => result.rows = result'.rows)
      (runPipeline .still table pipelineJson) (runPipeline .still table pipelineJson')

/-- `[{"$match": {field: {"$eq": literal}, …}}]`. -/
def whereEqual (conditions : List (String × Json)) : Json :=
  .array [.object [("$match",
    .object (conditions.map fun condition => (condition.1, .object [("$eq", condition.2)])))]]

/-- One row: a string, the column whose name reads like a comparison, a string, a number. -/
def plainTable : Table where
  schema := { fields := ["a", "a $eq \"x\" AND b", "b", "n"] }
  rows := [{ ordinal := 0, values := [.string "x", .string "z", .string "y", .int64 1000000] }]

/-- Filters with the same text are shown alike. -/
theorem showsPlan_of_text {pipelineJson pipelineJson' : Json} {parsed parsed' : ParsedPipeline}
    {predicate predicate' : Expression} (hparse : parsePipeline pipelineJson = .ok parsed)
    (hparse' : parsePipeline pipelineJson' = .ok parsed')
    (hbind : bindPipeline plainTable parsed = .ok (.kFilter (.kScan plainTable) predicate))
    (hbind' : bindPipeline plainTable parsed' = .ok (.kFilter (.kScan plainTable) predicate'))
    (htext : predicate.describe = predicate'.describe) :
    ∃ shown, ShowsPlan plainTable pipelineJson shown ∧ ShowsPlan plainTable pipelineJson' shown := by
  refine ⟨_, (showsPlan_iff hparse).mpr ⟨_, hbind, rfl⟩,
    (showsPlan_iff hparse').mpr ⟨_, hbind', ?_⟩⟩
  simp only [LogicalPlanNode.toJson, htext]

/-- One plan for both, and two results with different rows. -/
theorem misleads_of_rows [StdLibrary] {table : Table} {pipelineJson pipelineJson' : Json}
    {result result' : QueryResult}
    (hshown : ∃ shown, ShowsPlan table pipelineJson shown ∧ ShowsPlan table pipelineJson' shown)
    (hrun : runPipeline .still table pipelineJson = .ok result)
    (hrun' : runPipeline .still table pipelineJson' = .ok result')
    (hrows : result.rows ≠ result'.rows) : Misleads table pipelineJson pipelineJson' := by
  refine ⟨hshown, fun hsame => ?_⟩
  rw [hrun, hrun'] at hsame
  exact hrows hsame.related

/-- The three kinds of texts that can be read in two ways: `n $eq 1e+06`, and twice
    `a $eq "x" AND b $eq "y"`. -/
theorem plans_mislead :
    @Misleads StdLibrary.reference plainTable
      (whereEqual [("n", .numberFloat (.ofInt 1000000))])
      (whereEqual [("n", .numberFloat (.ofInt 1000001))]) ∧
    @Misleads StdLibrary.reference plainTable
      (whereEqual [("a", .string "x"), ("b", .string "y")])
      (whereEqual [("a", .string "x\" AND b $eq \"y")]) ∧
    @Misleads StdLibrary.reference plainTable
      (whereEqual [("a", .string "x"), ("b", .string "y")])
      (whereEqual [("a $eq \"x\" AND b", .string "y")]) := by
  let reference : StdLibrary := StdLibrary.reference
  refine ⟨?_, ?_, ?_⟩
  · have hfound : runPipeline .still plainTable
        (whereEqual [("n", .numberFloat (.ofInt 1000000))]) =
          .ok { rows := plainTable.rows, outputSchema := plainTable.schema } := by decide +kernel
    have hnone : runPipeline .still plainTable
        (whereEqual [("n", .numberFloat (.ofInt 1000001))]) =
          .ok { rows := [], outputSchema := plainTable.schema } := by decide +kernel
    have hshown : ∃ shown,
        ShowsPlan plainTable (whereEqual [("n", .numberFloat (.ofInt 1000000))]) shown ∧
          ShowsPlan plainTable (whereEqual [("n", .numberFloat (.ofInt 1000001))]) shown :=
      showsPlan_of_text rfl rfl rfl rfl (by decide +kernel)
    exact misleads_of_rows hshown hfound hnone (by decide)
  · exact misleads_of_rows (showsPlan_of_text rfl rfl rfl rfl (by decide)) rfl rfl (by decide)
  · exact misleads_of_rows (showsPlan_of_text rfl rfl rfl rfl (by decide)) rfl rfl (by decide)

/-- An integer and the double it is equal to are shown alike, and find the same. -/
theorem logicalPlan_determines_integer :
    @SameSuccess QueryResult QueryResult Exception Eq
      (@runPipeline StdLibrary.reference .still plainTable
        (whereEqual [("n", .numberInteger 1000)]))
      (@runPipeline StdLibrary.reference .still plainTable
        (whereEqual [("n", .numberFloat (.ofInt 1000))])) := by
  let reference : StdLibrary := StdLibrary.reference
  have hname : ∀ token ∈ operatorTokens, ¬ (" " ++ token ++ " ").toList <:+: "n".toList := by decide
  have hlegible : ∀ literal : Value, typeOf literal ≠ .kString →
      LegibleStages [.kMatch { predicates := [{ field := ⟨"n"⟩, opToken := "$eq", literal }] }] := by
    intro literal hplain stage hstage predicate hpredicate
    rw [List.mem_singleton.mp hstage] at hpredicate
    rw [List.mem_singleton.mp hpredicate]
    refine ⟨hname, ?_⟩
    rintro s rfl
    exact absurd rfl hplain
  obtain ⟨shown, hshown, hshown'⟩ : ∃ shown,
      ShowsPlan plainTable (whereEqual [("n", .numberInteger 1000)]) shown ∧
        ShowsPlan plainTable (whereEqual [("n", .numberFloat (.ofInt 1000))]) shown :=
    showsPlan_of_text rfl rfl rfl rfl (by decide +kernel)
  refine logicalPlan_determines .still .still rfl rfl hshown hshown' (hlegible _ (by decide))
    (hlegible _ (by decide)) ?_
  intro i parsed parsed' hparsed hparsed' j predicate predicate' hpredicate hpredicate' _ _
  obtain rfl := ParsedStage.kMatch.inj (List.mem_singleton.mp (List.mem_of_getElem? hparsed))
  obtain rfl := ParsedStage.kMatch.inj (List.mem_singleton.mp (List.mem_of_getElem? hparsed'))
  rw [List.mem_singleton.mp (List.mem_of_getElem? hpredicate),
    List.mem_singleton.mp (List.mem_of_getElem? hpredicate')]
  exact .inr (by decide +kernel)

end QueryLume
