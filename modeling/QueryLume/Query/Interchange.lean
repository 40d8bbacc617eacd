/-
  Stages that can stand for each other.

  A pipeline is a context for the stages in it: they are bound against what the stages before them
  show, and the stages after them run on what they yield.  Stages that bind, over every plan, to
  plans that yield the same and show the same fields can be put in each other's place in every
  pipeline (`runPipeline_interchange`).

  Showing the same fields matters, since the stages after them are bound against these; not being a
  sort matters, since a limit after them would make a top-k of it, and a top-k looks at fewer rows.
  Both are fields of `Interchangeable`.

  Splitting a `$match` (`Query/SplitMatch.lean`) and repeating a stage (`Query/RepeatedStage.lean`)
  are instances: what is left to show there is about the stages alone.
-/
import QueryLume.Query.Composition

namespace QueryLume

open LogicalPlanNode

section Interchange

variable [StdLibrary]

/-- Two plans that yield the same once they are optimized, and bring no sort under what is put on
    them. -/
structure LogicalPlanNode.Interchangeable (plan plan' : LogicalPlanNode) : Prop where
  fields : outputSchemaOf plan = outputSchemaOf plan'
  yields : SameOutcome Opened.Alike (optimizedPlan plan).denote (optimizedPlan plan').denote
  notSort : ¬ plan.IsSort
  notSort' : ¬ plan'.IsSort

/-- They yield the same under whatever is put on them. -/
theorem LogicalPlanNode.Interchangeable.graft {plan plan' : LogicalPlanNode}
    (h : plan.Interchangeable plan') (rest : LogicalPlanNode) :
    SameOutcome Opened.Alike (optimizedPlan (graft plan rest)).denote
      (optimizedPlan (LogicalPlanNode.graft plan' rest)).denote := by
  have hyields := h.yields
  simp only [optimizedPlan, Optimizer.optimize_fst] at hyields ⊢
  rw [rewrite_graft _ _ (.inl h.notSort), rewrite_graft _ _ (.inl h.notSort')]
  exact denote_graft hyields _

/-- Stages that bind to such plans, or fail to bind for the same reason, over every plan. -/
def Interchange (stages stages' : List ParsedStage) : Prop :=
  ∀ base : LogicalPlanNode, SameOutcome Interchangeable
    (bindStages (outputSchemaOf base) base stages) (bindStages (outputSchemaOf base) base stages')

/-- Two plans that differ below, by what can be interchanged. -/
def DifferBelow (plan plan' : LogicalPlanNode) : Prop :=
  ∃ base base' rest, base.Interchangeable base' ∧ plan = graft base rest ∧ plan' = graft base' rest

/-- In a pipeline such stages are bound to plans that differ below, or the pipeline is rejected
    for the same reason. -/
theorem Interchange.bound {stages stages' : List ParsedStage} (h : Interchange stages stages')
    (table : Table) (pre post : List ParsedStage) :
    SameOutcome DifferBelow (bindPipeline table ⟨pre ++ (stages ++ post)⟩)
      (bindPipeline table ⟨pre ++ (stages' ++ post)⟩) := by
  have hpre : ∀ later : List ParsedStage, bindPipeline table ⟨pre ++ later⟩ =
      (bindStages table.schema (.kScan table) pre).bind fun base =>
        bindStages (outputSchemaOf base) base later :=
    fun later => bindStages_append pre later (.kScan table)
  rw [hpre, hpre]
  cases bindStages table.schema (.kScan table) pre with
  | error e => exact .error e
  | ok base =>
    simp only [Except.bind]
    rw [bindStages_append, bindStages_append]
    refine (h base).bind fun node node' hnodes => ?_
    -- what follows is bound as over a scan with the same fields
    let scan : LogicalPlanNode := .kScan { schema := outputSchemaOf node, rows := [] }
    have hpost : ∀ below : LogicalPlanNode, bindStages (outputSchemaOf node) below post =
        (bindStages (outputSchemaOf node) scan post).map (graft below) := fun below =>
      bindStages_graft below post (outputSchemaOf node) scan
    rw [← hnodes.fields, hpost node, hpost node']
    cases bindStages (outputSchemaOf node) scan post with
    | error e => exact .error e
    | ok rest => exact .ok ⟨node, node', rest, hnodes, rfl, rfl⟩

/-- A run, from its stages. -/
theorem runPipeline_stages (clock : Clock) (table : Table) (elements : List Json) :
    runPipeline clock table (.array elements) =
      ((parseStages elements).bind fun stages => bindPipeline table ⟨stages⟩).bind fun plan =>
        ((optimizedPlan plan).denote.bind fun opened => opened.feed.collect).map
          fun rows => { rows, outputSchema := outputSchemaOf plan } := by
  cases hstages : parseStages elements with
  | error e =>
    have hfails : parsePipeline (.array elements) = .error e := by rw [parsePipeline, hstages]; rfl
    simp only [runPipeline, planQuery, hfails]
    rfl
  | ok stages =>
    have hparsed : parsePipeline (.array elements) = .ok ⟨stages⟩ := by
      rw [parsePipeline, hstages]
      rfl
    simp only [Except.bind]
    cases hbind : bindPipeline table ⟨stages⟩ with
    | error e => simp only [runPipeline, planQuery, hparsed, hbind]
    | ok plan => exact runPipeline_eq hparsed hbind

/-- **Every pipeline** ends in the same way with the one as with the other. -/
theorem runPipeline_interchange {elements elements' : List Json}
    (h : SameOutcome Interchange (parseStages elements) (parseStages elements')) (table : Table)
    (before after : List Json) (clock clock' : Clock) :
    runPipeline clock table (.array (before ++ (elements ++ after))) =
      runPipeline clock' table (.array (before ++ (elements' ++ after))) := by
  have hbind : SameOutcome DifferBelow
      ((parseStages (before ++ (elements ++ after))).bind fun stages => bindPipeline table ⟨stages⟩)
      ((parseStages (before ++ (elements' ++ after))).bind fun stages =>
        bindPipeline table ⟨stages⟩) := by
    simp only [parseStages_append]
    cases parseStages before with
    | error e => exact .error e
    | ok pre =>
      generalize parseStages elements = parsed at h ⊢
      generalize parseStages elements' = parsed' at h ⊢
      cases h with
      | error e => exact .error e
      | ok hstages =>
        cases parseStages after with
        | error e => exact .error e
        | ok post => exact hstages.bound table pre post
  rw [runPipeline_stages, runPipeline_stages]
  refine hbind.bind_eq fun plan plan' hplans => ?_
  obtain ⟨base, base', rest, hbase, rfl, rfl⟩ := hplans
  rw [outputSchemaOf_graft hbase.fields rest,
    (hbase.graft rest).bind_eq fun _ _ halike => Feed.Alike.collect halike]

end Interchange

end QueryLume
