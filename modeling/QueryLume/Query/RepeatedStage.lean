/-
  Stages that are repeated.

  Once is enough: a stage that stands several times in a row does what it does alone, at every
  place of every pipeline, with the same rows or the same exception in the end (`run_repeated`).

  For a filter, a projection and a limit this is so whatever happens: the two plans are
  interchangeable (`Query/Interchange.lean`), also where the limit stands over a sort and becomes a
  top-k.  A sort under a limit is a top-k, and under another sort it is not: there it takes that
  the rows can be sorted, and then sorting sorted rows changes nothing.
-/
import QueryLume.Query.Distributed
import QueryLume.Query.LateProjection
import QueryLume.Query.SplitMatch

namespace QueryLume

open BoundedHeap LogicalPlanNode StdAlgorithms

/-! ## Repeated operators -/

theorem bothTests_self (test : Except Exception Bool) : bothTests test test = test := by
  cases test with
  | error e => rfl
  | ok accepted => cases accepted <;> rfl

/-- A function that leaves what it made as it is. -/
theorem Feed.mapRows_again {α ε : Type} {f g : α → Except ε α}
    (h : ∀ a b, f a = .ok b → g b = .ok b) (feed : Feed α ε) :
    (feed.mapRows f).mapRows g = feed.mapRows f := by
  obtain ⟨taken, -, himages⟩ := feed.rows_mapRows f
  refine Feed.mapRows_eq_self fun b hb => ?_
  obtain ⟨a, -, hab⟩ := himages.exists_of_mem_right hb
  exact h a b hab

/-- A limit lets through all that a limit of the same size has let through. -/
theorem Feed.limit_again {α ε : Type} : ∀ (k mark mark' : Nat) (feed : Feed α ε),
    Feed.Alike ((feed.limit k mark).limit k mark') (feed.limit k mark)
  | 0, mark, mark', _ => .stop none mark' mark
  | _ + 1, _, _, .stop finish mark => .stop finish mark mark
  | k + 1, _, _, .row r mark rest => .row r mark mark (Feed.limit_again k mark mark rest)

/-! ## Repeated nodes -/

section Plans

variable [StdLibrary]

omit [StdLibrary] in
theorem not_isSort_project (child : LogicalPlanNode) (columnIndices : List Nat)
    (fieldNames : List String) : ¬ (kProject child columnIndices fieldNames).IsSort := by
  rintro ⟨_, _, _, _, h⟩
  cases h

/-- The optimizer leaves a projection where it is. -/
theorem denote_project (child : LogicalPlanNode) (columnIndices : List Nat)
    (fieldNames : List String) :
    (optimizedPlan (.kProject child columnIndices fieldNames)).denote =
      (optimizedPlan child).denote.map fun opened =>
        { opened with feed := opened.feed.mapRows (ProjectStage.project columnIndices) } := by
  rw [optimizedPlan, optimizedPlan, Optimizer.optimize_fst, Optimizer.optimize_fst]
  rfl

/-- Over anything but a sort a limit stays a limit. -/
theorem denote_limit {child : LogicalPlanNode} (hchild : ¬ child.IsSort) (limit : Nat) :
    (optimizedPlan (.kLimit child limit)).denote = (optimizedPlan child).denote.map
      fun opened => { opened with feed := opened.feed.limit limit opened.mark } := by
  have hrewrite := rewrite_graft child (.kLimit (.kScan {}) limit) (.inl hchild)
  rw [graft, graft] at hrewrite
  rw [optimizedPlan, optimizedPlan, Optimizer.optimize_fst, Optimizer.optimize_fst, hrewrite]
  rfl

/-- What comes out under a limit passes that limit again, also where it is a top-k. -/
theorem limited_again {child : LogicalPlanNode} {limit : Nat} {opened : Opened}
    (h : (optimizedPlan (.kLimit child limit)).denote = .ok opened) :
    Feed.Alike (opened.feed.limit limit opened.mark) opened.feed := by
  by_cases hsort : child.IsSort
  · obtain ⟨below, columnIndex, fieldName, direction, rfl⟩ := hsort
    rw [optimizedPlan, Optimizer.optimize_fst] at h
    obtain ⟨drained, -, -, hselect, hfinish⟩ := denote_topK_ok h
    refine Feed.alike_of_eq ?_ ?_
    · rw [Feed.rows_limit, List.take_of_length_le (select_length hselect)]
    · rw [hfinish, Feed.finish_limit_none hfinish]
  · rw [denote_limit hsort] at h
    obtain ⟨below, -, rfl⟩ := Except.map_eq_ok h
    exact Feed.limit_again limit _ _ below.feed

theorem interchangeable_limits (base : LogicalPlanNode) (limit : Nat) :
    (kLimit base limit).Interchangeable (.kLimit (.kLimit base limit) limit) where
  fields := rfl
  yields := by
    rw [denote_limit (not_isSort_limit base limit)]
    cases hdenote : (optimizedPlan (.kLimit base limit)).denote with
    | error e => exact .error e
    | ok opened =>
      have hagain := limited_again hdenote
      exact .ok (Feed.alike_of_eq hagain.rows.symm hagain.finish.symm)
  notSort := not_isSort_limit _ _
  notSort' := not_isSort_limit _ _

/-- A projection and one that finds its columns where it has put them. -/
theorem interchangeable_projects {columnIndices columnIndices' : List Nat}
    {fieldNames : List String} (base : LogicalPlanNode)
    (hlength : columnIndices.length = fieldNames.length) (hnames : fieldNames.Nodup)
    (haddresses : List.Forall₂ (Schema.Addresses ⟨fieldNames⟩) columnIndices' fieldNames) :
    (kProject base columnIndices fieldNames).Interchangeable
      (.kProject (.kProject base columnIndices fieldNames) columnIndices' fieldNames) where
  fields := rfl
  yields := by
    rw [denote_project _ columnIndices', denote_project]
    cases (optimizedPlan base).denote with
    | error e => exact .error e
    | ok opened =>
      have hagain := Feed.mapRows_again (f := ProjectStage.project columnIndices)
        (g := ProjectStage.project columnIndices') (fun input row hproject => by
          have hwide := (ProjectStage.project_values hproject).2.length_eq
          exact ProjectStage.project_self haddresses hnames (hwide.symm.trans hlength)) opened.feed
      refine .ok (Feed.alike_of_eq ?_ ?_)
      · exact congrArg Feed.rows hagain.symm
      · exact congrArg Feed.finish hagain.symm
  notSort := not_isSort_project _ _ _
  notSort' := not_isSort_project _ _ _

end Plans

/-! ## Repeated stages -/

section Runs

variable [StdLibrary]

/-- **Twice.**  Any stage but a sort. -/
theorem interchange_twice {stage : ParsedStage} (hsort : ∀ sort, stage ≠ .kSort sort) :
    Interchange [stage] [stage, stage] := by
  intro base
  cases stage with
  | kMatch parsed =>
    obtain ⟨predicates⟩ := parsed
    simp only [bindStages_match]
    show SameOutcome _ _ ((bindMatch (outputSchemaOf base) { predicates }).bind fun _ =>
      (bindMatch (outputSchemaOf base) { predicates }).bind _)
    cases bindMatch (outputSchemaOf base) { predicates } with
    | error e => exact .error e
    | ok predicate =>
      exact .ok (interchangeable_filters (fun row => (bothTests_self _).symm) base)
  | kProject parsed =>
    rw [bindStages_cons, bindStages_cons]
    cases hfields : bindFields (outputSchemaOf base) [] parsed.fields with
    | error e =>
      rw [bindStage, hfields]
      exact .error e
    | ok indices =>
      obtain ⟨haddresses, hnames, -⟩ := bindFields_binds hfields
      have hvisible : ∀ name ∈ parsed.fields.map (·.fieldName),
          name ∈ (Schema.mk (parsed.fields.map (·.fieldName))).fields := fun _ hname => hname
      obtain ⟨indices', hagain⟩ := bindFields_elsewhere hfields hvisible
      rw [bindStage_project base hfields]
      simp only [Except.bind]
      rw [bindStages_cons, bindStage_project _ hagain]
      exact .ok (interchangeable_projects base haddresses.length_eq hnames
        (bindFields_binds hagain).1)
  | kSort sort => exact absurd rfl (hsort sort)
  | kLimit parsed =>
    rw [bindStages_cons, bindStages_cons, bindStage]
    cases hcount : bindLimit parsed.countRaw with
    | error e => exact .error e
    | ok count =>
      simp only [Except.map, Except.bind]
      rw [bindStages_cons, bindStage, hcount]
      exact .ok (interchangeable_limits base count)

omit [StdLibrary] in
/-- A stage that becomes a sort was written as one. -/
theorem sortJson_of_parseStage {stage : Json} {sort : ParsedSortStage}
    (h : parseStage stage = .ok (.kSort sort)) : ∃ value, stage = sortJson value := by
  unfold parseStage at h
  split at h
  · rename_i name value
    split at h
    · obtain ⟨_, -, heq⟩ := Except.map_eq_ok h
      cases heq
    split at h
    · obtain ⟨_, -, heq⟩ := Except.map_eq_ok h
      cases heq
    split at h
    · rename_i hname
      exact ⟨value, hname ▸ rfl⟩
    split at h
    · obtain ⟨_, -, heq⟩ := Except.map_eq_ok h
      cases heq
    · cases h
  · cases h

variable {table : Table} {before : List Json} {clock : Clock}

/-- **Twice.**  A sort that came through is told nothing new. -/
theorem runPipeline_sort_twice {value : Json} {sorted : QueryResult} (htable : table.WellFormed)
    (h : runPipeline clock table (.array (before ++ [sortJson value])) = .ok sorted)
    (clock' : Clock) :
    runPipeline clock' table (.array (before ++ [sortJson value] ++ [sortJson value])) =
      .ok sorted := by
  obtain ⟨below, sort, columnIndex, direction, hbelow, -, -, hschema, harranged, hanswers, hsort⟩ :=
    runPipeline_sort_last htable h
  have hdistinct := (toTable_wellFormed htable hbelow).distinct
  obtain ⟨hperm, -⟩ := stdSort_sorted (RowComparator.before_strictWeak false) hdistinct.nodup
    (RowComparator.call_agrees false _) harranged
  have hagain := hsort clock' sorted.rows
  rw [RowComparator.stdSort_arrival hdistinct hanswers hperm, harranged] at hagain
  have hsame : below.toTable.withRows sorted.rows = sorted.toTable := by
    rw [QueryResult.toTable, QueryResult.toTable, hschema]
    rfl
  rw [runPipeline_append htable h [sortJson value] clock' clock', ← hsame, hagain, ← hschema]
  rfl

theorem runPipeline_twice {stage : Json} (htable : table.WellFormed)
    (hsort : (∃ value, stage = sortJson value) →
      ∃ sorted, runPipeline clock table (.array (before ++ [stage])) = .ok sorted)
    (after : List Json) (clock' clock'' : Clock) :
    runPipeline clock' table (.array (before ++ stage :: after)) =
      runPipeline clock'' table (.array (before ++ stage :: stage :: after)) := by
  by_cases hstage : ∃ value, stage = sortJson value
  · obtain ⟨sorted, h⟩ := hsort hstage
    obtain ⟨value, rfl⟩ := hstage
    have honce := runPipeline_append htable h after clock' clock''
    have htwice := runPipeline_append htable (runPipeline_sort_twice htable h clock) after clock''
      clock''
    simp only [List.append_assoc, List.cons_append, List.nil_append] at honce htwice
    rw [honce, htwice]
  · have hparsed : SameOutcome Interchange (parseStages [stage]) (parseStages [stage, stage]) := by
      simp only [parseStages_cons]
      cases hparse : parseStage stage with
      | error e => exact .error e
      | ok parsed =>
        refine .ok (interchange_twice fun sort heq => hstage ?_)
        rw [heq] at hparse
        exact sortJson_of_parseStage hparse
    exact runPipeline_interchange hparsed table before after clock' clock''

/-- **Any number of times.**  A stage that is repeated does what it does once, whatever it is and
    wherever it stands; a sort, where the pipeline up to it comes through.  By induction on the
    number of times. -/
theorem run_repeated {stage : Json} (htable : table.WellFormed)
    (hsort : (∃ value, stage = sortJson value) →
      ∃ sorted, runPipeline clock table (.array (before ++ [stage])) = .ok sorted)
    (n : Nat) (after : List Json) (clock' clock'' : Clock) :
    runPipeline clock' table (.array (before ++ List.replicate (n + 1) stage ++ after)) =
      runPipeline clock'' table (.array (before ++ stage :: after)) := by
  induction n generalizing after with
  | zero =>
    rw [List.replicate_one, List.append_assoc, List.singleton_append, runPipeline_stages,
      runPipeline_stages]
  | succ n ih =>
    rw [List.replicate_succ', ← List.append_assoc, List.append_assoc, List.singleton_append, ih]
    exact (runPipeline_twice htable hsort after clock'' clock'').symm

end Runs

/-- A sort three times, and a limit that makes the last of them a top-k. -/
theorem run_repeated_sample :
    letI := StdLibrary.reference
    runPipeline Clock.still sampleTable
        (.array ([positiveA] ++ List.replicate 3 (sortJson missedSort) ++ [limitOne])) =
      runPipeline Clock.still sampleTable
        (.array ([positiveA] ++ sortJson missedSort :: [limitOne])) :=
  @run_repeated StdLibrary.reference sampleTable [positiveA] Clock.still (sortJson missedSort)
    sampleTable_wellFormed
    (fun _ => ⟨{ rows := [{ ordinal := 1, values := [.int64 1] }], outputSchema := { fields := ["a"] } },
      rfl⟩)
    2 [limitOne] Clock.still Clock.still

end QueryLume
