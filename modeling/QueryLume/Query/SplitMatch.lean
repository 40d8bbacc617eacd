/-
  One `$match` or several.

  The predicates of a `$match` can be given in one stage or in several stages in a row: whatever
  stands before and after them, every query ends in the same way, with the same rows or the same
  exception, be it of parsing, of binding or of running (`run_match_splits`).

  What is parsed, bound and optimized in between is not the same: a bound `$match` is a conjunction
  only from two predicates on, and each stage is a filter of its own.  Two filters in a row are
  one, pull by pull (`Feed.filter_bothTests`), and no filter is a sort, so the two plans are
  interchangeable (`Query/Interchange.lean`).
-/
import QueryLume.Physical.Cascade
import QueryLume.Query.Interchange

namespace QueryLume

open LogicalPlanNode StdAlgorithms

/-! ## Parsing

  The members of a `$match` are parsed one by one, so a list of them can be cut anywhere. -/

/-- A `$match` stage. -/
def matchJson (members : List (String × Json)) : Json := .object [("$match", .object members)]

theorem parseStage_match (members : List (String × Json)) :
    parseStage (matchJson members) =
      (parsePredicates members).map fun predicates => .kMatch { predicates } := by
  show ((parsePredicates members).map fun predicates =>
    ({ predicates } : ParsedMatchStage)).map ParsedStage.kMatch = _
  cases parsePredicates members <;> rfl

theorem parsePredicates_append (members members' : List (String × Json)) :
    parsePredicates (members ++ members') = (parsePredicates members).bind fun predicates =>
      (parsePredicates members').map (predicates ++ ·) :=
  Except.append_of_collects parsePredicates rfl parsePredicates_cons members members'

/-! ## Binding

  The binder makes a conjunction of several predicates and none of a single one, and tests them in
  their order in either case. -/

/-- The two forms a bound `$match` can have agree with testing one operand after the other. -/
theorem bindMatch_outcome (schema : Schema) (parsed : ParsedMatchStage) :
    SameOutcome (fun predicate operands => ∀ row, predicate.test row = testAll operands row)
      (bindMatch schema parsed) (bindComparisons schema parsed.predicates) := by
  cases hbind : bindMatch schema parsed with
  | ok predicate =>
    obtain ⟨operands, hoperands, hform⟩ := bindMatch_form hbind
    rw [hoperands]
    exact .ok hform.test_eq
  | error e =>
    have herror : bindComparisons schema parsed.predicates = .error e := by
      unfold bindMatch at hbind
      split at hbind
      · cases hbind
      · rename_i first hsingle
        rw [hsingle, bindComparisons, hbind]
      · exact Except.map_eq_error hbind
    rw [herror]
    exact .error e

theorem bindComparisons_append (schema : Schema) (ps qs : List ParsedComparison) :
    bindComparisons schema (ps ++ qs) = (bindComparisons schema ps).bind fun operands =>
      (bindComparisons schema qs).map (operands ++ ·) :=
  Except.append_of_collects (bindComparisons schema) rfl (bindComparisons_cons schema) ps qs

/-- Testing all of them is testing the first and then the others. -/
theorem testAll_append (operands : List Expression) : ∀ (operands' : List Expression) (row : Row),
    testAll (operands ++ operands') row = bothTests (testAll operands row) (testAll operands' row) := by
  induction operands with
  | nil =>
    intro operands' row
    rfl
  | cons operand operands ih =>
    intro operands' row
    rw [List.cons_append, testAll, testAll, ih]
    cases operand.test row with
    | error e => rfl
    | ok accepted => cases accepted <;> rfl

/-- Binding all predicates is binding the first and then the others. -/
theorem bindMatch_split (schema : Schema) (ps qs : List ParsedComparison) :
    SameOutcome (fun r pq => ∀ row, r.test row = bothTests (pq.1.test row) (pq.2.test row))
      (bindMatch schema { predicates := ps ++ qs })
      ((bindMatch schema { predicates := ps }).bind fun p =>
        (bindMatch schema { predicates := qs }).map fun q => (p, q)) := by
  have hps := bindMatch_outcome schema { predicates := ps }
  have hqs := bindMatch_outcome schema { predicates := qs }
  have hboth := bindMatch_outcome schema { predicates := ps ++ qs }
  rw [bindComparisons_append] at hboth
  generalize bindMatch schema { predicates := ps } = first at hps ⊢
  generalize bindMatch schema { predicates := qs } = second at hqs ⊢
  generalize bindMatch schema { predicates := ps ++ qs } = all at hboth ⊢
  simp only at hps hqs hboth
  generalize bindComparisons schema ps = operands at hps hboth
  generalize bindComparisons schema qs = operands' at hqs hboth
  cases hps with
  | error e =>
    cases hboth
    exact .error e
  | ok hp =>
    cases hqs with
    | error e =>
      cases hboth
      exact .error e
    | ok hq =>
      cases hboth with
      | ok hr =>
        refine .ok fun row => ?_
        rw [hr row, testAll_append, hp row, hq row]

theorem bindStages_match (schema : Schema) (node : LogicalPlanNode) (ps : List ParsedComparison)
    (stages : List ParsedStage) :
    bindStages schema node (.kMatch { predicates := ps } :: stages) =
      (bindMatch schema { predicates := ps }).bind fun predicate =>
        bindStages schema (.kFilter node predicate) stages := by
  rw [bindStages_cons, bindStage]
  cases bindMatch schema { predicates := ps } <;> rfl

/-! ## Running

  Two filters in a row test what one filter with both predicates tests, so the two plans can be
  interchanged under any stages. -/

section Runs

variable [StdLibrary]

omit [StdLibrary] in
theorem not_isSort_filter (child : LogicalPlanNode) (predicate : Expression) :
    ¬ (kFilter child predicate).IsSort := by
  rintro ⟨_, _, _, _, h⟩
  cases h

omit [StdLibrary] in
/-- Two filters in a row are one, pull by pull. -/
theorem Feed.filter_bothTests {α : Type} {p q r : α → Except Exception Bool}
    (htest : ∀ a, r a = bothTests (p a) (q a)) : ∀ feed : Feed α Exception,
    (feed.filter p).filter q = feed.filter r
  | .stop finish mark => rfl
  | .row a mark rest => by
    rw [Feed.filter, Feed.filter, htest]
    cases p a with
    | error e => rfl
    | ok accepted =>
      cases accepted with
      | false => exact Feed.filter_bothTests htest rest
      | true =>
        simp only [bothTests]
        rw [Feed.filter]
        cases q a with
        | error e => rfl
        | ok accepted' =>
          cases accepted' with
          | false => exact Feed.filter_bothTests htest rest
          | true => exact congrArg (Feed.row a mark) (Feed.filter_bothTests htest rest)

/-- A filter is optimized by optimizing what is below it. -/
theorem denote_filter (child : LogicalPlanNode) (predicate : Expression) :
    (optimizedPlan (.kFilter child predicate)).denote = (optimizedPlan child).denote.map
      fun opened => { opened with feed := opened.feed.filter predicate.test } := by
  rw [optimizedPlan, optimizedPlan, Optimizer.optimize_fst, Optimizer.optimize_fst]
  rfl

/-- Two filters in a row, and the one that tests what both test. -/
theorem interchangeable_filters {p q r : Expression}
    (htest : ∀ row, r.test row = bothTests (p.test row) (q.test row)) (base : LogicalPlanNode) :
    (kFilter base r).Interchangeable (.kFilter (.kFilter base p) q) where
  fields := rfl
  yields := by
    rw [denote_filter, denote_filter, denote_filter]
    cases (optimizedPlan base).denote with
    | error e => exact .error e
    | ok opened =>
      have hsame := Feed.filter_bothTests htest opened.feed
      refine .ok (Feed.alike_of_eq ?_ ?_)
      · exact congrArg Feed.rows hsame.symm
      · exact congrArg Feed.finish hsame.symm
  notSort := not_isSort_filter _ _
  notSort' := not_isSort_filter _ _

/-- One stage with all predicates, and two with a part each. -/
theorem interchange_split (ps qs : List ParsedComparison) :
    Interchange [.kMatch { predicates := ps ++ qs }]
      [.kMatch { predicates := ps }, .kMatch { predicates := qs }] := by
  intro base
  have hsplit := bindMatch_split (outputSchemaOf base) ps qs
  simp only [bindStages_match]
  generalize bindMatch (outputSchemaOf base) { predicates := ps } = first at hsplit ⊢
  generalize bindMatch (outputSchemaOf base) { predicates := qs } = second at hsplit ⊢
  generalize bindMatch (outputSchemaOf base) { predicates := ps ++ qs } = all at hsplit ⊢
  cases first with
  | error e =>
    cases hsplit
    exact .error e
  | ok p =>
    cases second with
    | error e =>
      cases hsplit
      exact .error e
    | ok q =>
      cases hsplit with
      | ok htest => exact .ok (interchangeable_filters htest base)

theorem parseStages_split (members members' : List (String × Json)) :
    SameOutcome Interchange (parseStages [matchJson (members ++ members')])
      (parseStages [matchJson members, matchJson members']) := by
  simp only [parseStages_cons, parseStage_match, parsePredicates_append]
  cases parsePredicates members with
  | error e => exact .error e
  | ok ps =>
    cases parsePredicates members' with
    | error e => exact .error e
    | ok qs => exact .ok (interchange_split ps qs)

variable {table : Table}

/-- **Two stages.**  In every pipeline. -/
theorem runPipeline_match_twice (before after : List Json) (members members' : List (String × Json))
    (clock clock' : Clock) :
    runPipeline clock table (.array (before ++ matchJson (members ++ members') :: after)) =
      runPipeline clock' table
        (.array (before ++ matchJson members :: matchJson members' :: after)) :=
  runPipeline_interchange (parseStages_split members members') table before after clock clock'

/-- **Any number of stages.**  In every pipeline, over every table, a `$match` can be cut into any
    number of stages: the query ends in the same way, with the same rows or the same exception. -/
theorem run_match_splits (before after : List Json) (members : List (String × Json))
    (groups : List (List (String × Json))) (clock clock' : Clock) :
    runPipeline clock table (.array (before ++ matchJson (members ++ groups.flatten) :: after)) =
      runPipeline clock' table
        (.array (before ++ matchJson members :: groups.map matchJson ++ after)) := by
  induction groups generalizing before members with
  | nil =>
    rw [List.flatten_nil, List.append_nil, List.map_nil, List.append_assoc, List.singleton_append,
      runPipeline_stages, runPipeline_stages]
  | cons group groups ih =>
    rw [List.flatten_cons, runPipeline_match_twice before after members _ clock clock]
    have hrest := ih (before ++ [matchJson members]) group
    simp only [List.append_assoc, List.cons_append, List.map_cons] at hrest ⊢
    exact hrest

end Runs

end QueryLume
