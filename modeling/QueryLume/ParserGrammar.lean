/-
  The grammar of pipelines, and that the parser accepts exactly it.

  1. **The grammar** — `Json.IsPipeline`: an array of stages, and a stage is an object with one
     member of one of four forms (`Json.IsStage`).  It is stated over JSON values alone, without
     the parser.

  2. **The complaints** — `stageComplaints` lists what keeps a JSON value from being a stage, in
     the order of the parser's checks: every function of the parser has its list here, with the
     texts and the codes of the source.  A value is in the grammar exactly when its list is empty
     (`pipelineJsonComplaints_eq_nil`).

  3. **Writing back** — `ParsedPipeline.source` writes a parsed pipeline as JSON.  What was
     accepted is recovered from the result, up to how its integers are stored, so the parser
     forgets nothing.

  4. **The crux** — as for the binder, every function is `Checked` against its list: it throws the
     first complaint, or returns something whose source is the signed form of its input.  The loops
     are inductions over the members or elements of the value.

  `parsePipeline_grammar` states all of it at once: acceptance both ways, recovery, and the first
  complaint about the first value that has one.
-/
import QueryLume.Data.IntegerStorage
import QueryLume.Explain.JsonSerialize
import QueryLume.Foundation.Checked

namespace QueryLume

open Checked

/-! ## The grammar -/

namespace Json

/-- The condition on one field: an object with a single member, operator token to literal.  The
    token is any string, the literal a scalar that fits. -/
def IsPredicate (value : Json) : Prop :=
  ∃ opToken literal, value = .object [(opToken, literal)] ∧ literal.IsScalar

/-- An object with a single member: a stage name, and a value of the form that stage needs.  It
    says nothing about which fields exist, which operators are known or which integers are
    directions. -/
inductive IsStage : Json → Prop where
  | match {members : List (String × Json)} (each : ∀ m ∈ members, m.2.IsPredicate) :
      IsStage (.object [("$match", .object members)])
  | project {elements : List Json}
      (each : ∀ element ∈ elements, ∃ fieldName, element = .string fieldName) :
      IsStage (.object [("$project", .array elements)])
  | sort {direction : Json} (fieldName : String) (fits : direction.IsInt64) :
      IsStage (.object [("$sort", .object [(fieldName, direction)])])
  | limit {count : Json} (fits : count.IsInt64) : IsStage (.object [("$limit", count)])

/-- An array of stages, possibly empty. -/
inductive IsPipeline : Json → Prop where
  | intro {elements : List Json} (each : ∀ element ∈ elements, IsStage element) :
      IsPipeline (.array elements)

end Json

/-! ## What keeps a value from being a stage -/

/-- The complaint about a pipeline that is no array. -/
def malformedPipeline : Exception :=
  .queryLumeError .kPipelineSyntaxError "pipeline must be a JSON array of stage objects"

/-- The complaint about an element that is no object with one member.  The empty object and an
    object with two stages in it are both of this kind. -/
def malformedStage : Exception :=
  .queryLumeError .kPipelineSyntaxError
    "each pipeline stage must be a single-key object, e.g. \x7b\"$match\": \x7b...\x7d\x7d"

/-- The complaint about a member that is no stage name.  It is the only one with the code
    `kUnknownStage`, and the value of the member is not looked at. -/
def unknownStage (stageName : String) : Exception :=
  .queryLumeError .kUnknownStage ("unknown pipeline stage: " ++ stageName)

/-- The complaint about a field whose condition is no object with one member, a bare literal for
    instance. -/
def malformedPredicate (fieldName : String) : Exception :=
  .queryLumeError .kPipelineSyntaxError
    ("$match predicate for field '" ++ fieldName ++
      "' must be a single-key object like \x7b\"$gte\": <literal>\x7d")

/-- The complaint about an integer literal that does not fit.  It is the only one with the code
    `kUnsupportedValueType`. -/
def literalOutOfRange : Exception :=
  .queryLumeError .kUnsupportedValueType "comparison integer literal is outside the int64 range"

/-- The complaint about a literal that is an object, an array or binary data. -/
def literalNotScalar : Exception :=
  .queryLumeError .kPipelineSyntaxError
    "comparison literal must be a scalar (null, bool, number, or string)"

/-- The complaint about a direction or a count that is an integer and does not fit. -/
def integerOutOfRange (context : String) : Exception :=
  .queryLumeError .kPipelineSyntaxError (context ++ " must fit in a signed 64-bit integer")

/-- What is wrong with a literal: nothing for the scalars that fit, and one complaint for
    everything else.  The order of the kinds is that of `jsonToLiteral`. -/
def literalComplaints : Json → List Exception
  | .null | .boolean _ | .numberInteger _ | .numberFloat _ | .string _ => []
  | .numberUnsigned u => complainUnless (u.toNat ≤ int64Max) literalOutOfRange
  | .array _ | .object _ | .binary _ | .discarded => [literalNotScalar]

/-- What is wrong with a direction or a count.  `notInteger` is the complaint about a value that
    is no integer at all, `context` the beginning of the one about an integer that does not fit. -/
def int64Complaints (notInteger : Exception) (context : String) : Json → List Exception
  | .numberInteger _ => []
  | .numberUnsigned u => complainUnless (u.toNat ≤ int64Max) (integerOutOfRange context)
  | .null | .boolean _ | .numberFloat _ | .string _ | .array _ | .object _ | .binary _
  | .discarded => [notInteger]

/-- What is wrong with one member of a `$match`: the shape of the condition, or else the literal
    in it. -/
def memberComplaints (m : String × Json) : List Exception :=
  match m.2 with
  | .object [(_, operand)] => literalComplaints operand
  | _ => [malformedPredicate m.1]

/-- What is wrong with one element of a `$project`. -/
def elementComplaints : Json → List Exception
  | .string _ => []
  | _ => [.queryLumeError .kPipelineSyntaxError "$project field names must be strings"]

/-- What is wrong with the value of a `$match`: that it is no object, or else the complaints
    about its members one after another. -/
def matchComplaints : Json → List Exception
  | .object members => members.flatMap memberComplaints
  | _ =>
    [.queryLumeError .kPipelineSyntaxError
      "$match value must be a JSON object mapping field names to predicates"]

/-- What is wrong with the value of a `$project`: that it is no array, or else the complaints
    about its elements one after another. -/
def projectComplaints : Json → List Exception
  | .array elements => elements.flatMap elementComplaints
  | _ =>
    [.queryLumeError .kPipelineSyntaxError "$project value must be a JSON array of field names"]

/-- What is wrong with the value of a `$sort`: that it is no object with one member, or else what
    is wrong with the direction. -/
def sortComplaints : Json → List Exception
  | .object [(fieldName, direction)] =>
    int64Complaints
      (.queryLumeError .kPipelineSyntaxError
        ("$sort direction for field '" ++ fieldName ++ "' must be an integer (1 or -1)"))
      ("$sort direction for field '" ++ fieldName ++ "'") direction
  | _ =>
    [.queryLumeError .kPipelineSyntaxError
      "$sort value must be a single-key object like \x7b\"field\": 1\x7d"]

/-- What is wrong with the value of a `$limit`, by the same rule as a direction. -/
def limitComplaints : Json → List Exception :=
  int64Complaints (.queryLumeError .kPipelineSyntaxError "$limit value must be an integer")
    "$limit value"

/-- What is wrong with an element of the pipeline: its shape, then its name, and then its value,
    by the list of the function the value goes to. -/
def stageComplaints : Json → List Exception
  | .object [(stageName, value)] =>
    if stageName = "$match" then matchComplaints value
    else if stageName = "$project" then projectComplaints value
    else if stageName = "$sort" then sortComplaints value
    else if stageName = "$limit" then limitComplaints value
    else [unknownStage stageName]
  | _ => [malformedStage]

/-- What is wrong with a pipeline: that it is no array, or else the complaints about its elements
    one after another.  The parser throws the first of them. -/
def pipelineJsonComplaints : Json → List Exception
  | .array elements => elements.flatMap stageComplaints
  | _ => [malformedPipeline]

/-! ## Writing a parsed pipeline back -/

/-- The member of a `$match` that a comparison was read from. -/
def ParsedComparison.source (predicate : ParsedComparison) : String × Json :=
  (predicate.field.fieldName, .object [(predicate.opToken, predicate.literal.toJson)])

/-- The JSON of a stage, in the order in which it was read.  Directions and counts are written
    signed. -/
def ParsedStage.source : ParsedStage → Json
  | .kMatch stage => .object [("$match", .object (stage.predicates.map (·.source)))]
  | .kProject stage =>
    .object [("$project", .array (stage.fields.map fun field => .string field.fieldName))]
  | .kSort stage =>
    .object [("$sort", .object [(stage.field.fieldName, .numberInteger stage.directionRaw)])]
  | .kLimit stage => .object [("$limit", .numberInteger stage.countRaw)]

/-- The pipeline in the language it was written in, integers stored signed.  Parsing it gives the
    pipeline back. -/
def ParsedPipeline.source (pipeline : ParsedPipeline) : Json :=
  .array (pipeline.stages.map (·.source))

/-! ## No complaint, no deviation from the grammar

  The lists of complaints and the grammar are two descriptions of the same values.  One lemma per
  function of the parser, from the literals up to the pipeline. -/

/-- A literal is a scalar that fits. -/
theorem literalComplaints_eq_nil {value : Json} : literalComplaints value = [] ↔ value.IsScalar := by
  cases value with
  | numberUnsigned u => exact complainUnless_eq_nil
  | null | boolean b | numberInteger i | numberFloat d | string s =>
    exact ⟨fun _ => trivial, fun _ => rfl⟩
  | array e | object m | binary b | discarded =>
    exact ⟨fun h => absurd h (List.cons_ne_nil _ _), fun h => absurd h not_false⟩

/-- An integer that fits, however it is stored. -/
theorem int64Complaints_eq_nil {notInteger : Exception} {context : String} {value : Json} :
    int64Complaints notInteger context value = [] ↔ value.IsInt64 := by
  cases value with
  | numberUnsigned u => exact complainUnless_eq_nil
  | numberInteger i => exact ⟨fun _ => trivial, fun _ => rfl⟩
  | null | boolean b | numberFloat d | string s | array e | object m | binary b | discarded =>
    exact ⟨fun h => absurd h (List.cons_ne_nil _ _), fun h => absurd h not_false⟩

/-- A member of a `$match` is an object with one operator and a scalar. -/
theorem memberComplaints_eq_nil {m : String × Json} :
    memberComplaints m = [] ↔ m.2.IsPredicate := by
  unfold memberComplaints
  constructor
  · intro h
    split at h
    · rename_i opToken operand heq
      exact ⟨opToken, operand, heq, literalComplaints_eq_nil.mp h⟩
    · exact absurd h (List.cons_ne_nil _ _)
  · rintro ⟨opToken, literal, heq, hscalar⟩
    rw [heq]
    exact literalComplaints_eq_nil.mpr hscalar

theorem elementComplaints_eq_nil {value : Json} :
    elementComplaints value = [] ↔ ∃ fieldName, value = .string fieldName := by
  unfold elementComplaints
  constructor
  · intro h
    split at h
    · exact ⟨_, rfl⟩
    · exact absurd h (List.cons_ne_nil _ _)
  · rintro ⟨fieldName, rfl⟩
    rfl

theorem matchComplaints_eq_nil {value : Json} :
    matchComplaints value = [] ↔
      ∃ members, value = .object members ∧ ∀ m ∈ members, m.2.IsPredicate := by
  unfold matchComplaints
  constructor
  · intro h
    split at h
    · rw [List.flatMap_eq_nil_iff] at h
      exact ⟨_, rfl, fun m hm => memberComplaints_eq_nil.mp (h m hm)⟩
    · exact absurd h (List.cons_ne_nil _ _)
  · rintro ⟨members, rfl, heach⟩
    exact List.flatMap_eq_nil_iff.mpr fun m hm => memberComplaints_eq_nil.mpr (heach m hm)

theorem projectComplaints_eq_nil {value : Json} :
    projectComplaints value = [] ↔ ∃ elements, value = .array elements ∧
      ∀ element ∈ elements, ∃ fieldName, element = .string fieldName := by
  unfold projectComplaints
  constructor
  · intro h
    split at h
    · rw [List.flatMap_eq_nil_iff] at h
      exact ⟨_, rfl, fun element hmem => elementComplaints_eq_nil.mp (h element hmem)⟩
    · exact absurd h (List.cons_ne_nil _ _)
  · rintro ⟨elements, rfl, heach⟩
    exact List.flatMap_eq_nil_iff.mpr fun element hmem =>
      elementComplaints_eq_nil.mpr (heach element hmem)

theorem sortComplaints_eq_nil {value : Json} :
    sortComplaints value = [] ↔
      ∃ fieldName direction, value = .object [(fieldName, direction)] ∧ direction.IsInt64 := by
  unfold sortComplaints
  constructor
  · intro h
    split at h
    · exact ⟨_, _, rfl, int64Complaints_eq_nil.mp h⟩
    · exact absurd h (List.cons_ne_nil _ _)
  · rintro ⟨fieldName, direction, rfl, hfits⟩
    exact int64Complaints_eq_nil.mpr hfits

/-- A value is a stage exactly when there is nothing to complain about. -/
theorem stageComplaints_eq_nil {value : Json} : stageComplaints value = [] ↔ value.IsStage := by
  constructor
  · intro h
    unfold stageComplaints at h
    split at h
    · split at h
      · rename_i hname
        obtain ⟨members, rfl, heach⟩ := matchComplaints_eq_nil.mp h
        rw [hname]
        exact .match heach
      split at h
      · rename_i hname
        obtain ⟨elements, rfl, heach⟩ := projectComplaints_eq_nil.mp h
        rw [hname]
        exact .project heach
      split at h
      · rename_i hname
        obtain ⟨fieldName, direction, rfl, hfits⟩ := sortComplaints_eq_nil.mp h
        rw [hname]
        exact .sort fieldName hfits
      split at h
      · rename_i hname
        rw [hname]
        exact .limit (int64Complaints_eq_nil.mp h)
      · exact absurd h (List.cons_ne_nil _ _)
    · exact absurd h (List.cons_ne_nil _ _)
  · intro h
    cases h with
    | «match» each => exact matchComplaints_eq_nil.mpr ⟨_, rfl, each⟩
    | project each => exact projectComplaints_eq_nil.mpr ⟨_, rfl, each⟩
    | sort fieldName fits => exact sortComplaints_eq_nil.mpr ⟨_, _, rfl, fits⟩
    | limit fits => exact int64Complaints_eq_nil.mpr fits

/-- **The two specifications agree**: nothing is wrong with a value exactly when it is a
    pipeline. -/
theorem pipelineJsonComplaints_eq_nil {value : Json} :
    pipelineJsonComplaints value = [] ↔ value.IsPipeline := by
  unfold pipelineJsonComplaints
  constructor
  · intro h
    split at h
    · rw [List.flatMap_eq_nil_iff] at h
      exact .intro fun element hmem => stageComplaints_eq_nil.mp (h element hmem)
    · exact absurd h (List.cons_ne_nil _ _)
  · rintro ⟨heach⟩
    exact List.flatMap_eq_nil_iff.mpr fun element hmem =>
      stageComplaints_eq_nil.mpr (heach element hmem)

/-! ## The functions of the parser -/

/-- A literal, written back, is the signed form of what was read. -/
theorem jsonToLiteral_checked (value : Json) :
    Checked (fun literal => literal.toJson = value.signed) (literalComplaints value)
      (jsonToLiteral value) := by
  cases value with
  | numberUnsigned u =>
    show Checked _ (complainUnless (u.toNat ≤ int64Max) literalOutOfRange)
      (if u.toNat > int64Max then .error literalOutOfRange
        else .ok (Value.int64 (Int64.ofInt u.toNat)))
    unfold complainUnless
    by_cases h : u.toNat ≤ int64Max
    · rw [if_pos h, if_neg (not_lt.mpr h)]
      exact .ok (Json.signed_numberUnsigned h).symm
    · rw [if_neg h, if_pos (not_le.mp h)]
      exact .error _ []
  | null | boolean b | numberInteger i | numberFloat d | string s =>
    refine .ok ?_
    rw [Json.signed]
    rfl
  | array e | object m | binary b | discarded => exact .error _ []

/-- The two places that read a 64-bit integer: a value that is no integer is turned away first. -/
theorem parseInt64_checked {α : Type} (value : Json) (context : String) (notInteger : Exception)
    (f : Int64 → α) :
    Checked (fun a => ∃ raw, a = f raw ∧ .numberInteger raw = value.signed)
      (int64Complaints notInteger context value)
      (if value.isNumberInteger then (parseInt64 value context).map f else .error notInteger) := by
  cases value with
  | numberInteger i => exact .ok ⟨i, rfl, (Json.signed_numberInteger i).symm⟩
  | numberUnsigned u =>
    show Checked _ (complainUnless (u.toNat ≤ int64Max) (integerOutOfRange context))
      (Except.map f (if u.toNat ≤ int64Max then .ok (Int64.ofInt u.toNat)
        else .error (integerOutOfRange context)))
    unfold complainUnless
    by_cases h : u.toNat ≤ int64Max
    · rw [if_pos h, if_pos h]
      exact .ok ⟨_, rfl, (Json.signed_numberUnsigned h).symm⟩
    · rw [if_neg h, if_neg h]
      exact .error _ []
  | null | boolean b | numberFloat d | string s | array e | object m | binary b | discarded =>
    exact .error _ []

/-- The body of the member loop. -/
def parsePredicate (m : String × Json) : Except Exception ParsedComparison :=
  match m.2 with
  | .object [(opToken, operand)] =>
    (jsonToLiteral operand).map fun literal => { field := ⟨m.1⟩, opToken, literal }
  | _ => .error (malformedPredicate m.1)

theorem parsePredicates_cons (m : String × Json) (members : List (String × Json)) :
    parsePredicates (m :: members) =
      (parsePredicate m).bind fun predicate =>
        (parsePredicates members).bind fun predicates => .ok (predicate :: predicates) := by
  obtain ⟨fieldName, value⟩ := m
  unfold parsePredicate
  dsimp only
  split
  · rename_i opToken operand
    rw [parsePredicates]
    cases jsonToLiteral operand with
    | error e => rfl
    | ok literal =>
      cases parsePredicates members with
      | error e => rfl
      | ok predicates => rfl
  · rename_i hother
    rw [parsePredicates]
    · rfl
    · exact hother

/-- The member loop returns when every member does. -/
theorem parsePredicates_ok {members : List (String × Json)} {predicates : List ParsedComparison} :
    parsePredicates members = .ok predicates ↔
      List.Forall₂ (fun m predicate => parsePredicate m = .ok predicate) members predicates :=
  Except.forall₂_of_collects parsePredicates rfl parsePredicates_cons

/-- A predicate, written back, is the member it was read from. -/
theorem parsePredicate_checked (m : String × Json) :
    Checked (fun predicate => predicate.source = (m.1, m.2.signed)) (memberComplaints m)
      (parsePredicate m) := by
  obtain ⟨fieldName, value⟩ := m
  unfold memberComplaints
  split
  · rename_i opToken operand heq
    obtain rfl : value = .object [(opToken, operand)] := heq
    refine (jsonToLiteral_checked operand).map fun literal hliteral => ?_
    rw [ParsedComparison.source, hliteral, Json.signed_object]
    rfl
  · rename_i hother
    unfold parsePredicate
    split
    · rename_i heq
      exact absurd heq (hother _ _)
    · exact .error _ []

/-- The member loop of a `$match`. -/
theorem parsePredicates_checked : ∀ members : List (String × Json),
    Checked (fun predicates => predicates.map (·.source) = members.map fun m => (m.1, m.2.signed))
      (members.flatMap memberComplaints) (parsePredicates members)
  | [] => .ok rfl
  | m :: members => by
    rw [parsePredicates_cons, List.flatMap_cons]
    exact (parsePredicate_checked m).cons (parsePredicates_checked members)
      fun _ _ hfirst hrest => List.cons_eq_cons.mpr ⟨hfirst, hrest⟩

/-- The element loop of a `$project`. -/
theorem parseFields_checked : ∀ elements : List Json,
    Checked (fun fields => fields.map (fun field => Json.string field.fieldName) =
        elements.map Json.signed)
      (elements.flatMap elementComplaints) (parseFields elements)
  | [] => .ok rfl
  | .string fieldName :: elements => by
    have hrest := parseFields_checked elements
    have hcons : parseFields (.string fieldName :: elements) =
        (parseFields elements).map fun fields => ⟨fieldName⟩ :: fields := by
      rw [parseFields]
      cases parseFields elements with
      | error e => rfl
      | ok fields => rfl
    rw [hcons]
    refine hrest.map fun fields hfields => ?_
    rw [List.map_cons, List.map_cons, hfields, Json.signed_string]
  | .null :: _ | .boolean _ :: _ | .numberInteger _ :: _ | .numberUnsigned _ :: _
  | .numberFloat _ :: _ | .array _ :: _ | .object _ :: _ | .binary _ :: _ | .discarded :: _ =>
    .error _ _

theorem parseMatch_checked (value : Json) :
    Checked (fun stage => ParsedStage.source (.kMatch stage) =
        .object [("$match", value.signed)]) (matchComplaints value) (parseMatch value) := by
  cases value with
  | object members =>
    refine (parsePredicates_checked members).map fun predicates hpredicates => ?_
    rw [ParsedStage.source, hpredicates, Json.signed_object]
  | null | boolean b | numberInteger i | numberUnsigned u | numberFloat d | string s | array e
  | binary b | discarded => exact .error _ []

theorem parseProject_checked (value : Json) :
    Checked (fun stage => ParsedStage.source (.kProject stage) =
        .object [("$project", value.signed)]) (projectComplaints value) (parseProject value) := by
  cases value with
  | array elements =>
    refine (parseFields_checked elements).map fun fields hfields => ?_
    rw [ParsedStage.source, hfields, Json.signed_array]
  | null | boolean b | numberInteger i | numberUnsigned u | numberFloat d | string s | object m
  | binary b | discarded => exact .error _ []

theorem parseSort_checked (value : Json) :
    Checked (fun stage => ParsedStage.source (.kSort stage) =
        .object [("$sort", value.signed)]) (sortComplaints value) (parseSort value) := by
  unfold sortComplaints
  split
  · rename_i fieldName direction
    refine (parseInt64_checked direction _ _ fun directionRaw =>
      ({ field := ⟨fieldName⟩, directionRaw } : ParsedSortStage)).mono fun stage hstage => ?_
    obtain ⟨raw, rfl, hraw⟩ := hstage
    rw [ParsedStage.source, hraw, Json.signed_object]
    rfl
  · rename_i hother
    unfold parseSort
    split
    · exact absurd rfl (hother _ _)
    · exact .error _ []

theorem parseLimit_checked (value : Json) :
    Checked (fun stage => ParsedStage.source (.kLimit stage) =
        .object [("$limit", value.signed)]) (limitComplaints value) (parseLimit value) := by
  refine (parseInt64_checked value _ _ _).mono fun stage hstage => ?_
  obtain ⟨raw, rfl, hraw⟩ := hstage
  rw [ParsedStage.source, hraw]

/-- **Parsing a stage.** -/
theorem parseStage_checked (value : Json) :
    Checked (fun stage => stage.source = value.signed) (stageComplaints value)
      (parseStage value) := by
  have hsigned : ∀ (name : String) (inner : Json),
      (Json.object [(name, inner)]).signed = .object [(name, inner.signed)] :=
    fun name inner => Json.signed_object _
  unfold stageComplaints
  split
  · rename_i stageName inner
    rw [hsigned]
    unfold parseStage
    dsimp only
    split
    · rename_i hname
      exact (parseMatch_checked inner).map fun stage hstage => by rw [hname, hstage]
    split
    · rename_i hname
      exact (parseProject_checked inner).map fun stage hstage => by rw [hname, hstage]
    split
    · rename_i hname
      exact (parseSort_checked inner).map fun stage hstage => by rw [hname, hstage]
    split
    · rename_i hname
      exact (parseLimit_checked inner).map fun stage hstage => by rw [hname, hstage]
    · exact .error _ []
  · rename_i hother
    unfold parseStage
    split
    · exact absurd rfl (hother _ _)
    · exact .error _ []

theorem parseStages_cons (stageJson : Json) (rest : List Json) :
    parseStages (stageJson :: rest) =
      (parseStage stageJson).bind fun stage =>
        (parseStages rest).bind fun stages => .ok (stage :: stages) := by
  rw [parseStages]
  cases parseStage stageJson with
  | error e => rfl
  | ok stage =>
    cases parseStages rest with
    | error e => rfl
    | ok stages => rfl

/-- The stage loop returns when every stage does. -/
theorem parseStages_ok {elements : List Json} {stages : List ParsedStage} :
    parseStages elements = .ok stages ↔
      List.Forall₂ (fun element stage => parseStage element = .ok stage) elements stages :=
  Except.forall₂_of_collects parseStages rfl parseStages_cons

theorem parseStages_checked : ∀ elements : List Json,
    Checked (fun stages => stages.map (·.source) = elements.map Json.signed)
      (elements.flatMap stageComplaints) (parseStages elements)
  | [] => .ok rfl
  | stageJson :: rest => by
    rw [parseStages_cons, List.flatMap_cons]
    exact (parseStage_checked stageJson).cons (parseStages_checked rest)
      fun _ _ hfirst hrest => List.cons_eq_cons.mpr ⟨hfirst, hrest⟩

/-- The parser as a whole. -/
theorem parsePipeline_checked (value : Json) :
    Checked (fun pipeline => pipeline.source = value.signed) (pipelineJsonComplaints value)
      (parsePipeline value) := by
  cases value with
  | array elements =>
    refine (parseStages_checked elements).map fun stages hstages => ?_
    rw [ParsedPipeline.source, hstages, Json.signed_array]
  | null | boolean b | numberInteger i | numberUnsigned u | numberFloat d | string s | object m
  | binary b | discarded => exact .error _ []

/-! ## What is accepted, what it says, and what is thrown -/

/-- The predicates of a match have the field names of its members, in order. -/
theorem fieldNames_of_source {predicates : List ParsedComparison} {members : List (String × Json)}
    (h : predicates.map (·.source) = members.map fun m => (m.1, m.2.signed)) :
    predicates.map (·.field.fieldName) = members.map Prod.fst := by
  have hnames := congrArg (List.map Prod.fst) h
  rw [List.map_map, List.map_map] at hnames
  exact hnames

/-- One predicate for every member, fields ascending. -/
theorem predicates_ascending {value : Json} {stage : ParsedMatchStage} (hwf : value.WellFormed)
    (h : ParsedStage.source (.kMatch stage) = value.signed) :
    (stage.predicates.map (·.field.fieldName)).Pairwise (· < ·) := by
  obtain ⟨outer, rfl, houter⟩ := Json.eq_object_of_signed h.symm
  obtain ⟨m, rfl, hm⟩ := List.map_eq_singleton_iff.mp houter.symm
  obtain ⟨members, hmember, hmembers⟩ := Json.eq_object_of_signed (Prod.mk.inj hm).2
  rw [fieldNames_of_source hmembers]
  cases hwf with
  | object _ each =>
    have hobject := each m List.mem_cons_self
    rw [hmember] at hobject
    cases hobject with
    | object ascending => exact ascending

/-- The comparisons of a match come by field name in ascending order, as the members of a JSON
    object do. -/
theorem parsePipeline_ascending {pipelineJson : Json} {pipeline : ParsedPipeline}
    (hwf : pipelineJson.WellFormed) (h : parsePipeline pipelineJson = .ok pipeline)
    {stage : ParsedMatchStage} (hstage : .kMatch stage ∈ pipeline.stages) :
    (stage.predicates.map (·.field.fieldName)).Pairwise (· < ·) := by
  have hsource := (parsePipeline_checked pipelineJson).of_ok h
  cases hwf with
  | @array elements each =>
    rw [ParsedPipeline.source, Json.signed_array] at hsource
    have hmem := List.mem_map_of_mem (f := ParsedStage.source) hstage
    rw [Json.array.inj hsource] at hmem
    -- the element the stage was read from
    obtain ⟨element, helement, heq⟩ := List.mem_map.mp hmem
    exact predicates_ascending (each element helement) heq.symm
  | null | boolean b | numberInteger i | numberUnsigned u | numberFloat d | string s | object m
  | binary b | discarded => cases h

/-- Where a value that is no pipeline goes wrong first. -/
inductive FirstOffence : Json → Exception → Prop where
  | shape {pipelineJson : Json} (noArray : ∀ elements, pipelineJson ≠ .array elements) :
      FirstOffence pipelineJson malformedPipeline
  | stage {before after : List Json} {stageJson : Json} {e : Exception}
      (accepted : ∀ earlier ∈ before, earlier.IsStage)
      (first : (stageComplaints stageJson).head? = some e) :
      FirstOffence (.array (before ++ stageJson :: after)) e

/-- The first offence, said with the list of complaints. -/
theorem firstOffence_iff {pipelineJson : Json} {e : Exception} :
    FirstOffence pipelineJson e ↔ (pipelineJsonComplaints pipelineJson).head? = some e := by
  constructor
  · intro h
    cases h with
    | shape noArray =>
      unfold pipelineJsonComplaints
      split
      · exact absurd rfl (noArray _)
      · rfl
    | stage accepted first =>
      exact head?_flatMap_iff.mpr ⟨_, _, _, rfl,
        fun earlier hmem => stageComplaints_eq_nil.mpr (accepted earlier hmem), first⟩
  · intro h
    unfold pipelineJsonComplaints at h
    split at h
    · obtain ⟨before, stageJson, after, rfl, hbefore, hfirst⟩ := head?_flatMap_iff.mp h
      exact .stage (fun earlier hmem => stageComplaints_eq_nil.mp (hbefore earlier hmem)) hfirst
    · rename_i hother
      rw [← Option.some.inj h]
      exact .shape hother

/-- Inside a match the first member that is no predicate is the one complained about. -/
theorem firstMember_iff {members : List (String × Json)} {e : Exception} :
    (stageComplaints (.object [("$match", .object members)])).head? = some e ↔
      ∃ before m after, members = before ++ m :: after ∧
        (∀ earlier ∈ before, earlier.2.IsPredicate) ∧ (memberComplaints m).head? = some e := by
  show (members.flatMap memberComplaints).head? = some e ↔ _
  rw [head?_flatMap_iff]
  simp only [memberComplaints_eq_nil]

/-- **The parser accepts exactly its grammar and loses nothing.**  From the result the accepted
    value is recovered, up to how its integers are stored; the error of a value that is not
    accepted is the first complaint about its first element that is no stage. -/
theorem parsePipeline_grammar (pipelineJson : Json) :
    ((∃ pipeline, parsePipeline pipelineJson = .ok pipeline) ↔ pipelineJson.IsPipeline) ∧
    (∀ pipeline, parsePipeline pipelineJson = .ok pipeline →
      pipeline.source = pipelineJson.signed ∧
      (pipelineJson.WellFormed → ∀ stage, .kMatch stage ∈ pipeline.stages →
        (stage.predicates.map (·.field.fieldName)).Pairwise (· < ·)) ∧
      ∀ other, parsePipeline other = .ok pipeline → other.signed = pipelineJson.signed) ∧
    (∀ e, parsePipeline pipelineJson = .error e ↔ FirstOffence pipelineJson e) ∧
    (∀ members e, (stageComplaints (.object [("$match", .object members)])).head? = some e ↔
      ∃ before m after, members = before ++ m :: after ∧
        (∀ earlier ∈ before, earlier.2.IsPredicate) ∧ (memberComplaints m).head? = some e) := by
  have hchecked := parsePipeline_checked pipelineJson
  refine ⟨?_, fun pipeline hpipeline => ?_, fun e => ?_, fun members e => firstMember_iff⟩
  · rw [hchecked.returns_iff, pipelineJsonComplaints_eq_nil]
  · have hsource := hchecked.of_ok hpipeline
    refine ⟨hsource, fun hwf stage => parsePipeline_ascending hwf hpipeline, fun other hother => ?_⟩
    rw [← hsource, (parsePipeline_checked other).of_ok hother]
  · rw [hchecked.throws_iff, firstOffence_iff]

/-- A malformed predicate comes before an unknown stage, when it is written first. -/
example :
    pipelineJsonComplaints (.array [.object [("$match", .object [("a", .null)])],
      .object [("$skip", .null)]]) = [malformedPredicate "a", unknownStage "$skip"] := by decide

end QueryLume
