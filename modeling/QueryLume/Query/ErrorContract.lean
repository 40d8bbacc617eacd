/-
  Which exceptions leave the engine.

  Every complaint of the loader, the parser and the binder is a `QueryLumeError`, and so is
  whatever a run throws.  The one exception that passes through is the JSON library's own: its
  parser reports a number too large for a double by another class than malformed text, and
  `loadTableFromJsonText` translates only the latter.

  The complaints of the front end are lists (`Foundation/Checked.lean`), so the first half goes
  over these lists, one lemma per source function, and never over a run.  The second half is about
  runs over a well-formed table, where only comparisons can throw (`Query/RuntimeErrors.lean`).
  Together they give the contract for exactly the texts the library's parser does not overflow on
  (`only_queryLumeErrors_iff`).
-/
import QueryLume.BinderAcceptance
import QueryLume.Data.LoaderAcceptance
import QueryLume.ParserGrammar
import QueryLume.Query.Rejection

namespace QueryLume

open Checked Exception

/-! ## The complaints

  The loader, the parser and the binder throw only what is in their lists of complaints, so it is
  enough to look through the lists. -/

/-- Nothing but `QueryLumeError`s. -/
def AllQueryLumeErrors (complaints : List Exception) : Prop :=
  ∀ e ∈ complaints, e.IsQueryLumeError

namespace AllQueryLumeErrors

variable {complaints others : List Exception}

theorem nil : AllQueryLumeErrors [] := fun _ hmem => absurd hmem List.not_mem_nil

theorem single {e : Exception} (h : e.IsQueryLumeError) : AllQueryLumeErrors [e] :=
  fun _ hmem => List.mem_singleton.mp hmem ▸ h

theorem append (h : AllQueryLumeErrors complaints) (h' : AllQueryLumeErrors others) :
    AllQueryLumeErrors (complaints ++ others) :=
  fun e hmem => (List.mem_append.mp hmem).elim (h e) (h' e)

theorem flatMap {α : Type} {f : α → List Exception} (h : ∀ a, AllQueryLumeErrors (f a))
    (xs : List α) : AllQueryLumeErrors (xs.flatMap f) := by
  intro e hmem
  obtain ⟨a, -, he⟩ := List.mem_flatMap.mp hmem
  exact h a e he

end AllQueryLumeErrors

open AllQueryLumeErrors

/-! ### The loader -/

theorem shapeComplaints_all (document : Json) : AllQueryLumeErrors (shapeComplaints document) := by
  unfold shapeComplaints
  split
  · exact nil
  · exact single rfl

theorem scalarComplaints_all (m : String × Json) : AllQueryLumeErrors (scalarComplaints m) := by
  obtain ⟨field, value⟩ := m
  cases value with
  | numberUnsigned u => exact forall_complainUnless rfl
  | null | boolean b | numberInteger i | numberFloat d | string s => exact nil
  | array e | object m | binary b | discarded => exact single rfl

theorem loadComplaints_all (documents : List Json) :
    AllQueryLumeErrors (loadComplaints documents) := by
  refine append (flatMap shapeComplaints_all documents) (flatMap (fun document => ?_) documents)
  unfold contentComplaints
  split
  · exact flatMap scalarComplaints_all _
  · exact nil

theorem loadTableFromJson_raises {document : Json} {e : Exception}
    (h : loadTableFromJson document = .error e) : e.IsQueryLumeError := by
  cases document with
  | array documents =>
    exact (loadTableFromJson_checked documents).raises (loadComplaints_all documents) h
  | null | boolean b | numberInteger i | numberUnsigned u | numberFloat d | string s | object m
  | binary b | discarded =>
    rw [← Except.error.inj h]
    rfl

/-! ### The parser -/

theorem literalComplaints_all (value : Json) : AllQueryLumeErrors (literalComplaints value) := by
  cases value with
  | numberUnsigned u => exact forall_complainUnless rfl
  | null | boolean b | numberInteger i | numberFloat d | string s => exact nil
  | array e | object m | binary b | discarded => exact single rfl

theorem int64Complaints_all {notInteger : Exception} (h : notInteger.IsQueryLumeError)
    (context : String) (value : Json) :
    AllQueryLumeErrors (int64Complaints notInteger context value) := by
  cases value with
  | numberInteger i => exact nil
  | numberUnsigned u => exact forall_complainUnless rfl
  | null | boolean b | numberFloat d | string s | array e | object m | binary b | discarded =>
    exact single h

theorem memberComplaints_all (m : String × Json) : AllQueryLumeErrors (memberComplaints m) := by
  unfold memberComplaints
  split
  · exact literalComplaints_all _
  · exact single rfl

theorem elementComplaints_all (value : Json) : AllQueryLumeErrors (elementComplaints value) := by
  unfold elementComplaints
  split
  · exact nil
  · exact single rfl

theorem matchComplaints_all (value : Json) : AllQueryLumeErrors (matchComplaints value) := by
  unfold matchComplaints
  split
  · exact flatMap memberComplaints_all _
  · exact single rfl

theorem projectComplaints_all (value : Json) : AllQueryLumeErrors (projectComplaints value) := by
  unfold projectComplaints
  split
  · exact flatMap elementComplaints_all _
  · exact single rfl

theorem sortComplaints_all (value : Json) : AllQueryLumeErrors (sortComplaints value) := by
  unfold sortComplaints
  split
  · refine int64Complaints_all ?_ _ _
    rfl
  · exact single rfl

theorem stageComplaints_all (value : Json) : AllQueryLumeErrors (stageComplaints value) := by
  unfold stageComplaints
  split
  · split
    · exact matchComplaints_all _
    split
    · exact projectComplaints_all _
    split
    · exact sortComplaints_all _
    split
    · refine int64Complaints_all ?_ _ _
      rfl
    · exact single rfl
  · exact single rfl

theorem parsePipeline_raises {pipelineJson : Json} {e : Exception}
    (h : parsePipeline pipelineJson = .error e) : e.IsQueryLumeError := by
  refine (parsePipeline_checked pipelineJson).raises ?_ h
  unfold pipelineJsonComplaints
  split
  · exact flatMap stageComplaints_all _
  · exact single rfl

/-! ### The binder -/

theorem predicateComplaints_all (visible : Schema) (predicate : ParsedComparison) :
    AllQueryLumeErrors (predicateComplaints visible predicate) :=
  append (forall_complainUnless rfl) (forall_complainUnless rfl)

theorem fieldComplaints_all (visible : Schema) : ∀ (earlier : List String)
    (fields : List UnresolvedFieldExpression),
    AllQueryLumeErrors (fieldComplaints visible earlier fields)
  | _, [] => nil
  | earlier, field :: fields =>
    append (forall_complainUnless rfl) (append (forall_complainUnless rfl)
      (fieldComplaints_all visible (field.fieldName :: earlier) fields))

theorem complaintsAbout_all (visible : Schema) (stage : ParsedStage) :
    AllQueryLumeErrors (complaintsAbout visible stage) := by
  cases stage with
  | kMatch stage => exact flatMap (predicateComplaints_all visible) _
  | kProject stage => exact fieldComplaints_all visible [] stage.fields
  | kSort stage => exact append (forall_complainUnless rfl) (forall_complainUnless rfl)
  | kLimit stage => exact forall_complainUnless rfl

/-- Binding all of them, each in the schema the ones before it show. -/
theorem pipelineComplaints_all (table : Table) : ∀ preceding following : List ParsedStage,
    AllQueryLumeErrors (pipelineComplaints table preceding following)
  | _, [] => nil
  | preceding, stage :: following =>
    append (complaintsAbout_all _ stage)
      (pipelineComplaints_all table (preceding ++ [stage]) following)

theorem bindPipeline_raises {table : Table} {pipeline : ParsedPipeline} {e : Exception}
    (h : bindPipeline table pipeline = .error e) : e.IsQueryLumeError :=
  (bindPipeline_checked table pipeline).raises (pipelineComplaints_all table [] pipeline.stages) h

/-! ## The two entry points

  The conditions of the contract are about the library's parser: whatever it returns or throws,
  everything after it keeps the contract, and only one class of its exceptions is not translated. -/

section EntryPoints

variable [StdLibrary]

/-- Whatever the pipeline is, a run over a well-formed table throws nothing else. -/
theorem runPipeline_raises {clock : Clock} {table : Table} {pipelineJson : Json} {e : Exception}
    (htable : table.WellFormed) (h : runPipeline clock table pipelineJson = .error e) :
    e.IsQueryLumeError := by
  cases hparse : parsePipeline pipelineJson with
  | error e' =>
    simp only [runPipeline, planQuery, hparse] at h
    exact parsePipeline_raises (hparse.trans (congrArg _ (Except.error.inj h)))
  | ok parsed =>
    cases hbind : bindPipeline table parsed with
    | error e' =>
      simp only [runPipeline, planQuery, hparse, hbind] at h
      exact bindPipeline_raises (hbind.trans (congrArg _ (Except.error.inj h)))
    | ok plan =>
      obtain ⟨hbound, rfl⟩ := bindPipeline_wellBound hbind
      obtain ⟨hbound', htable'⟩ := hbound.rewrite
      rw [runPipeline_runPlan hparse hbind] at h
      have hrun : runPlan clock (Optimizer.optimize plan).1 = .error e := Except.map_eq_error h
      rw [Optimizer.optimize_fst] at hrun
      exact hbound'.runPlan_raises (htable' ▸ htable) hrun

/-- What the library documents about its parser: the two classes it throws. -/
def ThrowsAsDocumented (parse : String → Except Exception Json) : Prop :=
  ∀ text e, parse text = .error e →
    (∃ what, e = .jsonParseError what) ∨ ∃ what, e = .jsonOutOfRange what

/-- Load a text, then run a pipeline on the table: each returns or throws a `QueryLumeError`. -/
def OnlyQueryLumeErrors (parse : String → Except Exception Json) (clock : Clock) (text : String)
    (pipelineJson : Json) : Prop :=
  (∀ e, loadTableFromJsonText parse text = .error e → e.IsQueryLumeError) ∧
  ∀ table, loadTableFromJsonText parse text = .ok table →
    ∀ e, runPipeline clock table pipelineJson = .error e → e.IsQueryLumeError

/-- **The error contract** holds for exactly the texts without a number too large for a double. -/
theorem only_queryLumeErrors_iff {parse : String → Except Exception Json}
    (hparse : ThrowsAsDocumented parse) (clock : Clock) (text : String) (pipelineJson : Json) :
    OnlyQueryLumeErrors parse clock text pipelineJson ↔
      ∀ what, parse text ≠ .error (.jsonOutOfRange what) := by
  constructor
  · rintro ⟨hload, -⟩ what heq
    have hescape : loadTableFromJsonText parse text = .error (.jsonOutOfRange what) := by
      rw [loadTableFromJsonText, heq]
    have hcontract := hload _ hescape
    cases hcontract
  · intro hfits
    cases hcase : parse text with
    | error e =>
      obtain ⟨what, rfl⟩ | ⟨what, rfl⟩ := hparse text e hcase
      · have htranslated : loadTableFromJsonText parse text =
            .error (.queryLumeError .kJsonParseError ("failed to parse JSON: " ++ what)) := by
          rw [loadTableFromJsonText, hcase]
        rw [OnlyQueryLumeErrors, htranslated]
        refine ⟨fun e h => ?_, fun table h => by cases h⟩
        rw [← Except.error.inj h]
        rfl
      · exact absurd hcase (hfits what)
    | ok document =>
      have hdocument : loadTableFromJsonText parse text = loadTableFromJson document := by
        rw [loadTableFromJsonText, hcase]
      rw [OnlyQueryLumeErrors, hdocument]
      refine ⟨fun e h => loadTableFromJson_raises h, fun table hload e h => ?_⟩
      exact runPipeline_raises (loadTableFromJson_wellFormed hload) h

end EntryPoints

/-! ## A number too large -/

/-- One document, whose number is too large for a double. -/
def overflowText : String := "[\x7b\"a\":1e400\x7d]"

/-- What the library's parser makes of three texts. -/
def sampleParse (text : String) : Except Exception Json :=
  if text = overflowText then
    .error (.jsonOutOfRange "[json.exception.out_of_range.406] number overflow parsing '1e400'")
  else if text = "[]" then .ok (.array [])
  else .error (.jsonParseError "[json.exception.parse_error.101] parse error")

/-- It throws the two documented classes and nothing else. -/
theorem sampleParse_throws : ThrowsAsDocumented sampleParse := by
  intro text e h
  unfold sampleParse at h
  split at h
  · exact .inr ⟨_, (Except.error.inj h).symm⟩
  split at h
  · cases h
  · exact .inl ⟨_, (Except.error.inj h).symm⟩

/-- **The exception that passes through.**  The library's exception leaves
    `loadTableFromJsonText` as it is. -/
theorem overflow_escapes :
    ThrowsAsDocumented sampleParse ∧
      ¬ @OnlyQueryLumeErrors StdLibrary.reference sampleParse Clock.still overflowText
        (.array []) := by
  refine ⟨sampleParse_throws, ?_⟩
  rintro ⟨hload, -⟩
  have hcontract := hload
    (.jsonOutOfRange "[json.exception.out_of_range.406] number overflow parsing '1e400'") rfl
  exact absurd hcontract (by decide)

theorem only_queryLumeErrors_iff_sample :
    @OnlyQueryLumeErrors StdLibrary.reference sampleParse Clock.still "[]" (.array []) :=
  (@only_queryLumeErrors_iff StdLibrary.reference sampleParse sampleParse_throws
    Clock.still "[]" (.array [])).mpr fun what heq => by cases heq

end QueryLume
