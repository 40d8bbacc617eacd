/-
  Results that are saved and queried again.

  What `run` prints is a data file.  Loaded again it is a table with the names of the result, in
  ascending order, and with the positions in the file as ordinals (`Saved`).  Of the ordinals only
  their order can matter, and only to a sort: so a pipeline may be run in two halves with a file in
  between, unless both halves sort (`run_saved`).

  1. **The file** — a printed integer that is not negative is read back unsigned; the loader does
     not tell the two forms apart (`loadTableFromJson_signed`).

  2. **The columns** come back in another order.  Where the names are the same, a pipeline is
     accepted alike (`bindPipeline_sameNames`), and documents are compared by name
     (`Query/OtherFields.lean`).

  3. **The ordinals** — rows that no sort has moved come out in the order of the table
     (`denote_inOrder`), so their positions in the file are in the order of their ordinals.  After
     a sort they are not, and then nothing that follows may ask.
-/
import QueryLume.BinderAcceptance
import QueryLume.Query.Distributed
import QueryLume.Query.InputRead
import QueryLume.Query.OtherFields
import QueryLume.Query.RoundTrip

namespace QueryLume

open Checked Json LogicalPlanNode

/-! ## How integers are stored does not matter to the loader

  A printed result is parsed again, and the parser stores a non-negative integer unsigned where the
  engine has it signed.  The two conversions of the loader store the same. -/

theorem convertScalar_signed (value : Json) (field : String) :
    convertScalar value.signed field = convertScalar value field := by
  cases value with
  | numberUnsigned u =>
    rw [signed, convertScalar]
    split
    · rename_i hlarge
      rw [convertScalar, if_pos hlarge]
    · rfl
  | null | boolean b | numberInteger i | numberFloat d | string s => rw [signed]
  | binary b | discarded => rw [signed]
  | array elements =>
    rw [signed_array]
    rfl
  | object members =>
    rw [signed_object]
    rfl

theorem collectFieldNames_signed : ∀ (documents : List Json) (names : List String),
    collectFieldNames (documents.map signed) names = collectFieldNames documents names
  | [], _ => rfl
  | document :: documents, names => by
    rw [List.map_cons]
    cases document with
    | object members =>
      rw [signed_object, collectFieldNames, collectFieldNames, List.foldl_map]
      exact collectFieldNames_signed documents _
    | numberUnsigned u =>
      rw [signed]
      split
      · rfl
      · rfl
    | array elements =>
      rw [signed_array]
      rfl
    | null | boolean b | numberInteger i | numberFloat d | string s | binary b | discarded =>
      rw [signed]
      rfl

theorem fillRow_signed (fieldIndex : List (String × Nat)) : ∀ (members : List (String × Json))
    (values : List Value), fillRow fieldIndex (members.map fun m => (m.1, m.2.signed)) values =
      fillRow fieldIndex members values
  | [], _ => rfl
  | (key, value) :: members, values => by
    rw [List.map_cons, fillRow, fillRow, convertScalar_signed]
    cases findField fieldIndex key with
    | none => rfl
    | some index =>
      simp only
      cases convertScalar value key with
      | error e => rfl
      | ok converted => exact fillRow_signed fieldIndex members _

theorem loadRows_signed (fieldOrder : List String) : ∀ (documents : List Json) (start : Nat),
    loadRows fieldOrder start (documents.map signed) = loadRows fieldOrder start documents
  | [], _ => rfl
  | document :: documents, start => by
    rw [List.map_cons]
    have hrest := loadRows_signed fieldOrder documents (start + 1)
    cases document with
    | object members =>
      rw [signed_object, loadRows, loadRows, fillRow_signed, hrest]
    | numberUnsigned u =>
      rw [signed]
      split
      · rw [loadRows, loadRows, hrest]
        all_goals (intro members h; cases h)
      · rw [loadRows, loadRows, hrest]
        all_goals (intro members h; cases h)
    | array elements =>
      rw [signed_array, loadRows, loadRows, hrest]
      all_goals (intro members h; cases h)
    | null | boolean b | numberInteger i | numberFloat d | string s | binary b | discarded =>
      rw [signed, loadRows, loadRows, hrest]
      all_goals (intro members h; cases h)

/-- The signed form of an array is an array of signed forms. -/
theorem eq_array_of_signed {value : Json} {elements : List Json}
    (h : value.signed = .array elements) : ∃ stored, value = .array stored ∧
      elements = stored.map signed := by
  cases value with
  | array stored =>
    rw [signed_array] at h
    exact ⟨stored, rfl, (Json.array.inj h).symm⟩
  | numberUnsigned u =>
    rw [signed] at h
    split at h
    · cases h
    · cases h
  | object members =>
    rw [signed_object] at h
    cases h
  | null | boolean b | numberInteger i | numberFloat d | string s | binary b | discarded => cases h

/-- A file whose integers are stored in another way loads alike. -/
theorem loadTableFromJson_signed {stored : Json} {documents : List Json}
    (h : stored.signed = .array documents) :
    loadTableFromJson stored = loadTableFromJson (.array documents) := by
  obtain ⟨elements, rfl, rfl⟩ := eq_array_of_signed h
  simp only [loadTableFromJson, collectFieldNames_signed, loadRows_signed]

/-! ## Rendered rows, whatever the order of their columns

  A row is rendered as an object, so its cells come in the order of the names and not in that of
  the columns; loading finds every cell again by name. -/

section Rendered

variable {schema : Schema} {row : Row}

/-- What a row is rendered from. -/
def Row.cells (row : Row) (schema : Schema) : List (String × Json) :=
  (schema.fields.zip row.values).map fun entry => (entry.1, entry.2.toJson)

theorem Row.cells_names (hwide : row.values.length = schema.columnCount) :
    (row.cells schema).map Prod.fst = schema.fields := by
  rw [Row.cells, List.map_map]
  exact List.map_fst_zip (le_of_eq hwide.symm)

/-- The rendered object has them in ascending order of their names. -/
theorem Row.toJson_sorted (hfields : schema.fields.Nodup)
    (hwide : row.values.length = schema.columnCount) :
    ∃ members, row.toJson schema = .object members ∧ Ascending members ∧
      members.Perm (row.cells schema) := by
  have hnodup : ((row.cells schema).map Prod.fst).Nodup := by
    rw [row.cells_names hwide]
    exact hfields
  exact ofMembers_sorted hnodup

theorem Row.memberNames_toJson (hfields : schema.fields.Nodup)
    (hwide : row.values.length = schema.columnCount) (name : String) :
    name ∈ (row.toJson schema).memberNames ↔ name ∈ schema.fields := by
  obtain ⟨members, heq, -, hperm⟩ := Row.toJson_sorted hfields hwide
  rw [heq, ← row.cells_names hwide]
  exact (hperm.map Prod.fst).mem_iff

theorem Row.toJson_flat (hfields : schema.fields.Nodup)
    (hwide : row.values.length = schema.columnCount) : (row.toJson schema).IsFlat := by
  obtain ⟨members, heq, -, hperm⟩ := Row.toJson_sorted hfields hwide
  refine ⟨members, heq, fun m hm => ?_⟩
  obtain ⟨entry, -, rfl⟩ := List.mem_map.mp (hperm.mem_iff.mp hm)
  exact entry.2.isScalar_toJson

theorem Row.toJson_wellFormed (hfields : schema.fields.Nodup)
    (hwide : row.values.length = schema.columnCount) : (row.toJson schema).WellFormed := by
  obtain ⟨members, heq, hascending, hperm⟩ := Row.toJson_sorted hfields hwide
  rw [heq]
  refine .object hascending fun m hm => ?_
  obtain ⟨entry, -, rfl⟩ := List.mem_map.mp (hperm.mem_iff.mp hm)
  exact entry.2.toJson_wellFormed

/-- Every cell is found again by name. -/
theorem documentCell_rendered (hfields : schema.fields.Nodup)
    (hwide : row.values.length = schema.columnCount) (name : String) :
    documentCell (row.toJson schema) name = .ok (row.named schema name) := by
  cases hindex : schema.indexOf name with
  | none =>
    have habsent : name ∉ (row.toJson schema).memberNames := by
      rw [Row.memberNames_toJson hfields hwide]
      exact Schema.indexOf_eq_none.mp hindex
    rw [documentCell_absent habsent, Row.named, hindex]
    rfl
  | some index =>
    have hname := Schema.getElem?_of_indexOf _ hindex
    obtain ⟨hlt, -⟩ := List.getElem?_eq_some_iff.mp hname
    obtain ⟨value, hvalue⟩ : ∃ value, row.values[index]? = some value :=
      ⟨_, List.getElem?_eq_getElem (hwide.symm ▸ hlt)⟩
    have hentry : (name, value) ∈ schema.fields.zip row.values :=
      List.mem_iff_getElem?.mpr ⟨index, List.getElem?_zip_eq_some.mpr ⟨hname, hvalue⟩⟩
    obtain ⟨members, heq, hascending, hperm⟩ := Row.toJson_sorted hfields hwide
    have hmember : member? members name = some value.toJson :=
      hascending.member?_eq_some.mpr (hperm.mem_iff.mpr (List.mem_map.mpr ⟨_, hentry, rfl⟩))
    rw [heq, Row.named, hindex, Option.bind, hvalue]
    simp only [documentCell, hmember]
    exact convertScalar_toJson value name

end Rendered

/-! ## Saving a table

  The columns come back in ascending order and the ordinals are counted anew.  What remains is the
  names, the cells by name, and the order of the rows. -/

/-- `again` is what is loaded from the rows of `table`: the same names, the same cells by name, and
    as ordinals the positions. -/
structure Saved (table again : Table) : Prop where
  names : ∀ name, name ∈ again.schema.fields ↔ name ∈ table.schema.fields
  rectangular : again.Rectangular
  agree : table.AgreeIn (fun _ => True)
    (fun ordinal position => (table.rows.map Row.ordinal)[position]? = some ordinal) again

/-- **Saving.**  The rows of a table, rendered, are loaded as what `Saved` says; there has to be
    a row to show the fields. -/
theorem saved_loads {table : Table} (htable : table.Rectangular) (hrows : table.rows ≠ []) :
    ∃ again, loadTableFromJson table.rendered = .ok again ∧ Saved table again := by
  have hflat : ∀ document ∈ table.rows.map fun row => row.toJson table.schema, document.IsFlat := by
    intro document hdocument
    obtain ⟨row, hrow, rfl⟩ := List.mem_map.mp hdocument
    exact Row.toJson_flat htable.distinct (htable.wide row hrow)
  have hwf : table.rendered.WellFormed := by
    refine .array fun document hdocument => ?_
    obtain ⟨row, hrow, rfl⟩ := List.mem_map.mp hdocument
    exact Row.toJson_wellFormed htable.distinct (htable.wide row hrow)
  obtain ⟨again, hload⟩ := loadTableFromJson_accepts.mpr hflat
  have hloaded := loadTableFromJson_loaded hwf hload
  refine ⟨again, hload, ?_, hloaded.rectangular, ?_⟩
  · intro name
    rw [hloaded.names, List.mem_flatMap]
    constructor
    · rintro ⟨document, hdocument, hname⟩
      obtain ⟨row, hrow, rfl⟩ := List.mem_map.mp hdocument
      exact (Row.memberNames_toJson htable.distinct (htable.wide row hrow) name).mp hname
    · -- a name is in the file if there is a row to show it
      intro hname
      obtain ⟨row, hrow⟩ := List.exists_mem_of_ne_nil _ hrows
      refine ⟨_, List.mem_map_of_mem hrow, ?_⟩
      exact (Row.memberNames_toJson htable.distinct (htable.wide row hrow) name).mpr hname
  · have hlength : table.rows.length = again.rows.length := by
      have hcount := hloaded.rows.length_eq
      rwa [List.length_zipIdx, List.length_map] at hcount
    refine List.forall₂_iff_get.mpr ⟨hlength, fun i hi hi' => ?_⟩
    obtain ⟨hdocument, hordinal, hnamed⟩ := hloaded.row_at hi'
    simp only [List.get_eq_getElem]
    refine ⟨?_, fun name _ => ?_⟩
    · rw [hordinal, List.getElem?_map, List.getElem?_eq_getElem hi]
      rfl
    · rw [hnamed, List.getElem_map,
        documentCell_rendered htable.distinct (htable.wide _ (List.getElem_mem hi))]
      rfl

/-! ## Binding over tables with the same names

  The binder asks a schema for names only, so it accepts over the saved table what it accepts over
  the table, with other positions in the plan. -/

theorem complainUnless_congr {p q : Prop} [Decidable p] [Decidable q] (h : p ↔ q) (e : Exception) :
    complainUnless p e = complainUnless q e := by
  unfold complainUnless
  exact if_congr h rfl rfl

section SameNames

variable {schema schema' : Schema}

/-- Two schemas with the same names. -/
def SameNames (schema schema' : Schema) : Prop :=
  ∀ name, name ∈ schema.fields ↔ name ∈ schema'.fields

theorem fieldComplaints_sameNames (h : SameNames schema schema') :
    ∀ (fields : List UnresolvedFieldExpression) (earlier : List String),
      fieldComplaints schema earlier fields = fieldComplaints schema' earlier fields
  | [], _ => rfl
  | field :: fields, earlier => by
    rw [fieldComplaints, fieldComplaints, complainUnless_congr (h field.fieldName),
      fieldComplaints_sameNames h fields]

theorem complaintsAbout_sameNames (h : SameNames schema schema') (stage : ParsedStage) :
    complaintsAbout schema stage = complaintsAbout schema' stage := by
  cases stage with
  | kMatch stage =>
    have hpredicates : predicateComplaints schema = predicateComplaints schema' := by
      funext predicate
      rw [predicateComplaints, predicateComplaints, complainUnless_congr (h _)]
    rw [complaintsAbout, complaintsAbout, hpredicates]
  | kProject stage => exact fieldComplaints_sameNames h stage.fields []
  | kSort stage => rw [complaintsAbout, complaintsAbout, complainUnless_congr (h _)]
  | kLimit stage => rfl

variable {table table' : Table}

theorem visibleSchema_sameNames (h : SameNames table.schema table'.schema)
    (preceding : List ParsedStage) :
    SameNames (visibleSchema table preceding) (visibleSchema table' preceding) := by
  unfold visibleSchema
  cases preceding.reverse.findSome? ParsedStage.projected with
  | some fields => exact fun name => Iff.rfl
  | none => exact h

theorem pipelineComplaints_sameNames (h : SameNames table.schema table'.schema) :
    ∀ following preceding : List ParsedStage,
      pipelineComplaints table preceding following = pipelineComplaints table' preceding following
  | [], _ => rfl
  | stage :: following, preceding => by
    rw [pipelineComplaints, pipelineComplaints, pipelineComplaints_sameNames h following,
      complaintsAbout_sameNames (visibleSchema_sameNames h preceding)]

/-- **Binding alike.**  Where the names are the same, the binder rejects with the same error, or
    accepts and leaves the same names. -/
theorem bindPipeline_sameNames (h : SameNames table.schema table'.schema) (parsed : ParsedPipeline) :
    SameOutcome (fun plan plan' => SameNames (outputSchemaOf plan) (outputSchemaOf plan'))
      (bindPipeline table parsed) (bindPipeline table' parsed) := by
  have hchecked := bindPipeline_checked table parsed
  have hchecked' := bindPipeline_checked table' parsed
  rw [← pipelineComplaints_sameNames h parsed.stages []] at hchecked'
  cases hbind : bindPipeline table parsed with
  | error e =>
    rw [hchecked'.throws_iff.mpr (hchecked.throws_iff.mp hbind)]
    exact .error e
  | ok plan =>
    obtain ⟨plan', hbind'⟩ := hchecked'.returns_iff.mpr (hchecked.returns_iff.mp ⟨plan, hbind⟩)
    rw [hbind']
    refine .ok ?_
    rw [(hchecked.of_ok hbind).shows, (hchecked'.of_ok hbind').shows]
    exact visibleSchema_sameNames h parsed.stages

end SameNames

/-! ## What is run and printed

  The two runs are compared by documents, as in `Query/OtherFields.lean`.  New ordinals are in the
  order of the rows, so a sort breaks ties as before if the rows came in ascending order of the old
  ones, that is, if nothing has sorted them. -/

/-- No stage, where they parse, is a sort. -/
def NeverSorts (pipelineJson : Json) : Prop :=
  ∀ parsed, parsePipeline pipelineJson = .ok parsed → ∀ stage ∈ parsed.stages, stage.isSort = false

/-- Stages without a sort make a plan without one. -/
theorem bindStages_sorts : ∀ {stages : List ParsedStage} {schema : Schema}
    {node plan : LogicalPlanNode}, (∀ stage ∈ stages, stage.isSort = false) → node.sorts = false →
    bindStages schema node stages = .ok plan → plan.sorts = false
  | [], _, _, _, _, hnode, h => Except.ok.inj h ▸ hnode
  | stage :: stages, schema, node, plan, hstages, hnode, h => by
    obtain ⟨hstage, hrest⟩ := List.forall_mem_cons.mp hstages
    obtain ⟨schema', next, hbind, h⟩ := bindStages_cons_ok h
    have hnext : next.sorts = false := by
      cases bindStage_cases hbind with
      | «match» | project | limit => exact hnode
      | sort => cases hstage
    exact bindStages_sorts hrest hnext h

/-- A well-bound plan shows no name twice, if its table does not. -/
theorem LogicalPlanNode.WellBound.output_distinct {node : LogicalPlanNode} (h : node.WellBound)
    (hfields : node.table.schema.fields.Nodup) : (outputSchemaOf node).fields.Nodup := by
  induction h with
  | scan table => exact hfields
  | filter below _ ih => exact ih hfields
  | project below _ distinct _ => exact distinct
  | sort below _ ih => exact ih hfields
  | limit below ih => exact ih hfields
  | topK below _ ih => exact ih hfields

/-- Rows of the same document are rendered alike, in whatever order their columns come. -/
theorem toJson_shown {ord : Nat → Nat → Prop} {schema schema' : Schema}
    (hfields : schema.fields.Nodup) (hfields' : schema'.fields.Nodup)
    (hnames : SameNames schema schema') {row row' : Row}
    (h : ShowsAgreeing (fun _ => True) ord schema.fields schema'.fields row row') :
    row.toJson schema = row'.toJson schema' := by
  obtain ⟨document, document', hagree, rfl, rfl⟩ := h
  have hcells : ∀ (document : Reference.Document) (fields : List String),
      (fields.zip (fields.map document.cell)).map (fun entry => (entry.1, entry.2.toJson)) =
        fields.map fun name => (name, (document.cell name).toJson) := by
    intro document fields
    induction fields with
    | nil => rfl
    | cons name fields ih => rw [List.map_cons, List.zip_cons_cons, List.map_cons, ih, List.map_cons]
  have hsame : document'.cell = document.cell := by
    funext name
    exact (hagree.cell name trivial).symm
  show ofMembers _ = ofMembers _
  rw [Reference.Document.row, Reference.Document.row, hsame, hcells, hcells]
  refine ofMembers_perm ?_ (((List.perm_ext_iff_of_nodup hfields hfields').mpr hnames).map _)
  rw [List.map_map]
  exact (List.map_id _).symm ▸ hfields

section Runs

variable [StdLibrary] {table again : Table} {pipelineJson : Json}

/-- Without a sort the rows come out in the order of the table. -/
theorem denote_inOrder : ∀ (node : LogicalPlanNode) {opened : Opened}, node.sorts = false →
    (buildPhysicalPlan node).denote = .ok opened →
    (opened.feed.rows.map Row.ordinal).Sublist (node.table.rows.map Row.ordinal)
  | .kScan table, opened, _, h => by
    obtain rfl := Except.ok.inj h
    rw [Feed.rows_scan]
    exact List.Sublist.refl _
  | .kFilter child predicate, opened, hsorts, h => by
    obtain ⟨below, hbelow, rfl⟩ := Except.map_eq_ok h
    exact ((Feed.rows_filter_sublist _ _).map _).trans (denote_inOrder child hsorts hbelow)
  | .kProject child columnIndices _, opened, hsorts, h => by
    obtain ⟨below, hbelow, rfl⟩ := Except.map_eq_ok h
    obtain ⟨taken, hsub, hprojected⟩ :=
      Feed.rows_mapRows (ProjectStage.project columnIndices) below.feed
    have hordinals : (below.feed.mapRows (ProjectStage.project columnIndices)).rows.map Row.ordinal =
        taken.map Row.ordinal := by
      generalize (below.feed.mapRows (ProjectStage.project columnIndices)).rows = projected
        at hprojected
      clear hsub
      induction hprojected with
      | nil => rfl
      | cons hrow _ ih =>
        rw [List.map_cons, List.map_cons, ih, (ProjectStage.project_values hrow).1]
    show (List.map _ (below.feed.mapRows _).rows).Sublist _
    rw [hordinals]
    exact (hsub.map _).trans (denote_inOrder child hsorts hbelow)
  | .kLimit child limit, opened, hsorts, h => by
    obtain ⟨below, hbelow, rfl⟩ := Except.map_eq_ok h
    show (List.map _ (below.feed.limit _ _).rows).Sublist _
    rw [Feed.rows_limit]
    exact ((List.take_sublist limit _).map _).trans (denote_inOrder child hsorts hbelow)
  | .kSort _ _ _ _, _, hsorts, _ => by cases hsorts
  | .kTopK _ _ _ _ _, _, hsorts, _ => by cases hsorts

omit [StdLibrary] in
/-- Positions in an ascending list are in the order of what stands there. -/
theorem orderKept_positions {ordinals : List Nat} (h : ordinals.Pairwise (· < ·)) :
    OrderKept fun ordinal position => ordinals[position]? = some ordinal := by
  have hlt : ∀ {i j a b : Nat}, ordinals[i]? = some a → ordinals[j]? = some b → i < j → a < b := by
    intro i j a b ha hb hij
    obtain ⟨hi, rfl⟩ := List.getElem?_eq_some_iff.mp ha
    obtain ⟨hj, rfl⟩ := List.getElem?_eq_some_iff.mp hb
    exact List.pairwise_iff_getElem.mp h i j hi hj hij
  intro a i b j ha hb
  rcases Nat.lt_trichotomy i j with hij | rfl | hji
  · exact ⟨fun _ => hij, fun _ => hlt ha hb hij⟩
  · obtain rfl : a = b := Option.some.inj (ha.symm.trans hb)
    omega
  · have hba := hlt hb ha hji
    omega

/-- **The saved table answers like the table.** -/
theorem runPipeline_saved (htable : table.Rectangular) (hsaved : Saved table again)
    (hord : NeverSorts pipelineJson ∨ (table.rows.map Row.ordinal).Pairwise (· < ·))
    (clock clock' : Clock) :
    (runPipeline clock table pipelineJson).map (fun result => result.toTable.rendered) =
      (runPipeline clock' again pipelineJson).map fun result => result.toTable.rendered := by
  have hnames : SameNames table.schema again.schema := fun name => (hsaved.names name).symm
  cases hparse : parsePipeline pipelineJson with
  | error e => simp only [runPipeline, planQuery, hparse]
  | ok parsed =>
    have hboth := bindPipeline_sameNames hnames parsed
    cases hbind : bindPipeline table parsed with
    | error e =>
      rw [hbind] at hboth
      cases hbind' : bindPipeline again parsed with
      | error e' =>
        rw [hbind'] at hboth
        cases hboth
        simp only [runPipeline, planQuery, hparse, hbind, hbind']
      | ok plan' =>
        rw [hbind'] at hboth
        cases hboth
    | ok plan =>
      rw [hbind] at hboth
      cases hbind' : bindPipeline again parsed with
      | error e' =>
        rw [hbind'] at hboth
        cases hboth
      | ok plan' =>
        rw [hbind'] at hboth
        obtain _ | hshown := hboth
        obtain ⟨hbound, hplan⟩ := bindPipeline_wellBound hbind
        obtain ⟨hbound', hplan'⟩ := bindPipeline_wellBound hbind'
        have hfields := hbound.output_distinct (by rw [hplan]; exact htable.distinct)
        have hfields' := hbound'.output_distinct (by rw [hplan']; exact hsaved.rectangular.distinct)
        have hkept : plan.sorts = true → OrderKept fun ordinal position =>
            (table.rows.map Row.ordinal)[position]? = some ordinal := by
          intro hsorts
          rcases hord with hnever | hascending
          · rw [bindStages_sorts (hnever parsed hparse) rfl hbind] at hsorts
            cases hsorts
          · exact orderKept_positions hascending
        have hsame := runPipeline_shown clock clock' hparse hbind hbind' hkept
          (fun _ _ _ _ => trivial) htable hsaved.rectangular hsaved.agree
        refine hsame.map_eq fun result result' related => ?_
        obtain ⟨hschema, hschema', hrows⟩ := related
        show Json.array (result.rows.map (·.toJson result.outputSchema)) =
          Json.array (result'.rows.map (·.toJson result'.outputSchema))
        rw [hschema, hschema']
        refine congrArg Json.array ?_
        generalize result.rows = rows at hrows
        generalize result'.rows = rows' at hrows
        induction hrows with
        | nil => rfl
        | cons hrow _ ih =>
          rw [List.map_cons, List.map_cons, ih, toJson_shown hfields hfields' hshown hrow]

/-- What a run returns shows no name twice, if the table does not. -/
theorem toTable_rectangular {pipelineJson : Json} {clock : Clock} {result : QueryResult}
    (htable : table.WellFormed) (hfields : table.schema.fields.Nodup)
    (h : runPipeline clock table pipelineJson = .ok result) : result.toTable.Rectangular := by
  obtain ⟨parsed, plan, opened, -, hbind, -, -, -, hschema⟩ := runPipeline_ok h
  obtain ⟨hbound, rfl⟩ := bindPipeline_wellBound hbind
  refine ⟨(toTable_wellFormed htable h).wide, ?_⟩
  show result.outputSchema.fields.Nodup
  rw [hschema]
  exact hbound.output_distinct hfields

/-- **Through a file.**  A query cut in two can be run with a data file in between: what the first
    half prints is loaded, however its integers are stored, and the second half prints over it
    exactly what the whole query prints, or fails with the same exception.  One of the halves must
    not sort, and the file must not be empty: it would have no fields. -/
theorem run_saved {documents elements : List Json} {clock : Clock} {result : QueryResult}
    {stored : Json} (hwf : (Json.array documents).WellFormed)
    (hload : loadTableFromJson (.array documents) = .ok table)
    (hrun : runPipeline clock table (.array elements) = .ok result) (hrows : result.rows ≠ [])
    (hstored : stored.signed = result.toTable.rendered) (later : List Json)
    (hsorts : NeverSorts (.array elements) ∨ NeverSorts (.array later)) (clock' clock'' : Clock) :
    ∃ again, loadTableFromJson stored = .ok again ∧
      (runPipeline clock' table (.array (elements ++ later))).map
          (fun result => result.toTable.rendered) =
        (runPipeline clock'' again (.array later)).map fun result => result.toTable.rendered := by
  have htable : table.WellFormed := loadTableFromJson_wellFormed hload
  have hloaded := loadTableFromJson_loaded hwf hload
  obtain ⟨parsed, plan, opened, hparse, hbind, hdenote, -, hopened, -⟩ := runPipeline_ok hrun
  obtain ⟨hbound, hplan⟩ := bindPipeline_wellBound hbind
  have hbetween := toTable_rectangular htable hloaded.rectangular.distinct hrun
  obtain ⟨again, hagain, hsaved⟩ := saved_loads hbetween hrows
  refine ⟨again, (loadTableFromJson_signed hstored).trans hagain, ?_⟩
  rw [runPipeline_append htable hrun later clock' clock']
  refine runPipeline_saved hbetween hsaved ?_ clock' clock''
  rcases hsorts with hfirst | hsecond
  · -- the rows are still in the order of the documents
    refine .inr ?_
    show (result.rows.map Row.ordinal).Pairwise (· < ·)
    have hsub := denote_inOrder (SortLimitToTopKRule.rewrite plan).1
      ((sorts_rewrite plan).trans (bindStages_sorts (hfirst parsed hparse) rfl hbind))
      (by rw [← Optimizer.optimize_fst]; exact hdenote)
    rw [hbound.rewrite.2, hplan, hloaded.ordinals, ← hopened] at hsub
    exact (List.pairwise_lt_range').sublist hsub
  · exact .inl hsecond

end Runs

/-- Two documents with the same `b`. -/
def tiedTable : Table where
  schema := { fields := ["a", "b"] }
  rows := [{ ordinal := 0, values := [.int64 1, .null] }, { ordinal := 1, values := [.int64 2, .null] }]

/-- Where both halves sort, a tie is broken by the position in the file. -/
example :
    letI := StdLibrary.reference
    let lastByA := sortJson (.object [("a", .numberInteger (-1))])
    let byB := sortJson (.object [("b", .numberInteger 1)])
    let shown := fun table stages =>
      (runPipeline Clock.still table (.array stages)).map fun result =>
        result.rows.map fun row => row.values.head?
    ((runPipeline Clock.still tiedTable (.array [lastByA])).bind fun result =>
        (loadTableFromJson result.toTable.rendered).bind fun again => shown again [byB]) =
      .ok [some (.int64 2), some (.int64 1)] ∧
    shown tiedTable [lastByA, byB] = .ok [some (.int64 1), some (.int64 2)] := ⟨rfl, rfl⟩

theorem positiveA_neverSorts : NeverSorts (.array [positiveA]) := by
  intro parsed hparse
  obtain rfl := Except.ok.inj hparse
  simp [ParsedStage.isSort]

/-- The first half keeps one document, which is stored unsigned; the second half sorts. -/
theorem run_saved_sample :
    letI := StdLibrary.reference
    ∃ again, loadTableFromJson (.array [.object [("a", .numberUnsigned 1)]]) = .ok again ∧
      (runPipeline Clock.still sampleTable (.array ([positiveA] ++ [sortJson missedSort]))).map
          (fun result => result.toTable.rendered) =
        (runPipeline Clock.still again (.array [sortJson missedSort])).map
          fun result => result.toTable.rendered := by
  exact @run_saved StdLibrary.reference sampleTable sampleDocuments [positiveA] Clock.still
    { rows := [{ ordinal := 1, values := [.int64 1] }], outputSchema := { fields := ["a"] } } _
    sampleDocuments_wellFormed rfl rfl (by decide) rfl _ (.inl positiveA_neverSorts) Clock.still Clock.still

end QueryLume
