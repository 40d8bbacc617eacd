/-
  The order of the documents in a data file.

  It is the order in which rows are scanned, and it is what their ordinals are taken from, which
  decide the ties of a sort.  That is all it decides: behind a sort without ties a query gives the
  same documents however the file is rearranged (`run_document_order`).  A later sort could have
  ties of its own, so only filters, projections and limits come after it.

  Two tables are compared whose rows show the same cells under other ordinals.  Below the sort the
  rows of the one are a rearrangement of those of the other, up to the ordinals; the sort without
  ties arranges both by the keys alone (`stdSort_renumbered`); and above it nothing reads an
  ordinal (`runPipeline_renumbered`).
-/
import QueryLume.Query.SavedResult

namespace QueryLume

open LogicalPlanNode StdAlgorithms

theorem Row.values_eq_iff {rows rows' : List Row} :
    rows.map Row.values = rows'.map Row.values ↔
      List.Forall₂ (fun row row' => row.values = row'.values) rows rows' := by
  rw [← List.forall₂_eq_eq_eq, List.forall₂_map_left_iff, List.forall₂_map_right_iff]

/-! ## Ties

  A document that stands elsewhere in the file has another ordinal.  The comparator looks at
  ordinals only where two keys tie. -/

/-- Two values that a sort does not put in an order: two nulls, or two values that compare as
    equal. -/
def Tied (v w : Value) : Prop := (typeOf v = .kNull ∧ typeOf w = .kNull) ∨ compare v w = .ok .kEqual

theorem Tied.symm {v w : Value} (h : Tied v w) : Tied w v := by
  rcases h with ⟨hv, hw⟩ | hequal
  · exact .inl ⟨hw, hv⟩
  · exact .inr (compare_swap hequal)

namespace RowComparator

variable {comparator : RowComparator}

/-- The ordinals decide nothing but ties. -/
theorem decideCells_untied {direction : SortDirection} {i j i' j' : Nat} {v w : Value}
    (h : Tied v w → (i < j ↔ i' < j')) :
    decideCells direction i j v w = decideCells direction i' j' v w := by
  unfold decideCells
  by_cases hnull : typeOf v = .kNull ∧ typeOf w = .kNull
  · simp only [if_pos hnull, h (.inl hnull)]
  simp only [if_neg hnull]
  split
  · rfl
  cases hcompare : compare v w with
  | error e => rfl
  | ok r =>
    cases r with
    | kEqual => simp only [h (.inr hcompare)]
    | kLess | kGreater | kUnordered => rfl

/-- A comparison of two rows depends on their cells, and on their ordinals where the keys tie. -/
theorem call_values {a b a' b' : Row} (ha : a.values = a'.values) (hb : b.values = b'.values)
    (h : Tied (comparator.key a) (comparator.key b) →
      (a.ordinal < b.ordinal ↔ a'.ordinal < b'.ordinal)) :
    comparator.call a b = comparator.call a' b' := by
  have hcell : ∀ {row row' : Row}, row.values = row'.values →
      row.cell comparator.columnIndex = row'.cell comparator.columnIndex := by
    intro row row' hvalues
    rw [Row.cell, Row.cell, hvalues]
  rw [call, call, ← hcell ha, ← hcell hb]
  cases hva : a.cell comparator.columnIndex with
  | error e => rfl
  | ok va =>
    cases hvb : b.cell comparator.columnIndex with
    | error e => rfl
    | ok vb =>
      obtain rfl := key_of_cell hva
      obtain rfl := key_of_cell hvb
      exact decideCells_untied h

/-- **Without ties** a sort arranges rows by their values alone. -/
theorem stdSort_renumbered [StdLibrary] {rows rows' arranged : List Row}
    (hvalues : rows'.map Row.values = rows.map Row.values)
    (huntied : rows.Pairwise fun a b => ¬ Tied (comparator.key a) (comparator.key b))
    (h : stdSort comparator.call rows = .ok arranged) :
    ∃ arranged', stdSort comparator.call rows' = .ok arranged' ∧
      arranged'.map Row.values = arranged.map Row.values := by
  -- rows at the same place
  let R := fun row row' => ∃ i : Nat, rows[i]? = some row ∧ rows'[i]? = some row'
  have hsame : ∀ {row row'}, R row row' → row.values = row'.values := by
    rintro row row' ⟨i, hrow, hrow'⟩
    have hat := congrArg (·[i]?) hvalues
    simp only [List.getElem?_map, hrow, hrow', Option.map_some] at hat
    exact (Option.some.inj hat).symm
  have hcall : ∀ a a' b b', R a a' → R b b' → comparator.call a b = comparator.call a' b' := by
    rintro a a' b b' ⟨i, ha, ha'⟩ ⟨j, hb, hb'⟩
    refine call_values (hsame ⟨i, ha, ha'⟩) (hsame ⟨j, hb, hb'⟩) fun htied => ?_
    rcases Nat.lt_trichotomy i j with hij | rfl | hji
    · obtain ⟨hi, rfl⟩ := List.getElem?_eq_some_iff.mp ha
      obtain ⟨hj, rfl⟩ := List.getElem?_eq_some_iff.mp hb
      exact absurd htied (List.pairwise_iff_getElem.mp huntied i j hi hj hij)
    · obtain rfl := Option.some.inj (ha.symm.trans hb)
      obtain rfl := Option.some.inj (ha'.symm.trans hb')
      omega
    · obtain ⟨hi, rfl⟩ := List.getElem?_eq_some_iff.mp ha
      obtain ⟨hj, rfl⟩ := List.getElem?_eq_some_iff.mp hb
      exact absurd htied.symm (List.pairwise_iff_getElem.mp huntied j i hj hi hji)
  have hrows : List.Forall₂ R rows rows' := by
    have hlength : rows.length = rows'.length := by
      have := congrArg List.length hvalues
      rw [List.length_map, List.length_map] at this
      exact this.symm
    refine List.forall₂_iff_get.mpr ⟨hlength, fun i hi hi' => ⟨i, ?_, ?_⟩⟩
    · exact List.getElem?_eq_getElem hi
    · exact List.getElem?_eq_getElem hi'
  have hsort : SameOutcome (List.Forall₂ R) (stdSort comparator.call rows)
      (stdSort comparator.call rows') := rearrange_forall₂ sort hcall hrows
  rw [h] at hsort
  generalize stdSort comparator.call rows' = sorted' at hsort ⊢
  cases hsort with
  | @ok _ arranged' harranged =>
    exact ⟨arranged', rfl, (Row.values_eq_iff.mpr (harranged.imp fun _ _ => hsame)).symm⟩

end RowComparator

/-! ## Rearranged files

  Loading a rearranged file gives rows with the same values, numbered by their new positions. -/

section Files

variable {documents documents' : List Json} {table table' : Table}

/-- The cells of a row are those of its document. -/
theorem LoadedRow.values {fields : List String} {document : Json} {i : Nat} {row : Row}
    (h : LoadedRow fields (document, i) row) :
    row.values = fields.map fun name => (documentCell document name).toOption.getD .null := by
  have hcells := h.cells
  generalize row.values = values at hcells
  clear h
  induction hcells with
  | nil => rfl
  | cons hcell _ ih =>
    rw [List.map_cons, ← ih, hcell]
    rfl

/-- The cells of a table are those of its documents, in their order. -/
theorem LoadedFrom.values (h : LoadedFrom documents table) :
    table.rows.map Row.values = documents.map fun document =>
      table.schema.fields.map fun name => (documentCell document name).toOption.getD .null := by
  have hrows := h.rows
  generalize table.rows = rows at hrows
  generalize hnumbered : documents.zipIdx = numbered at hrows
  have hdocuments : documents = numbered.map Prod.fst := by
    rw [← hnumbered]
    exact (List.zipIdx_map_fst 0 documents).symm
  rw [hdocuments]
  clear hdocuments hnumbered
  induction hrows with
  | nil => rfl
  | cons hrow _ ih => rw [List.map_cons, List.map_cons, List.map_cons, hrow.values, ih]

/-- A rearranged file gives the same columns, and the rows of another numbering, rearranged. -/
theorem LoadedFrom.rearranged (h : LoadedFrom documents table) (h' : LoadedFrom documents' table')
    (hperm : documents'.Perm documents) :
    table'.schema = table.schema ∧ ∃ rows : List Row, rows.Perm table'.rows ∧
      rows.map Row.values = table.rows.map Row.values := by
  have hfields : table'.schema.fields = table.schema.fields := by
    refine List.Perm.eq_of_pairwise (fun a b _ _ hab hba => absurd hab (lt_asymm hba)) h'.ascending
      h.ascending ?_
    refine (List.perm_ext_iff_of_nodup (h'.ascending.imp fun hlt => ne_of_lt hlt)
      (h.ascending.imp fun hlt => ne_of_lt hlt)).mpr fun name => ?_
    rw [h.names, h'.names]
    exact (hperm.flatMap_right _).mem_iff
  have hschema : table'.schema = table.schema := by
    cases hs : table'.schema
    cases hs' : table.schema
    simp only [hs, hs'] at hfields
    rw [hfields]
  refine ⟨hschema, ?_⟩
  have hvalues : (table.rows.map Row.values).Perm (table'.rows.map Row.values) := by
    rw [h.values, h'.values, hfields]
    exact (hperm.map _).symm
  have hown : List.Forall₂ (fun values (row : Row) => row.values = values)
      (table'.rows.map Row.values) table'.rows :=
    List.forall₂_map_left_iff.mpr (List.forall₂_same.mpr fun _ _ => rfl)
  obtain ⟨rows, hrows, hrearranged⟩ := List.perm_comp_forall₂ hvalues hown
  refine ⟨rows, hrearranged, ?_⟩
  exact Row.values_eq_iff.mpr (List.forall₂_map_left_iff.mp hrows).flip

end Files

/-! ## Renumbered rows

  What does not sort does not look at the numbers of the rows. -/

section Runs

variable [StdLibrary] {table : Table} {pipelineJson : Json}

omit [StdLibrary] in
/-- A rectangular table stays one under other ordinals. -/
theorem Table.Rectangular.renumbered {rows : List Row} (h : table.Rectangular)
    (hvalues : rows.map Row.values = table.rows.map Row.values) :
    (table.withRows rows).Rectangular := by
  refine ⟨fun row hrow => ?_, h.distinct⟩
  have hmem : row.values ∈ table.rows.map Row.values := hvalues ▸ List.mem_map_of_mem hrow
  obtain ⟨row', hrow', heq⟩ := List.mem_map.mp hmem
  rw [← heq]
  exact h.wide row' hrow'

/-- A query that does not sort gives the same values, whatever the numbers of the rows. -/
theorem runPipeline_renumbered {rows : List Row} (htable : table.Rectangular)
    (hvalues : rows.map Row.values = table.rows.map Row.values) (hnever : NeverSorts pipelineJson)
    (clock clock' : Clock) :
    SameOutcome (fun result result' => result'.outputSchema = result.outputSchema ∧
        result'.rows.map Row.values = result.rows.map Row.values)
      (runPipeline clock table pipelineJson) (runPipeline clock' (table.withRows rows) pipelineJson) := by
  cases hparse : parsePipeline pipelineJson with
  | error e =>
    simp only [runPipeline, planQuery, hparse]
    exact .error e
  | ok parsed =>
    have hrows := bindPipeline_rows (table.withRows rows) table rfl parsed
    cases hbind : bindPipeline table parsed with
    | error e =>
      rw [hbind] at hrows
      simp only [runPipeline, planQuery, hparse, hbind, hrows]
      exact .error e
    | ok plan =>
      rw [hbind] at hrows
      have hbind' : bindPipeline (table.withRows rows) parsed =
          .ok (graft (.kScan (table.withRows rows)) plan) := hrows
      have hschema : outputSchemaOf (graft (.kScan (table.withRows rows)) plan) =
          outputSchemaOf plan := by
        have hscan : outputSchemaOf (.kScan (table.withRows rows)) =
            outputSchemaOf (.kScan plan.table) := by
          rw [(bindPipeline_wellBound hbind).2]
          rfl
        rw [outputSchemaOf_graft hscan, graft_scan]
      have hsorts : plan.sorts = true → OrderKept fun _ _ => True := by
        intro hsorts
        rw [bindStages_sorts (hnever parsed hparse) rfl hbind] at hsorts
        cases hsorts
      have hsame := Row.values_eq_iff.mp hvalues
      have hagree : table.AgreeIn (fun _ => True) (fun _ _ => True) (table.withRows rows) := by
        refine hsame.flip.imp fun row row' heq => ⟨trivial, fun name _ => ?_⟩
        show row.named table.schema name = row'.named table.schema name
        rw [Row.named, Row.named, heq]
      have hruns := runPipeline_shown clock clock' hparse hbind hbind' hsorts
        (fun _ _ _ _ => trivial) htable (htable.renumbered hvalues) hagree
      refine hruns.imp ?_
      rintro result result' ⟨hshown, hshown', hrows⟩
      rw [hschema] at hshown' hrows
      refine ⟨hshown'.trans hshown.symm, (Row.values_eq_iff.mpr (hrows.imp ?_)).symm⟩
      rintro row row' ⟨document, document', hagree, rfl, rfl⟩
      exact List.map_congr_left fun name _ => hagree.cell name trivial

/-! ## Sorting without ties

  The rows before the sort are rearranged and renumbered, and their keys do not tie; so both sorts
  arrange them by their values. -/

/-- A `$sort` stage by one field. -/
def sortBy (field : String) (direction : Json) : Json := sortJson (.object [(field, direction)])

/-- No two rows of a result tie in a field. -/
def QueryResult.Untied (result : QueryResult) (field : String) : Prop :=
  result.rows.Pairwise fun a b =>
    ¬ Tied (a.named result.outputSchema field) (b.named result.outputSchema field)

omit [StdLibrary] in
theorem sortBy_field {field : String} {direction : Json} {sort : ParsedSortStage}
    (h : parsePipeline (.array [sortBy field direction]) = .ok ⟨[.kSort sort]⟩) :
    sort.field.fieldName = field := by
  have hsort : parsePipeline (.array [sortBy field direction]) =
      (parseSort (.object [(field, direction)])).map fun sort => ⟨[.kSort sort]⟩ := by
    unfold parsePipeline parseStages parseStage sortBy sortJson
    dsimp only
    rw [if_neg (by decide), if_neg (by decide), if_pos rfl]
    cases parseSort (.object [(field, direction)]) with
    | error e => rfl
    | ok sort => rfl
  rw [hsort] at h
  obtain ⟨parsed, hparsed, heq⟩ := Except.map_eq_ok h
  simp only [ParsedPipeline.mk.injEq, List.cons.injEq, ParsedStage.kSort.injEq, and_true] at heq
  subst heq
  unfold parseSort at hparsed
  dsimp only at hparsed
  split at hparsed
  · obtain ⟨directionRaw, -, rfl⟩ := Except.map_eq_ok hparsed
    rfl
  · cases hparsed

omit [StdLibrary] in
theorem StreamsOnly.neverSorts (h : StreamsOnly pipelineJson) : NeverSorts pipelineJson := by
  intro parsed hparse stage hstage
  have hstreams := h parsed hparse stage hstage
  cases stage with
  | kSort => cases hstreams
  | kMatch | kProject | kLimit => rfl

omit [StdLibrary] in
/-- The cell a comparator reads is the one of that name. -/
theorem key_named {schema : Schema} {columnIndex : Nat} {direction : SortDirection} {field : String}
    (hfields : schema.fields.Nodup) (haddresses : schema.Addresses columnIndex field) (row : Row) :
    RowComparator.key { columnIndex, direction } row = row.named schema field := by
  obtain ⟨hlt, rfl⟩ := List.getElem?_eq_some_iff.mp haddresses
  rw [Row.named, Schema.indexOf_getElem hfields hlt]
  rfl

/-- Sorting what filters and projections leave of renumbered and rearranged rows. -/
theorem runPipeline_untied {elements : List Json} {field : String} {direction : Json}
    {clock : Clock} {sorted : QueryResult} {rows rows' : List Row} (htable : table.WellFormed)
    (hrectangular : table.Rectangular) (hstreams : StreamsOnly (.array elements))
    (hrun : runPipeline clock table (.array (elements ++ [sortBy field direction])) = .ok sorted)
    (huntied : sorted.Untied field) (hvalues : rows.map Row.values = table.rows.map Row.values)
    (hperm : rows'.Perm rows) (hdistinct : DistinctOrdinals rows') (clock' : Clock) :
    ∃ arranged, runPipeline clock' (table.withRows rows')
        (.array (elements ++ [sortBy field direction])) =
          .ok { rows := arranged, outputSchema := sorted.outputSchema } ∧
      arranged.map Row.values = sorted.rows.map Row.values := by
  obtain ⟨before, sort, columnIndex, direction', hbefore, hparse, haddresses, hschema, harranged,
    hanswers, hsort⟩ := runPipeline_sort_last htable hrun
  rw [sortBy_field hparse] at haddresses
  -- filters and projections leave the same values of the renumbered rows
  have hrenumbered := runPipeline_renumbered hrectangular hvalues hstreams.neverSorts clock clock'
  rw [hbefore] at hrenumbered
  obtain ⟨before', hbefore', houtput, hleft⟩ := hrenumbered.ok_left
  obtain ⟨left, hrearranged, hperm'⟩ := runPipeline_perm hstreams hbefore' hperm clock'
  have hwide := hrectangular.renumbered hvalues
  have hgiven : (table.withRows rows).WellFormed := ⟨hwide.wide, hdistinct.perm hperm.symm⟩
  have hgiven' : (table.withRows rows').WellFormed := hgiven.perm hperm
  have hbetween := toTable_wellFormed hgiven hbefore'
  -- without ties they are sorted alike, and the arrangement does not matter
  have hfields : before.outputSchema.fields.Nodup :=
    (toTable_rectangular htable hrectangular.distinct hbefore).distinct
  have hkeys : before.toTable.rows.Pairwise fun a b =>
      ¬ Tied (RowComparator.key { columnIndex, direction := direction' } a)
        (RowComparator.key { columnIndex, direction := direction' } b) := by
    have harrangement : sorted.rows.Perm before.toTable.rows :=
      stdSort_rearranges (RowComparator.before_strictWeak false)
        (fun _ _ _ hanswer => RowComparator.call_before hanswer) harranged
    refine (harrangement.pairwise_iff fun h htied => h htied.symm).mp (huntied.imp fun h => ?_)
    rw [key_named hfields haddresses, key_named hfields haddresses, ← hschema]
    exact h
  obtain ⟨arranged, harranged', hsame⟩ : ∃ arranged,
      stdSort (RowComparator.call { columnIndex, direction := direction' }) before'.toTable.rows =
        .ok arranged ∧ arranged.map Row.values = sorted.rows.map Row.values :=
    RowComparator.stdSort_renumbered hleft hkeys harranged
  have hlt : columnIndex < before'.toTable.schema.columnCount := by
    show columnIndex < before'.outputSchema.columnCount
    rw [houtput]
    exact haddresses.lt
  have hanswers' := RowComparator.stdSort_answers hbetween.distinct
    (fun row hrow => hbetween.wide row hrow ▸ hlt) harranged'
  refine ⟨arranged, ?_, hsame⟩
  have hthen := runPipeline_append hgiven' hrearranged [sortBy field direction] clock' clock'
  have hlast := hsort clock' left
  rw [RowComparator.stdSort_arrival hbetween.distinct hanswers' hperm', harranged'] at hlast
  refine hthen.trans ?_
  show runPipeline clock' { schema := before'.outputSchema, rows := left } _ = _
  rw [houtput, hschema]
  exact hlast

/-- **The order of the documents.**  Behind a sort that finds no ties, filters, projections and
    limits give the same documents in the same order, or fail with the same exception, however the
    documents in the data file are rearranged. -/
theorem run_document_order {documents documents' elements : List Json} {field : String}
    {direction : Json} {clock : Clock} {sorted : QueryResult}
    (hwf : (Json.array documents).WellFormed)
    (hload : loadTableFromJson (.array documents) = .ok table)
    (hstreams : StreamsOnly (.array elements))
    (hrun : runPipeline clock table (.array (elements ++ [sortBy field direction])) = .ok sorted)
    (huntied : sorted.Untied field) (hperm : documents'.Perm documents) (later : List Json)
    (hnever : NeverSorts (.array later)) (clock' clock'' : Clock) :
    ∃ table', loadTableFromJson (.array documents') = .ok table' ∧
      (runPipeline clock' table (.array (elements ++ [sortBy field direction] ++ later))).map
          (fun result => result.toTable.rendered) =
        (runPipeline clock'' table' (.array (elements ++ [sortBy field direction] ++ later))).map
          fun result => result.toTable.rendered := by
  have hloaded := loadTableFromJson_loaded hwf hload
  have htable := loadTableFromJson_wellFormed hload
  have hwf' : (Json.array documents').WellFormed := by
    cases hwf with
    | array each => exact .array fun document hdocument => each document (hperm.mem_iff.mp hdocument)
  obtain ⟨table', hload'⟩ := loadTableFromJson_accepts.mpr fun document hdocument =>
    loadTableFromJson_accepts.mp ⟨table, hload⟩ document (hperm.mem_iff.mp hdocument)
  refine ⟨table', hload', ?_⟩
  have hloaded' := loadTableFromJson_loaded hwf' hload'
  have htable' := loadTableFromJson_wellFormed hload'
  obtain ⟨hschema, rows, hrows, hvalues⟩ := hloaded.rearranged hloaded' hperm
  have hother : table.withRows table'.rows = table' := by
    rw [Table.withRows, ← hschema]
  obtain ⟨arranged, harranged, hsorted⟩ := runPipeline_untied htable hloaded.rectangular hstreams hrun
    huntied hvalues hrows.symm htable'.distinct clock''
  rw [hother] at harranged
  rw [runPipeline_append htable hrun later clock' clock',
    runPipeline_append htable' harranged later clock'' clock'']
  have hbetween := toTable_rectangular htable hloaded.rectangular.distinct hrun
  have hsame := runPipeline_renumbered hbetween hsorted hnever clock' clock''
  refine hsame.map_eq fun result result' hresults => ?_
  obtain ⟨houtput, hrendered⟩ := hresults
  have hdocuments : ∀ rows : List Row, rows.map (·.toJson result.outputSchema) =
      (rows.map Row.values).map fun values => Row.toJson ⟨0, values⟩ result.outputSchema := by
    intro rows
    rw [List.map_map]
    rfl
  show Json.array (result.rows.map (·.toJson result.outputSchema)) =
    Json.array (result'.rows.map (·.toJson result'.outputSchema))
  rw [houtput, hdocuments, hdocuments, hrendered]

end Runs

/-- Two nulls tie, and come in the order of the file. -/
example :
    letI := StdLibrary.reference
    let printed := fun documents =>
      (loadTableFromJson (.array documents)).bind fun table =>
        (runPipeline Clock.still table (.array [sortBy "b" (.numberInteger 1)])).map
          fun result => result.rows.map Row.values
    let first := Json.object [("a", .numberInteger 1)]
    let second := Json.object [("a", .numberInteger 2), ("b", .null)]
    printed [first, second] = .ok [[.int64 1, .null], [.int64 2, .null]] ∧
      printed [second, first] = .ok [[.int64 2, .null], [.int64 1, .null]] := ⟨rfl, rfl⟩

theorem limitOne_neverSorts : NeverSorts (.array [limitOne]) := by
  intro parsed hparse
  obtain rfl := Except.ok.inj hparse
  simp [ParsedStage.isSort]

/-- The sample, read backwards. -/
theorem run_document_order_sample :
    letI := StdLibrary.reference
    let pipelineJson := Json.array ([] ++ [sortBy "a" (.numberInteger 1)] ++ [limitOne])
    ∃ table', loadTableFromJson (.array sampleDocuments.reverse) = .ok table' ∧
      (runPipeline Clock.still sampleTable pipelineJson).map
          (fun result => result.toTable.rendered) =
        (runPipeline Clock.still table' pipelineJson).map fun result => result.toTable.rendered := by
  have hstreams : StreamsOnly (.array []) := by
    intro parsed hparse
    obtain rfl := Except.ok.inj hparse
    simp
  have huntied : QueryResult.Untied {
      rows := [{ ordinal := 1, values := [.int64 1] }, { ordinal := 0, values := [.null] }]
      outputSchema := { fields := ["a"] } } "a" := by
    refine List.pairwise_pair.mpr ?_
    rintro (⟨hnull, -⟩ | hequal)
    · cases hnull
    · cases hequal
  exact @run_document_order StdLibrary.reference sampleTable sampleDocuments _ [] "a" _
    Clock.still _ sampleDocuments_wellFormed rfl hstreams rfl huntied (List.reverse_perm _) _
    limitOne_neverSorts Clock.still Clock.still

end QueryLume
