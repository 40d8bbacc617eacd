/-
  Loading and rendering are inverse.

  A loaded table, rendered row by row, is the array it was loaded from with every document
  completed by explicit nulls; and loading what was rendered gives the table back.

  1. **Values** — the encoder and the decoder agree on every kind of value; an integer that was
     stored unsigned is rendered signed, which is all that is lost (`Json.signed`).

  2. **Rows** — under a schema whose names ascend, an object that is built member by member has its
     members in the order of the columns, so cells are found again by name (`documentCell_toJson`).

  3. **Tables** — a completed document has exactly the fields of the union schema (`completed_eq`),
     so the schema of the reloaded table is the same, and the rows are reloaded at the same
     positions.
-/
import QueryLume.Data.IntegerStorage
import QueryLume.Data.JsonObjects
import QueryLume.Data.LoaderAcceptance
import QueryLume.Query.Documents

namespace QueryLume

open Json

/-- The document with an explicit null under every name of `fields` it lacks. -/
def Json.completed (fields : List String) (document : Json) : Json :=
  match document with
  | .object members =>
    .object ((fields.filter fun name => (member? members name).isNone).foldl
      (fun object name => setMember name .null object) members)
  | _ => document

/-- The rows, rendered under the table's schema. -/
def Table.rendered (table : Table) : Json :=
  .array (table.rows.map fun row => row.toJson table.schema)

/-! ## Values

  A cell and a scalar JSON value determine one another, up to how integers are stored. -/

@[simp] theorem Value.signed_toJson (value : Value) : value.toJson.signed = value.toJson := by
  cases value with
  | null | bool b | int64 i | double d | string s =>
    rw [Value.toJson, signed]

theorem Value.isScalar_toJson (value : Value) : value.toJson.IsScalar := by
  cases value with
  | null | bool b | int64 i | double d | string s => exact trivial

theorem Value.toJson_wellFormed (value : Value) : value.toJson.WellFormed := by
  cases value with
  | null => exact .null
  | bool b => exact .boolean b
  | int64 i => exact .numberInteger i
  | double d => exact .numberFloat d
  | string s => exact .string s

/-- Encoder and decoder agree on every kind of value. -/
theorem convertScalar_toJson (value : Value) (field : String) :
    convertScalar value.toJson field = .ok value := by
  cases value with
  | null | bool b | int64 i | double d | string s => rfl

/-- A converted value renders as what it was converted from, stored signed. -/
theorem toJson_of_convertScalar {json : Json} {field : String} {value : Value}
    (h : convertScalar json field = .ok value) : value.toJson = json.signed := by
  cases json with
  | numberUnsigned u =>
    simp only [convertScalar] at h
    split at h
    · cases h
    · rename_i hle
      rw [← Except.ok.inj h, signed_numberUnsigned (not_lt.mp hle)]
      rfl
  | null | boolean b | numberInteger i | numberFloat d | string s =>
    rw [← Except.ok.inj h, signed]
    rfl
  | array e | object m | binary b | discarded => cases h

/-! ## Rows

  The schema of a loaded table is ascending, so a rendered row has its members in the order of its
  columns and nothing is lost by rendering. -/

section Rows

variable {fields : List String} {row : Row}

/-- A rendered row has its members in the order of the columns. -/
theorem toJson_members (hascending : fields.Pairwise (· < ·))
    (hwide : row.values.length = fields.length) :
    row.toJson { fields } =
        .object ((fields.zip row.values).map fun entry => (entry.1, entry.2.toJson)) ∧
      ((fields.zip row.values).map fun entry => (entry.1, entry.2.toJson)).map Prod.fst =
        fields := by
  have hkeys : ((fields.zip row.values).map fun entry => (entry.1, entry.2.toJson)).map Prod.fst =
      fields := by
    rw [List.map_map]
    exact List.map_fst_zip (le_of_eq hwide.symm)
  refine ⟨ofMembers_ascending ?_, hkeys⟩
  rw [Ascending, hkeys]
  exact hascending

/-- Every cell is found again under the name of its column. -/
theorem documentCell_toJson (hascending : fields.Pairwise (· < ·))
    (hwide : row.values.length = fields.length) :
    List.Forall₂ (fun name value => documentCell (row.toJson { fields }) name = .ok value)
      fields row.values := by
  obtain ⟨htoJson, hkeys⟩ := toJson_members hascending hwide
  have hmembers : Ascending ((fields.zip row.values).map fun entry => (entry.1, entry.2.toJson)) := by
    rw [Ascending, hkeys]
    exact hascending
  rw [htoJson]
  refine List.forall₂_iff_zip.mpr ⟨hwide.symm, fun {name value} hentry => ?_⟩
  have hmember := hmembers.member?_eq_some.mpr (List.mem_map.mpr ⟨(name, value), hentry, rfl⟩)
  simp only [documentCell, hmember]
  exact convertScalar_toJson value name

/-- A rendered row has the cells of its document, integers stored signed. -/
theorem toJson_of_cells {document : Json} (hascending : fields.Pairwise (· < ·))
    (hcells : List.Forall₂ (fun name value => documentCell document name = .ok value)
      fields row.values) :
    row.toJson { fields } =
      .object (fields.map fun name => (name, (document.memberOrNull name).signed)) := by
  rw [(toJson_members hascending hcells.length_eq.symm).1]
  congr 1
  generalize row.values = values at hcells
  clear hascending
  induction hcells with
  | nil => rfl
  | cons hcell _ ih =>
    rw [documentCell_eq] at hcell
    rw [List.zip_cons_cons, List.map_cons, List.map_cons, ih, toJson_of_convertScalar hcell]

end Rows

/-! ## Completed documents

  What is rendered of a row is its document with nulls filled in; setting members that are not
  there leaves the others alone. -/

/-- Setting some names to null keeps the order of the keys, and the other members. -/
theorem addNulls {members : List (String × Json)} (h : Ascending members) (names : List String) :
    Ascending (names.foldl (fun object name => setMember name .null object) members) ∧
      ∀ key, member? (names.foldl (fun object name => setMember name .null object) members) key =
        if key ∈ names then some .null else member? members key := by
  induction names generalizing members with
  | nil => exact ⟨h, fun key => by rw [if_neg List.not_mem_nil, List.foldl_nil]⟩
  | cons name names ih =>
    obtain ⟨hascending, hmember⟩ := ih (h.setMember name .null)
    refine ⟨hascending, fun key => ?_⟩
    rw [List.foldl_cons, hmember, member?_setMember]
    by_cases hlater : key ∈ names
    · rw [if_pos hlater, if_pos (List.mem_cons_of_mem _ hlater)]
    · by_cases hkey : name = key
      · rw [if_neg hlater, if_pos hkey, if_pos (hkey ▸ List.mem_cons_self)]
      · rw [if_neg hlater, if_neg hkey, if_neg fun hmem => ?_]
        rcases List.mem_cons.mp hmem with heq | hmem
        · exact hkey heq.symm
        · exact hlater hmem

theorem member?_fields (fields : List String) (f : String → Json) (key : String) :
    member? (fields.map fun name => (name, f name)) key =
      if key ∈ fields then some (f key) else none := by
  induction fields with
  | nil => rfl
  | cons name fields ih =>
    rw [List.map_cons, member?_cons, ih]
    by_cases hkey : name = key
    · rw [if_pos hkey, if_pos (hkey ▸ List.mem_cons_self), hkey]
    · rw [if_neg hkey]
      refine if_congr ?_ rfl rfl
      rw [List.mem_cons]
      exact ⟨.inr, fun hmem => hmem.resolve_left (Ne.symm hkey)⟩

/-- A completed document has exactly the fields of the union schema. -/
theorem completed_eq {fields : List String} {members : List (String × Json)}
    (hascending : fields.Pairwise (· < ·)) (hmembers : Ascending members)
    (hnames : ∀ name ∈ members.map Prod.fst, name ∈ fields) :
    (Json.object members).completed fields =
      .object (fields.map fun name => (name, (Json.object members).memberOrNull name)) := by
  obtain ⟨hcompleted, hmember⟩ :=
    addNulls hmembers (fields.filter fun name => (member? members name).isNone)
  refine congrArg Json.object (hcompleted.ext ?_ fun key => ?_)
  · rw [Ascending, List.map_map, Function.comp_def, List.map_id']
    exact hascending
  · rw [hmember, member?_fields, memberOrNull]
    simp only [List.mem_filter]
    cases hkey : member? members key with
    | none => simp
    | some value =>
      have hfield : key ∈ fields := by
        refine hnames key ?_
        by_contra hnot
        rw [member?_eq_none.mpr hnot] at hkey
        cases hkey
      simp [hfield]

/-! ## The table

  Both directions for all rows, and what is accepted.  The ordinals are positions, so they come
  back too. -/

/-- A loaded row renders as its document, completed. -/
theorem LoadedRow.toJson_signed {fields : List String} {document : Json} {i : Nat} {row : Row}
    (h : LoadedRow fields (document, i) row) (hascending : fields.Pairwise (· < ·))
    (hdocument : ∃ members, document = .object members ∧ Ascending members ∧
      ∀ name ∈ members.map Prod.fst, name ∈ fields) :
    (row.toJson { fields }).signed = (document.completed fields).signed := by
  obtain ⟨members, rfl, hmembers, hnames⟩ := hdocument
  have hcells := h.cells
  have hwide := hcells.length_eq.symm
  have hleft : (row.toJson { fields }).signed = row.toJson { fields } := by
    rw [(toJson_members hascending hwide).1, signed_object, List.map_map]
    refine congrArg Json.object (List.map_congr_left fun entry _ => ?_)
    rw [Function.comp_apply, Value.signed_toJson]
  rw [hleft, toJson_of_cells hascending hcells, completed_eq hascending hmembers hnames,
    signed_object, List.map_map]
  rfl

/-- Rows loaded from rendered rows are these rows. -/
theorem reload_rows {fields : List String} (hascending : fields.Pairwise (· < ·)) :
    ∀ {rows rows' : List Row} {start : Nat},
    (∀ row ∈ rows, row.values.length = fields.length) →
    rows.map Row.ordinal = List.range' start rows.length →
    List.Forall₂ (LoadedRow fields) ((rows.map fun row => row.toJson { fields }).zipIdx start) rows' →
    rows' = rows
  | [], rows', start, _, _, h => by
    cases h with
    | nil => rfl
  | row :: rows, rows', start, hwide, hordinals, h => by
    rw [List.map_cons, List.length_cons, List.range'_succ] at hordinals
    obtain ⟨hordinal, hordinals⟩ := List.cons.inj hordinals
    obtain ⟨hrow, hwide⟩ := List.forall_mem_cons.mp hwide
    rw [List.map_cons, List.zipIdx_cons] at h
    cases h with
    | @cons _ row' _ rest' hloaded hrest =>
      rw [reload_rows hascending hwide hordinals hrest]
      have hunique : Relator.RightUnique fun name value =>
          documentCell (row.toJson { fields }) name = .ok value :=
        fun name value value' hvalue hvalue' => Except.ok.inj (hvalue.symm.trans hvalue')
      have hvalues : row'.values = row.values :=
        hunique.forall₂ hloaded.cells (documentCell_toJson hascending hrow)
      have hsame : row' = row := by
        obtain ⟨ordinal, values⟩ := row
        obtain ⟨ordinal', values'⟩ := row'
        rw [Row.mk.injEq]
        exact ⟨hloaded.ordinal.trans hordinal.symm, hvalues⟩
      rw [hsame]

namespace LoadedFrom

variable {documents : List Json} {table : Table}

/-- The ordinals of a loaded table are the positions of its rows. -/
theorem ordinals (h : LoadedFrom documents table) :
    table.rows.map Row.ordinal = List.range' 0 table.rows.length := by
  rw [loadedRow_ordinals h.rows, List.zipIdx_map_snd, ← h.rows.length_eq, List.length_zipIdx]

theorem wide (h : LoadedFrom documents table) {row : Row} (hrow : row ∈ table.rows) :
    row.values.length = table.schema.fields.length := by
  obtain ⟨document, -, hloaded⟩ := h.rows.exists_of_mem_right hrow
  exact hloaded.cells.length_eq.symm

/-- Every rendered row has all the names of the schema. -/
theorem rendered_names (h : LoadedFrom documents table) (name : String) :
    name ∈ (table.rows.map fun row => row.toJson table.schema).flatMap Json.memberNames ↔
      name ∈ table.schema.fields := by
  have hkeys : ∀ row ∈ table.rows, (row.toJson table.schema).memberNames = table.schema.fields := by
    intro row hrow
    obtain ⟨htoJson, hnames⟩ := toJson_members h.ascending (h.wide hrow)
    rw [htoJson]
    exact hnames
  rw [List.mem_flatMap]
  constructor
  · rintro ⟨document, hdocument, hname⟩
    obtain ⟨row, hrow, rfl⟩ := List.mem_map.mp hdocument
    rwa [hkeys row hrow] at hname
  · intro hname
    -- some document has this name, so there is a row
    obtain ⟨document, hdocument, -⟩ := List.mem_flatMap.mp ((h.names name).mp hname)
    obtain ⟨i, hi, rfl⟩ := List.mem_iff_getElem.mp hdocument
    have hentry : (documents[i], i) ∈ documents.zipIdx :=
      List.mk_mem_zipIdx_iff_getElem?.mpr (List.getElem?_eq_getElem hi)
    obtain ⟨row, hrow, -⟩ := h.rows.exists_of_mem_left hentry
    exact ⟨_, List.mem_map_of_mem hrow, by rwa [hkeys row hrow]⟩

/-- A rendered table is JSON the library can hold. -/
theorem rendered_wellFormed (h : LoadedFrom documents table) : table.rendered.WellFormed := by
  refine .array fun document hdocument => ?_
  obtain ⟨row, hrow, rfl⟩ := List.mem_map.mp hdocument
  obtain ⟨htoJson, hnames⟩ := toJson_members h.ascending (h.wide hrow)
  rw [htoJson]
  refine .object ?_ fun m hm => ?_
  · rw [hnames]
    exact h.ascending
  · obtain ⟨entry, -, rfl⟩ := List.mem_map.mp hm
    dsimp only
    cases entry.2 with
    | null => exact .null
    | bool b => exact .boolean b
    | int64 i => exact .numberInteger i
    | double d => exact .numberFloat d
    | string s => exact .string s

theorem rendered_flat (h : LoadedFrom documents table) :
    ∀ document ∈ table.rows.map fun row => row.toJson table.schema, document.IsFlat := by
  intro document hdocument
  obtain ⟨row, hrow, rfl⟩ := List.mem_map.mp hdocument
  refine ⟨_, (toJson_members h.ascending (h.wide hrow)).1, fun m hm => ?_⟩
  obtain ⟨entry, -, rfl⟩ := List.mem_map.mp hm
  exact entry.2.isScalar_toJson

/-- **Reloading.** -/
theorem reload (h : LoadedFrom documents table) : loadTableFromJson table.rendered = .ok table := by
  obtain ⟨table', htable'⟩ := loadTableFromJson_accepts.mpr h.rendered_flat
  have h' := loadTableFromJson_loaded h.rendered_wellFormed htable'
  have hfields : table'.schema.fields = table.schema.fields :=
    h'.ascending.eq_of_mem_iff h.ascending fun name => (h'.names name).trans (h.rendered_names name)
  have hrows : table'.rows = table.rows := by
    have hloaded := h'.rows
    rw [hfields] at hloaded
    exact reload_rows h.ascending (fun row hrow => h.wide hrow) h.ordinals hloaded
  have hsame : table' = table := by
    obtain ⟨⟨fields⟩, rows⟩ := table
    obtain ⟨⟨fields'⟩, rows'⟩ := table'
    simp only at hfields hrows
    rw [hfields, hrows]
  rw [Table.rendered, htable', hsame]

end LoadedFrom

/-- **Rendering.** -/
theorem rendered_completed {documents : List Json} {table : Table}
    (hwf : (Json.array documents).WellFormed)
    (hload : loadTableFromJson (.array documents) = .ok table) :
    table.rendered.signed =
      (Json.array (documents.map (Json.completed table.schema.fields))).signed := by
  have h := loadTableFromJson_loaded hwf hload
  have hflat := loadTableFromJson_accepts.mp ⟨table, hload⟩
  rw [Table.rendered, signed_array, signed_array, List.map_map, List.map_map]
  refine congrArg Json.array ?_
  have hrows : List.Forall₂ (fun (document : Json × Nat) row =>
      (document.1.completed table.schema.fields).signed = (row.toJson table.schema).signed)
      documents.zipIdx table.rows := by
    refine List.forall₂_iff_zip.mpr ⟨h.rows.length_eq, fun {document row} hmem => ?_⟩
    have hloaded := (List.forall₂_iff_zip.mp h.rows).2 hmem
    have hdocument : document.1 ∈ documents :=
      List.fst_mem_of_mem_zipIdx (List.of_mem_zip hmem).1
    obtain ⟨members, hobject, -⟩ := hflat document.1 hdocument
    refine (hloaded.toJson_signed h.ascending ⟨members, hobject, ?_, fun name hname => ?_⟩).symm
    · cases hwf with
      | array each =>
        have hwell := each document.1 hdocument
        rw [hobject] at hwell
        cases hwell with
        | object ascending => exact ascending
    · refine (h.names name).mpr (List.mem_flatMap.mpr ⟨document.1, hdocument, ?_⟩)
      rw [hobject]
      exact hname
  have hmapped : List.Forall₂ (· = ·)
      (documents.zipIdx.map fun document => (document.1.completed table.schema.fields).signed)
      (table.rows.map fun row => (row.toJson table.schema).signed) :=
    List.forall₂_map_left_iff.mpr (List.forall₂_map_right_iff.mpr hrows)
  rw [List.forall₂_eq_eq_eq] at hmapped
  have hfirst := congrArg
    (List.map fun document => (Json.completed table.schema.fields document).signed)
    (List.zipIdx_map_fst 0 documents)
  rw [List.map_map] at hfirst
  exact hmapped.symm.trans hfirst

/-- **Loading and rendering are inverse.**  Exactly the arrays of flat documents are loaded; the
    schema is the ascending list of all their names and the rows are as wide; the rendered rows
    load as the same table, and are the documents, completed by nulls. -/
theorem load_rendered_inverse {documents : List Json} (hwf : (Json.array documents).WellFormed) :
    ((∃ table, loadTableFromJson (.array documents) = .ok table) ↔
      ∀ document ∈ documents, document.IsFlat) ∧
    ∀ table, loadTableFromJson (.array documents) = .ok table →
      loadTableFromJson table.rendered = .ok table ∧
      table.rendered.signed =
        (Json.array (documents.map (Json.completed table.schema.fields))).signed ∧
      table.schema.fields.Pairwise (· < ·) ∧
      (∀ name, name ∈ table.schema.fields ↔ name ∈ documents.flatMap Json.memberNames) ∧
      ∀ row ∈ table.rows, row.values.length = table.schema.columnCount := by
  refine ⟨loadTableFromJson_accepts, fun table hload => ?_⟩
  have hloaded := loadTableFromJson_loaded hwf hload
  exact ⟨hloaded.reload, rendered_completed hwf hload, hloaded.ascending, hloaded.names,
    fun row hrow => hloaded.wide hrow⟩

/-- The sample table is loaded from what it renders as. -/
theorem load_rendered_inverse_sample :
    loadTableFromJson sampleTable.rendered = .ok sampleTable :=
  ((load_rendered_inverse sampleDocuments_wellFormed).2 sampleTable rfl).1

end QueryLume
