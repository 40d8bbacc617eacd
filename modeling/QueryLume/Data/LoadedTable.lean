/-
  What a loaded table holds.

  1. **The field names** — the first pass inserts the keys of every document into a set.  The
     result is strictly ascending and has exactly the names of the members
     (`collectFieldNames_names`).

  2. **The cells** — the second pass starts a row with nulls and sets the cell of every member.  As
     the names are distinct, no cell is set twice, and a cell nobody sets stays null.

  3. **The table** — `LoadedFrom`: the field order is the ascending list of all member names, and
     cell `c` of row `i` is the converted member of document `i` under the `c`-th name, or null
     where the document lacks it; ordinals count the documents.  `loadTableFromJson_loaded` says
     that a table the loader returns is of this form.

  Everything later that goes from the rows of a query back to its documents starts from
  `LoadedFrom`.
-/
import QueryLume.Data.JsonLoader
import QueryLume.Foundation.Lists
import Mathlib.Data.List.Enum
import Mathlib.Data.String.Basic

namespace QueryLume

/-- The cell a document has under a name. -/
def documentCell (document : Json) (name : String) : Except Exception Value :=
  match document with
  | .object members =>
    match Json.member? members name with
    | none => .ok .null
    | some value => convertScalar value name
  | _ => .ok .null

/-- The member names of a document. -/
def Json.memberNames : Json → List String
  | .object members => members.map Prod.fst
  | _ => []

/-! ## The field names

  The first pass is a fold over all members of all documents.  Its set is a strictly ascending
  list, so the columns do not depend on the order of the documents. -/

/-- A set after an insertion. -/
theorem mem_insertName {name other : String} {names : List String} :
    other ∈ insertName name names ↔ other = name ∨ other ∈ names := by
  induction names with
  | nil => simp [insertName]
  | cons x xs ih =>
    rw [insertName]
    split
    · simp
    · split
      · rename_i heq
        simp [heq]
      · simp only [List.mem_cons, ih]
        tauto

/-- Insertion keeps the names ascending, each once. -/
theorem insertName_ascending (name : String) {names : List String}
    (h : names.Pairwise (· < ·)) : (insertName name names).Pairwise (· < ·) := by
  induction names with
  | nil => exact List.pairwise_singleton _ _
  | cons x xs ih =>
    obtain ⟨hx, hxs⟩ := List.pairwise_cons.mp h
    rw [insertName]
    split
    · rename_i hlt
      refine List.pairwise_cons.mpr ⟨fun y hy => ?_, h⟩
      rcases List.mem_cons.mp hy with rfl | hy
      · exact hlt
      · exact lt_trans hlt (hx y hy)
    · split
      · exact h
      · rename_i hnlt hne
        refine List.pairwise_cons.mpr ⟨fun y hy => ?_, ih hxs⟩
        rcases mem_insertName.mp hy with rfl | hy
        · exact lt_of_le_of_ne (not_lt.mp hnlt) (Ne.symm hne)
        · exact hx y hy

/-- One document adds its member names. -/
theorem insertNames (members : List (String × Json)) {names : List String}
    (h : names.Pairwise (· < ·)) :
    (members.foldl (fun set m => insertName m.1 set) names).Pairwise (· < ·) ∧
      ∀ name, name ∈ members.foldl (fun set m => insertName m.1 set) names ↔
        name ∈ names ∨ name ∈ members.map Prod.fst := by
  induction members generalizing names with
  | nil => exact ⟨h, fun name => by simp⟩
  | cons m members ih =>
    obtain ⟨hascending, hmem⟩ := ih (insertName_ascending m.1 h)
    refine ⟨hascending, fun name => ?_⟩
    rw [List.foldl_cons, hmem, mem_insertName, List.map_cons, List.mem_cons]
    tauto

/-- **The first pass** collects the names of all members, in ascending order. -/
theorem collectFieldNames_names : ∀ {documents : List Json} {names fieldOrder : List String},
    names.Pairwise (· < ·) → collectFieldNames documents names = .ok fieldOrder →
    fieldOrder.Pairwise (· < ·) ∧
      (∀ name, name ∈ fieldOrder ↔ name ∈ names ∨ name ∈ documents.flatMap Json.memberNames) ∧
      ∀ document ∈ documents, ∃ members, document = .object members
  | [], names, fieldOrder, hnames, h => by
    rw [← Except.ok.inj h]
    exact ⟨hnames, fun name => by simp, fun _ hmem => by cases hmem⟩
  | document :: documents, names, fieldOrder, hnames, h => by
    cases document with
    | object members =>
      rw [collectFieldNames] at h
      obtain ⟨hascending, hmem⟩ := insertNames members hnames
      obtain ⟨hfields, hmem', hobjects⟩ := collectFieldNames_names hascending h
      refine ⟨hfields, fun name => ?_, fun document hdocument => ?_⟩
      · rw [hmem', hmem, List.flatMap_cons, List.mem_append, Json.memberNames]
        tauto
      · rcases List.mem_cons.mp hdocument with rfl | hdocument
        · exact ⟨members, rfl⟩
        · exact hobjects document hdocument
    | null | boolean b | numberInteger i | numberUnsigned u | numberFloat d | string s | array e
    | binary b | discarded => cases h

/-! ## The cells

  The second pass writes the members of a document into a row of nulls, each at the position of its
  name.  Keys are distinct, so no cell is written twice. -/

section Cells

variable {fields : List String}

/-- With distinct names, a name has one column. -/
theorem findField_of_nodup (hnodup : fields.Nodup) {key : String} {index : Nat}
    (h : findField (indexByName fields) key = some index) {column : Nat} {name : String}
    (hname : fields[column]? = some name) : column = index ↔ key = name := by
  have hkey : fields[index]? = some key := Schema.getElem?_of_indexOf ⟨fields⟩ h
  refine ⟨fun heq => ?_, fun heq => ?_⟩
  · rw [← heq, hname] at hkey
    exact (Option.some.inj hkey).symm
  · obtain ⟨hlt, hget⟩ := List.getElem?_eq_some_iff.mp hname
    obtain ⟨hlt', hget'⟩ := List.getElem?_eq_some_iff.mp hkey
    exact (List.Nodup.getElem_inj_iff hnodup).mp (by rw [hget, hget', heq])

/-- The member loop: every column gets the member of its name, and the others stay. -/
theorem fillRow_cells (hnodup : fields.Nodup) : ∀ {members : List (String × Json)}
    {values filled : List Value}, fillRow (indexByName fields) members values = .ok filled →
    (members.map Prod.fst).Nodup → values.length = fields.length →
    filled.length = fields.length ∧
      ∀ (column : Nat) (name : String), fields[column]? = some name →
        match Json.member? members name with
        | none => filled[column]? = values[column]?
        | some value => ∃ cell, convertScalar value name = .ok cell ∧ filled[column]? = some cell
  | [], values, filled, h, _, hlength => by
    rw [← Except.ok.inj h]
    exact ⟨hlength, fun _ _ _ => rfl⟩
  | (key, value) :: members, values, filled, h, hkeys, hlength => by
    obtain ⟨hnew, hkeys⟩ := List.nodup_cons.mp hkeys
    rw [fillRow] at h
    cases hindex : findField (indexByName fields) key with
    | none => rw [hindex] at h; cases h
    | some index =>
      rw [hindex] at h
      cases hvalue : convertScalar value key with
      | error e => simp only [hvalue] at h; cases h
      | ok converted =>
        simp only [hvalue] at h
        obtain ⟨hfilled, hcells⟩ := fillRow_cells hnodup h hkeys (by rw [List.length_set, hlength])
        refine ⟨hfilled, fun column name hname => ?_⟩
        have hcell := hcells column name hname
        have hcolumn := findField_of_nodup hnodup hindex hname
        have hlt : column < values.length := by
          rw [hlength]
          exact (List.getElem?_eq_some_iff.mp hname).1
        by_cases hkey : key = name
        · -- the column of this member: the loop does not come back to it
          obtain rfl := hcolumn.mpr hkey
          have hnone : Json.member? members name = none := by
            rw [Json.member?, Option.map_eq_none_iff, List.find?_eq_none]
            intro m hm heq
            exact hnew (List.mem_map.mpr ⟨m, hm, (eq_of_beq heq).trans hkey.symm⟩)
          rw [hnone] at hcell
          simp only [List.getElem?_set_self hlt] at hcell
          have hsome : Json.member? ((key, value) :: members) name = some value := by
            rw [Json.member?, List.find?_cons_of_pos (by simp [hkey])]
            rfl
          rw [hsome]
          exact ⟨converted, hkey ▸ hvalue, hcell⟩
        · have hskip : Json.member? ((key, value) :: members) name = Json.member? members name := by
            rw [Json.member?, List.find?_cons_of_neg (by simp [hkey])]
            rfl
          rw [List.getElem?_set_ne (fun heq => hkey (hcolumn.mp heq.symm))] at hcell
          rw [hskip]
          exact hcell

/-- One document gives one row. -/
theorem fillRow_document (hnodup : fields.Nodup) {members : List (String × Json)}
    {values : List Value}
    (h : fillRow (indexByName fields) members (List.replicate fields.length .null) = .ok values)
    (hkeys : (members.map Prod.fst).Nodup) :
    List.Forall₂ (fun name value => documentCell (.object members) name = .ok value) fields values := by
  obtain ⟨hlength, hcells⟩ := fillRow_cells hnodup h hkeys List.length_replicate
  refine List.forall₂_iff_get.mpr ⟨hlength.symm, fun column hfield hvalue => ?_⟩
  have hcell := hcells column _ (List.getElem?_eq_getElem hfield)
  simp only [List.get_eq_getElem, documentCell]
  cases hmember : Json.member? members fields[column] with
  | none =>
    rw [hmember] at hcell
    rw [List.getElem?_replicate_of_lt hfield, List.getElem?_eq_getElem hvalue] at hcell
    simp only [Option.some.inj hcell]
  | some value =>
    rw [hmember] at hcell
    obtain ⟨cell, hconverted, hget⟩ := hcell
    rw [List.getElem?_eq_getElem hvalue] at hget
    simp only [hconverted, Option.some.inj hget]

end Cells

/-! ## The table

  Both passes together, as one description of the table that the rest of the development uses:
  `LoadedFrom`. -/

/-- Row `ordinal` of a table loaded under the names `fields`. -/
structure LoadedRow (fields : List String) (document : Json × Nat) (row : Row) : Prop where
  ordinal : row.ordinal = document.2
  cells : List.Forall₂ (fun name value => documentCell document.1 name = .ok value)
    fields row.values

/-- The rows are numbered as the documents are. -/
theorem loadedRow_ordinals {fields : List String} {documents : List (Json × Nat)} {rows : List Row}
    (h : List.Forall₂ (LoadedRow fields) documents rows) :
    rows.map Row.ordinal = documents.map Prod.snd := by
  induction h with
  | nil => rfl
  | cons hloaded _ ih => rw [List.map_cons, List.map_cons, ih, hloaded.ordinal]

/-- **The second pass** makes a row of each document, in order. -/
theorem loadRows_loaded {fields : List String} (hnodup : fields.Nodup) :
    ∀ {documents : List Json} {start : Nat} {rows : List Row},
    loadRows fields start documents = .ok rows →
    (∀ document ∈ documents, ∃ members, document = .object members ∧
      (members.map Prod.fst).Nodup) →
    List.Forall₂ (LoadedRow fields) (documents.zipIdx start) rows
  | [], _, _, h, _ => by
    rw [← Except.ok.inj h]
    exact .nil
  | document :: documents, start, rows, h, hobjects => by
    obtain ⟨members, rfl, hkeys⟩ := hobjects document List.mem_cons_self
    rw [loadRows] at h
    cases hvalues : fillRow (indexByName fields) members (List.replicate fields.length .null) with
    | error e => rw [hvalues] at h; cases h
    | ok values =>
      rw [hvalues] at h
      cases hrest : loadRows fields (start + 1) documents with
      | error e => simp only [hrest] at h; cases h
      | ok rest =>
        simp only [hrest] at h
        rw [← Except.ok.inj h, List.zipIdx_cons]
        exact .cons ⟨rfl, fillRow_document hnodup hvalues hkeys⟩
          (loadRows_loaded hnodup hrest
            fun other hother => hobjects other (List.mem_cons_of_mem _ hother))

/-- Filling a row keeps its width. -/
theorem fillRow_length {fieldIndex : List (String × Nat)} : ∀ {members : List (String × Json)}
    {values filled : List Value}, fillRow fieldIndex members values = .ok filled →
    filled.length = values.length
  | [], _, _, h => by rw [← Except.ok.inj h]
  | (key, value) :: members, values, filled, h => by
    rw [fillRow] at h
    cases hindex : findField fieldIndex key with
    | none => rw [hindex] at h; cases h
    | some index =>
      rw [hindex] at h
      cases hvalue : convertScalar value key with
      | error e => simp only [hvalue] at h; cases h
      | ok converted =>
        simp only [hvalue] at h
        have hrest := fillRow_length h
        rwa [List.length_set] at hrest

/-- Whatever the documents are, the rows are as wide as the field list and numbered in order. -/
theorem loadRows_shape {fields : List String} : ∀ {documents : List Json} {start : Nat}
    {rows : List Row}, loadRows fields start documents = .ok rows →
    rows.map Row.ordinal = List.range' start documents.length ∧
      ∀ row ∈ rows, row.values.length = fields.length
  | [], _, _, h => by
    rw [← Except.ok.inj h]
    exact ⟨rfl, fun _ hrow => by cases hrow⟩
  | document :: documents, start, rows, h => by
    have hcons : ∀ {values : List Value} {rest : List Row}, values.length = fields.length →
        loadRows fields (start + 1) documents = .ok rest →
        ({ ordinal := start, values } :: rest).map Row.ordinal =
            List.range' start (document :: documents).length ∧
          ∀ row ∈ { ordinal := start, values } :: rest, row.values.length = fields.length := by
      intro values rest hvalues hrest
      obtain ⟨hordinals, hwide⟩ := loadRows_shape hrest
      refine ⟨?_, fun row hrow => ?_⟩
      · rw [List.map_cons, hordinals, List.length_cons, List.range'_succ]
      · rcases List.mem_cons.mp hrow with rfl | hrow
        · exact hvalues
        · exact hwide row hrow
    have hnull : (List.replicate fields.length Value.null).length = fields.length :=
      List.length_replicate
    cases document with
    | object members =>
      rw [loadRows] at h
      cases hvalues : fillRow (indexByName fields) members
          (List.replicate fields.length .null) with
      | error e => rw [hvalues] at h; cases h
      | ok values =>
        rw [hvalues] at h
        cases hrest : loadRows fields (start + 1) documents with
        | error e => simp only [hrest] at h; cases h
        | ok rest =>
          simp only [hrest] at h
          rw [← Except.ok.inj h]
          exact hcons ((fillRow_length hvalues).trans hnull) hrest
    | null | boolean b | numberInteger i | numberUnsigned u | numberFloat d | string s | array e
    | binary b | discarded =>
      simp only [loadRows] at h
      cases hrest : loadRows fields (start + 1) documents with
      | error e => rw [hrest] at h; cases h
      | ok rest =>
        rw [hrest] at h
        rw [← Except.ok.inj h]
        exact hcons hnull hrest

/-- The shape of a loaded table. -/
theorem loadTableFromJson_shape {document : Json} {table : Table}
    (h : loadTableFromJson document = .ok table) :
    (∀ row ∈ table.rows, row.values.length = table.schema.columnCount) ∧
      ∃ count, table.rows.map Row.ordinal = List.range' 0 count := by
  unfold loadTableFromJson at h
  split at h
  · rename_i documents
    cases hfields : collectFieldNames documents [] with
    | error e => rw [hfields] at h; cases h
    | ok fieldOrder =>
      rw [hfields] at h
      cases hrows : loadRows fieldOrder 0 documents with
      | error e => simp only [hrows] at h; cases h
      | ok rows =>
        simp only [hrows] at h
        rw [← Except.ok.inj h]
        obtain ⟨hordinals, hwide⟩ := loadRows_shape hrows
        exact ⟨hwide, _, hordinals⟩
  · cases h

/-- A table as loading `documents` builds it. -/
structure LoadedFrom (documents : List Json) (table : Table) : Prop where
  ascending : table.schema.fields.Pairwise (· < ·)
  names : ∀ name, name ∈ table.schema.fields ↔ name ∈ documents.flatMap Json.memberNames
  rows : List.Forall₂ (LoadedRow table.schema.fields) documents.zipIdx table.rows

/-- **Loading.** -/
theorem loadTableFromJson_loaded {documents : List Json} {table : Table}
    (hwf : (Json.array documents).WellFormed)
    (h : loadTableFromJson (.array documents) = .ok table) : LoadedFrom documents table := by
  rw [loadTableFromJson] at h
  cases hfields : collectFieldNames documents [] with
  | error e => rw [hfields] at h; cases h
  | ok fieldOrder =>
    rw [hfields] at h
    obtain ⟨hascending, hnames, hobjects⟩ := collectFieldNames_names List.Pairwise.nil hfields
    cases hrows : loadRows fieldOrder 0 documents with
    | error e => simp only [hrows] at h; cases h
    | ok rows =>
      simp only [hrows] at h
      rw [← Except.ok.inj h]
      refine ⟨hascending, fun name => by simpa using hnames name, ?_⟩
      refine loadRows_loaded (hascending.imp fun hlt => ne_of_lt hlt) hrows fun document hdocument => ?_
      obtain ⟨members, rfl⟩ := hobjects document hdocument
      refine ⟨members, rfl, ?_⟩
      cases hwf with
      | array each =>
        cases each _ hdocument with
        | object ascending => exact ascending.imp fun hlt => ne_of_lt hlt

end QueryLume
