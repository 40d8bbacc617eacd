/-
  Which documents are loaded.

  The loader checks twice: every document must be an object before any row is built, then every
  member must convert.  So the complaints come in two lists, first the shapes of all documents
  (`shapeComplaints`), then the members of all documents in order (`scalarComplaints`), and what is
  thrown is the first complaint of the two lists together.

  Nothing else can be thrown.  The second pass looks up every key with `at()`, which throws when
  the key is not there; but the first pass has seen every key, so the lookup never fails
  (`findField_isSome`), and the check of the shape in the second pass is never reached.
-/
import QueryLume.Data.IntegerStorage
import QueryLume.Data.LoadedTable
import QueryLume.Foundation.Checked

namespace QueryLume

open Checked

/-! ## The complaints

  As for the parser and the binder: a list for each pass, and acceptance is having no complaint. -/

/-- What the first pass finds wrong with a document: that it is no object. -/
def shapeComplaints : Json → List Exception
  | .object _ => []
  | _ => [.queryLumeError .kInvalidDataShape "each input document must be a JSON object"]

/-- What is wrong with a member that is converted: an integer that does not fit, a nested value,
    or a value that has no text. -/
def scalarComplaints (m : String × Json) : List Exception :=
  match m.2 with
  | .null | .boolean _ | .numberInteger _ | .numberFloat _ | .string _ => []
  | .numberUnsigned u =>
    complainUnless (u.toNat ≤ int64Max)
      (.queryLumeError .kUnsupportedValueType
        ("field '" ++ m.1 ++ "' contains an integer outside the int64 range"))
  | .array _ | .object _ =>
    [.queryLumeError .kInvalidDataShape
      ("field '" ++ m.1 ++ "' has an unsupported nested object/array value")]
  | .binary _ | .discarded =>
    [.queryLumeError .kUnsupportedValueType
      ("field '" ++ m.1 ++ "' has an unsupported JSON value type")]

/-- What the second pass finds wrong with a document, member by member. -/
def contentComplaints : Json → List Exception
  | .object members => members.flatMap scalarComplaints
  | _ => []

/-- Everything that is wrong with the documents, in the order the loader finds it: the shapes of
    all documents before the members of any. -/
def loadComplaints (documents : List Json) : List Exception :=
  documents.flatMap shapeComplaints ++ documents.flatMap contentComplaints

/-- A flat document: an object whose values are scalars that fit. -/
def Json.IsFlat (document : Json) : Prop :=
  ∃ members, document = .object members ∧ ∀ m ∈ members, m.2.IsScalar

/-- A document is an object. -/
theorem shapeComplaints_eq_nil {document : Json} :
    shapeComplaints document = [] ↔ ∃ members, document = .object members := by
  unfold shapeComplaints
  constructor
  · intro h
    split at h
    · exact ⟨_, rfl⟩
    · exact absurd h (List.cons_ne_nil _ _)
  · rintro ⟨members, rfl⟩
    rfl

/-- A member is a scalar that fits. -/
theorem scalarComplaints_eq_nil {m : String × Json} :
    scalarComplaints m = [] ↔ m.2.IsScalar := by
  obtain ⟨field, value⟩ := m
  cases value with
  | numberUnsigned u => exact complainUnless_eq_nil
  | null | boolean b | numberInteger i | numberFloat d | string s =>
    exact ⟨fun _ => trivial, fun _ => rfl⟩
  | array e | object m | binary b | discarded =>
    exact ⟨fun h => absurd h (List.cons_ne_nil _ _), fun h => absurd h not_false⟩

/-- Nothing is wrong with flat documents. -/
theorem loadComplaints_eq_nil {documents : List Json} :
    loadComplaints documents = [] ↔ ∀ document ∈ documents, document.IsFlat := by
  rw [loadComplaints, List.append_eq_nil_iff, List.flatMap_eq_nil_iff, List.flatMap_eq_nil_iff]
  constructor
  · rintro ⟨hshape, hcontent⟩ document hdocument
    obtain ⟨members, rfl⟩ := shapeComplaints_eq_nil.mp (hshape document hdocument)
    have hmembers : members.flatMap scalarComplaints = [] := hcontent _ hdocument
    rw [List.flatMap_eq_nil_iff] at hmembers
    exact ⟨members, rfl, fun m hm => scalarComplaints_eq_nil.mp (hmembers m hm)⟩
  · intro h
    constructor
    · intro document hdocument
      obtain ⟨members, rfl, -⟩ := h document hdocument
      rfl
    · intro document hdocument
      obtain ⟨members, rfl, hscalar⟩ := h document hdocument
      exact List.flatMap_eq_nil_iff.mpr fun m hm => scalarComplaints_eq_nil.mpr (hscalar m hm)

/-! ## The first pass -/

/-- The first pass complains about shapes only. -/
theorem collectFieldNames_checked : ∀ (documents : List Json) (names : List String),
    Checked (fun _ => True) (documents.flatMap shapeComplaints) (collectFieldNames documents names)
  | [], _ => .ok trivial
  | .object _ :: documents, _ => collectFieldNames_checked documents _
  | .null :: _, _ | .boolean _ :: _, _ | .numberInteger _ :: _, _ | .numberUnsigned _ :: _, _
  | .numberFloat _ :: _, _ | .string _ :: _, _ | .array _ :: _, _ | .binary _ :: _, _
  | .discarded :: _, _ => .error _ _

/-! ## The second pass -/

/-- A conversion complains about its own value. -/
theorem convertScalar_checked (field : String) (value : Json) :
    Checked (fun _ => True) (scalarComplaints (field, value)) (convertScalar value field) := by
  cases value with
  | numberUnsigned u =>
    unfold scalarComplaints convertScalar complainUnless
    dsimp only
    by_cases h : u.toNat ≤ int64Max
    · rw [if_pos h, if_neg (not_lt.mpr h)]
      exact .ok trivial
    · rw [if_neg h, if_pos (not_le.mp h)]
      exact .error _ []
  | null | boolean b | numberInteger i | numberFloat d | string s => exact .ok trivial
  | array e | object m | binary b | discarded => exact .error _ []

section Rows

variable {fields : List String}

/-- A name the first pass has seen has a column. -/
theorem findField_isSome {key : String} (h : key ∈ fields) :
    ∃ index, findField (indexByName fields) key = some index := by
  cases hindex : findField (indexByName fields) key with
  | some index => exact ⟨index, rfl⟩
  | none =>
    have hmissing : key ∉ (Schema.mk fields).fields := Schema.indexOf_eq_none.mp hindex
    exact absurd h hmissing

/-- `at` finds every key: the first pass has put it into the index. -/
theorem fillRow_checked : ∀ (members : List (String × Json)) (values : List Value),
    (∀ m ∈ members, m.1 ∈ fields) →
    Checked (fun _ => True) (members.flatMap scalarComplaints)
      (fillRow (indexByName fields) members values)
  | [], values, _ => .ok trivial
  | (key, value) :: members, values, hkeys => by
    obtain ⟨hkey, hkeys⟩ := List.forall_mem_cons.mp hkeys
    obtain ⟨index, hindex⟩ := findField_isSome hkey
    have hstep : fillRow (indexByName fields) ((key, value) :: members) values =
        (convertScalar value key).bind fun converted =>
          fillRow (indexByName fields) members (values.set index converted) := by
      rw [fillRow, hindex]
      cases convertScalar value key with
      | error e => rfl
      | ok converted => rfl
    rw [hstep, List.flatMap_cons]
    exact (convertScalar_checked key value).bind fun converted _ =>
      fillRow_checked members (values.set index converted) hkeys

/-- The second pass complains about members only. -/
theorem loadRows_checked : ∀ (documents : List Json) (start : Nat),
    (∀ document ∈ documents, ∃ members, document = .object members ∧
      ∀ m ∈ members, m.1 ∈ fields) →
    Checked (fun _ => True) (documents.flatMap contentComplaints) (loadRows fields start documents)
  | [], start, _ => .ok trivial
  | document :: documents, start, hobjects => by
    obtain ⟨hfirst, hrest⟩ := List.forall_mem_cons.mp hobjects
    obtain ⟨members, rfl, hkeys⟩ := hfirst
    have hstep : loadRows fields start (.object members :: documents) =
        (fillRow (indexByName fields) members (List.replicate fields.length .null)).bind
          fun values => (loadRows fields (start + 1) documents).map
            fun rows => { ordinal := start, values } :: rows := by
      rw [loadRows]
      cases fillRow (indexByName fields) members (List.replicate fields.length .null) with
      | error e => rfl
      | ok values =>
        cases loadRows fields (start + 1) documents with
        | error e => rfl
        | ok rows => rfl
    rw [hstep, List.flatMap_cons]
    exact (fillRow_checked members _ hkeys).bind fun _ _ =>
      (loadRows_checked documents (start + 1) hrest).map fun _ _ => trivial

end Rows

/-! ## The loader -/

/-- The two passes together. -/
theorem loadTableFromJson_checked (documents : List Json) :
    Checked (fun _ => True) (loadComplaints documents) (loadTableFromJson (.array documents)) := by
  have hstep : loadTableFromJson (.array documents) =
      (collectFieldNames documents []).bind fun fieldOrder =>
        (loadRows fieldOrder 0 documents).map fun rows =>
          { schema := { fields := fieldOrder }, rows } := by
    rw [loadTableFromJson]
    cases collectFieldNames documents [] with
    | error e => rfl
    | ok fieldOrder =>
      dsimp only [Except.bind]
      cases loadRows fieldOrder 0 documents with
      | error e => rfl
      | ok rows => rfl
  rw [hstep]
  refine (collectFieldNames_checked documents []).keepResult.bind ?_
  rintro fieldOrder ⟨-, hfields⟩
  obtain ⟨-, hnames, hobjects⟩ := collectFieldNames_names List.Pairwise.nil hfields
  refine (loadRows_checked documents 0 fun document hdocument => ?_).map fun _ _ => trivial
  obtain ⟨members, rfl⟩ := hobjects document hdocument
  refine ⟨members, rfl, fun m hm => (hnames m.1).mpr (.inr ?_)⟩
  exact List.mem_flatMap.mpr ⟨_, hdocument, List.mem_map.mpr ⟨m, hm, rfl⟩⟩

/-- **Acceptance.**  Exactly the arrays of flat documents are loaded. -/
theorem loadTableFromJson_accepts {documents : List Json} :
    (∃ table, loadTableFromJson (.array documents) = .ok table) ↔
      ∀ document ∈ documents, document.IsFlat := by
  rw [(loadTableFromJson_checked documents).returns_iff, loadComplaints_eq_nil]

end QueryLume
