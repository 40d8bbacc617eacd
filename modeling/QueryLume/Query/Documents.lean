/-
  The rows of a result, rendered, are pieces of the input documents.

  A row carries the position of its document as its ordinal, and a stage moves cells without
  changing them.  So a returned row can be traced back: rendered under the output schema, it is the
  object that maps every output field to that member of the document with the row's ordinal, and to
  a null where there is no such member (`rows_from_documents`).

  The comparison is up to one thing the engine does not keep: whether a non-negative integer was
  stored signed or unsigned (`SameScalar`, and `SameObject` member by member).  The cell of a
  document is the conversion of its member (`documentCell`), which rendering undoes.
-/
import QueryLume.Query.Runs

namespace QueryLume

namespace Json

/-- The integer a numeral stands for, whether it is stored signed or unsigned. -/
def integer? : Json → Option Int
  | .numberInteger i => some i.toInt
  | .numberUnsigned u => some u.toNat
  | _ => none

/-- Equal, an integer being the same value signed and unsigned. -/
inductive SameScalar : Json → Json → Prop where
  | refl (value : Json) : SameScalar value value
  | integer {value value' : Json} {z : Int} (left : value.integer? = some z)
      (right : value'.integer? = some z) : SameScalar value value'

/-- Objects with the same members, up to how integers are stored. -/
inductive SameObject : Json → Json → Prop where
  | intro {members members' : List (String × Json)}
      (same : List.Forall₂ (fun m m' => m.1 = m'.1 ∧ SameScalar m.2 m'.2) members members') :
      SameObject (.object members) (.object members')

/-- The member of a document, null when it has none of this name. -/
def memberOrNull (document : Json) (name : String) : Json :=
  match document with
  | .object members => (member? members name).getD .null
  | _ => .null

/-- The members of two such objects, in their order. -/
abbrev SameMembers : List (String × Json) → List (String × Json) → Prop :=
  List.Forall₂ fun m m' => m.1 = m'.1 ∧ SameScalar m.2 m'.2

theorem SameMembers.setMember {key : String} {value value' : Json} (hvalue : SameScalar value value')
    {members members' : List (String × Json)} (h : SameMembers members members') :
    SameMembers (Json.setMember key value members) (Json.setMember key value' members') := by
  induction h with
  | nil => exact .cons ⟨rfl, hvalue⟩ .nil
  | @cons m m' rest rest' hm hrest ih =>
    obtain ⟨k, v⟩ := m
    obtain ⟨k', v'⟩ := m'
    obtain ⟨rfl, hv⟩ := hm
    simp only [Json.setMember]
    split
    · exact .cons ⟨rfl, hvalue⟩ (.cons ⟨rfl, hv⟩ hrest)
    · split
      · exact .cons ⟨rfl, hvalue⟩ hrest
      · exact .cons ⟨rfl, hv⟩ ih

/-- Objects built from lists with the same members. -/
theorem sameObject_ofMembers {members members' : List (String × Json)}
    (h : SameMembers members members') : SameObject (ofMembers members) (ofMembers members') := by
  have hfold : ∀ {acc acc' : List (String × Json)}, SameMembers acc acc' →
      SameMembers (members.foldl (fun object m => Json.setMember m.1 m.2 object) acc)
        (members'.foldl (fun object m => Json.setMember m.1 m.2 object) acc') := by
    induction h with
    | nil => exact fun hacc => hacc
    | @cons m m' rest rest' hm _ ih =>
      intro acc acc' hacc
      obtain ⟨k, v⟩ := m
      obtain ⟨k', v'⟩ := m'
      obtain ⟨rfl, hv⟩ := hm
      exact ih (SameMembers.setMember hv hacc)
  exact .intro (hfold .nil)

end Json

open Json

/-- A converted scalar renders as the value it was converted from. -/
theorem sameScalar_of_convertScalar {json : Json} {name : String} {value : Value}
    (h : convertScalar json name = .ok value) : SameScalar value.toJson json := by
  cases json with
  | null | boolean b | numberInteger i | numberFloat d | string s =>
    rw [← Except.ok.inj h]
    exact .refl _
  | numberUnsigned u =>
    simp only [convertScalar] at h
    split at h
    · cases h
    · rename_i hle
      rw [← Except.ok.inj h]
      refine .integer (z := u.toNat) ?_ rfl
      have hlow : (-2 : Int) ^ 63 ≤ u.toNat := by omega
      have hhigh : (u.toNat : Int) < 2 ^ 63 := by
        rw [int64Max] at hle
        omega
      rw [Value.toJson, integer?, Int64.toInt_ofInt]
      exact congrArg some (Int.bmod_eq_of_le hlow hhigh)
  | array e | object m | binary b | discarded => cases h

/-- A cell is converted from the member, and from a null where there is none. -/
theorem documentCell_eq (document : Json) (name : String) :
    documentCell document name = convertScalar (document.memberOrNull name) name := by
  cases document with
  | object members =>
    simp only [documentCell, memberOrNull]
    cases member? members name with
    | none => rfl
    | some json => rfl
  | null | boolean b | numberInteger i | numberUnsigned u | numberFloat d | string s | array e
  | binary b | discarded => rfl

/-- **Provenance of results.**  A run gives out no document twice, and a returned row, rendered
    under the output schema, is the object that maps every output field to that member of the
    document with the row's ordinal. -/
theorem rows_from_documents [StdLibrary] {documents : List Json} {table : Table}
    {pipelineJson : Json} {result : QueryResult} (clock : Clock)
    (hwf : (Json.array documents).WellFormed)
    (hload : loadTableFromJson (.array documents) = .ok table)
    (hrun : runPipeline clock table pipelineJson = .ok result) :
    (result.rows.map Row.ordinal).Nodup ∧
      ∀ row ∈ result.rows, ∃ document, documents[row.ordinal]? = some document ∧
        SameObject (row.toJson result.outputSchema)
          (.ofMembers (result.outputSchema.fields.map fun field =>
            (field, document.memberOrNull field))) := by
  have hloaded := loadTableFromJson_loaded hwf hload
  obtain ⟨hderived, hdistinct⟩ := runPipeline_feedOk (loadTableFromJson_wellFormed hload) hrun
  refine ⟨hdistinct, fun row hrow => ?_⟩
  obtain ⟨source, hsource, hordinal, hcells⟩ := hderived row hrow
  obtain ⟨document, hdocument, -⟩ := hloaded.document hsource
  refine ⟨document, hordinal ▸ hdocument, sameObject_ofMembers ?_⟩
  -- column by column: the cell was read from this document
  refine List.forall₂_map_left_iff.mpr (List.forall₂_map_right_iff.mpr ?_)
  generalize result.outputSchema.fields = fields at hcells ⊢
  generalize row.values = values at hcells ⊢
  induction hcells with
  | nil => exact .nil
  | cons hcell _ ih =>
    obtain ⟨column, haddresses, hvalue⟩ := hcell
    obtain ⟨document', hdocument', hconverted⟩ := hloaded.cell hsource haddresses hvalue
    obtain rfl : document = document' := Option.some.inj (hdocument.symm.trans hdocument')
    rw [documentCell_eq] at hconverted
    exact .cons ⟨rfl, sameScalar_of_convertScalar hconverted⟩ ih

/-- The second document stores its integer unsigned. -/
def sampleDocuments : List Json :=
  [.object [], .object [("a", .numberUnsigned 1)]]

/-- `[{"$sort": {"a": 1}}, {"$limit": 1}]`: the first document has no `a`, and nulls come last. -/
def samplePipelineJson : Json :=
  .array [.object [("$sort", .object [("a", .numberInteger 1)])],
    .object [("$limit", .numberUnsigned 1)]]

theorem sampleDocuments_wellFormed : (Json.array sampleDocuments).WellFormed := by
  refine .array fun document hdocument => ?_
  simp only [sampleDocuments, List.mem_cons, List.not_mem_nil, or_false] at hdocument
  rcases hdocument with rfl | rfl
  · exact .object List.Pairwise.nil (fun _ hm => by cases hm)
  · exact .object (List.pairwise_singleton _ _) fun m hm => by
      rw [List.mem_singleton.mp hm]
      exact .numberUnsigned 1

/-- The row returned is the second document, its integer stored signed. -/
theorem rows_from_documents_sample :
    let row : Row := { ordinal := 1, values := [.int64 1] }
    ([row].map Row.ordinal).Nodup ∧
      SameObject (row.toJson { fields := ["a"] }) (.ofMembers [("a", .numberUnsigned 1)]) := by
  intro row
  obtain ⟨hdistinct, hrows⟩ := @rows_from_documents StdLibrary.reference sampleDocuments sampleTable
    samplePipelineJson { rows := [row], outputSchema := { fields := ["a"] } }
    Clock.still sampleDocuments_wellFormed rfl rfl
  obtain ⟨document, hdocument, hsame⟩ := hrows row List.mem_cons_self
  obtain rfl : Json.object [("a", .numberUnsigned 1)] = document := Option.some.inj hdocument
  exact ⟨hdistinct, hsame⟩

end QueryLume
