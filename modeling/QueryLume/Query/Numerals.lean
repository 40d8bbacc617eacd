/-
  Integer numerals.

  1. **The library** stores an integer numeral in one of three ways (`storeNumeral`): signed when
     it is negative and fits, unsigned when it is not and fits, and otherwise as the nearest
     double, which is an error when there is none.

  2. **The code** — the loader and the pipeline parser reject the unsigned ones past `int64`; a
     double they take for a number that was written with a fraction.

  3. **The promise** is that a numeral is stored exactly or rejected (`NumeralKept`).  It holds
     when the numeral fits one of the two integer types, or when the text is rejected for something
     else in it (`numerals_kept`), at any place of the documents (`DocumentHole`) and as any
     literal of a pipeline (`LiteralHole`).

  How the library parses the text around the numeral is an assumption (`ReadsNumeral`): it gives
  the value around the numeral with what the numeral is stored as in its place.  In particular the
  numeral is the member that is stored, which a repeated key after it would prevent.
-/
import QueryLume.Data.JsonObjects
import QueryLume.Query.ErrorContract

namespace QueryLume

open Checked

/-! ## Numerals in a text

  Between the text and the engine stands the JSON library, which stores an integer numeral in one
  of three types or throws.  That is documented behaviour of code that is not modelled, hence the
  named hypothesis `ReadsNumeral`. -/

/-- The numerals an `int64` holds. -/
def FitsInt64 (n : Int) : Prop := -2 ^ 63 ≤ n ∧ n < 2 ^ 63

/-- No double is near it. -/
def Overflows (n : Int) : Prop := ∃ negative, Binary64.ofInt n = .infinity negative

instance (n : Int) : Decidable (FitsInt64 n) := inferInstanceAs (Decidable (_ ∧ _))

/-- The library's error 406. -/
def numberOverflow (n : Int) : Exception :=
  .jsonOutOfRange
    ("[json.exception.out_of_range.406] number overflow parsing '" ++ toString n ++ "'")

/-- How the JSON library stores an integer numeral, as it documents it. -/
def storeNumeral (n : Int) : Except Exception Json :=
  if -2 ^ 63 ≤ n ∧ n < 0 then .ok (.numberInteger (Int64.ofInt n))
  else if 0 ≤ n ∧ n < 2 ^ 64 then .ok (.numberUnsigned (UInt64.ofNat n.toNat))
  else
    match Binary64.ofInt n with
    | .infinity _ => .error (numberOverflow n)
    | d => .ok (.numberFloat d)

/-- What the code relies on: parsing this text with the numeral `n` in it gives `fill` around what
    the numeral is stored as. -/
def ReadsNumeral (parse : String → Except Exception Json) (front : String) (n : Int)
    (back : String) (fill : Json → Json) : Prop :=
  parse (front ++ toString n ++ back) = (storeNumeral n).map fill

/-- The five regions, and what becomes of a numeral in them. -/
inductive Stored (n : Int) : Except Exception Json → Prop where
  | negative (fits : FitsInt64 n) {i : Int64} (exact : i.toInt = n) :
      Stored n (.ok (.numberInteger i))
  | natural (fits : FitsInt64 n) {u : UInt64} (exact : (u.toNat : Int) = n) :
      Stored n (.ok (.numberUnsigned u))
  | upperHalf (large : 2 ^ 63 ≤ n) (below : n < 2 ^ 64) {u : UInt64} (exact : (u.toNat : Int) = n) :
      Stored n (.ok (.numberUnsigned u))
  | rounded (outside : n < -2 ^ 63 ∨ 2 ^ 64 ≤ n) (near : ¬ Overflows n) (d : Binary64) :
      Stored n (.ok (.numberFloat d))
  | overflow (outside : n < -2 ^ 63 ∨ 2 ^ 64 ≤ n) (far : Overflows n) :
      Stored n (.error (numberOverflow n))

theorem storeNumeral_stored (n : Int) : Stored n (storeNumeral n) := by
  unfold storeNumeral
  split
  · rename_i hnegative
    have hfits : FitsInt64 n := ⟨hnegative.1, by omega⟩
    exact .negative hfits (Int64.toInt_ofInt_of_le hfits.1 hfits.2)
  split
  · rename_i hnatural
    have hlt : n.toNat < 2 ^ 64 := by omega
    have hexact : ((UInt64.ofNat n.toNat).toNat : Int) = n := by
      rw [UInt64.toNat_ofNat_of_lt' hlt]
      omega
    by_cases hfits : n < 2 ^ 63
    · exact .natural ⟨by omega, hfits⟩ hexact
    · exact .upperHalf (by omega) hnatural.2 hexact
  · rename_i hnegative hnatural
    have houtside : n < -2 ^ 63 ∨ 2 ^ 64 ≤ n := by omega
    split
    · rename_i negative hinfinite
      exact .overflow houtside ⟨negative, hinfinite⟩
    · rename_i hfinite
      refine .rounded houtside ?_ _
      rintro ⟨negative, hinfinite⟩
      exact hfinite negative hinfinite

/-! ## What is promised

  The promise, and that for both readers of scalars, the loader and the pipeline parser, it depends
  on the region of the numeral and on nothing else. -/

section Promise

variable {α : Type}

/-- The promise about a numeral: a result stores the integer itself, so there is one only for an
    integer that fits, and every other integer is rejected. -/
structure NumeralKept (n : Int) (outcome : Except Exception α) (stored : α → Option Value) :
    Prop where
  exact : ∀ result, outcome = .ok result →
    FitsInt64 n ∧ ∃ i : Int64, i.toInt = n ∧ stored result = some (.int64 i)
  rejected : ¬ FitsInt64 n → ∃ e, outcome = .error e ∧ e.IsQueryLumeError

/-- What a reader of documents does with the value at one place: `rest` is what it demands of the
    others. -/
structure ReadsScalar (read : Json → Except Exception α) (stored : α → Option Value) (rest : Prop) :
    Prop where
  accepts : ∀ value, (∃ result, read value = .ok result) ↔ value.IsScalar ∧ rest
  stores : ∀ value result, value.WellFormed → read value = .ok result →
    ∃ cell, jsonToLiteral value = .ok cell ∧ stored result = some cell
  raises : ∀ value e, read value = .error e → e.IsQueryLumeError

/-- The two conversion switches store the same. -/
theorem literal_of_convertScalar {value : Json} {field : String} {cell : Value}
    (h : convertScalar value field = .ok cell) : jsonToLiteral value = .ok cell := by
  cases value with
  | numberUnsigned u =>
    simp only [convertScalar] at h
    split at h
    · cases h
    · rename_i hsmall
      simp only [jsonToLiteral, if_neg hsmall]
      exact h
  | null | boolean b | numberInteger i | numberFloat d | string s => exact h
  | array e | object m | binary b | discarded => cases h

/-- The exception of a reader that does not accept. -/
theorem ReadsScalar.rejects {read : Json → Except Exception α} {stored : α → Option Value}
    {rest : Prop} (h : ReadsScalar read stored rest) {value : Json}
    (hnot : ¬ (value.IsScalar ∧ rest)) : ∃ e, read value = .error e ∧ e.IsQueryLumeError := by
  rcases hread : read value with e | result
  · exact ⟨e, rfl, h.raises value e hread⟩
  · exact absurd ((h.accepts value).mp ⟨result, hread⟩) hnot

/-- A scalar that is converted to the integer itself is kept, whether or not the rest is accepted.
    -/
theorem ReadsScalar.kept_of_exact {read : Json → Except Exception α} {stored : α → Option Value}
    {rest : Prop} (h : ReadsScalar read stored rest) {n : Int} (fits : FitsInt64 n) {value : Json}
    (hwf : value.WellFormed) {i : Int64} (hliteral : jsonToLiteral value = .ok (.int64 i))
    (hexact : i.toInt = n) : NumeralKept n (read value) stored := by
  refine ⟨fun result hresult => ?_, fun hnot => absurd fits hnot⟩
  obtain ⟨cell, hcell, hstored⟩ := h.stores value result hwf hresult
  rw [hliteral] at hcell
  obtain rfl := Except.ok.inj hcell
  exact ⟨fits, i, hexact, hstored⟩

/-- What is not accepted is rejected as promised. -/
theorem ReadsScalar.kept_of_rejected {read : Json → Except Exception α} {stored : α → Option Value}
    {rest : Prop} (h : ReadsScalar read stored rest) (n : Int) {value : Json}
    (hnot : ¬ (value.IsScalar ∧ rest)) : NumeralKept n (read value) stored := by
  obtain ⟨e, herror, hquery⟩ := h.rejects hnot
  rw [herror]
  constructor
  · intro result hresult
    cases hresult
  · intro _
    exact ⟨e, rfl, hquery⟩

/-- **The regions.**  A reader keeps the promise about a numeral exactly when the numeral fits one
    of the integer types, or is no double's overflow and the rest is rejected anyway. -/
theorem ReadsScalar.numeralKept_iff {read : Json → Except Exception α} {stored : α → Option Value}
    {rest : Prop} (h : ReadsScalar read stored rest) (n : Int) :
    NumeralKept n ((storeNumeral n).bind read) stored ↔
      (-2 ^ 63 ≤ n ∧ n < 2 ^ 64) ∨ ¬ Overflows n ∧ ¬ rest := by
  have hfits : FitsInt64 n → -2 ^ 63 ≤ n ∧ n < 2 ^ 64 := fun fits =>
    ⟨fits.1, fits.2.trans (by decide)⟩
  have hstored := storeNumeral_stored n
  generalize storeNumeral n = outcome at hstored ⊢
  cases hstored with
  | @negative fits i exact =>
    have hkept := h.kept_of_exact fits (.numberInteger i) rfl exact
    exact ⟨fun _ => .inl (hfits fits), fun _ => hkept⟩
  | @natural fits u exact =>
    have hsmall : ¬ u.toNat > int64Max := by
      have := fits.2
      unfold int64Max
      omega
    have hexact : (Int64.ofInt u.toNat).toInt = n := by
      rw [exact]
      exact Int64.toInt_ofInt_of_le fits.1 fits.2
    have hkept := h.kept_of_exact fits (.numberUnsigned u) (if_neg hsmall) hexact
    exact ⟨fun _ => .inl (hfits fits), fun _ => hkept⟩
  | @upperHalf large below u exact =>
    have hscalar : ¬ (Json.numberUnsigned u).IsScalar := by
      show ¬ u.toNat ≤ int64Max
      unfold int64Max
      omega
    have hkept := h.kept_of_rejected n fun hboth => hscalar hboth.1
    exact ⟨fun _ => .inl ⟨by omega, below⟩, fun _ => hkept⟩
  | rounded outside near d =>
    have hunfit : ¬ FitsInt64 n := by
      unfold FitsInt64
      omega
    constructor
    · rintro ⟨-, hrejected⟩
      refine .inr ⟨near, fun hrest => ?_⟩
      -- nothing tells the double from one that was written as such
      obtain ⟨result, haccepted⟩ := (h.accepts (.numberFloat d)).mpr ⟨trivial, hrest⟩
      obtain ⟨e, herror, -⟩ := hrejected hunfit
      rw [show (Except.ok (Json.numberFloat d)).bind read = _ from haccepted] at herror
      cases herror
    · rintro (hrange | ⟨-, hrest⟩)
      · omega
      · exact h.kept_of_rejected n fun hboth => hrest hboth.2
  | overflow outside far =>
    have hunfit : ¬ FitsInt64 n := by
      unfold FitsInt64
      omega
    constructor
    · rintro ⟨-, hrejected⟩
      obtain ⟨e, herror, hquery⟩ := hrejected hunfit
      rw [← Except.error.inj herror] at hquery
      have hcode : (numberOverflow n).code = none := rfl
      rw [Exception.IsQueryLumeError, hcode] at hquery
      cases hquery
    · rintro (hrange | ⟨hnear, -⟩)
      · omega
      · exact absurd far hnear

end Promise

/-! ## A field of a document

  The place of one numeral in a data file, with anything around it. -/

/-- Documents, and the place of one value in them. -/
structure DocumentHole where
  before : List Json
  left : List (String × Json)
  field : String
  right : List (String × Json)
  after : List Json

namespace DocumentHole

variable (hole : DocumentHole)

/-- The document with the place. -/
def members (value : Json) : List (String × Json) := hole.left ++ (hole.field, value) :: hole.right

/-- The documents with a value at the place. -/
def documents (value : Json) : List Json :=
  hole.before ++ .object (hole.members value) :: hole.after

/-- And the array of them. -/
def fill (value : Json) : Json := .array (hole.documents value)

/-- The cell of a table at the place. -/
def cell (table : Table) : Option Value :=
  match table.rows[hole.before.length]?, table.schema.indexOf hole.field with
  | some row, some column => row.values[column]?
  | _, _ => none

/-- The documents around the place can be loaded. -/
def RestFlat : Prop := ∀ document ∈ hole.documents .null, document.IsFlat

variable {hole}

/-- A document is flat when its members are scalars. -/
theorem isFlat_object {members : List (String × Json)} :
    (Json.object members).IsFlat ↔ ∀ m ∈ members, m.2.IsScalar := by
  constructor
  · rintro ⟨members', heq, hscalar⟩
    rw [Json.object.inj heq]
    exact hscalar
  · intro hscalar
    exact ⟨members, rfl, hscalar⟩

/-- The documents are flat when the value is a scalar and the rest is flat. -/
theorem documents_flat (value : Json) :
    (∀ document ∈ hole.documents value, document.IsFlat) ↔ value.IsScalar ∧ hole.RestFlat := by
  simp only [RestFlat, documents, members, List.forall_mem_append, List.forall_mem_cons,
    isFlat_object]
  have hnull : Json.null.IsScalar := trivial
  tauto

/-- Objects are maps, whatever value stands at the place. -/
theorem fill_wellFormed (h : (hole.fill .null).WellFormed) {value : Json}
    (hvalue : value.WellFormed) : (hole.fill value).WellFormed ∧ Json.Ascending (hole.members value) := by
  have hkeys : (hole.members value).map Prod.fst = (hole.members .null).map Prod.fst := by
    simp only [members, List.map_append, List.map_cons]
  cases h with
  | array each =>
    have hobject : (Json.object (hole.members .null)).WellFormed := each _ (by simp [documents])
    cases hobject with
    | object ascending eachMember =>
      have hascending : ((hole.members value).map Prod.fst).Pairwise (· < ·) := by
        rw [hkeys]
        exact ascending
      refine ⟨.array fun document hdocument => ?_, hascending⟩
      simp only [documents, List.mem_append, List.mem_cons] at hdocument each
      rcases hdocument with hbefore | rfl | hafter
      · exact each document (.inl hbefore)
      · refine .object hascending fun m hm => ?_
        simp only [members, List.mem_append, List.mem_cons] at hm eachMember
        rcases hm with hleft | rfl | hright
        · exact eachMember m (.inl hleft)
        · exact hvalue
        · exact eachMember m (.inr (.inr hright))
      · exact each document (.inr (.inr hafter))

/-- **The loader**, as a reader of the value at the place. -/
theorem loader_reads (h : (hole.fill .null).WellFormed) :
    ReadsScalar (fun value => loadTableFromJson (hole.fill value)) hole.cell hole.RestFlat where
  accepts value := loadTableFromJson_accepts.trans (documents_flat value)
  stores value table hvalue hload := by
    obtain ⟨hwf, hascending⟩ := fill_wellFormed h hvalue
    obtain ⟨-, hnames, hrows⟩ := loadTableFromJson_loaded hwf hload
    have hplace : (hole.documents value).zipIdx[hole.before.length]? =
        some (.object (hole.members value), hole.before.length) := by
      rw [List.getElem?_zipIdx]
      simp [documents]
    obtain ⟨row, hrow, hloaded⟩ := hrows.getElem?_left hplace
    have hfield : hole.field ∈ table.schema.fields := by
      rw [hnames hole.field, List.mem_flatMap]
      exact ⟨.object (hole.members value), by simp [documents], by simp [Json.memberNames, members]⟩
    obtain ⟨column, hcolumn⟩ : ∃ column, table.schema.indexOf hole.field = some column := by
      rcases hindex : table.schema.indexOf hole.field with - | column
      · exact absurd hfield (Schema.indexOf_eq_none.mp hindex)
      · exact ⟨column, rfl⟩
    obtain ⟨cell, hcell, hconverted⟩ :=
      hloaded.cells.getElem?_left (table.schema.getElem?_of_indexOf hcolumn)
    have hmember : Json.member? (hole.members value) hole.field = some value :=
      hascending.member?_eq_some.mpr (by simp [members])
    simp only [documentCell, hmember] at hconverted
    refine ⟨cell, literal_of_convertScalar hconverted, ?_⟩
    unfold DocumentHole.cell
    rw [hrow, hcolumn]
    exact hcell
  raises _ _ := loadTableFromJson_raises

end DocumentHole

/-! ## A literal of a comparison

  The place of one numeral in a pipeline, with anything around it. -/

/-- A pipeline, and the place of one comparison literal in it. -/
structure LiteralHole where
  before : List Json
  left : List (String × Json)
  field : String
  opToken : String
  right : List (String × Json)
  after : List Json

namespace LiteralHole

variable (hole : LiteralHole)

/-- The `$match` object with the place. -/
def members (value : Json) : List (String × Json) :=
  hole.left ++ (hole.field, .object [(hole.opToken, value)]) :: hole.right

/-- The pipeline with a literal at the place. -/
def fill (value : Json) : Json :=
  .array (hole.before ++ .object [("$match", .object (hole.members value))] :: hole.after)

/-- The literal of a parsed pipeline at the place. -/
def literal (pipeline : ParsedPipeline) : Option Value :=
  match pipeline.stages[hole.before.length]? with
  | some (.kMatch stage) => (stage.predicates[hole.left.length]?).map (·.literal)
  | _ => none

variable {hole}

/-- The pipeline is one when the literal is a scalar and the rest is one. -/
theorem fill_isPipeline (value : Json) :
    (hole.fill value).IsPipeline ↔ value.IsScalar ∧ (hole.fill .null).IsPipeline := by
  have hstage : ∀ value : Json, (Json.object [("$match", .object (hole.members value))]).IsStage ↔
      value.IsScalar ∧ (∀ m ∈ hole.left, m.2.IsPredicate) ∧ ∀ m ∈ hole.right, m.2.IsPredicate := by
    intro value
    rw [← stageComplaints_eq_nil]
    show matchComplaints (.object (hole.members value)) = [] ↔ _
    have hplace : (Json.object [(hole.opToken, value)]).IsPredicate ↔ value.IsScalar := by
      rw [← literalComplaints_eq_nil]
      exact (memberComplaints_eq_nil (m := (hole.field, .object [(hole.opToken, value)]))).symm
    rw [matchComplaints, List.flatMap_eq_nil_iff]
    simp only [memberComplaints_eq_nil, members, List.forall_mem_append, List.forall_mem_cons,
      hplace]
    tauto
  have hnull : Json.null.IsScalar := trivial
  simp only [← pipelineJsonComplaints_eq_nil, fill, pipelineJsonComplaints,
    List.flatMap_eq_nil_iff, stageComplaints_eq_nil, List.forall_mem_append, List.forall_mem_cons,
    hstage]
  tauto

/-- **The pipeline parser**, as a reader of the literal at the place. -/
theorem parser_reads :
    ReadsScalar (fun value => parsePipeline (hole.fill value)) hole.literal
      (hole.fill .null).IsPipeline where
  accepts value := by
    rw [(parsePipeline_checked _).returns_iff, pipelineJsonComplaints_eq_nil]
    exact fill_isPipeline value
  stores value pipeline _ hparse := by
    obtain ⟨stages, hstages, rfl⟩ := Except.map_eq_ok hparse
    -- the stage the place is in
    obtain ⟨stage, hstage, hread⟩ := (parseStages_ok.mp hstages).getElem?_left
      (i := hole.before.length) (x := .object [("$match", .object (hole.members value))]) (by simp)
    have hparsed : (parseMatch (.object (hole.members value))).map ParsedStage.kMatch = .ok stage :=
      hread
    obtain ⟨matched, hmatch, rfl⟩ := Except.map_eq_ok hparsed
    obtain ⟨predicates, hpredicates, rfl⟩ := Except.map_eq_ok hmatch
    -- and the predicate
    obtain ⟨predicate, hpredicate, hplace⟩ := (parsePredicates_ok.mp hpredicates).getElem?_left
      (i := hole.left.length) (x := (hole.field, .object [(hole.opToken, value)]))
      (by simp [members])
    obtain ⟨literal, hliteral, rfl⟩ := Except.map_eq_ok
      (show (jsonToLiteral value).map _ = .ok predicate from hplace)
    refine ⟨literal, hliteral, ?_⟩
    unfold LiteralHole.literal
    simp only [hstage, hpredicate, Option.map_some]
  raises _ _ := parsePipeline_raises

end LiteralHole

/-! ## Integer numerals

  The two readers together.  A numeral that fits neither integer type and is no double's overflow
  becomes a double, and no check of the engine sees that it was an integer. -/

/-- The loader meets the same JSON as the pipeline parser: an overflow is not translated. -/
theorem loadTableFromJsonText_numeral {parse : String → Except Exception Json} {front back : String}
    {n : Int} {fill : Json → Json} (h : ReadsNumeral parse front n back fill) :
    loadTableFromJsonText parse (front ++ toString n ++ back) =
      (storeNumeral n).bind fun value => loadTableFromJson (fill value) := by
  rw [loadTableFromJsonText, h]
  have hstored := storeNumeral_stored n
  generalize storeNumeral n = outcome at hstored ⊢
  cases hstored with
  | negative fits exact | natural fits exact | upperHalf large below exact
  | rounded outside near d | overflow outside far => rfl

/-- A pipeline text, parsed by the library and then by the engine. -/
theorem parsePipeline_numeral {parse : String → Except Exception Json} {front back : String}
    {n : Int} {fill : Json → Json} (h : ReadsNumeral parse front n back fill) :
    (parse (front ++ toString n ++ back)).bind parsePipeline =
      (storeNumeral n).bind fun value => parsePipeline (fill value) := by
  rw [h]
  cases storeNumeral n with
  | error e => rfl
  | ok value => rfl

/-- **Integer numerals are kept exactly up to the largest unsigned one.**  At any place of the
    documents, and as any literal of a pipeline: the promise holds of the numerals an integer type
    of the JSON library holds, and of the others only when they are no double's overflow and the
    text is rejected for what stands around them. -/
theorem numerals_kept {parse : String → Except Exception Json} {front back : String} {n : Int} :
    (∀ hole : DocumentHole, (hole.fill .null).WellFormed →
      ReadsNumeral parse front n back hole.fill →
      (NumeralKept n (loadTableFromJsonText parse (front ++ toString n ++ back)) hole.cell ↔
        (-2 ^ 63 ≤ n ∧ n < 2 ^ 64) ∨ ¬ Overflows n ∧ ¬ hole.RestFlat)) ∧
    (∀ hole : LiteralHole, ReadsNumeral parse front n back hole.fill →
      (NumeralKept n ((parse (front ++ toString n ++ back)).bind parsePipeline) hole.literal ↔
        (-2 ^ 63 ≤ n ∧ n < 2 ^ 64) ∨ ¬ Overflows n ∧ ¬ (hole.fill .null).IsPipeline)) := by
  constructor
  · intro hole hwf hreads
    rw [loadTableFromJsonText_numeral hreads]
    exact (DocumentHole.loader_reads hwf).numeralKept_iff n
  · intro hole hreads
    rw [parsePipeline_numeral hreads]
    exact LiteralHole.parser_reads.numeralKept_iff n

/-! ## A numeral that becomes a double -/

/-- `[{"a":…}]`. -/
def onlyField : DocumentHole := { before := [], left := [], field := "a", right := [], after := [] }

/-- `[{"$match":{"a":{"$eq":…}}}]`. -/
def onlyLiteral : LiteralHole :=
  { before := [], left := [], field := "a", opToken := "$eq", right := [], after := [] }

/-- The first integer past the unsigned ones, in a document and in a comparison. -/
def hugeField : String := "[\x7b\"a\":18446744073709551616\x7d]"

/-- The same numeral as a literal. -/
def hugeLiteral : String :=
  "[\x7b\"$match\":\x7b\"a\":\x7b\"$eq\":18446744073709551616\x7d\x7d\x7d]"

/-- What the library's parser makes of three texts. -/
def parseTexts (text : String) : Except Exception Json :=
  let huge := Json.numberFloat (.ofInt (2 ^ 64))
  if text = "[\x7b\"a\":-7\x7d]" then .ok (.array [.object [("a", .numberInteger (-7))]])
  else if text = hugeField then .ok (.array [.object [("a", huge)]])
  else if text = hugeLiteral then
    .ok (.array [.object [("$match", .object [("a", .object [("$eq", huge)])])]])
  else .error (.jsonParseError "[json.exception.parse_error.101] parse error")

theorem onlyField_wellFormed : (onlyField.fill .null).WellFormed := by
  refine .array fun document hdocument => ?_
  rw [List.mem_singleton.mp hdocument]
  refine .object (List.pairwise_singleton _ _) fun m hm => ?_
  rw [List.mem_singleton.mp hm]
  exact .null

/-- It is accepted and stored as a double. -/
theorem numeral_altered :
    ReadsNumeral parseTexts "[\x7b\"a\":" (2 ^ 64) "\x7d]" onlyField.fill ∧
    (onlyField.fill .null).WellFormed ∧
    (loadTableFromJsonText parseTexts hugeField).map onlyField.cell =
      .ok (some (.double (.ofInt (2 ^ 64)))) ∧
    ¬ NumeralKept (2 ^ 64) (loadTableFromJsonText parseTexts hugeField) onlyField.cell ∧
    ReadsNumeral parseTexts "[\x7b\"$match\":\x7b\"a\":\x7b\"$eq\":" (2 ^ 64) "\x7d\x7d\x7d]"
      onlyLiteral.fill ∧
    ((parseTexts hugeLiteral).bind parsePipeline).map onlyLiteral.literal =
      .ok (some (.double (.ofInt (2 ^ 64)))) ∧
    ¬ NumeralKept (2 ^ 64) ((parseTexts hugeLiteral).bind parsePipeline) onlyLiteral.literal := by
  have hunfit : ¬ FitsInt64 (2 ^ 64) := by decide
  refine ⟨rfl, onlyField_wellFormed, rfl, ?_, rfl, rfl, ?_⟩
  · intro hkept
    exact hunfit (hkept.exact _ rfl).1
  · intro hkept
    exact hunfit (hkept.exact _ rfl).1

/-- The promise kept in a document, and broken in a comparison. -/
theorem numerals_kept_texts :
    NumeralKept (-7)
        (loadTableFromJsonText parseTexts ("[\x7b\"a\":" ++ toString (-7 : Int) ++ "\x7d]"))
        onlyField.cell ∧
      ¬ NumeralKept (2 ^ 64)
        ((parseTexts ("[\x7b\"$match\":\x7b\"a\":\x7b\"$eq\":" ++ toString (2 ^ 64 : Int) ++
          "\x7d\x7d\x7d]")).bind parsePipeline) onlyLiteral.literal := by
  constructor
  · have hreads : ReadsNumeral parseTexts "[\x7b\"a\":" (-7) "\x7d]" onlyField.fill := rfl
    exact (numerals_kept.1 onlyField onlyField_wellFormed hreads).mpr (.inl (by decide))
  · have hreads : ReadsNumeral parseTexts "[\x7b\"$match\":\x7b\"a\":\x7b\"$eq\":" (2 ^ 64)
        "\x7d\x7d\x7d]" onlyLiteral.fill := rfl
    intro hkept
    rcases (numerals_kept.2 onlyLiteral hreads).mp hkept with hrange | ⟨-, hrest⟩
    · exact absurd hrange (by decide)
    · have hnull : Json.null.IsScalar := trivial
      refine hrest (.intro fun element helement => ?_)
      rw [List.mem_singleton.mp helement]
      refine .match fun m hm => ?_
      rw [List.mem_singleton.mp hm]
      exact ⟨"$eq", .null, rfl, hnull⟩

end QueryLume
