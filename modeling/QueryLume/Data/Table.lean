/-
  Rows, schemas and tables.

  A row is a list of cells and an ordinal, the position the row had in the input array (`row.h`).
  The ordinal goes along with the row through every stage and is the tie-break of the comparator,
  so sorts are deterministic only as long as ordinals are distinct: `DistinctOrdinals`.

  A schema resolves a field name to a column index once, through an index built by `emplace` (the
  FIRST occurrence of a name keeps its index); execution never looks up a name again.  Whether a
  lookup is checked matters: the cell of a bound field is read by `at()`, the cells of a projection
  and the key of a sort by `operator[]`, and the model keeps the two apart (`cellAt`, `cell`).

  The map of the schema is modelled as it is built, by a fold of `emplace`; `findField_indexByName`
  says what it finds, and nothing after it looks at the map.
-/
import QueryLume.Data.Value
import Mathlib.Data.List.Nodup

namespace QueryLume

/-- A row of scalar values and the ordinal it had in the input document array (`row.h`).  The
    ordinal never changes; the values do, where a projection builds a new row. -/
structure Row where
  ordinal : Nat := 0
  values : List Value := []
deriving DecidableEq

/-- What a whole-row `std::move` leaves behind: the vector of values is gone, the ordinal is
    copied and stays. -/
def Row.movedFrom (row : Row) : Row := { row with values := [] }

/-- `operator[]` on the cells: unchecked, so an index past the end has no meaning.  Projections
    and sorts read this way. -/
def Row.cell (row : Row) (index : Nat) : Except Exception Value :=
  match row.values[index]? with
  | some value => .ok value
  | none => .error .undefinedBehavior

/-- `vector::at` on the cells: checked.  Field references read this way. -/
def Row.cellAt (row : Row) (index : Nat) : Except Exception Value :=
  match row.values[index]? with
  | some value => .ok value
  | none => .error .outOfRange

/-- Where there is a cell, unchecked access reads it. -/
theorem Row.cell_eq_ok {row : Row} {index : Nat} {value : Value}
    (h : row.values[index]? = some value) : row.cell index = .ok value := by
  rw [Row.cell, h]

/-- `unordered_map::emplace`: an existing key keeps its value. -/
def emplace (index : List (String × Nat)) (field : String) (position : Nat) :
    List (String × Nat) :=
  if index.any (·.1 == field) then index else index ++ [(field, position)]

/-- The name-to-position index of a field list. -/
def indexByName (fields : List String) : List (String × Nat) :=
  fields.zipIdx.foldl (fun index entry => emplace index entry.1 entry.2) []

/-- `unordered_map::find`. -/
def findField (index : List (String × Nat)) (field : String) : Option Nat :=
  (index.find? (·.1 == field)).map (·.2)

/-- The names of the columns, in order.  The map the source keeps next to them is `indexByName`
    of the names. -/
structure Schema where
  fields : List String := []
deriving DecidableEq

namespace Schema

/-- How many columns there are. -/
def columnCount (schema : Schema) : Nat := schema.fields.length

/-- The column of a name: the first one, if there are several. -/
def indexOf (schema : Schema) (field : String) : Option Nat :=
  findField (indexByName schema.fields) field

end Schema

/-- A schema and rows.  That the rows have a cell for each column is an invariant of its own,
    `Table.WellFormed`. -/
structure Table where
  schema : Schema := {}
  rows : List Row := []
deriving DecidableEq

/-- No two rows have the same ordinal. -/
def DistinctOrdinals (rows : List Row) : Prop := (rows.map Row.ordinal).Nodup

namespace DistinctOrdinals

variable {rows : List Row}

/-- Rows with distinct ordinals are distinct. -/
theorem nodup (h : DistinctOrdinals rows) : rows.Nodup := List.Nodup.of_map _ h

/-- Different rows have different ordinals. -/
theorem ne (h : DistinctOrdinals rows) {a b : Row} (ha : a ∈ rows) (hb : b ∈ rows) (hab : a ≠ b) :
    a.ordinal ≠ b.ordinal := fun heq => hab (List.inj_on_of_nodup_map h ha hb heq)

/-- Some of the rows, in order. -/
theorem sublist (h : DistinctOrdinals rows) {rows' : List Row} (hsub : rows'.Sublist rows) :
    DistinctOrdinals rows' := List.Nodup.sublist (hsub.map Row.ordinal) h

/-- The rows in another order. -/
theorem perm (h : DistinctOrdinals rows) {rows' : List Row} (hperm : rows'.Perm rows) :
    DistinctOrdinals rows' := (hperm.map Row.ordinal).nodup_iff.mpr h

end DistinctOrdinals

/-! ## What an index finds -/

/-- What an index finds after one more name. -/
theorem findField_emplace (index : List (String × Nat)) (field name : String) (position : Nat) :
    findField (emplace index field position) name =
      (findField index name).or (if field = name then some position else none) := by
  unfold emplace findField
  split
  · rename_i hany
    cases hfind : index.find? (·.1 == name) with
    | some entry => rfl
    | none =>
      have hne : field ≠ name := by
        rintro rfl
        obtain ⟨entry, hmem, heq⟩ := List.any_eq_true.mp hany
        exact List.find?_eq_none.mp hfind entry hmem heq
      simp [hne]
  · rw [List.find?_append]
    cases index.find? (·.1 == name) with
    | some entry => rfl
    | none =>
      by_cases h : field = name
      · simp [h]
      · simp [h]

/-- The index finds the first position of a name. -/
theorem findField_indexByName (fields : List String) (name : String) :
    findField (indexByName fields) name = fields.findIdx? (· == name) := by
  have hfold : ∀ (fields : List String) (start : Nat) (index : List (String × Nat)),
      findField ((fields.zipIdx start).foldl (fun m e => emplace m e.1 e.2) index) name =
        (findField index name).or ((fields.findIdx? (· == name)).map (· + start)) := by
    intro fields
    induction fields with
    | nil => intro start index; simp
    | cons field fields ih =>
      intro start index
      rw [List.zipIdx_cons, List.foldl_cons, ih, findField_emplace, List.findIdx?_cons]
      cases findField index name with
      | some position => rfl
      | none =>
        by_cases h : field = name
        · simp [h]
        · simp only [h, if_false, Option.none_or, beq_iff_eq, Option.map_map]
          congr 1
          funext i
          simp only [Function.comp]
          omega
  have h := hfold fields 0 []
  simp only [Nat.add_zero, Option.map_id'] at h
  exact h

/-- **Resolution.**  A resolved index points at the field of that name. -/
theorem Schema.getElem?_of_indexOf (schema : Schema) {field : String} {index : Nat}
    (h : schema.indexOf field = some index) : schema.fields[index]? = some field := by
  rw [Schema.indexOf, findField_indexByName] at h
  obtain ⟨hlt, heq, -⟩ := List.findIdx?_eq_some_iff_getElem.mp h
  rw [List.getElem?_eq_getElem hlt]
  exact congrArg some (by simpa using heq)

/-- A name resolves exactly when the schema has it. -/
theorem Schema.indexOf_eq_none {schema : Schema} {field : String} :
    schema.indexOf field = none ↔ field ∉ schema.fields := by
  rw [Schema.indexOf, findField_indexByName, List.findIdx?_eq_none_iff]
  simp only [beq_eq_false_iff_ne, ne_eq]
  exact ⟨fun h hmem => h field hmem rfl, fun h x hx heq => h (heq ▸ hx)⟩

end QueryLume
