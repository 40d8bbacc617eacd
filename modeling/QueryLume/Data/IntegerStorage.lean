/-
  Integers are stored signed or unsigned; values are not.

  The library stores a non-negative numeral unsigned and a negative one signed, and a program may
  store either.  `Json.signed` is the form in which every integer that fits is stored signed: two
  documents with the same signed form differ in nothing but that.

  The engine forgets the difference when it reads (a cell and a literal are signed integers) and
  has its own convention when it writes (cells, directions and counts signed, counters unsigned).
  So "the same up to how integers are stored" is the equality that round trips can have: parsing a
  pipeline and writing it back, loading documents and rendering the table, printing a report and
  reading it back.  `IsInt64` and `IsScalar` are the two conditions under which a value is read at
  all.
-/
import QueryLume.Data.JsonLoader

namespace QueryLume

namespace Json

mutual

/-- Every integer that fits in a signed one is stored so. -/
def signed : Json → Json
  | .numberUnsigned u =>
    if u.toNat > int64Max then .numberUnsigned u else .numberInteger (Int64.ofInt u.toNat)
  | .array elements => .array (signedElements elements)
  | .object members => .object (signedMembers members)
  | .null => .null
  | .boolean b => .boolean b
  | .numberInteger i => .numberInteger i
  | .numberFloat d => .numberFloat d
  | .string s => .string s
  | .binary bytes => .binary bytes
  | .discarded => .discarded

/-- The elements of an array, each in its signed form. -/
def signedElements : List Json → List Json
  | [] => []
  | element :: elements => element.signed :: signedElements elements

/-- The members of an object likewise; the keys stay. -/
def signedMembers : List (String × Json) → List (String × Json)
  | [] => []
  | (key, value) :: members => (key, value.signed) :: signedMembers members

end

/-- The signed form of an array. -/
@[simp] theorem signed_array (elements : List Json) :
    (Json.array elements).signed = .array (elements.map signed) := by
  have hmap : signedElements elements = elements.map signed := by
    induction elements with
    | nil => rfl
    | cons element elements ih => rw [signedElements, ih, List.map_cons]
  rw [signed, hmap]

/-- The signed form of an object. -/
@[simp] theorem signed_object (members : List (String × Json)) :
    (Json.object members).signed = .object (members.map fun m => (m.1, m.2.signed)) := by
  have hmap : signedMembers members = members.map fun m => (m.1, m.2.signed) := by
    induction members with
    | nil => rfl
    | cons m members ih => rw [signedMembers, ih, List.map_cons]
  rw [signed, hmap]

@[simp] theorem signed_string (s : String) : (Json.string s).signed = .string s := by rw [signed]

@[simp] theorem signed_numberInteger (i : Int64) :
    (Json.numberInteger i).signed = .numberInteger i := by rw [signed]

theorem signed_numberUnsigned {u : UInt64} (h : u.toNat ≤ int64Max) :
    (Json.numberUnsigned u).signed = .numberInteger (Int64.ofInt u.toNat) := by
  rw [signed, if_neg (not_lt.mpr h)]

/-- The signed form of an object is the object of the signed forms, and of nothing else. -/
theorem eq_object_of_signed {value : Json} {members : List (String × Json)}
    (h : value.signed = .object members) : ∃ members', value = .object members' ∧
      members = members'.map fun m => (m.1, m.2.signed) := by
  cases value with
  | object members' =>
    rw [signed_object] at h
    exact ⟨members', rfl, (Json.object.inj h).symm⟩
  | numberUnsigned u =>
    rw [signed] at h
    split at h
    · cases h
    · cases h
  | null | boolean b | numberInteger i | numberFloat d | string s | array e | binary b
  | discarded => cases h

/-- An integer within the range of a signed 64-bit one, however it is stored. -/
def IsInt64 : Json → Prop
  | .numberInteger _ => True
  | .numberUnsigned u => u.toNat ≤ int64Max
  | .null | .boolean _ | .numberFloat _ | .string _ | .array _ | .object _ | .binary _
  | .discarded => False

/-- A null, a bool, a string, a float, or an integer that fits. -/
def IsScalar : Json → Prop
  | .null | .boolean _ | .numberInteger _ | .numberFloat _ | .string _ => True
  | .numberUnsigned u => u.toNat ≤ int64Max
  | .array _ | .object _ | .binary _ | .discarded => False

end Json

end QueryLume
