/-
  JSON values, as the library the engine uses stores them.

  The engine reads and writes `nlohmann::json`, of which the model has what the code looks at: the
  kind of a value and what it holds.  Two things about it matter.

  * An integer is stored signed or unsigned: the parser of the library stores a non-negative
    numeral unsigned and a negative one signed, and a program may store either.  The engine's own
    parser and loader switch over the two, and one of their checks stands in one branch only, so
    the model keeps them apart (`numberInteger`, `numberUnsigned`).
  * An object is a `std::map`: a finite map that iterates in ascending key order.  Here it is its
    list of members; `Json.WellFormed` says that the keys ascend, which every value the library
    builds has, and `setMember` keeps it.

  The parser of the library is not modelled.  Where a text is read it is a parameter, with what is
  documented of it as a hypothesis.
-/
import QueryLume.Data.Value

namespace QueryLume

/-- A JSON value.  `binary` and `discarded` have no text; the library has them, and the engine
    rejects both. -/
inductive Json where
  | null
  | boolean (b : Bool)
  | numberInteger (i : Int64)
  | numberUnsigned (u : UInt64)
  | numberFloat (d : Binary64)
  | string (s : String)
  | array (elements : List Json)
  | object (members : List (String × Json))
  | binary (bytes : List UInt8)
  | discarded

/-- The invariant of the object representation: keys strictly ascending, hereditarily. -/
inductive Json.WellFormed : Json → Prop where
  | null : WellFormed .null
  | boolean (b : Bool) : WellFormed (.boolean b)
  | numberInteger (i : Int64) : WellFormed (.numberInteger i)
  | numberUnsigned (u : UInt64) : WellFormed (.numberUnsigned u)
  | numberFloat (d : Binary64) : WellFormed (.numberFloat d)
  | string (s : String) : WellFormed (.string s)
  | array {elements : List Json} (each : ∀ j ∈ elements, WellFormed j) :
      WellFormed (.array elements)
  | object {members : List (String × Json)}
      (ascending : (members.map Prod.fst).Pairwise (· < ·))
      (each : ∀ m ∈ members, WellFormed m.2) : WellFormed (.object members)
  | binary (bytes : List UInt8) : WellFormed (.binary bytes)
  | discarded : WellFormed .discarded

namespace Json

/-- Insert or overwrite a member, keeping the keys ascending (`object[key] = value`). -/
def setMember (key : String) (value : Json) : List (String × Json) → List (String × Json)
  | [] => [(key, value)]
  | (k, v) :: rest =>
    if key < k then (key, value) :: (k, v) :: rest
    else if key = k then (key, value) :: rest
    else (k, v) :: setMember key value rest

/-- An object from an initializer list. -/
def ofMembers (members : List (String × Json)) : Json :=
  .object (members.foldl (fun object m => setMember m.1 m.2 object) [])

/-- `object.find(key)`. -/
def member? (members : List (String × Json)) (key : String) : Option Json :=
  (members.find? (·.1 == key)).map (·.2)

end Json

end QueryLume
