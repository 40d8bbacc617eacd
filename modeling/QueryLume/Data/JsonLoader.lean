/-
  Loading a table from a JSON array of flat documents (`json_loader.cpp`).

  The loader goes over the documents twice.  The first pass collects the union of all field names
  in a `std::set`, so the columns of the table are strictly ascending by name, whatever the
  documents.  The second builds one row per document, null where the document lacks a field.  The
  ordinal of a row is the position of its document, and nothing after the loader numbers rows.

  Values are converted one by one: scalars are taken, objects and arrays rejected, and an unsigned
  integer too large for a signed one is rejected with a message about the range.  A numeral that
  the library stored as a double is taken as a double, whatever it was in the text.

  A text is parsed by the library, a parameter here, and a file is read through a stream, another
  one. Of the parser's exceptions only `parse_error` is translated into an error of the engine.
-/
import QueryLume.Data.Json
import QueryLume.Data.Table

namespace QueryLume

/-- The largest integer of 64 bits with a sign. -/
def int64Max : Nat := 2 ^ 63 - 1

/-- The cell of a value; `field` is for the messages.  An object or an array is the wrong shape
    of document, an unsigned integer above `INT64_MAX` and a JSON value without a text are
    unsupported, and the two have different codes. -/
def convertScalar (value : Json) (field : String) : Except Exception Value :=
  match value with
  | .null => .ok .null
  | .boolean b => .ok (.bool b)
  | .numberInteger i => .ok (.int64 i)
  | .numberUnsigned u =>
    if u.toNat > int64Max then
      .error (.queryLumeError .kUnsupportedValueType
        ("field '" ++ field ++ "' contains an integer outside the int64 range"))
    else .ok (.int64 (Int64.ofInt u.toNat))
  | .numberFloat d => .ok (.double d)
  | .string s => .ok (.string s)
  | .object _ | .array _ =>
    .error (.queryLumeError .kInvalidDataShape
      ("field '" ++ field ++ "' has an unsupported nested object/array value"))
  | _ =>
    .error (.queryLumeError .kUnsupportedValueType
      ("field '" ++ field ++ "' has an unsupported JSON value type"))

/-- `std::set::insert`: the names stay strictly ascending, and a name that is there already is
    not inserted twice. -/
def insertName (name : String) : List String → List String
  | [] => [name]
  | x :: xs =>
    if name < x then name :: x :: xs
    else if name = x then x :: xs
    else x :: insertName name xs

/-- First pass: the set of field names of all documents.  It looks at every document before any
    value is converted, so a document that is no object is reported before a bad value of an
    earlier one. -/
def collectFieldNames : List Json → List String → Except Exception (List String)
  | [], names => .ok names
  | .object members :: documents, names =>
    collectFieldNames documents (members.foldl (fun set m => insertName m.1 set) names)
  | _ :: _, _ =>
    .error (.queryLumeError .kInvalidDataShape "each input document must be a JSON object")

/-- The member loop of one document: convert each value into the cell of its field.  The cells
    the document has no member for stay null. -/
def fillRow (fieldIndex : List (String × Nat)) :
    List (String × Json) → List Value → Except Exception (List Value)
  | [], values => .ok values
  | (key, value) :: members, values =>
    match findField fieldIndex key with
    | none => .error .outOfRange
    | some index =>
      match convertScalar value key with
      | .error e => .error e
      | .ok converted => fillRow fieldIndex members (values.set index converted)

/-- Second pass: one row per document, numbered from `ordinal` on.  The number is the position of
    the document in the array. -/
def loadRows (fieldOrder : List String) : Nat → List Json → Except Exception (List Row)
  | _, [] => .ok []
  | ordinal, .object members :: documents =>
    match fillRow (indexByName fieldOrder) members (List.replicate fieldOrder.length .null) with
    | .error e => .error e
    | .ok values =>
      match loadRows fieldOrder (ordinal + 1) documents with
      | .error e => .error e
      | .ok rows => .ok ({ ordinal := ordinal, values := values } :: rows)
  -- not reached: the first pass has rejected a document that is no object
  | ordinal, _ :: documents =>
    match loadRows fieldOrder (ordinal + 1) documents with
    | .error e => .error e
    | .ok rows =>
      .ok ({ ordinal := ordinal, values := List.replicate fieldOrder.length .null } :: rows)

/-- `loadTableFromJson`: both passes over an array of documents.  The array may be empty; the
    table then has no column and no row. -/
def loadTableFromJson (document : Json) : Except Exception Table :=
  match document with
  | .array documents =>
    match collectFieldNames documents [] with
    | .error e => .error e
    | .ok fieldOrder =>
      match loadRows fieldOrder 0 documents with
      | .error e => .error e
      | .ok rows => .ok { schema := { fields := fieldOrder }, rows := rows }
  | _ =>
    .error (.queryLumeError .kInvalidDataShape "input data must be a JSON array of documents")

/-- `parse` stands for the JSON library's parser.  Its parse error is translated; the other
    exception it documents, for a number too large for a double, is not. -/
def loadTableFromJsonText (parse : String → Except Exception Json) (text : String) :
    Except Exception Table :=
  match parse text with
  | .error (.jsonParseError what) =>
    .error (.queryLumeError .kJsonParseError ("failed to parse JSON: " ++ what))
  | .error e => .error e
  | .ok document => loadTableFromJson document

/-- A file that was opened: what reading it to its end gives, and, where reading fails before the
    end, what the exception of the stream buffer says. -/
structure FileStream where
  text : String
  failure : Option String := none

/-- `openFile` is the constructor of `ifstream`, if the file opens.  `buffer << stream.rdbuf()`
    takes over what can be read; it catches the exception of a read that fails, and nobody asks
    `buffer` afterwards. -/
def loadTableFromJsonFile (openFile : String → Option FileStream)
    (parse : String → Except Exception Json) (path : String) : Except Exception Table :=
  match openFile path with
  | none => .error (.queryLumeError .kJsonParseError ("failed to open data file: " ++ path))
  | some stream => loadTableFromJsonText parse stream.text

end QueryLume
