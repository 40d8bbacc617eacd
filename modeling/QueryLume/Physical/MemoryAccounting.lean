/-
  Memory accounting, shared by the two blocking stages (`physical/memory_accounting.cpp`).

  The figure is about content, not about an allocator: `sizeof(Row)` for every row, `sizeof(Value)`
  for every cell, and the bytes of a string on top of that.  The two sizes are constants of the
  standard library the engine is compiled with (`std::vector`, `std::string` and `std::variant` are
  its types), so nothing here fixes them: they are fields of `StdLibrary`, next to the library's
  algorithms, and every result about a reported peak holds for all sizes.

  What the other modules use are the three lemmas below the definitions: the footprint of a list of
  rows is a sum, so it does not depend on the order of the rows, and a part of them weighs no more
  than all of them.
-/
import QueryLume.Data.Table
import QueryLume.Foundation.ReferenceAlgorithms

namespace QueryLume

/-- The standard library the engine is compiled with: the algorithms its blocking stages call,
    and the sizes of the two records whose bytes the memory accounting counts.  Nothing is
    assumed of the sizes. -/
class StdLibrary extends StdAlgorithms where
  /-- `sizeof(Value)`. -/
  sizeofValue : Nat
  /-- `sizeof(Row)`. -/
  sizeofRow : Nat

namespace StdLibrary

/-- A library to evaluate examples with: the reference algorithms, and the sizes the records have
    under libstdc++ on a 64-bit machine (a `std::string` of 32 bytes and the tag of the variant; an
    ordinal and a `std::vector` of 24 bytes). -/
@[reducible] def reference : StdLibrary :=
  { ReferenceAlgorithms.reference with sizeofValue := 40, sizeofRow := 32 }

/-- The same with the other sorting program, and with the smaller strings of libc++. -/
@[reducible] def backwards : StdLibrary :=
  { ReferenceAlgorithms.backwards with sizeofValue := 32, sizeofRow := 32 }

end StdLibrary

section Footprints

variable [StdLibrary]

/-- `approximateValueBytes`: a cell weighs `sizeof(Value)`, and a string its bytes on top of
    that. -/
def approximateValueBytes : Value → Nat
  | .string s => StdLibrary.sizeofValue + s.utf8ByteSize
  | _ => StdLibrary.sizeofValue

/-- `approximateRowBytes`: the loop over the cells of a row, from `sizeof(Row)` up. -/
def approximateRowBytes (row : Row) : Nat :=
  row.values.foldl (fun bytes value => bytes + approximateValueBytes value) StdLibrary.sizeofRow

/-- `approximateRowsBytes`: the loop over the rows of a buffer, from zero up. -/
def approximateRowsBytes (rows : List Row) : Nat :=
  rows.foldl (fun bytes row => bytes + approximateRowBytes row) 0

/-- The accumulating loop is a sum over the rows. -/
theorem approximateRowsBytes_eq_sum (rows : List Row) :
    approximateRowsBytes rows = (rows.map approximateRowBytes).sum := by
  have hfold : ∀ (rows : List Row) (bytes : Nat),
      rows.foldl (fun bytes row => bytes + approximateRowBytes row) bytes =
        bytes + (rows.map approximateRowBytes).sum := by
    intro rows
    induction rows with
    | nil => intro bytes; rfl
    | cons row rows ih =>
      intro bytes
      rw [List.foldl_cons, ih, List.map_cons, List.sum_cons]
      omega
  rw [approximateRowsBytes, hfold, Nat.zero_add]

/-- The footprint does not depend on the order of the rows. -/
theorem approximateRowsBytes_perm {rows rows' : List Row} (h : rows.Perm rows') :
    approximateRowsBytes rows = approximateRowsBytes rows' := by
  rw [approximateRowsBytes_eq_sum, approximateRowsBytes_eq_sum]
  exact (h.map approximateRowBytes).sum_nat

/-- The first rows of a list weigh no more than all of them. -/
theorem approximateRowsBytes_take_le (rows : List Row) (n : Nat) :
    approximateRowsBytes (rows.take n) ≤ approximateRowsBytes rows := by
  have hsplit : (rows.map approximateRowBytes).sum =
      ((rows.take n).map approximateRowBytes).sum + ((rows.drop n).map approximateRowBytes).sum := by
    rw [← List.sum_append, ← List.map_append, List.take_append_drop]
  rw [approximateRowsBytes_eq_sum, approximateRowsBytes_eq_sum]
  omega

end Footprints

end QueryLume
