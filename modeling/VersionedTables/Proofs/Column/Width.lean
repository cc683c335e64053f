import Mathlib.Algebra.GroupWithZero.Nat
import Mathlib.Algebra.Order.BigOperators.Group.List
import Mathlib.Algebra.Order.Group.Nat
import VersionedTables.Column.Basic
import VersionedTables.Proofs.Allocation

/-!
# Widths as they are

The width of a column and that of a row are counted in 64 bits and stop at the greatest number.  Here
they are counted without a bound, which is what they stand for as long as they fit.

* **`ColumnSpec.width`** — the most bytes that a cell takes, however many that are.
* **`Column.toNat_maxRowBytes`** — stopping on the way does not show in the sum.
* **`Column.rowWidth_perm`**, **`Column.rowWidth_le_of_sublist`** — widths of the same columns in another
  order, and of fewer columns.
-/

namespace VersionedTables

namespace ColumnType

/-- The most bytes that a cell takes in a row: four for each character of a sized type, and for the
other types a fixed number. -/
def width (type : ColumnType) (maxSize : Option UInt64) : Nat :=
  match type with
  | string | link => (maxSize.getD 0).toNat * 4
  | largeText => 12
  | integer | date | fileHandleId | entityId | userId => 20
  | double => 23
  | boolean => 5

theorem toNat_maxBytes (type : ColumnType) (maxSize : Option UInt64) :
    (type.maxBytes maxSize).toNat = min (type.width maxSize) Bounded.greatest := by
  cases type with
  | string | link => exact Bounded.toNat_mulSat _ _
  | _ => rfl

end ColumnType

def ColumnSpec.width (s : ColumnSpec) : Nat := s.type.width s.maxSize

namespace Column

def rowWidth (schema : List Column) : Nat := (schema.map (·.spec.width)).sum

theorem toNat_foldl_addSat (schema : List Column) (n : UInt64) :
    (schema.foldl (fun n c => Bounded.addSat n c.spec.maxBytes) n).toNat =
      min (n.toNat + rowWidth schema) Bounded.greatest := by
  induction schema generalizing n with
  | nil =>
      have htop := Bounded.toNat_le_greatest n
      simp only [List.foldl_nil, rowWidth, List.map_nil, List.sum_nil]
      omega
  | cons c schema ih =>
      have hwidth : c.spec.maxBytes.toNat = min c.spec.width Bounded.greatest :=
        ColumnType.toNat_maxBytes _ _
      rw [List.foldl_cons, ih, Bounded.toNat_addSat, hwidth]
      simp only [rowWidth, List.map_cons, List.sum_cons]
      omega

/-- **Stopping on the way does not show in the sum**: the width of a row is the exact sum of the
widths of its columns, or the greatest number if the sum lies above it. -/
theorem toNat_maxRowBytes (schema : List Column) :
    (maxRowBytes schema).toNat = min (rowWidth schema) Bounded.greatest := by
  have hzero : (0 : UInt64).toNat = 0 := rfl
  rw [maxRowBytes, toNat_foldl_addSat, hzero, Nat.zero_add]

/-- The order of the columns does not matter. -/
theorem rowWidth_perm {schema schema' : List Column} (h : schema.Perm schema') :
    rowWidth schema = rowWidth schema' := (h.map _).sum_eq

/-- Fewer columns are not wider. -/
theorem rowWidth_le_of_sublist {columns schema : List Column} (h : columns.Sublist schema) :
    rowWidth columns ≤ rowWidth schema := (h.map _).sum_le_sum (fun n _ => Nat.zero_le n)

theorem maxRowBytes_perm {schema schema' : List Column} (h : schema.Perm schema') :
    maxRowBytes schema = maxRowBytes schema' := by
  rw [← UInt64.toNat_inj, toNat_maxRowBytes, toNat_maxRowBytes, rowWidth_perm h]

theorem maxRowBytes_le_of_sublist {columns schema : List Column} (h : columns.Sublist schema) :
    maxRowBytes columns ≤ maxRowBytes schema := by
  have hwidth := rowWidth_le_of_sublist h
  rw [UInt64.le_iff_toNat_le, toNat_maxRowBytes, toNat_maxRowBytes]
  omega

end Column

end VersionedTables
