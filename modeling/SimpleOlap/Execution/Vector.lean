import SimpleOlap.Simd.Compare
import SimpleOlap.Storage.DataChunk

/-!
# Vector batches

A `VectorBatch` carries up to 1024 rows column by column, together with the mask of the rows that
are active. Source: `vector.h`, `vector.cpp`; the buffer pool, and with it whether a buffer is owned
or borrowed, is left out.

* `VectorBatch.activeRows`: the logical content, the active rows in order.
* `VectorBatch.Strong`: the batch invariant of `vector.h`.
-/

namespace SimpleOlap

open Lib

structure ColumnData where
  type : DataType
  buffer : Bytes
  count : ℕ
  deriving DecidableEq, Repr

/-- Element `r` of a column. -/
def ColumnData.cellAt (col : ColumnData) (r : ℕ) : Bytes := cell (typeElemSize col.type) r col.buffer

structure VectorBatch where
  columns : List ColumnData
  size : ℕ
  selection : SelectionMask
  deriving DecidableEq

namespace VectorBatch

/-- A batch as constructed, or after `Reset`. -/
def empty : VectorBatch := ⟨[], 0, SelectionMask.setNone 0⟩

/-- Source: PhysicalSize. -/
def physicalSize (b : VectorBatch) : ℕ :=
  if b.selection.rowCount ≠ 0 ∨ b.columns = [] then b.selection.rowCount
  else (b.columns.head?.map ColumnData.count).getD 0

/-- Source: SetIdentitySelection. -/
def setIdentitySelection (b : VectorBatch) (physicalCount : ℕ) : VectorBatch :=
  { b with selection := SelectionMask.setAll physicalCount, size := physicalCount }

/-- Source: SetSelection. -/
def setSelection (b : VectorBatch) (mask : SelectionMask) : VectorBatch :=
  { b with selection := mask, size := mask.count }

/-- Physical row `r`. -/
def physicalRow (b : VectorBatch) (r : ℕ) : Row := b.columns.map fun col => col.cellAt r

/-- The active rows, in order. -/
def activeRows (b : VectorBatch) : List Row :=
  ((List.range b.selection.rowCount).filter b.selection.test).map b.physicalRow

/-- The batch invariant: the mask is about the physical rows, every column has as many elements, and
`size` counts the active rows. -/
structure Strong (b : VectorBatch) : Prop where
  selection : b.selection.WF
  counts : ∀ col ∈ b.columns, col.count = b.selection.rowCount
  size : b.size = b.selection.count

theorem filter_test (m : SelectionMask) :
    (List.range m.rowCount).filter m.test = (List.range m.rowCount).filter m.bit := by
  apply List.filter_congr
  intro r hr
  have : ¬ m.rowCount ≤ r := Nat.not_le.mpr (List.mem_range.mp hr)
  simp [SelectionMask.test, this]

/-- The active rows under the identity selection are all rows. -/
theorem activeRows_setIdentitySelection (b : VectorBatch) {n : ℕ} (h : n ≤ kVectorBatchSize) :
    (b.setIdentitySelection n).activeRows = (List.range n).map b.physicalRow := by
  have hmin : min n kVectorBatchSize = n := Nat.min_eq_left h
  have hall : (List.range n).filter (SelectionMask.setAll n).bit = List.range n := by
    apply List.filter_eq_self.mpr
    intro r hr
    rw [SelectionMask.bit_setAll, hmin]
    simpa using hr
  have hrows := filter_test (SelectionMask.setAll n)
  rw [SelectionMask.rowCount_setAll, hmin, hall] at hrows
  rw [activeRows, setIdentitySelection]
  simp only [SelectionMask.rowCount_setAll, hmin]
  rw [hrows]
  rfl

/-- The active rows under a mask are the rows it selects. -/
theorem activeRows_setSelection (b : VectorBatch) (mask : SelectionMask) :
    (b.setSelection mask).activeRows =
      ((List.range mask.rowCount).filter mask.bit).map b.physicalRow := by
  rw [activeRows, ← filter_test]
  rfl

/-- The size of a well-formed batch is its number of active rows. -/
theorem Strong.length_activeRows {b : VectorBatch} (h : b.Strong) : b.activeRows.length = b.size := by
  rw [activeRows, List.length_map, filter_test, ← List.countP_eq_length_filter, h.size,
    SelectionMask.count_eq h.selection]

end VectorBatch

end SimpleOlap
