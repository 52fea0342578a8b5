import SimpleOlap.Storage.Datastructs

/-!
# Data chunks

A `DataChunk` is a view of rows of shared column buffers, in the order of the schema's columns.

* `DataChunk.row`, `DataChunk.rows`: the rows a chunk presents, each the list of its cells.
* `DataChunk.slice`: cutting a chunk in two views of the same buffers.
* `DataChunk.Fits`: the chunk has the schema's columns and its view stays inside the buffers. Both
  halves of a cut fit when the whole fits and starts at the front of its buffers
  (`Fits.slice_fst`, `Fits.slice_snd`).
-/

namespace SimpleOlap

open Lib

/-- The cells of one row, in schema order. -/
abbrev Row := List Bytes

/-- Source: `datachunk.h` DataChunk. -/
structure DataChunk where
  size : ℕ
  sliceStart : ℕ
  chunks : List Bytes
  elementSizes : List ℕ
  deriving DecidableEq, Repr

namespace DataChunk

/-- The size of one element of a column. -/
def elementSize (c : DataChunk) (colIdx : ℕ) : ℕ := c.elementSizes.getD colIdx 0

/-- The bytes of a column from the first row of the view on. -/
def rawData (c : DataChunk) (colIdx : ℕ) : Bytes :=
  (c.chunks.getD colIdx []).drop (c.sliceStart * c.elementSize colIdx)

/-- Cut at row `boundary`: this chunk keeps the rows before it, the second component is the view
that is returned. Source: `datachunk.h` Slice. -/
def slice (c : DataChunk) (boundary : ℕ) : DataChunk × DataChunk :=
  ({ c with size := boundary }, { c with sliceStart := boundary, size := c.size - boundary })

/-- Row `r` of a column's whole buffer, whatever the view. -/
def bufferCell (c : DataChunk) (r colIdx : ℕ) : Bytes :=
  cell (c.elementSize colIdx) r (c.chunks.getD colIdx [])

/-- Row `r` of the buffers, whatever the view. -/
def bufferRow (c : DataChunk) (r : ℕ) : Row := (List.range c.chunks.length).map (c.bufferCell r)

/-- Row `i` of the view. -/
def row (c : DataChunk) (i : ℕ) : Row := c.bufferRow (c.sliceStart + i)

/-- The rows of the view, in order. -/
def rows (c : DataChunk) : List Row := (List.range c.size).map c.row

@[simp] theorem length_rows (c : DataChunk) : c.rows.length = c.size := by simp [rows]

theorem getElem_rows (c : DataChunk) {i : ℕ} (h : i < c.rows.length) : c.rows[i] = c.row i := by
  simp [rows]

/-- The cell storage reads through `rawData` is the view's. -/
theorem cell_rawData (c : DataChunk) (i colIdx : ℕ) :
    cell (c.elementSize colIdx) i (c.rawData colIdx) = c.bufferCell (c.sliceStart + i) colIdx :=
  cell_drop_mul _ _ _ _

/-! ## Chunks that fit a schema -/

/-- The chunk has the schema's columns and the view stays inside the buffers. -/
structure Fits (schema : TableSchema) (c : DataChunk) : Prop where
  columns : c.chunks.length = schema.columns.length
  sizes : c.elementSizes = schema.columns.map fun col => typeElemSize col.type
  inside : ∀ i < c.chunks.length,
    (c.sliceStart + c.size) * c.elementSize i ≤ (c.chunks.getD i []).length
  small : c.size < 2 ^ 32

namespace Fits

variable {schema : TableSchema} {c : DataChunk}

theorem elementSize_eq (h : c.Fits schema) {i : ℕ} (hi : i < schema.columns.length) :
    c.elementSize i = typeElemSize schema.columns[i].type := by
  simp [elementSize, h.sizes, List.getD, hi]

/-- The first part of a cut fits. -/
theorem slice_fst (h : c.Fits schema) {b : ℕ} (hb : b ≤ c.size) : (c.slice b).1.Fits schema where
  columns := h.columns
  sizes := h.sizes
  inside i hi :=
    le_trans (Nat.mul_le_mul_right _ (Nat.add_le_add_left hb c.sliceStart)) (h.inside i hi)
  small := lt_of_le_of_lt hb h.small

/-- The second part of a cut fits: it starts no later than it would if the cut were exact. -/
theorem slice_snd (h : c.Fits schema) {b : ℕ} (hb : b ≤ c.size) : (c.slice b).2.Fits schema where
  columns := h.columns
  sizes := h.sizes
  inside i hi := by
    have hle : b + (c.size - b) ≤ c.sliceStart + c.size := by omega
    exact le_trans (Nat.mul_le_mul_right _ hle) (h.inside i hi)
  small := lt_of_le_of_lt (Nat.sub_le _ _) h.small

end Fits

@[simp] theorem size_slice_fst (c : DataChunk) (b : ℕ) : (c.slice b).1.size = b := rfl
@[simp] theorem size_slice_snd (c : DataChunk) (b : ℕ) : (c.slice b).2.size = c.size - b := rfl

/-- Cutting does not touch the buffers. -/
@[simp] theorem bufferRow_slice_fst (c : DataChunk) (b : ℕ) :
    (c.slice b).1.bufferRow = c.bufferRow := rfl

@[simp] theorem bufferRow_slice_snd (c : DataChunk) (b : ℕ) :
    (c.slice b).2.bufferRow = c.bufferRow := rfl

@[simp] theorem sliceStart_slice_fst (c : DataChunk) (b : ℕ) :
    (c.slice b).1.sliceStart = c.sliceStart := rfl

@[simp] theorem sliceStart_slice_snd (c : DataChunk) (b : ℕ) :
    (c.slice b).2.sliceStart = b := rfl

/-- The first part presents the first rows of the whole. -/
theorem rows_slice_fst (c : DataChunk) {b : ℕ} (hb : b ≤ c.size) :
    (c.slice b).1.rows = c.rows.take b := by
  simp only [rows, size_slice_fst, ← List.map_take, List.take_range, Nat.min_eq_left hb]
  rfl

/-- The second part presents the rest of the whole when the whole starts at the front of its
buffers. -/
theorem rows_slice_snd (c : DataChunk) (b : ℕ) (h0 : c.sliceStart = 0) :
    (c.slice b).2.rows = c.rows.drop b := by
  apply List.ext_getElem
  · simp
  · intro i hi _
    rw [getElem_rows, List.getElem_drop, getElem_rows, row, row, h0, Nat.zero_add]
    rfl

end DataChunk

end SimpleOlap
