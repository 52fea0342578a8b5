import SimpleOlap.Storage.Segment.ColumnChunk

/-!
# Segment builders

A `SegmentBuilder` collects the rows of one segment in memory, one `ColumnBuilder` for each column
of the schema.

* `SegmentBuilder.rows`: the rows held, each the list of its cells.
* `SegmentBuilder.WF`: every column builder is well formed and has the segment's row count.
* `WF.rows_append`: appending a chunk that fits the schema appends its rows.
-/

namespace SimpleOlap

open Lib

/-- Source: `segment.h` SegmentBuilder. -/
structure SegmentBuilder where
  rowCount : ℕ
  columnBuilders : List ColumnBuilder
  deriving DecidableEq

namespace SegmentBuilder

/-- An empty segment of a schema. -/
def new (schema : TableSchema) : SegmentBuilder where
  rowCount := 0
  columnBuilders := schema.columns.map fun col => ColumnBuilder.new col.columnId col.type

/-- The view of column `i` of a chunk that a column builder is given. -/
def columnVector (batch : DataChunk) (i : ℕ) : ColumnVector where
  data := batch.rawData i
  elementSize := batch.elementSize i
  rowCount := batch.size % 2 ^ 32

/-- Source: `segment.cpp` SegmentBuilder::Append. -/
def append (b : SegmentBuilder) (batch : DataChunk) : SegmentBuilder where
  rowCount := b.rowCount + batch.size % 2 ^ 32
  columnBuilders := b.columnBuilders.mapIdx fun i cb => cb.append (columnVector batch i)

/-- Row `j`: the `j`-th cell of every column. -/
def rowAt (b : SegmentBuilder) (j : ℕ) : Row :=
  b.columnBuilders.map fun cb => cell cb.elementSize j cb.data

/-- The rows held, in order. -/
def rows (b : SegmentBuilder) : List Row := (List.range b.rowCount).map b.rowAt

@[simp] theorem length_rows (b : SegmentBuilder) : b.rows.length = b.rowCount := by simp [rows]

theorem getElem_rows (b : SegmentBuilder) {j : ℕ} (h : j < b.rows.length) :
    b.rows[j] = b.rowAt j := by simp [rows]

/-- Every column builder is well formed for its column and has the segment's row count. -/
structure WF (schema : TableSchema) (b : SegmentBuilder) : Prop where
  columns : b.columnBuilders.length = schema.columns.length
  column : ∀ i (h : i < b.columnBuilders.length) (h' : i < schema.columns.length),
    b.columnBuilders[i].WF schema.columns[i].columnId schema.columns[i].type
  rowCount : ∀ i (h : i < b.columnBuilders.length), b.columnBuilders[i].rowCount = b.rowCount

namespace WF

variable {schema : TableSchema} {b : SegmentBuilder} {batch : DataChunk}

theorem new (schema : TableSchema) : (new schema).WF schema where
  columns := by simp [SegmentBuilder.new]
  column i h h' := by
    simp only [SegmentBuilder.new, List.getElem_map]
    exact ColumnBuilder.WF.new _ _
  rowCount i h := by
    simp only [SegmentBuilder.new, List.getElem_map]
    rfl

/-- The view of a fitting chunk has the column's element size and enough bytes. -/
theorem columnVector_fits (hf : batch.Fits schema) {i : ℕ} (hi : i < schema.columns.length) :
    (columnVector batch i).elementSize = typeElemSize schema.columns[i].type ∧
    (columnVector batch i).rowCount = batch.size ∧
    (columnVector batch i).rowCount * (columnVector batch i).elementSize ≤
      (columnVector batch i).data.length := by
  have hcount : (columnVector batch i).rowCount = batch.size := Nat.mod_eq_of_lt hf.small
  refine ⟨hf.elementSize_eq hi, hcount, ?_⟩
  have hin := hf.inside i (hf.columns ▸ hi)
  rw [Nat.add_mul] at hin
  rw [hcount]
  show batch.size * batch.elementSize i ≤ (batch.rawData i).length
  rw [DataChunk.rawData, List.length_drop]
  omega

/-- Appending a chunk that fits keeps the form. -/
theorem append (h : b.WF schema) (hf : batch.Fits schema) : (b.append batch).WF schema where
  columns := by simp [SegmentBuilder.append, h.columns]
  column i hi hi' := by
    have hi₀ : i < b.columnBuilders.length := by simpa [SegmentBuilder.append] using hi
    obtain ⟨hsize, -, hlen⟩ := columnVector_fits hf hi'
    simp only [SegmentBuilder.append, List.getElem_mapIdx]
    exact ((h.column i hi₀ hi').append hsize hlen).1
  rowCount i hi := by
    have hi₀ : i < b.columnBuilders.length := by simpa [SegmentBuilder.append] using hi
    simp only [SegmentBuilder.append, List.getElem_mapIdx, ColumnBuilder.append, h.rowCount i hi₀]
    rfl

theorem rowCount_append (hf : batch.Fits schema) (b : SegmentBuilder) :
    (b.append batch).rowCount = b.rowCount + batch.size := by
  show b.rowCount + batch.size % 2 ^ 32 = _
  rw [Nat.mod_eq_of_lt hf.small]

theorem elementSize_eq (h : b.WF schema) {i : ℕ} (hi : i < b.columnBuilders.length)
    (hi' : i < schema.columns.length) :
    b.columnBuilders[i].elementSize = typeElemSize schema.columns[i].type :=
  (h.column i hi hi').elementSize_eq

/-- A row as cells of the schema's columns. -/
theorem getElem_rowAt (h : b.WF schema) (j : ℕ) {i : ℕ} (hi : i < (b.rowAt j).length)
    (hi₀ : i < b.columnBuilders.length) (hi' : i < schema.columns.length) :
    (b.rowAt j)[i] = cell (typeElemSize schema.columns[i].type) j b.columnBuilders[i].data := by
  simp only [rowAt, List.getElem_map, h.elementSize_eq hi₀ hi']

/-- The rows before stay. -/
theorem rowAt_append_of_lt (h : b.WF schema) (hf : batch.Fits schema) {j : ℕ}
    (hj : j < b.rowCount) : (b.append batch).rowAt j = b.rowAt j := by
  apply List.ext_getElem
  · simp [rowAt, SegmentBuilder.append]
  · intro i hi hi'
    have hi₀ : i < b.columnBuilders.length := by simpa [rowAt] using hi'
    have hi₁ : i < schema.columns.length := h.columns ▸ hi₀
    have hcol := h.column i hi₀ hi₁
    rw [(h.append hf).getElem_rowAt j hi (by simpa [SegmentBuilder.append] using hi₀) hi₁,
      h.getElem_rowAt j hi' hi₀ hi₁]
    simp only [SegmentBuilder.append, List.getElem_mapIdx]
    exact hcol.cell_append_of_lt _ (h.rowCount i hi₀ ▸ hj)

/-- The new rows are the chunk's. -/
theorem rowAt_append_add (h : b.WF schema) (hf : batch.Fits schema) {i : ℕ} (hi : i < batch.size) :
    (b.append batch).rowAt (b.rowCount + i) = batch.row i := by
  apply List.ext_getElem
  · simp [rowAt, SegmentBuilder.append, DataChunk.row, DataChunk.bufferRow, h.columns, hf.columns]
  · intro k hk hk'
    have hk₀ : k < b.columnBuilders.length := by simpa [rowAt, SegmentBuilder.append] using hk
    have hk₁ : k < schema.columns.length := h.columns ▸ hk₀
    obtain ⟨hsize, hcount, -⟩ := columnVector_fits hf hk₁
    rw [(h.append hf).getElem_rowAt _ hk (by simpa [SegmentBuilder.append] using hk₀) hk₁]
    simp only [SegmentBuilder.append, List.getElem_mapIdx, DataChunk.row, DataChunk.bufferRow,
      List.getElem_map, List.getElem_range]
    rw [← h.rowCount k hk₀, (h.column k hk₀ hk₁).cell_append_add hsize (hcount ▸ hi), ← hsize]
    exact DataChunk.cell_rawData batch i k

/-- **Appending a chunk appends its rows.** -/
theorem rows_append (h : b.WF schema) (hf : batch.Fits schema) :
    (b.append batch).rows = b.rows ++ batch.rows := by
  rw [rows, rowCount_append hf, List.range_add, List.map_append, List.map_map]
  congr 1
  · exact List.map_congr_left fun j hj => h.rowAt_append_of_lt hf (List.mem_range.mp hj)
  · exact List.map_congr_left fun i hi => h.rowAt_append_add hf (List.mem_range.mp hi)

end WF

end SegmentBuilder

end SimpleOlap
