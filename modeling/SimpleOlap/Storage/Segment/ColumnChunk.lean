import SimpleOlap.Storage.DataChunk
import SimpleOlap.Storage.Metadata

/-!
# Column builders

A `ColumnBuilder` collects one column of a segment in memory: its bytes, and for a numeric column the
least and greatest value as doubles.

* `ColumnBuilder.append`: copy the bytes of a view, fold its values into the statistics.
* `ColumnBuilder.WF`: the bytes are exactly the cells of the rows so far.
* `ColumnBuilder.noteCells`: the statistics are the fold of `noteCell` over the cells, in the order
  in which they were appended (`stats_append`).
-/

namespace SimpleOlap

open Lib

/-! ## Statistics -/

/-- `std::min` on doubles: the second argument only if it compares less. -/
def stdMin (a b : Double) : Double := if b.val.lt a.val then b else a

/-- `std::max` on doubles: the second argument only if it compares greater. -/
def stdMax (a b : Double) : Double := if a.val.lt b.val then b else a

/-- The element at a pointer into a numeric column, as a double.

Source: `columnchunk.cpp` ColumnBuilder::Append, the inner switch. -/
def statValue (type : DataType) (ptr : Bytes) : Double :=
  match type with
  | .int32 => Double.ofInt (Numeric.read (ptr.take 4) : Int32).toInt
  | .int64 => Double.ofInt (Numeric.read (ptr.take 8) : Int64).toInt
  | .float => (Numeric.read (ptr.take 4) : Single).widen
  | .double => (Numeric.read (ptr.take 8) : Double)
  | _ => Double.ofInt 0

namespace ColumnChunkMeta

/-- One more value: the first one is both bounds. -/
def noteValue (m : ColumnChunkMeta) (v : Double) : ColumnChunkMeta :=
  if m.hasStats then
    { m with minValue := stdMin m.minValue v, maxValue := stdMax m.maxValue v }
  else
    { m with minValue := v, maxValue := v, hasStats := true }

/-- One more element of the column; columns that are not numeric keep no statistics. -/
def noteCell (m : ColumnChunkMeta) (ptr : Bytes) : ColumnChunkMeta :=
  if m.type.IsNumeric then m.noteValue (statValue m.type ptr) else m

/-- A cell changes no column id. -/
@[simp] theorem columnId_noteCell (m : ColumnChunkMeta) (ptr : Bytes) :
    (m.noteCell ptr).columnId = m.columnId := by
  unfold noteCell noteValue
  split_ifs <;> rfl

/-- A cell changes no type. -/
@[simp] theorem type_noteCell (m : ColumnChunkMeta) (ptr : Bytes) :
    (m.noteCell ptr).type = m.type := by
  unfold noteCell noteValue
  split_ifs <;> rfl

/-- A cell changes no offset. -/
@[simp] theorem dataOffset_noteCell (m : ColumnChunkMeta) (ptr : Bytes) :
    (m.noteCell ptr).dataOffset = m.dataOffset := by
  unfold noteCell noteValue
  split_ifs <;> rfl

/-- A list of elements, in order. -/
def noteCells (m : ColumnChunkMeta) (ptrs : List Bytes) : ColumnChunkMeta := ptrs.foldl noteCell m

/-- No cells. -/
@[simp] theorem noteCells_nil (m : ColumnChunkMeta) : m.noteCells [] = m := rfl

/-- One cell, then the others. -/
@[simp] theorem noteCells_cons (m : ColumnChunkMeta) (p : Bytes) (ptrs : List Bytes) :
    m.noteCells (p :: ptrs) = (m.noteCell p).noteCells ptrs := rfl

/-- Cells behind cells. -/
theorem noteCells_append (m : ColumnChunkMeta) (as bs : List Bytes) :
    m.noteCells (as ++ bs) = (m.noteCells as).noteCells bs := List.foldl_append

/-- Cells change no column id. -/
@[simp] theorem columnId_noteCells (m : ColumnChunkMeta) (ptrs : List Bytes) :
    (m.noteCells ptrs).columnId = m.columnId := by
  induction ptrs generalizing m with
  | nil => rfl
  | cons p ptrs ih => rw [noteCells_cons, ih, columnId_noteCell]

/-- Cells change no type. -/
@[simp] theorem type_noteCells (m : ColumnChunkMeta) (ptrs : List Bytes) :
    (m.noteCells ptrs).type = m.type := by
  induction ptrs generalizing m with
  | nil => rfl
  | cons p ptrs ih => rw [noteCells_cons, ih, type_noteCell]

/-- Cells change no offset. -/
@[simp] theorem dataOffset_noteCells (m : ColumnChunkMeta) (ptrs : List Bytes) :
    (m.noteCells ptrs).dataOffset = m.dataOffset := by
  induction ptrs generalizing m with
  | nil => rfl
  | cons p ptrs ih => rw [noteCells_cons, ih, dataOffset_noteCell]

end ColumnChunkMeta

/-- Only the bytes of the one element matter. -/
theorem statValue_take (type : DataType) (ptr : Bytes) :
    statValue type (ptr.take (typeElemSize type)) = statValue type ptr := by
  cases type <;> simp [statValue, typeElemSize, List.take_take]

/-- A cell is read up to its size. -/
theorem ColumnChunkMeta.noteCell_take (m : ColumnChunkMeta) (ptr : Bytes) :
    m.noteCell (ptr.take (typeElemSize m.type)) = m.noteCell ptr := by
  rw [noteCell, noteCell, statValue_take]

/-! ## Builders -/

/-- A view of a column of a chunk. Source: `columnchunk.h` ColumnVector. -/
structure ColumnVector where
  data : Bytes
  elementSize : ℕ
  rowCount : ℕ

/-- Source: `columnchunk.h` ColumnBuilder. -/
structure ColumnBuilder where
  metadata : ColumnChunkMeta
  rowCount : ℕ
  data : Bytes
  deriving DecidableEq

namespace ColumnBuilder

/-- A new builder has no statistics. -/
def new (columnId : ColumnId) (type : DataType) : ColumnBuilder where
  metadata := ⟨columnId, type, 0, false, Double.ofInt 0, Double.ofInt 0⟩
  rowCount := 0
  data := []

/-- The element size the column is written with. -/
def elementSize (b : ColumnBuilder) : ℕ := typeElemSize b.metadata.type

/-- Source: `columnchunk.cpp` ColumnBuilder::Append. -/
def append (b : ColumnBuilder) (column : ColumnVector) : ColumnBuilder where
  metadata := (List.range column.rowCount).foldl
    (fun m i => m.noteCell (column.data.drop (i * column.elementSize))) b.metadata
  rowCount := b.rowCount + column.rowCount
  data := b.data ++ column.data.take (column.elementSize * column.rowCount)

/-- The rows so far, each the cell of the column. -/
def cells (b : ColumnBuilder) : List Bytes := Lib.cells b.elementSize b.rowCount b.data

/-- The bytes are whole elements, one for each row, and the statistics are the fold over them. -/
structure WF (columnId : ColumnId) (type : DataType) (b : ColumnBuilder) : Prop where
  length_data : b.data.length = b.rowCount * typeElemSize type
  metadata : b.metadata = (new columnId type).metadata.noteCells b.cells

namespace WF

variable {columnId : ColumnId} {type : DataType} {b : ColumnBuilder}

/-- The type of a column that is built. -/
theorem type_eq (h : b.WF columnId type) : b.metadata.type = type := by
  rw [h.metadata, ColumnChunkMeta.type_noteCells]
  rfl

/-- The id of a column that is built. -/
theorem columnId_eq (h : b.WF columnId type) : b.metadata.columnId = columnId := by
  rw [h.metadata, ColumnChunkMeta.columnId_noteCells]
  rfl

/-- The size of its elements. -/
theorem elementSize_eq (h : b.WF columnId type) : b.elementSize = typeElemSize type := by
  rw [elementSize, h.type_eq]

/-- A new column. -/
theorem new (columnId : ColumnId) (type : DataType) : (new columnId type).WF columnId type :=
  ⟨(Nat.zero_mul _).symm, rfl⟩

end WF

/-- The values folded in are the cells of the view. -/
theorem metadata_append {b : ColumnBuilder} {column : ColumnVector}
    (hsize : column.elementSize = b.elementSize) :
    (b.append column).metadata =
      b.metadata.noteCells (Lib.cells b.elementSize column.rowCount column.data) := by
  have key : ∀ (is : List ℕ) (m : ColumnChunkMeta), m.type = b.metadata.type →
      is.foldl (fun m i => m.noteCell (column.data.drop (i * column.elementSize))) m =
        m.noteCells (is.map fun i => cell b.elementSize i column.data) := by
    intro is
    induction is with
    | nil => intros; rfl
    | cons i is ih =>
      intro m hm
      have hcell : m.noteCell (cell b.elementSize i column.data) =
          m.noteCell (column.data.drop (i * column.elementSize)) := by
        rw [cell, hsize, elementSize, ← hm, ColumnChunkMeta.noteCell_take]
      rw [List.foldl_cons, ih _ (by rw [ColumnChunkMeta.type_noteCell, hm]), List.map_cons,
        ColumnChunkMeta.noteCells_cons, hcell]
  exact key _ _ rfl

/-- The size of the elements after a column is appended. -/
theorem WF.elementSize_append {columnId : ColumnId} {type : DataType} {b : ColumnBuilder}
    (h : b.WF columnId type) {column : ColumnVector}
    (hsize : column.elementSize = typeElemSize type) :
    (b.append column).elementSize = typeElemSize type := by
  rw [elementSize, metadata_append (hsize.trans h.elementSize_eq.symm),
    ColumnChunkMeta.type_noteCells, h.type_eq]

/-- Appending a view keeps the form and appends the view's cells. -/
theorem WF.append {columnId : ColumnId} {type : DataType} {b : ColumnBuilder} (h : b.WF columnId type)
    {column : ColumnVector} (hsize : column.elementSize = typeElemSize type)
    (hlen : column.rowCount * column.elementSize ≤ column.data.length) :
    (b.append column).WF columnId type ∧
      (b.append column).cells =
        b.cells ++ Lib.cells (typeElemSize type) column.rowCount column.data := by
  have hmeta := metadata_append (b := b) (hsize.trans h.elementSize_eq.symm)
  have hes := h.elementSize_append hsize
  have hcells : (b.append column).cells =
      b.cells ++ Lib.cells (typeElemSize type) column.rowCount column.data := by
    rw [cells, hes, cells, h.elementSize_eq, ColumnBuilder.append, cells_append _ h.length_data,
      hsize, Nat.mul_comm (typeElemSize type), cells_take_mul]
  refine ⟨⟨?_, ?_⟩, hcells⟩
  · simp only [ColumnBuilder.append, List.length_append, List.length_take, h.length_data, hsize]
    rw [Nat.mul_comm (typeElemSize type), ← hsize, Nat.min_eq_left hlen, hsize, Nat.add_mul]
  · rw [hmeta, hcells, ColumnChunkMeta.noteCells_append, ← h.metadata, h.elementSize_eq]

/-- The rows before stay. -/
theorem WF.cell_append_of_lt {columnId : ColumnId} {type : DataType} {b : ColumnBuilder}
    (h : b.WF columnId type) (column : ColumnVector) {j : ℕ} (hj : j < b.rowCount) :
    cell (typeElemSize type) j (b.append column).data = cell (typeElemSize type) j b.data :=
  cell_append_left _ (h.length_data ▸ Nat.mul_le_mul_right _ hj)

/-- The new rows are the rows of the view. -/
theorem WF.cell_append_add {columnId : ColumnId} {type : DataType} {b : ColumnBuilder}
    (h : b.WF columnId type) {column : ColumnVector}
    (hsize : column.elementSize = typeElemSize type) {i : ℕ} (hi : i < column.rowCount) :
    cell (typeElemSize type) (b.rowCount + i) (b.append column).data =
      cell (typeElemSize type) i column.data := by
  rw [ColumnBuilder.append, cell_append_right _ h.length_data, hsize, Nat.mul_comm (typeElemSize type),
    cell_take_mul hi]

end ColumnBuilder

end SimpleOlap
