import SimpleOlap.Lib.FileWrite
import SimpleOlap.Storage.Segment.Builder
import SimpleOlap.Storage.Segment.Reader

/-!
# Segment files

What `SegmentBuilder::Flush` writes and what `SegmentReader::Open` makes of it: the metadata, then
the columns one behind the other.

* `SegmentBuilder.fileBytes`: the file of a builder.
* `openFile_fileBytes`: opening that file succeeds.
* `rowAt_fileBytes`: the reader presents the builder's rows, column by column of the schema.
-/

namespace SimpleOlap

open Lib

/-! ## Rows by column id -/

/-- The place of a column in the schema. -/
def columnIndex (schema : TableSchema) (id : ColumnId) : Option ℕ :=
  schema.columns.findIdx? fun c => c.columnId == id

/-- The cell of a column in a row of the schema's columns. -/
def rowCell (schema : TableSchema) (row : Row) (id : ColumnId) : Bytes :=
  match columnIndex schema id with
  | some i => row.getD i []
  | none => []

/-- A row restricted to the given columns. -/
def project (schema : TableSchema) (columns : List ColumnId) (row : Row) : Row :=
  columns.map (rowCell schema row)

/-- The schema has the column. -/
def TableSchema.HasColumn (schema : TableSchema) (id : ColumnId) : Prop :=
  ∃ c ∈ schema.columns, c.columnId = id

theorem columnIndex_eq_some {schema : TableSchema} {id : ColumnId} (h : schema.HasColumn id) :
    ∃ i, columnIndex schema id = some i ∧ ∃ hi : i < schema.columns.length,
      schema.columns[i].columnId = id ∧ ∀ j (hj : j < i), schema.columns[j].columnId ≠ id := by
  obtain ⟨c, hc, hid⟩ := h
  rcases hfind : columnIndex schema id with _ | i
  · have := List.findIdx?_eq_none_iff.mp hfind c hc
    simp [hid] at this
  · obtain ⟨hi, hp, hfirst⟩ := List.findIdx?_eq_some_iff_getElem.mp hfind
    exact ⟨i, rfl, hi, by simpa using hp, fun j hj => by simpa using hfirst j hj⟩

/-! ## The file -/

namespace SegmentBuilder

/-- The chunk metadata with the offsets at which the columns are written, from `offset` on. -/
def layout : ℕ → List ColumnBuilder → List ColumnChunkMeta
  | _, [] => []
  | offset, cb :: cbs =>
    { cb.metadata with dataOffset := offset } ::
      layout (offset + cb.rowCount * cb.elementSize) cbs

/-- The metadata of a segment file; `chunks` are its chunks' metadata. -/
def fileMeta (b : SegmentBuilder) (id : SegmentId) (chunks : List ColumnChunkMeta) : SegmentMeta :=
  ⟨id, b.rowCount, toStringBytes id, chunks⟩

/-- The size of the metadata, found by serializing them once without offsets. -/
def metaSize (b : SegmentBuilder) (id : SegmentId) : ℕ :=
  (b.fileMeta id (b.columnBuilders.map ColumnBuilder.metadata)).serialize.length

/-- The metadata with the offsets filled in. -/
def finalMeta (b : SegmentBuilder) (id : SegmentId) : SegmentMeta :=
  b.fileMeta id (layout (b.metaSize id) b.columnBuilders)

/-- The whole file. Source: `segment.cpp` SegmentBuilder::Flush. -/
def fileBytes (b : SegmentBuilder) (id : SegmentId) : Bytes :=
  (b.finalMeta id).serialize ++ b.columnBuilders.flatMap ColumnBuilder.data

@[simp] theorem length_layout (offset : ℕ) (cbs : List ColumnBuilder) :
    (layout offset cbs).length = cbs.length := by
  induction cbs generalizing offset with
  | nil => rfl
  | cons cb cbs ih => simp [layout, ih]

/-- Filling in the offsets does not change the size of the metadata. -/
theorem length_serialize_finalMeta (b : SegmentBuilder) (id : SegmentId) :
    (b.finalMeta id).serialize.length = b.metaSize id := by
  simp [finalMeta, metaSize, fileMeta, SegmentMeta.length_serialize]

/-- Each column is laid out behind the data of the columns before it. -/
theorem getElem_layout {cbs : List ColumnBuilder}
    (hlen : ∀ cb ∈ cbs, cb.data.length = cb.rowCount * cb.elementSize) (offset : ℕ) {i : ℕ}
    (hi : i < cbs.length) (hi' : i < (layout offset cbs).length) : (layout offset cbs)[i] =
      { cbs[i].metadata with
        dataOffset := offset + ((cbs.take i).flatMap ColumnBuilder.data).length } := by
  induction cbs generalizing offset i with
  | nil => exact absurd hi (Nat.not_lt_zero _)
  | cons cb cbs ih =>
    cases i with
    | zero => simp [layout]
    | succ i =>
      have hcb := hlen cb List.mem_cons_self
      have hi₀ : i < cbs.length := Nat.lt_of_succ_lt_succ hi
      simp only [layout, List.getElem_cons_succ]
      rw [ih (fun c hc => hlen c (List.mem_cons_of_mem cb hc)) _ hi₀]
      simp [← hcb, Nat.add_assoc]

namespace WF

variable {schema : TableSchema} {b : SegmentBuilder}

theorem length_data (h : b.WF schema) :
    ∀ cb ∈ b.columnBuilders, cb.data.length = cb.rowCount * cb.elementSize := by
  intro cb hcb
  obtain ⟨i, hi, rfl⟩ := List.getElem_of_mem hcb
  have hcol := h.column i hi (h.columns ▸ hi)
  rw [hcol.elementSize_eq]
  exact hcol.length_data

/-- The column of an id in the file's metadata is the schema's. -/
theorem find?_layout (h : b.WF schema) {id : ColumnId} {i : ℕ} (hi : i < b.columnBuilders.length)
    (hi' : i < schema.columns.length) (hid : schema.columns[i].columnId = id)
    (hfirst : ∀ j (hj : j < i), schema.columns[j].columnId ≠ id) (offset : ℕ) :
    (layout offset b.columnBuilders).find? (fun m => m.columnId == id) =
      some { b.columnBuilders[i].metadata with
        dataOffset := offset + ((b.columnBuilders.take i).flatMap ColumnBuilder.data).length } := by
  have hcid : ∀ k (hk : k < b.columnBuilders.length) (hk' : k < schema.columns.length),
      b.columnBuilders[k].metadata.columnId = schema.columns[k].columnId :=
    fun k hk hk' => (h.column k hk hk').columnId_eq
  rw [List.find?_eq_some_iff_getElem]
  refine ⟨by simp [hcid i hi hi', hid], i, by simpa using hi, getElem_layout h.length_data _ hi _, ?_⟩
  intro j hj
  have hj₀ : j < b.columnBuilders.length := lt_trans hj hi
  rw [getElem_layout h.length_data _ hj₀]
  simpa [hcid j hj₀ (lt_trans hj hi')] using hfirst j hj

/-! ### Everything fits its field -/

/-- A segment is at most 64 KiB rows of at most 64 bytes wide columns. -/
theorem length_flatMap_data_le (h : b.WF schema) (hrows : b.rowCount ≤ kMaxSegmentRowCount) (i : ℕ) :
    ((b.columnBuilders.take i).flatMap ColumnBuilder.data).length ≤
      b.columnBuilders.length * 2 ^ 22 := by
  have hone : ∀ cb ∈ b.columnBuilders, cb.data.length ≤ 2 ^ 22 := by
    intro cb hcb
    have hcount : cb.rowCount = b.rowCount := by
      obtain ⟨k, hk, rfl⟩ := List.getElem_of_mem hcb
      exact h.rowCount k hk
    have hsize : cb.elementSize ≤ 64 := by
      unfold ColumnBuilder.elementSize
      cases cb.metadata.type <;> decide
    calc cb.data.length = b.rowCount * cb.elementSize := by rw [h.length_data cb hcb, hcount]
      _ ≤ kMaxSegmentRowCount * 64 := Nat.mul_le_mul hrows hsize
      _ = 2 ^ 22 := by decide
  refine le_trans (length_flatMap_le _ _ fun cb hcb => hone cb (List.mem_of_mem_take hcb)) ?_
  rw [List.length_take]
  exact Nat.mul_le_mul_right _ (Nat.min_le_right _ _)

theorem metaSize_le (h : b.WF schema) {id : SegmentId} (hid : Fits32 id) :
    b.metaSize id ≤ 26 + 30 * schema.columns.length := by
  have := length_toStringBytes hid
  simp only [metaSize, fileMeta, SegmentMeta.length_serialize, List.length_map, h.columns]
  omega

/-- The columns before `i` lie inside the file. -/
theorem length_flatMap_take_le (b : SegmentBuilder) (id : SegmentId) (i : ℕ) :
    b.metaSize id + ((b.columnBuilders.take i).flatMap ColumnBuilder.data).length ≤
      (b.fileBytes id).length := by
  have hsplit : b.columnBuilders.flatMap ColumnBuilder.data =
      (b.columnBuilders.take i).flatMap ColumnBuilder.data ++
        (b.columnBuilders.drop i).flatMap ColumnBuilder.data := by
    rw [← List.flatMap_append, List.take_append_drop]
  rw [fileBytes, hsplit, List.length_append, List.length_append, length_serialize_finalMeta]
  omega

/-- The file of a segment of a table is far below the largest offset. -/
theorem length_fileBytes_lt (h : b.WF schema) (hs : schema.Fits) {id : SegmentId} (hid : Fits32 id)
    (hrows : b.rowCount ≤ kMaxSegmentRowCount) : (b.fileBytes id).length < 2 ^ 64 := by
  have hcols : schema.columns.length < 2 ^ 32 := hs.columnCount
  have hdata := h.length_flatMap_data_le hrows b.columnBuilders.length
  have hmeta := h.metaSize_le hid
  rw [List.take_length, h.columns] at hdata
  rw [fileBytes, List.length_append, length_serialize_finalMeta]
  omega

theorem fits_finalMeta (h : b.WF schema) (hs : schema.Fits) {id : SegmentId} (hid : Fits32 id)
    (hrows : b.rowCount < 2 ^ 32) (hfile : (b.fileBytes id).length < 2 ^ 64) :
    (b.finalMeta id).Fits where
  segmentId := hid
  rowCount := hrows
  path := lt_of_le_of_lt (length_toStringBytes hid) (by decide)
  chunkCount := by
    show (layout _ b.columnBuilders).length < 2 ^ 32
    rw [length_layout, h.columns]
    exact hs.columnCount
  colChunkMetas := by
    intro c hc
    obtain ⟨i, hi, rfl⟩ := List.getElem_of_mem hc
    have hi₀ : i < b.columnBuilders.length := by simpa [finalMeta, fileMeta] using hi
    have hi' : i < schema.columns.length := h.columns ▸ hi₀
    simp only [finalMeta, fileMeta, getElem_layout h.length_data _ hi₀]
    constructor
    · show Fits32 b.columnBuilders[i].metadata.columnId
      rw [(h.column i hi₀ hi').columnId_eq]
      exact (hs.columns _ (List.getElem_mem hi')).columnId
    · exact lt_of_le_of_lt (length_flatMap_take_le b id i) hfile

end WF

end SegmentBuilder

/-! ## Reading the file back -/

open SegmentBuilder SegmentReader

variable {schema : TableSchema} {b : SegmentBuilder} {id : SegmentId}

/-- The reader of a written file. -/
def fileReader (b : SegmentBuilder) (id : SegmentId) : SegmentReader :=
  ⟨id, b.finalMeta id, b.fileBytes id⟩

/-- Opening a written segment file succeeds, whatever was appended, as long as the counts fit. -/
theorem openFile_fileBytes_of_lt (h : b.WF schema) (hs : schema.Fits) (hid : Fits32 id)
    (hrows : b.rowCount < 2 ^ 32) (hfile : (b.fileBytes id).length < 2 ^ 64) :
    openFile id (some (b.fileBytes id)) = some (fileReader b id) := by
  have hdec := SegmentMeta.decodes (h.fits_finalMeta hs hid hrows hfile)
    (b.columnBuilders.flatMap ColumnBuilder.data)
  rw [openFile, fileBytes, hdec]
  exact if_neg (not_not.mpr rfl)

/-- **Opening the file of a table's segment succeeds.** -/
theorem openFile_fileBytes (h : b.WF schema) (hs : schema.Fits) (hid : Fits32 id)
    (hrows : b.rowCount ≤ kMaxSegmentRowCount) :
    openFile id (some (b.fileBytes id)) = some (fileReader b id) :=
  openFile_fileBytes_of_lt h hs hid (lt_of_le_of_lt hrows (by decide))
    (h.length_fileBytes_lt hs hid hrows)

@[simp] theorem rowCount_fileReader (b : SegmentBuilder) (id : SegmentId) :
    (fileReader b id).rowCount = b.rowCount := rfl

/-- A column of the schema, as the reader of the written file presents it. -/
theorem openColumn_fileReader (h : b.WF schema) {cid : ColumnId} {i : ℕ}
    (hi : i < b.columnBuilders.length) (hi' : i < schema.columns.length)
    (hcid : schema.columns[i].columnId = cid)
    (hfirst : ∀ j (hj : j < i), schema.columns[j].columnId ≠ cid) :
    ((fileReader b id).openColumn cid).metadata.type = schema.columns[i].type ∧
      ∃ rest, ((fileReader b id).openColumn cid).data = b.columnBuilders[i].data ++ rest := by
  have hfind := h.find?_layout hi hi' hcid hfirst (b.metaSize id)
  rw [openColumn]
  simp only [fileReader, finalMeta, fileMeta, hfind]
  refine ⟨(h.column i hi hi').type_eq, (b.columnBuilders.drop (i + 1)).flatMap ColumnBuilder.data, ?_⟩
  have hsplit : b.columnBuilders.flatMap ColumnBuilder.data =
      (b.columnBuilders.take i).flatMap ColumnBuilder.data ++
        (b.columnBuilders[i].data ++ (b.columnBuilders.drop (i + 1)).flatMap ColumnBuilder.data) := by
    rw [← List.flatMap_cons, List.getElem_cons_drop, ← List.flatMap_append, List.take_append_drop]
  rw [fileBytes, ← length_serialize_finalMeta, ← List.drop_drop, List.drop_left, hsplit,
    List.drop_left]

/-- **The reader presents the rows of the builder.** -/
theorem rowAt_fileReader (h : b.WF schema) {columns : List ColumnId}
    (hcols : ∀ c ∈ columns, schema.HasColumn c) {j : ℕ} (hj : j < b.rowCount) :
    (fileReader b id).rowAt columns j = project schema columns (b.rowAt j) := by
  apply List.map_congr_left
  intro cid hcid
  obtain ⟨i, hindex, hi', hid, hfirst⟩ := columnIndex_eq_some (hcols cid hcid)
  have hi : i < b.columnBuilders.length := h.columns.symm ▸ hi'
  obtain ⟨htype, rest, hdata⟩ := @openColumn_fileReader _ _ id h cid i hi hi' hid hfirst
  have hcol := h.column i hi hi'
  have hlen : (j + 1) * typeElemSize schema.columns[i].type ≤ b.columnBuilders[i].data.length := by
    rw [hcol.length_data, h.rowCount i hi]
    exact Nat.mul_le_mul_right _ hj
  rw [htype, hdata, cell_append_left _ hlen, rowCell, hindex]
  simp [SegmentBuilder.rowAt, hi, hcol.elementSize_eq]

/-- The column data reach to the last row. -/
theorem covers_fileReader (h : b.WF schema) {cid : ColumnId} (hcid : schema.HasColumn cid) :
    (fileReader b id).Covers cid := by
  obtain ⟨i, -, hi', hid, hfirst⟩ := columnIndex_eq_some hcid
  have hi : i < b.columnBuilders.length := h.columns.symm ▸ hi'
  obtain ⟨htype, rest, hdata⟩ := @openColumn_fileReader _ _ id h cid i hi hi' hid hfirst
  rw [Covers, htype, hdata, rowCount_fileReader, List.length_append,
    (h.column i hi hi').length_data, h.rowCount i hi]
  exact Nat.le_add_right _ _

end SimpleOlap
