import SimpleOlap.Storage.Segment.File
import Mathlib.Order.CompletePartialOrder

/-!
# Segment files round-trip

What is appended to a `SegmentBuilder` and flushed is what a `SegmentReader` of the file returns.

* `SegmentBuilder.ofChunks`: the builder after a list of chunks; `rows_ofChunks`.
* `SegmentBuilder.region`: the bytes of a column in the file; the regions do not overlap, start
  behind the metadata and end inside the file.
* `SegmentReader.scanFrom`: the batches of a caller that advances by what it got
  (`flatMap_activeRows_scanFrom`).
* `segmentFile_roundTrip`: all of it, for a flush that reports success.
-/

namespace SimpleOlap

open Lib

/-! ## The builder of a list of chunks -/

namespace SegmentBuilder

/-- The builder after a list of appended chunks. -/
def ofChunks (schema : TableSchema) (chunks : List DataChunk) : SegmentBuilder :=
  chunks.foldl append (new schema)

variable {schema : TableSchema} {chunks : List DataChunk}

/-- Appending a list of chunks appends their rows. -/
theorem WF.foldl_append : ∀ (chunks : List DataChunk) {b : SegmentBuilder}, b.WF schema →
    (∀ c ∈ chunks, c.Fits schema) → (chunks.foldl SegmentBuilder.append b).WF schema ∧
      (chunks.foldl SegmentBuilder.append b).rows = b.rows ++ chunks.flatMap DataChunk.rows
  | [], b, h, _ => ⟨h, by simp⟩
  | c :: chunks, b, h, hf => by
    have hc : c.Fits schema := hf c List.mem_cons_self
    obtain ⟨hwf, hrows⟩ := WF.foldl_append chunks (h.append hc)
      fun c' hc' => hf c' (List.mem_cons_of_mem c hc')
    refine ⟨hwf, ?_⟩
    rw [List.foldl_cons, hrows, h.rows_append hc, List.flatMap_cons, List.append_assoc]

theorem wf_ofChunks (hf : ∀ c ∈ chunks, c.Fits schema) : (ofChunks schema chunks).WF schema :=
  (WF.foldl_append chunks (WF.new schema) hf).1

/-- The rows held are the appended ones. -/
theorem rows_ofChunks (hf : ∀ c ∈ chunks, c.Fits schema) :
    (ofChunks schema chunks).rows = chunks.flatMap DataChunk.rows := by
  rw [ofChunks, (WF.foldl_append chunks (WF.new schema) hf).2, rows, new, List.range_zero,
    List.map_nil, List.nil_append]

/-- Write the segment file `id`: the file afterwards and whether the write is reported as done.

Source: `segment.cpp` SegmentBuilder::Flush. -/
def flush (b : SegmentBuilder) (id : SegmentId) (old : Option Bytes) (o : WriteOutcome) :
    Option Bytes × Bool :=
  (o.apply old (b.fileBytes id), o.okClosed)

end SegmentBuilder

/-! ## The regions of the columns -/

namespace SegmentReader

/-- The end of the data of a column in the file. -/
def regionEnd (r : SegmentReader) (m : ColumnChunkMeta) : ℕ :=
  m.dataOffset + r.rowCount * typeElemSize m.type

/-- The places of the bytes of a column in the file. -/
def region (r : SegmentReader) (m : ColumnChunkMeta) : Set ℕ :=
  Set.Ico m.dataOffset (r.regionEnd m)

end SegmentReader

section Regions

open SegmentBuilder SegmentReader

variable {schema : TableSchema} {b : SegmentBuilder} {id : SegmentId}

theorem length_colChunkMetas_fileReader (b : SegmentBuilder) (id : SegmentId) :
    (fileReader b id).metadata.colChunkMetas.length = b.columnBuilders.length :=
  length_layout _ _

/-- Column `i` takes the place between the data of the first `i` and of the first `i + 1` columns. -/
theorem region_fileReader (h : b.WF schema) {i : ℕ}
    (hi : i < (fileReader b id).metadata.colChunkMetas.length) :
    (fileReader b id).metadata.colChunkMetas[i].dataOffset =
        b.metaSize id + ((b.columnBuilders.take i).flatMap ColumnBuilder.data).length ∧
      (fileReader b id).regionEnd (fileReader b id).metadata.colChunkMetas[i] =
        b.metaSize id + ((b.columnBuilders.take (i + 1)).flatMap ColumnBuilder.data).length := by
  have hi₀ : i < b.columnBuilders.length := length_colChunkMetas_fileReader b id ▸ hi
  have hlayout : (fileReader b id).metadata.colChunkMetas[i] =
      { b.columnBuilders[i].metadata with
        dataOffset := b.metaSize id + ((b.columnBuilders.take i).flatMap ColumnBuilder.data).length } :=
    getElem_layout h.length_data _ hi₀ hi
  have hdata : b.columnBuilders[i].data.length =
      b.rowCount * typeElemSize b.columnBuilders[i].metadata.type := by
    rw [h.length_data _ (List.getElem_mem hi₀), h.rowCount i hi₀, ColumnBuilder.elementSize]
  refine ⟨by rw [hlayout], ?_⟩
  rw [regionEnd, hlayout, List.take_succ_eq_append_getElem hi₀, List.flatMap_append,
    List.flatMap_singleton, List.length_append, rowCount_fileReader]
  simp only [hdata]
  omega

/-- Columns further behind start further behind. -/
theorem length_flatMap_take_mono (cbs : List ColumnBuilder) {i j : ℕ} (hij : i ≤ j) :
    ((cbs.take i).flatMap ColumnBuilder.data).length ≤
      ((cbs.take j).flatMap ColumnBuilder.data).length := by
  obtain ⟨k, rfl⟩ := Nat.exists_eq_add_of_le hij
  rw [List.take_add, List.flatMap_append, List.length_append]
  exact Nat.le_add_right _ _

/-- The regions of the columns do not overlap. -/
theorem pairwise_disjoint_region (h : b.WF schema) :
    (fileReader b id).metadata.colChunkMetas.Pairwise fun m m' =>
      Disjoint ((fileReader b id).region m) ((fileReader b id).region m') := by
  rw [List.pairwise_iff_getElem]
  intro i j hi hj hij
  obtain ⟨-, hend⟩ := region_fileReader h hi
  obtain ⟨hstart, -⟩ := region_fileReader h hj
  have hmono := length_flatMap_take_mono b.columnBuilders (Nat.add_one_le_of_lt hij)
  rw [region, region, Set.disjoint_left]
  rintro p ⟨-, hlt⟩ ⟨hle, -⟩
  rw [hend] at hlt
  rw [hstart] at hle
  omega

/-- The regions lie behind the metadata and inside the file. -/
theorem region_bounds (h : b.WF schema) {m : ColumnChunkMeta}
    (hm : m ∈ (fileReader b id).metadata.colChunkMetas) :
    (b.finalMeta id).serialize.length ≤ m.dataOffset ∧
      (fileReader b id).regionEnd m ≤ (b.fileBytes id).length := by
  obtain ⟨i, hi, rfl⟩ := List.getElem_of_mem hm
  obtain ⟨hstart, hend⟩ := region_fileReader h hi
  rw [hstart, hend, length_serialize_finalMeta]
  exact ⟨Nat.le_add_right _ _, WF.length_flatMap_take_le b id (i + 1)⟩

end Regions

/-! ## Scanning a whole segment -/

namespace SegmentReader

/-- The batches of a caller that starts at `offset` and advances by the size of what it got. -/
def scanFrom (r : SegmentReader) (options : ScanOptions) (offset : ℕ) : List VectorBatch :=
  match _h : r.getVectorBatch options offset with
  | none => []
  | some batch =>
    if 0 < batch.size then batch :: scanFrom r options (offset + batch.size) else [batch]
termination_by r.rowCount - offset
decreasing_by
  have hlt := (getVectorBatch_eq_some _h).1
  omega

/-- A scan from `offset` on presents the rows from there on, each once and in order. -/
theorem flatMap_activeRows_scanFrom (r : SegmentReader) (options : ScanOptions) (offset : ℕ) :
    (r.scanFrom options offset).flatMap VectorBatch.activeRows =
      (List.range' offset (r.rowCount - offset)).map
        (r.rowAt (r.outColumns options.columns)) := by
  fun_induction scanFrom r options offset with
  | case1 offset hnone =>
    rw [Nat.sub_eq_zero_of_le (getVectorBatch_eq_none_iff.mp hnone), List.range'_zero,
      List.map_nil, List.flatMap_nil]
  | case2 offset batch hbatch hpos ih =>
    obtain ⟨hlt, hsize, -⟩ := getVectorBatch_eq_some hbatch
    have hsplit : r.rowCount - offset =
        batch.size + (r.rowCount - (offset + batch.size)) := by omega
    rw [List.flatMap_cons, ih, activeRows_getVectorBatch hbatch, hsplit, ← List.range'_append_1,
      List.map_append, List.range'_eq_map_range (s := offset), List.map_map]
    rfl
  | case3 offset batch hbatch hzero =>
    exact absurd (size_getVectorBatch_pos hbatch) hzero

end SegmentReader

/-! ## The round trip -/

section RoundTrip

open SegmentBuilder SegmentReader

variable {schema : TableSchema} {b : SegmentBuilder} {id : SegmentId}

/-- The columns of the file are those of the schema. -/
theorem map_colChunkMetas_fileReader (id : SegmentId) (h : b.WF schema) :
    (fileReader b id).metadata.colChunkMetas.map (fun m => (m.columnId, m.type)) =
      schema.columns.map (fun c => (c.columnId, c.type)) := by
  apply List.ext_getElem
  · rw [List.length_map, List.length_map, length_colChunkMetas_fileReader, h.columns]
  · intro i hi hi'
    have hi₀ : i < b.columnBuilders.length := by
      rwa [List.length_map, length_colChunkMetas_fileReader] at hi
    have hi₁ : i < schema.columns.length := h.columns ▸ hi₀
    have hlayout := getElem_layout h.length_data (b.metaSize id) hi₀
      (by rwa [length_layout])
    rw [List.getElem_map, List.getElem_map]
    simp only [fileReader, finalMeta, fileMeta, hlayout, Prod.mk.injEq]
    exact ⟨(h.column i hi₀ hi₁).columnId_eq, (h.column i hi₀ hi₁).type_eq⟩

theorem outColumns_fileReader (h : b.WF schema) (columns : List ColumnId) :
    (fileReader b id).outColumns columns =
      if columns = [] then schema.columns.map ColumnSchema.columnId else columns := by
  have hids := congrArg (List.map Prod.fst) (map_colChunkMetas_fileReader id h)
  simp only [List.map_map] at hids
  unfold outColumns
  split_ifs
  · exact hids
  · rfl

/-- A scan of a written file presents all the rows, restricted to the requested columns. -/
theorem scan_fileReader (h : b.WF schema) (options : ScanOptions)
    (hcols : ∀ c ∈ options.columns, schema.HasColumn c) :
    ((fileReader b id).scanFrom options 0).flatMap VectorBatch.activeRows =
      b.rows.map (project schema ((fileReader b id).outColumns options.columns)) := by
  have hin : ∀ c ∈ (fileReader b id).outColumns options.columns, schema.HasColumn c := by
    intro c hc
    rw [outColumns_fileReader h] at hc
    split_ifs at hc with hnil
    · obtain ⟨col, hcol, rfl⟩ := List.mem_map.mp hc
      exact ⟨col, hcol, rfl⟩
    · exact hcols c hc
  rw [flatMap_activeRows_scanFrom, Nat.sub_zero, rowCount_fileReader, ← List.range_eq_range',
    rows, List.map_map]
  exact List.map_congr_left fun j hj => rowAt_fileReader h hin (List.mem_range.mp hj)

/-- Rows gathered from a written file are the rows at the offsets, restricted to the columns. -/
theorem gather_fileReader (id : SegmentId) (h : b.WF schema) {rowOffsets : List ℕ} {columns : List ColumnId}
    (hfits : rowOffsets.length < 2 ^ 32) (hne : rowOffsets ≠ []) (hnil : columns ≠ [])
    (hcols : ∀ c ∈ columns, schema.HasColumn c)
    (hin : ∀ offset ∈ rowOffsets, offset < b.rowCount) :
    ∃ batch, (fileReader b id).gatherRows rowOffsets columns = some batch ∧
      batch.size = rowOffsets.length ∧
      ((List.range batch.size).map batch.physicalRow =
        rowOffsets.map fun offset => project schema columns (b.rowAt offset)) ∧
      (rowOffsets.length ≤ kVectorBatchSize → batch.activeRows =
        rowOffsets.map fun offset => project schema columns (b.rowAt offset)) := by
  obtain ⟨batch, hbatch, hsize, -⟩ :=
    gatherRows_eq_some (r := fileReader b id) hfits hne hnil hin
  have hcov : ∀ c ∈ columns, (fileReader b id).Covers c :=
    fun c hc => covers_fileReader h (hcols c hc)
  have hrow : ∀ offset ∈ rowOffsets, (fileReader b id).rowAt columns offset =
      project schema columns (b.rowAt offset) :=
    fun offset hoff => rowAt_fileReader h hcols (hin offset hoff)
  refine ⟨batch, hbatch, hsize, ?_, fun hlen => ?_⟩
  · apply List.ext_getElem
    · simp [hsize]
    · intro i hi hi'
      have hi₀ : i < rowOffsets.length := by simpa using hi'
      rw [List.getElem_map, List.getElem_map, List.getElem_range,
        physicalRow_gatherRows hfits hcov hin hbatch hi₀, hrow _ (List.getElem_mem hi₀)]
  · rw [activeRows_gatherRows hcov hin hlen hbatch]
    exact List.map_congr_left hrow

/-- **Segment files round-trip.** A file that the builder of a list of chunks reports as written
opens; the regions of its columns do not overlap and lie between the metadata and the end of the
file; a scan and a gathering of rows return the cells that were appended. -/
theorem segmentFile_roundTrip (hs : schema.Fits) {chunks : List DataChunk}
    (hf : ∀ c ∈ chunks, c.Fits schema) (hid : Fits32 id)
    (hrows : (chunks.flatMap DataChunk.rows).length < 2 ^ 32)
    (hfile : ((ofChunks schema chunks).fileBytes id).length < 2 ^ 64)
    {old file : Option Bytes} {o : WriteOutcome}
    (hflush : (ofChunks schema chunks).flush id old o = (file, true)) :
    ∃ r, openFile id file = some r ∧ r.rowCount = (chunks.flatMap DataChunk.rows).length ∧
      r.metadata.colChunkMetas.map (fun m => (m.columnId, m.type)) =
        schema.columns.map (fun c => (c.columnId, c.type)) ∧
      (r.metadata.colChunkMetas.Pairwise fun m m' => Disjoint (r.region m) (r.region m')) ∧
      (∀ m ∈ r.metadata.colChunkMetas,
        r.metadata.serialize.length ≤ m.dataOffset ∧ r.regionEnd m ≤ r.file.length) ∧
      (∀ options : ScanOptions, (∀ c ∈ options.columns, schema.HasColumn c) →
        (r.scanFrom options 0).flatMap VectorBatch.activeRows =
          (chunks.flatMap DataChunk.rows).map (project schema (if options.columns = [] then
            schema.columns.map ColumnSchema.columnId else options.columns))) ∧
      ∀ rowOffsets columns, rowOffsets.length < 2 ^ 32 → rowOffsets ≠ [] → columns ≠ [] →
        (∀ c ∈ columns, schema.HasColumn c) →
        (∀ offset ∈ rowOffsets, offset < (chunks.flatMap DataChunk.rows).length) →
        ∃ batch, r.gatherRows rowOffsets columns = some batch ∧
          batch.size = rowOffsets.length ∧
          ((List.range batch.size).map batch.physicalRow = rowOffsets.map fun offset =>
            project schema columns ((chunks.flatMap DataChunk.rows).getD offset [])) ∧
          (rowOffsets.length ≤ kVectorBatchSize → batch.activeRows = rowOffsets.map fun offset =>
            project schema columns ((chunks.flatMap DataChunk.rows).getD offset [])) := by
  have h : (ofChunks schema chunks).WF schema := wf_ofChunks hf
  have hheld : (ofChunks schema chunks).rows = chunks.flatMap DataChunk.rows := rows_ofChunks hf
  have hcount : (ofChunks schema chunks).rowCount = (chunks.flatMap DataChunk.rows).length := by
    rw [← hheld, length_rows]
  obtain ⟨rfl, hok⟩ := Prod.mk.inj hflush
  obtain rfl := WriteOutcome.okClosed_iff.mp hok
  refine ⟨fileReader (ofChunks schema chunks) id,
    openFile_fileBytes_of_lt h hs hid (hcount ▸ hrows) hfile, hcount,
    map_colChunkMetas_fileReader id h, pairwise_disjoint_region h, fun m hm => region_bounds h hm,
    fun options hcols => ?_,
    fun rowOffsets columns hfits hne hnil hcols hin => ?_⟩
  · rw [scan_fileReader h options hcols, outColumns_fileReader h, hheld]
  · have hat : ∀ offset ∈ rowOffsets, (chunks.flatMap DataChunk.rows).getD offset [] =
        (ofChunks schema chunks).rowAt offset := by
      intro offset hoff
      have hlt := hin offset hoff
      rw [← hheld] at hlt ⊢
      rw [List.getD_eq_getElem?_getD, List.getElem?_eq_getElem hlt, Option.getD_some, getElem_rows]
    obtain ⟨batch, hbatch, hsize, hphys, hact⟩ :=
      gather_fileReader id h hfits hne hnil hcols (hcount ▸ hin)
    have hmap : (rowOffsets.map fun offset =>
        project schema columns ((chunks.flatMap DataChunk.rows).getD offset [])) =
        rowOffsets.map fun offset =>
          project schema columns ((ofChunks schema chunks).rowAt offset) :=
      List.map_congr_left fun offset hoff => by rw [hat offset hoff]
    refine ⟨batch, hbatch, hsize, ?_, ?_⟩
    · rw [hmap, hphys]
    · rw [hmap]
      exact hact

/-! ### Two columns, two chunks -/

/-- A schema of two columns. -/
def twoColumnSchema : TableSchema := ⟨[⟨0, [99], .int32⟩, ⟨5, [100], .int64⟩], none, []⟩

/-- Two rows, `7, 1` and `8, 2`. -/
def twoRowChunk : DataChunk :=
  ⟨2, 0, [[7, 0, 0, 0, 8, 0, 0, 0], [1, 0, 0, 0, 0, 0, 0, 0, 2, 0, 0, 0, 0, 0, 0, 0]], [4, 8]⟩

theorem twoColumnSchema_fits : twoColumnSchema.Fits where
  columnCount := by decide
  columns c hc := by
    rcases List.mem_cons.mp hc with rfl | hc'
    · exact ⟨by decide, by decide⟩
    · rw [List.mem_singleton.mp hc']
      exact ⟨by decide, by decide⟩
  primaryKey k hk := nomatch hk
  keyCount := by decide
  secondaryKeys k hk := nomatch hk

theorem twoRowChunk_fits : twoRowChunk.Fits twoColumnSchema where
  columns := rfl
  sizes := rfl
  inside := by decide
  small := by decide

/-- The chunk, then its second row once more: the columns come back in the other order. -/
theorem segmentFile_roundTrip_twoColumns :
    ∃ r, openFile 3 (some ((ofChunks twoColumnSchema
        [twoRowChunk, (twoRowChunk.slice 1).2]).fileBytes 3)) = some r ∧
      (r.scanFrom ⟨[5, 0], []⟩ 0).flatMap VectorBatch.activeRows =
        [[[1, 0, 0, 0, 0, 0, 0, 0], [7, 0, 0, 0]], [[2, 0, 0, 0, 0, 0, 0, 0], [8, 0, 0, 0]],
          [[2, 0, 0, 0, 0, 0, 0, 0], [8, 0, 0, 0]]] := by
  have hfits : ∀ c ∈ [twoRowChunk, (twoRowChunk.slice 1).2], c.Fits twoColumnSchema := by
    intro c hc
    rcases List.mem_cons.mp hc with rfl | hc'
    · exact twoRowChunk_fits
    · rw [List.mem_singleton.mp hc']
      exact twoRowChunk_fits.slice_snd (by decide)
  have hflush : (ofChunks twoColumnSchema [twoRowChunk, (twoRowChunk.slice 1).2]).flush 3 none
      .complete = (some ((ofChunks twoColumnSchema
        [twoRowChunk, (twoRowChunk.slice 1).2]).fileBytes 3), true) := rfl
  obtain ⟨r, hopen, -, -, -, -, hscan, -⟩ :=
    segmentFile_roundTrip twoColumnSchema_fits hfits (by decide) (by decide) (by decide) hflush
  refine ⟨r, hopen, (hscan ⟨[5, 0], []⟩ ?_).trans (by decide)⟩
  intro c hc
  rcases List.mem_cons.mp hc with rfl | hc'
  · exact ⟨⟨5, [100], .int64⟩, by decide, rfl⟩
  · rw [List.mem_singleton.mp hc']
    exact ⟨⟨0, [99], .int32⟩, by decide, rfl⟩

end RoundTrip

end SimpleOlap
