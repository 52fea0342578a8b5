import SimpleOlap.Storage.Segment.RoundTrip

/-!
# Damaged segment files

`SegmentReader::Open` decodes the metadata at the head of a file and compares the segment id. Row
count, types and data offsets are believed: nothing compares them with the size of the mapping. The
two ways of reading rows then do byte arithmetic with them.

* `ReadRange`: a range of bytes that a call reads, in the mapping or behind a null pointer;
  `vectorBatchReads`, `gatherReads` are the ranges of the two calls
  (`map_bytes_vectorBatchReads`, `flatMap_bytes_gatherReads`).
* `SegmentReader.Harmless`: no call reads outside the mapping.
* `harmless_iff`: this is so just when the metadata have every column and place it inside the file.
* `openFile_take_harmless_iff`: of the proper prefixes of a written file exactly those that are cut
  in the metadata are harmless.
-/

namespace SimpleOlap

open Lib

/-! ## What a call reads -/

/-- A range of bytes that a call reads. -/
inductive ReadRange
  /-- from `start` to `stop`, counted from the first mapped byte -/
  | mapped (start stop : ℕ)
  /-- from `start` to `stop`, counted from the null pointer of a column that is not there -/
  | unmapped (start stop : ℕ)
  deriving DecidableEq, Repr

namespace ReadRange

/-- Every byte of the range is one of the `size` mapped ones. -/
def Inside (size : ℕ) : ReadRange → Prop
  | mapped start stop => ∀ p, start ≤ p → p < stop → p < size
  | unmapped start stop => ∀ p, start ≤ p → ¬ p < stop

/-- The bytes of the range in a mapped file. -/
def bytes (file : Bytes) : ReadRange → Bytes
  | mapped start stop => (file.drop start).take (stop - start)
  | unmapped _ _ => []

end ReadRange

namespace SegmentReader

/-- The range from `start` to `stop` behind the first element of a column. -/
def columnRange (r : SegmentReader) (id : ColumnId) (start stop : ℕ) : ReadRange :=
  match r.metadata.colChunkMetas.find? fun m => m.columnId == id with
  | some m => .mapped (m.dataOffset + start) (m.dataOffset + stop)
  | none => .unmapped start stop

/-- The ranges that the columns of the next batch present. Source: GetVectorBatch. -/
def vectorBatchReads (r : SegmentReader) (options : ScanOptions) (offset : ℕ) : List ReadRange :=
  if r.rowCount ≤ offset then []
  else
    let scanCount := min kVectorBatchSize (r.rowCount - offset)
    (r.outColumns options.columns).map fun id =>
      let elemSize := typeElemSize (r.openColumn id).metadata.type
      r.columnRange id (offset * elemSize) (offset * elemSize + scanCount * elemSize)

/-- The ranges that are copied, row by row, for one column. Source: GatherRows. -/
def gatherColumnReads (r : SegmentReader) (rowOffsets : List ℕ) (id : ColumnId) : List ReadRange :=
  (rowOffsets.take (gatherCount rowOffsets)).map fun offset =>
    let elemSize := typeElemSize (r.openColumn id).metadata.type
    r.columnRange id (offset * elemSize) (offset * elemSize + elemSize)

/-- Source: GatherRows. -/
def gatherReads (r : SegmentReader) (rowOffsets : List ℕ) (columns : List ColumnId) :
    List ReadRange :=
  if rowOffsets = [] ∨ columns = [] then []
  else if rowOffsets.any fun offset => decide (r.rowCount ≤ offset) then []
  else columns.flatMap (r.gatherColumnReads rowOffsets)

variable {r : SegmentReader} {schema : TableSchema}

theorem columnRange_of_some {id : ColumnId} {m : ColumnChunkMeta}
    (h : (r.metadata.colChunkMetas.find? fun m => m.columnId == id) = some m) (start stop : ℕ) :
    r.columnRange id start stop = .mapped (m.dataOffset + start) (m.dataOffset + stop) := by
  rw [columnRange, h]

theorem columnRange_of_none {id : ColumnId}
    (h : (r.metadata.colChunkMetas.find? fun m => m.columnId == id) = none) (start stop : ℕ) :
    r.columnRange id start stop = .unmapped start stop := by
  rw [columnRange, h]

/-- A range of a column holds the column's bytes. -/
theorem bytes_columnRange (r : SegmentReader) (id : ColumnId) (start len : ℕ) :
    (r.columnRange id start (start + len)).bytes r.file =
      ((r.openColumn id).data.drop start).take len := by
  rcases hfind : r.metadata.colChunkMetas.find? fun m => m.columnId == id with _ | m
  · rw [columnRange_of_none hfind, openColumn, hfind]
    simp [ReadRange.bytes]
  · have hlen : m.dataOffset + (start + len) - (m.dataOffset + start) = len := by omega
    rw [columnRange_of_some hfind, openColumn, hfind]
    simp only [ReadRange.bytes, List.drop_drop, hlen]

/-- The elements of a batch are the bytes that are read. -/
theorem map_bytes_vectorBatchReads {options : ScanOptions} {offset : ℕ} {b : VectorBatch}
    (h : r.getVectorBatch options offset = some b) :
    (r.vectorBatchReads options offset).map (ReadRange.bytes r.file) =
      b.columns.map fun col => col.buffer.take (col.count * typeElemSize col.type) := by
  obtain ⟨hlt, hsize, -, hcols⟩ := getVectorBatch_eq_some h
  rw [vectorBatchReads, if_neg (Nat.not_le.mpr hlt), ← hsize, hcols]
  simp only [List.map_map, Function.comp_def, bytes_columnRange]

/-- The elements of a gathered column are the bytes that are read. -/
theorem flatMap_bytes_gatherReads {rowOffsets : List ℕ} {columns : List ColumnId}
    {b : VectorBatch} (h : r.gatherRows rowOffsets columns = some b) :
    r.gatherReads rowOffsets columns = columns.flatMap (r.gatherColumnReads rowOffsets) ∧
      b.columns.map ColumnData.buffer = columns.map fun id =>
        (r.gatherColumnReads rowOffsets id).flatMap (ReadRange.bytes r.file) := by
  unfold gatherRows at h
  rw [gatherReads]
  split_ifs at h ⊢ with hnil hany
  cases h
  refine ⟨rfl, ?_⟩
  simp only [VectorBatch.setIdentitySelection, gatherColumnReads, List.map_map, List.flatMap_map,
    Function.comp_def, bytes_columnRange, cell]

/-! ## Harmless readers -/

/-- No call for columns of the schema reads outside the mapped file. -/
structure Harmless (schema : TableSchema) (r : SegmentReader) : Prop where
  vectorBatch : ∀ (options : ScanOptions) (offset : ℕ),
    (∀ c ∈ options.columns, schema.HasColumn c) →
      ∀ range ∈ r.vectorBatchReads options offset, range.Inside r.file.length
  gather : ∀ (rowOffsets : List ℕ) (columns : List ColumnId),
    (∀ c ∈ columns, schema.HasColumn c) →
      ∀ range ∈ r.gatherReads rowOffsets columns, range.Inside r.file.length

end SegmentReader

namespace SegmentMeta

/-- The metadata have the column, and its first entry places all the rows inside the file. -/
def ColumnInside (m : SegmentMeta) (size : ℕ) (id : ColumnId) : Prop :=
  ∃ c, (m.colChunkMetas.find? fun c => c.columnId == id) = some c ∧
    c.dataOffset + m.rowCount * typeElemSize c.type ≤ size

/-- There are no rows, or every column of the schema and of the metadata is inside the file. -/
def ColumnsInside (schema : TableSchema) (m : SegmentMeta) (size : ℕ) : Prop :=
  m.rowCount = 0 ∨
    (∀ c ∈ schema.columns, m.ColumnInside size c.columnId) ∧
      ∀ c ∈ m.colChunkMetas, m.ColumnInside size c.columnId

end SegmentMeta

namespace SegmentReader

variable {r : SegmentReader} {schema : TableSchema}

/-- The metadata of an opened column are those of its first entry. -/
theorem metadata_openColumn {id : ColumnId} {c : ColumnChunkMeta}
    (h : (r.metadata.colChunkMetas.find? fun c => c.columnId == id) = some c) :
    (r.openColumn id).metadata = c := by
  rw [openColumn, h]

/-- A range with a byte in it is inside just when its column is there and reaches no further. -/
theorem inside_columnRange_iff {id : ColumnId} {start stop : ℕ} (h : start < stop) (size : ℕ) :
    (r.columnRange id start stop).Inside size ↔
      ∃ c, (r.metadata.colChunkMetas.find? fun c => c.columnId == id) = some c ∧
        c.dataOffset + stop ≤ size := by
  rcases hfind : r.metadata.colChunkMetas.find? fun c => c.columnId == id with _ | c
  · rw [columnRange_of_none hfind]
    constructor
    · intro hin
      exact absurd h (hin start le_rfl)
    · rintro ⟨c, hc, -⟩
      cases hfind.symm.trans hc
  · rw [columnRange_of_some hfind]
    constructor
    · intro hin
      have hlast : c.dataOffset + (stop - 1) < size :=
        hin (c.dataOffset + (stop - 1)) (by omega) (by omega)
      exact ⟨c, hfind, by omega⟩
    · rintro ⟨c', hc', hle⟩ p - hp
      obtain rfl : c = c' := Option.some_inj.mp (hfind.symm.trans hc')
      omega

/-- The ranges of a column that is inside the file are. -/
theorem inside_of_columnInside {id : ColumnId} {start stop : ℕ}
    (h : r.metadata.ColumnInside r.file.length id)
    (hstop : stop ≤ r.rowCount * typeElemSize (r.openColumn id).metadata.type) :
    (r.columnRange id start stop).Inside r.file.length := by
  obtain ⟨c, hfind, hin⟩ := h
  rw [metadata_openColumn hfind] at hstop
  rw [columnRange_of_some hfind]
  intro p _ hp
  have hrows : r.rowCount = r.metadata.rowCount := rfl
  rw [hrows] at hstop
  omega

/-- A column whose last row is inside the file is. -/
theorem columnInside_of_last {id : ColumnId} {stop : ℕ} (hpos : r.rowCount ≠ 0)
    (hstop : stop = (r.rowCount - 1) * typeElemSize (r.openColumn id).metadata.type +
      typeElemSize (r.openColumn id).metadata.type)
    (h : (r.columnRange id ((r.rowCount - 1) * typeElemSize (r.openColumn id).metadata.type)
      stop).Inside r.file.length) : r.metadata.ColumnInside r.file.length id := by
  have hes := typeElemSize_pos (r.openColumn id).metadata.type
  obtain ⟨c, hfind, hle⟩ := (inside_columnRange_iff (by omega) _).mp h
  have hlast : stop = r.metadata.rowCount * typeElemSize c.type := by
    rw [hstop, metadata_openColumn hfind, ← Nat.succ_mul, Nat.succ_eq_add_one,
      Nat.sub_add_cancel (Nat.pos_of_ne_zero hpos)]
    rfl
  exact ⟨c, hfind, hlast ▸ hle⟩

/-- The columns a scan outputs are the schema's or the file's. -/
theorem columnInside_of_mem_outColumns (h : r.metadata.ColumnsInside schema r.file.length)
    (hpos : r.rowCount ≠ 0) {columns : List ColumnId} (hcols : ∀ c ∈ columns, schema.HasColumn c)
    {id : ColumnId} (hid : id ∈ r.outColumns columns) :
    r.metadata.ColumnInside r.file.length id := by
  obtain ⟨hschema, hfile⟩ := h.resolve_left hpos
  unfold outColumns at hid
  split_ifs at hid
  · obtain ⟨c, hc, rfl⟩ := List.mem_map.mp hid
    exact hfile c hc
  · obtain ⟨c, hc, rfl⟩ := hcols id hid
    exact hschema c hc

/-- **A reader is harmless just when its metadata place every column inside the file.** -/
theorem harmless_iff (r : SegmentReader) (schema : TableSchema) :
    r.Harmless schema ↔ r.metadata.ColumnsInside schema r.file.length := by
  constructor
  · intro h
    by_cases hrows : r.rowCount = 0
    · exact Or.inl hrows
    have hlast : ¬ r.rowCount ≤ r.rowCount - 1 := by omega
    refine Or.inr ⟨fun c hc => ?_, fun c hc => ?_⟩
    · -- the last row of a column of the schema, gathered
      refine columnInside_of_last hrows rfl (h.gather [r.rowCount - 1] [c.columnId] ?_ _ ?_)
      · intro c' hc'
        exact ⟨c, hc, (List.mem_singleton.mp hc').symm⟩
      · simp [gatherReads, gatherColumnReads, gatherCount, hlast]
    · -- the last row of every column of the file, scanned
      have hone : min kVectorBatchSize (r.rowCount - (r.rowCount - 1)) = 1 := by
        have : 1 ≤ kVectorBatchSize := by decide
        omega
      refine columnInside_of_last hrows rfl (h.vectorBatch ⟨[], []⟩ (r.rowCount - 1) ?_ _ ?_)
      · intro c' hc'
        cases hc'
      · rw [vectorBatchReads, if_neg hlast, hone]
        simp only [one_mul]
        refine List.mem_map.mpr ⟨c.columnId, ?_, rfl⟩
        exact List.mem_map.mpr ⟨c, hc, rfl⟩
  · intro h
    refine ⟨fun options offset hcols range hrange => ?_,
      fun rowOffsets columns hcols range hrange => ?_⟩
    · unfold vectorBatchReads at hrange
      split_ifs at hrange with hoff
      · cases hrange
      obtain ⟨id, hid, rfl⟩ := List.mem_map.mp hrange
      have hrows : r.rowCount ≠ 0 := by omega
      refine inside_of_columnInside (columnInside_of_mem_outColumns h hrows hcols hid) ?_
      rw [← Nat.add_mul]
      exact Nat.mul_le_mul_right _ (by omega)
    · unfold gatherReads at hrange
      split_ifs at hrange with hnil hany
      · cases hrange
      · cases hrange
      obtain ⟨id, hid, hcopy⟩ := List.mem_flatMap.mp hrange
      obtain ⟨offset, hoffset, rfl⟩ := List.mem_map.mp hcopy
      have hlt : offset < r.rowCount := by
        rw [List.any_eq_true] at hany
        by_contra hge
        exact hany ⟨offset, List.mem_of_mem_take hoffset, by simpa using hge⟩
      obtain ⟨c, hc, rfl⟩ := hcols id hid
      refine inside_of_columnInside ((h.resolve_left (by show ¬ r.rowCount = 0; omega)).1 c hc) ?_
      rw [← Nat.succ_mul]
      exact Nat.mul_le_mul_right _ hlt

/-- **Opening a file is refused or harmless just when its metadata, if they decode and are about the
segment, place every column inside the file.** -/
theorem openFile_harmless_iff (schema : TableSchema) (id : SegmentId) (file : Bytes) :
    (∀ r, openFile id (some file) = some r → r.Harmless schema) ↔
      ∀ metadata rest, SegmentMeta.deserialize file = some (metadata, rest) →
        metadata.segmentId = id → metadata.ColumnsInside schema file.length := by
  constructor
  · intro h metadata rest hdec hid
    have hopen : openFile id (some file) = some ⟨id, metadata, file⟩ := by
      simp only [openFile, hdec]
      exact if_neg (not_not.mpr hid)
    exact (harmless_iff _ schema).mp (h _ hopen)
  · intro h r hopen
    simp only [openFile] at hopen
    split at hopen
    · cases hopen
    · next metadata rest hdec =>
      split_ifs at hopen with hid
      cases hopen
      exact (harmless_iff _ schema).mpr (h metadata rest hdec (not_not.mp hid))

end SegmentReader

/-! ## Files that were cut -/

section Cut

open SegmentBuilder SegmentReader

variable {schema : TableSchema} {b : SegmentBuilder} {id : SegmentId}

/-- A written file that is cut in its metadata does not open. -/
theorem openFile_take_eq_none (hfits : (b.finalMeta id).Fits) {n : ℕ} (hn : n < b.metaSize id) :
    openFile id (some ((b.fileBytes id).take n)) = none := by
  rw [← length_serialize_finalMeta] at hn
  have htake : (b.fileBytes id).take n = (b.finalMeta id).serialize.take n := by
    rw [fileBytes, List.take_append_of_le_length hn.le]
  have hdec : SegmentMeta.deserialize ((b.finalMeta id).serialize.take n) = none :=
    (SegmentMeta.decodes hfits).take_eq_none SegmentMeta.stable hn
  rw [openFile, htake, hdec]

/-- A written file that is cut behind its metadata opens like the whole file. -/
theorem openFile_take (hfits : (b.finalMeta id).Fits) {n : ℕ} (hn : b.metaSize id ≤ n) :
    openFile id (some ((b.fileBytes id).take n)) =
      some ⟨id, b.finalMeta id, (b.fileBytes id).take n⟩ := by
  have htake : (b.fileBytes id).take n = (b.finalMeta id).serialize ++
      (b.columnBuilders.flatMap ColumnBuilder.data).take (n - b.metaSize id) := by
    rw [fileBytes, List.take_append, length_serialize_finalMeta, List.take_of_length_le
      (by rwa [length_serialize_finalMeta])]
  have hdec := SegmentMeta.decodes hfits
    ((b.columnBuilders.flatMap ColumnBuilder.data).take (n - b.metaSize id))
  rw [← htake] at hdec
  simp only [openFile, hdec]
  exact if_neg (not_not.mpr rfl)

/-- A file that goes on behind its metadata has rows. -/
theorem rowCount_ne_zero (h : b.WF schema) (hdata : b.metaSize id < (b.fileBytes id).length) :
    b.rowCount ≠ 0 := by
  intro hzero
  have hnil : b.columnBuilders.flatMap ColumnBuilder.data = [] := by
    rw [List.flatMap_eq_nil_iff]
    intro cb hcb
    obtain ⟨i, hi, rfl⟩ := List.getElem_of_mem hcb
    rw [← List.length_eq_zero_iff, h.length_data _ hcb, h.rowCount i hi, hzero, Nat.zero_mul]
  rw [fileBytes, hnil, List.append_nil, length_serialize_finalMeta] at hdata
  omega

/-- The last column of a file reaches to its end. -/
theorem exists_column_to_end (h : b.WF schema) (id : SegmentId)
    (hdistinct : (schema.columns.map ColumnSchema.columnId).Nodup)
    (hdata : b.metaSize id < (b.fileBytes id).length) :
    ∃ c ∈ schema.columns, ∃ m, ((b.finalMeta id).colChunkMetas.find?
        fun m => m.columnId == c.columnId) = some m ∧
      m.dataOffset + b.rowCount * typeElemSize m.type = (b.fileBytes id).length := by
  have hlen : (b.fileBytes id).length =
      b.metaSize id + (b.columnBuilders.flatMap ColumnBuilder.data).length := by
    rw [fileBytes, List.length_append, length_serialize_finalMeta]
  have hne : b.columnBuilders ≠ [] := by
    intro hnil
    rw [hnil, List.flatMap_nil, List.length_nil] at hlen
    omega
  have hpos : 0 < b.columnBuilders.length := List.length_pos_iff.mpr hne
  have hi : b.columnBuilders.length - 1 < b.columnBuilders.length := by omega
  have hi' : b.columnBuilders.length - 1 < schema.columns.length := h.columns ▸ hi
  have hfirst : ∀ j (hj : j < b.columnBuilders.length - 1), schema.columns[j].columnId ≠
      schema.columns[b.columnBuilders.length - 1].columnId := by
    intro j hj
    have hpair := List.pairwise_iff_getElem.mp hdistinct j (b.columnBuilders.length - 1)
      (by rw [List.length_map]; omega) (by rwa [List.length_map]) hj
    rwa [List.getElem_map, List.getElem_map] at hpair
  refine ⟨_, List.getElem_mem hi', _, h.find?_layout hi hi' rfl hfirst (b.metaSize id), ?_⟩
  -- the columns before the last one and the last one are all of them
  have hlast : (b.columnBuilders.take (b.columnBuilders.length - 1)).flatMap ColumnBuilder.data ++
      b.columnBuilders[b.columnBuilders.length - 1].data =
        b.columnBuilders.flatMap ColumnBuilder.data := by
    rw [← List.flatMap_singleton (f := ColumnBuilder.data), ← List.flatMap_append,
      ← List.take_succ_eq_append_getElem hi, List.take_of_length_le (by omega)]
  have hrows : b.columnBuilders[b.columnBuilders.length - 1].data.length = b.rowCount *
      typeElemSize b.columnBuilders[b.columnBuilders.length - 1].metadata.type := by
    rw [h.length_data _ (List.getElem_mem hi), h.rowCount _ hi, ColumnBuilder.elementSize]
  rw [hlen, ← hlast, List.length_append, hrows]
  exact Nat.add_assoc _ _ _

/-- **Of the proper prefixes of a written file exactly those that are cut in the metadata are refused
or harmless.** -/
theorem openFile_take_harmless_iff (h : b.WF schema) (hs : schema.Fits) (hid : Fits32 id)
    (hdistinct : (schema.columns.map ColumnSchema.columnId).Nodup) (hrows : b.rowCount < 2 ^ 32)
    (hfile : (b.fileBytes id).length < 2 ^ 64) {n : ℕ} (hn : n < (b.fileBytes id).length) :
    (∀ r, openFile id (some ((b.fileBytes id).take n)) = some r → r.Harmless schema) ↔
      n < b.metaSize id := by
  have hfits := h.fits_finalMeta hs hid hrows hfile
  constructor
  · intro hall
    by_contra hle
    rw [Nat.not_lt] at hle
    have hharmless := hall _ (openFile_take hfits hle)
    rw [harmless_iff] at hharmless
    obtain ⟨c, hc, m, hfind, hend⟩ :=
      exists_column_to_end h id hdistinct (lt_of_le_of_lt hle hn)
    have hrows : b.rowCount ≠ 0 := rowCount_ne_zero h (lt_of_le_of_lt hle hn)
    obtain ⟨m', hfind', hle'⟩ := (hharmless.resolve_left hrows).1 c hc
    obtain rfl : m = m' := Option.some_inj.mp (hfind.symm.trans hfind')
    have hcut : m.dataOffset + b.rowCount * typeElemSize m.type ≤
        ((b.fileBytes id).take n).length := hle'
    rw [List.length_take, hend] at hcut
    omega
  · intro hlt r hr
    rw [openFile_take_eq_none hfits hlt] at hr
    cases hr

/-- The file of two rows without its last byte, 100 bytes of 101, opens, and the last element of its
last column is read past the end of the mapping. -/
theorem openFile_cut_reads_outside :
    ((ofChunks twoColumnSchema [twoRowChunk]).fileBytes 3).length = 101 ∧
      ∃ r, openFile 3 (some (((ofChunks twoColumnSchema [twoRowChunk]).fileBytes 3).take 100)) =
        some r ∧ ¬ r.Harmless twoColumnSchema := by
  have hwf : (ofChunks twoColumnSchema [twoRowChunk]).WF twoColumnSchema :=
    wf_ofChunks fun c hc => by
      rw [List.mem_singleton.mp hc]
      exact twoRowChunk_fits
  have hfits := hwf.fits_finalMeta twoColumnSchema_fits (by decide : Fits32 3) (by decide)
    (by decide)
  have hopen := openFile_take hfits (n := 100) (by decide)
  refine ⟨by decide, _, hopen, fun hharmless => ?_⟩
  have hiff := openFile_take_harmless_iff (n := 100) hwf twoColumnSchema_fits (by decide : Fits32 3)
    (by decide) (by decide) (by decide) (by decide)
  refine absurd (hiff.mp fun r hr => ?_) (by decide)
  obtain rfl := Option.some_inj.mp (hopen.symm.trans hr)
  exact hharmless

end Cut

end SimpleOlap
