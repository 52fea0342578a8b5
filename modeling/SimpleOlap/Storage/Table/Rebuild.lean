import SimpleOlap.Storage.Table.Run
import Mathlib.Data.List.Dedup

/-!
# Rebuilding the indexes

Opening a table registers the rows of its segments in the indexes again, visible at once.

* `TableSchema.KeysBound`: what the binder makes sure of about the keys of a schema.
* `diskRow`: a row of a segment file, as a row of the schema's columns; `loadedRows`: the rows of the
  listed segments, with their locations.
* `System.Opened.represents`: a table comes into memory with indexes that hold exactly the loaded
  rows.
-/

namespace SimpleOlap

open Lib

/-- Every key has a column, and its columns are columns of the schema. Source: `binder.cpp`
BindCreateTable. -/
structure TableSchema.KeysBound (schema : TableSchema) : Prop where
  nonempty : ∀ key ∈ schema.keys, key.columns ≠ []
  inSchema : schema.KeysInSchema

/-! ## The rows on disk -/

/-- Row `j` of a segment file, in all columns of the schema. -/
def diskRow (schema : TableSchema) (reader : SegmentReader) (j : ℕ) : Row :=
  reader.rowAt (schema.columns.map ColumnSchema.columnId) j

/-- Some columns of the row are those cells of the file. -/
theorem project_diskRow {schema : TableSchema} {columns : List ColumnId}
    (h : ∀ id ∈ columns, schema.HasColumn id) (reader : SegmentReader) (j : ℕ) :
    project schema columns (diskRow schema reader j) = reader.rowAt columns j := by
  apply List.map_congr_left
  intro id hid
  obtain ⟨i, hindex, hi, hcid, -⟩ := columnIndex_eq_some (h id hid)
  rw [rowCell, hindex]
  simp [diskRow, SegmentReader.rowAt, hi, hcid]

/-- The rows of a segment from `offset` on, with their locations. -/
def loadedFrom (schema : TableSchema) (id : SegmentId) (reader : SegmentReader) (offset : ℕ) :
    List StoredRow :=
  (List.range' offset (reader.rowCount - offset)).map fun j =>
    (diskRow schema reader j, ⟨⟨id, j⟩, true⟩)

/-- The rows of the listed segments that open, with their locations. -/
def loadedRows (schema : TableSchema) (disk : Disk) (segmentIds : List SegmentId) : List StoredRow :=
  segmentIds.flatMap fun id =>
    match disk.getSegmentReader id with
    | none => []
    | some reader => loadedFrom schema id reader 0

/-- A segment file holds a row at a place. -/
def Disk.HasRow (schema : TableSchema) (disk : Disk) (l : RowLocation) (row : Row) : Prop :=
  ∃ reader, disk.getSegmentReader l.segmentId = some reader ∧ l.rowOffset < reader.rowCount ∧
    diskRow schema reader l.rowOffset = row

/-- A loaded row is a row of a listed segment, at its place. -/
theorem mem_loadedRows {schema : TableSchema} {disk : Disk} {segmentIds : List SegmentId} {row : Row}
    {e : IndexEntry} : (row, e) ∈ loadedRows schema disk segmentIds ↔
      e.visible = true ∧ e.place.segmentId ∈ segmentIds ∧ disk.HasRow schema e.place row := by
  simp only [loadedRows, List.mem_flatMap]
  constructor
  · rintro ⟨id, hid, hmem⟩
    rcases hreader : disk.getSegmentReader id with _ | reader
    · simp [hreader] at hmem
    · simp only [hreader, loadedFrom, List.mem_map, List.mem_range'_1, Prod.mk.injEq] at hmem
      obtain ⟨j, hj, rfl, rfl⟩ := hmem
      exact ⟨rfl, hid, reader, hreader, by simpa using hj, rfl⟩
  · rintro ⟨hvisible, hid, reader, hreader, hlt, rfl⟩
    obtain ⟨⟨id, j⟩, visible⟩ := e
    obtain rfl : visible = true := hvisible
    refine ⟨id, hid, ?_⟩
    simp only [hreader, loadedFrom, List.mem_map, List.mem_range'_1]
    exact ⟨j, by simpa using hlt, rfl⟩

/-- The places of the loaded rows are distinct when the listed ids are. -/
theorem nodup_places_loadedRows (schema : TableSchema) (disk : Disk) {segmentIds : List SegmentId}
    (h : segmentIds.Nodup) :
    ((loadedRows schema disk segmentIds).map fun r => r.2.place).Nodup := by
  rw [loadedRows, List.map_flatMap, List.nodup_flatMap]
  constructor
  · intro id _
    rcases disk.getSegmentReader id with _ | reader
    · exact List.nodup_nil
    · simp only [loadedFrom, List.map_map]
      refine List.Nodup.map (fun i j hij => ?_) List.nodup_range'
      exact (RowLocation.mk.inj hij).2
  · refine h.imp fun {id id'} hne l hl hl' => hne ?_
    have hseg : ∀ i : SegmentId, l ∈ (match disk.getSegmentReader i with
        | none => []
        | some reader => loadedFrom schema i reader 0).map (fun r : StoredRow => r.2.place) →
        l.segmentId = i := by
      intro i hi
      rcases hreader : disk.getSegmentReader i with _ | reader
      · simp [hreader] at hi
      · simp only [hreader, loadedFrom, List.map_map, List.mem_map] at hi
        obtain ⟨j, -, rfl⟩ := hi
        rfl
    exact (hseg id hl).symm.trans (hseg id' hl')

/-! ## The columns read -/

/-- The columns read are those of the keys. -/
theorem TableIndexManager.mem_keyColumns {m : TableIndexManager} {id : ColumnId} :
    id ∈ m.keyColumns ↔ ∃ key ∈ m.schema.keys, id ∈ key.columns := by
  simp only [keyColumns, List.mem_mergeSort, List.mem_dedup, List.mem_append, List.mem_flatMap,
    TableSchema.keys]
  constructor
  · rintro (⟨key, hkey, hid⟩ | ⟨key, hkey, hid⟩)
    · exact ⟨key, .inr hkey, hid⟩
    · exact ⟨key, .inl hkey, hid⟩
  · rintro ⟨key, hkey | hkey, hid⟩
    · exact .inr ⟨key, hkey, hid⟩
    · exact .inl ⟨key, hkey, hid⟩

namespace TableStorage

variable {schema : TableSchema}

/-! ## One segment -/

section Segment

variable {keyColumns : List ColumnId} {reader : SegmentReader}

/-- A batch of rows is registered as it stands in the file. -/
theorem represents_rebuildFromBatch (id : SegmentId) (hkeys : schema.KeysInSchema)
    (hne : keyColumns ≠ [])
    (hcols : ∀ c, c ∈ keyColumns ↔ ∃ key ∈ schema.keys, c ∈ key.columns)
    {stored : List StoredRow} {m : TableIndexManager} (h : m.Represents schema stored) {offset : ℕ}
    {batch : VectorBatch} (hbatch : reader.getVectorBatch ⟨keyColumns, []⟩ offset = some batch) :
    ∃ m', m.rebuildFromBatch keyColumns batch
        ((List.range batch.size).map fun i => RowLocation.mk id (offset + i)) = (m', none) ∧
      m'.Represents schema (stored ++ (List.range' offset batch.size).map fun j =>
        (diskRow schema reader j, ⟨⟨id, j⟩, true⟩)) := by
  have hin : ∀ c ∈ keyColumns, schema.HasColumn c := by
    intro c hc
    obtain ⟨key, hkey, hmem⟩ := (hcols c).mp hc
    exact hkeys key hkey c hmem
  have hout : reader.outColumns keyColumns = keyColumns := if_neg hne
  have henc : ∀ key ∈ schema.keys, ∀ i < ((List.range batch.size).map fun i =>
      diskRow schema reader (offset + i)).length,
      KeyEncoder.encodeBatch m.schema key keyColumns batch i =
        .ok (rowKey schema key (((List.range batch.size).map fun i =>
          diskRow schema reader (offset + i)).getD i [])) := by
    intro key hkey i hi
    have hi₀ : i < batch.size := by simpa using hi
    have hrow : batch.physicalRow i =
        project schema keyColumns (diskRow schema reader (offset + i)) := by
      rw [SegmentReader.physicalRow_getVectorBatch hbatch, project_diskRow hin, hout]
    rw [h.schema_eq, KeyEncoder.encodeBatch_eq (hkeys key hkey)
      (fun c hc => (hcols c).mpr ⟨key, hkey, hc⟩) hrow]
    simp [hi₀]
  have hlen : ((List.range batch.size).map fun i => RowLocation.mk id (offset + i)).length =
      ((List.range batch.size).map fun i => diskRow schema reader (offset + i)).length := by simp
  obtain ⟨m', hins, hrep⟩ := TableIndexManager.represents_insertAll h hlen henc true
  refine ⟨m', hins, ?_⟩
  have hrows : storedRows ((List.range batch.size).map fun i => diskRow schema reader (offset + i))
      ((List.range batch.size).map fun i => RowLocation.mk id (offset + i)) true =
      (List.range' offset batch.size).map fun j =>
        (diskRow schema reader j, (⟨⟨id, j⟩, true⟩ : IndexEntry)) := by
    apply List.ext_getElem <;> simp [storedRows]
  rwa [hrows] at hrep

/-- **The rows of a segment are registered from the offset on.** -/
theorem represents_rebuildSegment (id : SegmentId) (reader : SegmentReader)
    (hkeys : schema.KeysInSchema) (hne : keyColumns ≠ [])
    (hcols : ∀ c, c ∈ keyColumns ↔ ∃ key ∈ schema.keys, c ∈ key.columns)
    {stored : List StoredRow} {m : TableIndexManager} (h : m.Represents schema stored) (offset : ℕ) :
    ∃ m', rebuildSegment keyColumns id reader m offset = .ok m' ∧
      m'.Represents schema (stored ++ loadedFrom schema id reader offset) := by
  fun_induction rebuildSegment keyColumns id reader m offset generalizing stored
  case case1 m offset hnone =>
    have hle := SegmentReader.getVectorBatch_eq_none_iff.mp hnone
    refine ⟨m, rfl, ?_⟩
    rwa [loadedFrom, Nat.sub_eq_zero_of_le hle, List.range'_zero, List.map_nil, List.append_nil]
  case case2 m offset batch hbatch hpos locations m' e hins =>
    obtain ⟨m'', hins', -⟩ := represents_rebuildFromBatch id hkeys hne hcols h hbatch
    cases hins.symm.trans hins'
  case case3 m offset batch hbatch hpos locations m' hins ih =>
    obtain ⟨m'', hins', hrep⟩ := represents_rebuildFromBatch id hkeys hne hcols h hbatch
    obtain rfl : m' = m'' := (Prod.mk.inj (hins.symm.trans hins')).1
    obtain ⟨m₃, hrest, hrep₃⟩ := ih hrep
    obtain ⟨hlt, hsize, -⟩ := SegmentReader.getVectorBatch_eq_some hbatch
    refine ⟨m₃, hrest, ?_⟩
    have hsplit : reader.rowCount - offset =
        batch.size + (reader.rowCount - (offset + batch.size)) := by omega
    rw [loadedFrom, hsplit, ← List.range'_append_1, List.map_append, ← List.append_assoc]
    exact hrep₃
  case case4 m offset batch hbatch hzero =>
    exact absurd (SegmentReader.size_getVectorBatch_pos hbatch) hzero

end Segment

/-! ## All segments -/

/-- The loop over the segments registers the rows of all of them. -/
theorem represents_foldlM (hkeys : schema.KeysInSchema) {keyColumns : List ColumnId}
    (hne : keyColumns ≠ []) (hcols : ∀ c, c ∈ keyColumns ↔ ∃ key ∈ schema.keys, c ∈ key.columns)
    (disk : Disk) : ∀ (ids : List SegmentId) {stored : List StoredRow} {m m' : TableIndexManager},
      m.Represents schema stored →
      (ids.foldlM (fun index id =>
        match disk.getSegmentReader id with
        | none => .error ("TableStorage::RebuildIndexes - failed to open segment " ++ toString id)
        | some reader => rebuildSegment keyColumns id reader index 0) m :
          Except String TableIndexManager) = .ok m' →
      m'.Represents schema (stored ++ loadedRows schema disk ids)
  | [], stored, m, m', h, hok => by
    cases hok
    simpa [loadedRows] using h
  | id :: ids, stored, m, m', h, hok => by
    rw [List.foldlM_cons] at hok
    rcases hreader : disk.getSegmentReader id with _ | reader
    · simp only [hreader] at hok
      cases hok
    · simp only [hreader] at hok
      obtain ⟨m₁, hseg, hrep⟩ :=
        represents_rebuildSegment id reader hkeys hne hcols h 0
      rw [hseg] at hok
      have hrest := represents_foldlM hkeys hne hcols disk ids hrep hok
      rw [loadedRows, List.flatMap_cons, hreader, ← List.append_assoc]
      exact hrest

/-- Without keys there is nothing to hold. -/
theorem represents_of_no_keys (h : schema.keys = []) (stored : List StoredRow) :
    (TableIndexManager.new schema).Represents schema stored := by
  obtain ⟨hprimary, hsecondary⟩ := List.append_eq_nil_iff.mp h
  have hnone : schema.primaryKey = none := by simpa using hprimary
  have hnew := TableIndexManager.represents_new schema
  refine ⟨rfl, fun key hkey => ?_, hnew.noPrimary, ?_⟩
  · simp [hnone] at hkey
  · simp [TableIndexManager.new, hsecondary]

/-- A table is constructed with indexes that hold exactly the loaded rows. -/
theorem represents_construct (hkeys : schema.KeysBound) {metadata : TableStorageMeta} {disk : Disk}
    {t : TableStorage} (h : construct schema metadata disk = .ok t) :
    t.indexManager.Represents schema (loadedRows schema disk metadata.segmentIds) := by
  obtain ⟨index, hindex, rfl⟩ := construct_eq_ok h
  show index.Represents schema _
  unfold rebuildIndexes at hindex
  have hcols : ∀ c, c ∈ (TableIndexManager.new schema).keyColumns ↔
      ∃ key ∈ schema.keys, c ∈ key.columns := fun c => TableIndexManager.mem_keyColumns
  by_cases hids : metadata.segmentIds = []
  · rw [if_pos (.inl hids)] at hindex
    cases hindex
    rw [hids]
    exact TableIndexManager.represents_new schema
  · by_cases hnone : (TableIndexManager.new schema).keyColumns = []
    · rw [if_pos (.inr hnone)] at hindex
      cases hindex
      apply represents_of_no_keys
      rw [List.eq_nil_iff_forall_not_mem]
      intro key hkey
      obtain ⟨c, hc⟩ := List.exists_mem_of_ne_nil _ (hkeys.nonempty key hkey)
      have hmem := (hcols c).mpr ⟨key, hkey, hc⟩
      rw [hnone] at hmem
      exact List.not_mem_nil hmem
    · rw [if_neg (not_or.mpr ⟨hids, hnone⟩)] at hindex
      have hrep := represents_foldlM hkeys.inSchema hnone hcols disk metadata.segmentIds
        (TableIndexManager.represents_new schema) hindex
      rwa [List.nil_append] at hrep

end TableStorage

/-- **A table comes into memory with indexes that hold exactly the rows of its files.** -/
theorem System.Opened.represents {tableId : TableId} {schema : TableSchema} (hkeys : schema.KeysBound)
    {s : System} (h : System.Opened tableId schema s) :
    s.table.indexManager.Represents schema (loadedRows schema s.disk s.table.metadata.segmentIds) := by
  obtain ⟨metadata, hcons, -⟩ := h.construct
  rw [TableStorage.metadata_of_construct hcons]
  exact TableStorage.represents_construct hkeys hcons

end SimpleOlap
