import SimpleOlap.Storage.Table.Keys
import Mathlib.Data.List.Perm.Subperm

/-!
# The files of a flush, read back

* `TableSchema.Bound`: what the binder makes sure of about a schema.
* `diskRow_fileReader`: a written segment file holds the rows of its builder.
* `Disk.readMeta`: what `table.meta` says, if it can be read; `readMeta_of_tears` and
  `readMeta_of_not_tears`: what a write of it leaves to be read.
* `hasRow_flush_of_holdsAt`, `holdsAt_of_hasRow_flush`, `hasRow_flush_of_notMem`: the rows in the segment
  files after a flush.
-/

namespace SimpleOlap

open Lib

/-- What the binder makes sure of: the column ids are distinct, the keys are over them. Source:
`binder.cpp` BindCreateTable. -/
structure TableSchema.Bound (schema : TableSchema) : Prop extends schema.KeysBound where
  columnIds : (schema.columns.map ColumnSchema.columnId).Nodup
  fits : schema.Fits

/-! ## Segment files -/

namespace TableSchema.Bound

variable {schema : TableSchema}

/-- A column is found at its place. -/
theorem columnIndex_getElem (h : schema.Bound) {i : ℕ} (hi : i < schema.columns.length) :
    columnIndex schema schema.columns[i].columnId = some i := by
  rw [columnIndex, List.findIdx?_eq_some_iff_getElem]
  refine ⟨hi, by simp, fun j hj => ?_⟩
  have hne : schema.columns[j].columnId ≠ schema.columns[i].columnId := by
    have hpair := List.pairwise_iff_getElem.mp h.columnIds j i (by simpa using lt_trans hj hi)
      (by simpa using hi) hj
    simpa using hpair
  simpa using hne

/-- All columns of a row are the row. -/
theorem project_columnIds (h : schema.Bound) {row : Row} (hlen : row.length = schema.columns.length) :
    project schema (schema.columns.map ColumnSchema.columnId) row = row := by
  apply List.ext_getElem
  · simp [project, hlen]
  · intro i hi hi'
    have hi₀ : i < schema.columns.length := hlen ▸ hi'
    simp [project, rowCell, h.columnIndex_getElem hi₀, hi']

end TableSchema.Bound

/-- **A written segment file holds the rows of its builder.** -/
theorem diskRow_fileReader {schema : TableSchema} (hs : schema.Bound) {b : SegmentBuilder}
    (hb : b.WF schema) (id : SegmentId) {j : ℕ} (hj : j < b.rowCount) :
    diskRow schema (fileReader b id) j = b.rowAt j := by
  have hcols : ∀ c ∈ schema.columns.map ColumnSchema.columnId, schema.HasColumn c := by
    intro c hc
    obtain ⟨col, hcol, rfl⟩ := List.mem_map.mp hc
    exact ⟨col, hcol, rfl⟩
  rw [diskRow, rowAt_fileReader hb hcols hj, hs.project_columnIds]
  simp [SegmentBuilder.rowAt, hb.columns]

/-- A segment file that opens has an id that fits. -/
theorem Disk.fits32_of_getSegmentReader {disk : Disk} {id : SegmentId} {reader : SegmentReader}
    (h : disk.getSegmentReader id = some reader) : Fits32 id := by
  unfold getSegmentReader SegmentReader.openFile at h
  rcases hfile : disk.segments id with _ | bytes
  · simp [hfile] at h
  · rcases hdec : SegmentMeta.deserialize bytes with _ | ⟨metadata, rest⟩
    · simp [hfile, hdec] at h
    · have hfits := SegmentMeta.yields_segmentId _ _ _ hdec
      simp only [hfile, hdec, ne_eq, ite_not] at h
      by_cases hid : metadata.segmentId = id
      · exact hid ▸ hfits
      · simp [hid] at h

/-! ## `table.meta` -/

/-- What `table.meta` says, if it can be read. -/
def Disk.readMeta (disk : Disk) : Option TableStorageMeta :=
  disk.tableMeta.bind fun bytes => (TableStorageMeta.deserialize bytes).map Prod.fst

section ReadMeta

variable {disk disk' : Disk} {metadata : TableStorageMeta} {o : WriteOutcome}

/-- A write that breaks off leaves nothing to be read. -/
theorem Disk.readMeta_of_tears (h : metadata.Fits) (ht : o.Tears metadata.serialize)
    (hdisk : disk'.tableMeta = o.apply disk.tableMeta metadata.serialize) : disk'.readMeta = none := by
  obtain ⟨n, hn, heq⟩ := WriteOutcome.apply_of_tears ht disk.tableMeta
  rw [readMeta, hdisk, heq, Option.bind_some, TableStorageMeta.deserialize_take_eq_none h hn]
  rfl

/-- The whole file is read back. -/
theorem Disk.readMeta_of_eq (h : metadata.Fits) (hdisk : disk'.tableMeta = some metadata.serialize) :
    disk'.readMeta = some metadata := by
  rw [readMeta, hdisk, Option.bind_some, (TableStorageMeta.decodes h).run_eq]
  rfl

/-- Any other write leaves the old metadata or the new. -/
theorem Disk.readMeta_of_not_tears (h : metadata.Fits) (ht : ¬ o.Tears metadata.serialize)
    (hdisk : disk'.tableMeta = o.apply disk.tableMeta metadata.serialize) :
    disk'.readMeta = disk.readMeta ∨ disk'.readMeta = some metadata := by
  rcases WriteOutcome.apply_of_not_tears ht disk.tableMeta with heq | heq
  · left
    rw [readMeta, hdisk, heq]
    rfl
  · exact .inr (readMeta_of_eq h (hdisk.trans heq))

end ReadMeta

/-- A table is opened on the metadata that are read. -/
theorem TableStorage.openTable_iff {tableId : TableId} {schema : TableSchema} {disk : Disk}
    {t : TableStorage} : openTable tableId schema disk = .ok (some t) ↔
      ∃ metadata, disk.readMeta = some metadata ∧ metadata.tableId = tableId ∧
        construct schema metadata disk = .ok t := by
  constructor
  · intro h
    obtain ⟨bytes, metadata, rest, hbytes, hdec, hid, hcons⟩ := openTable_eq_ok h
    refine ⟨metadata, ?_, hid, hcons⟩
    rw [Disk.readMeta, hbytes, Option.bind_some, hdec]
    rfl
  · rintro ⟨metadata, hread, hid, hcons⟩
    unfold openTable
    rcases hbytes : disk.tableMeta with _ | bytes
    · simp [Disk.readMeta, hbytes] at hread
    · rcases hdec : TableStorageMeta.deserialize bytes with _ | ⟨metadata', rest⟩
      · simp [Disk.readMeta, hbytes, hdec] at hread
      · obtain rfl : metadata' = metadata := by simpa [Disk.readMeta, hbytes, hdec] using hread
        simp only [hdec, hid, ne_eq, not_true_eq_false, if_false, hcons]
        rfl

/-! ## A flush -/

namespace TableStorage

section Flush

variable {schema : TableSchema} {t : TableStorage} {io : FlushIO}

/-- Ids that come before those in memory stay so. -/
theorem Shape.precedes_sealPending (h : t.Shape) {id : SegmentId} (hid : t.Precedes id) :
    t.sealPending.Precedes id := by
  unfold TableStorage.sealPending
  split_ifs
  · exact h.precedes_next hid
  · exact hid

/-- Each sealed segment is gone through once. -/
theorem Shape.nodup_order (h : t.Shape) (hio : io.Visits t) : (io.order.map Prod.fst).Nodup :=
  ((hio.map Prod.fst).nodup_iff).mpr h.sealPending.nodup_sealed

/-- What is gone through is in memory. -/
theorem mem_segmentsInMemory_of_mem_order (hio : io.Visits t) {s : SegmentId × SegmentBuilder}
    (hs : s ∈ io.order) : s ∈ t.sealPending.segmentsInMemory :=
  List.mem_append_left _ (hio.mem_iff.mp hs)

/-- What is gone through comes before the segment that is active afterwards. -/
theorem Shape.lt_active_of_mem_order (h : t.Shape) (hio : io.Visits t)
    {s : SegmentId × SegmentBuilder} (hs : s ∈ io.order) : s.1 < t.sealPending.activeSegmentId :=
  (List.pairwise_append.mp h.sealPending.sorted).2.2 s (hio.mem_iff.mp hs) _
    (List.mem_singleton_self _)

/-- Written segments were gone through. -/
theorem mem_order_of_mem_written {id : SegmentId} (h : id ∈ written io) :
    id ∈ io.order.map Prod.fst := by
  obtain ⟨b, hb, -⟩ := mem_written.mp h
  exact List.mem_map.mpr ⟨(id, b), hb, rfl⟩

/-- Ids that come before those in memory are not gone through. -/
theorem Shape.notMem_order_of_precedes (h : t.Shape) (hio : io.Visits t) {id : SegmentId}
    (hid : t.Precedes id) : id ∉ io.order.map Prod.fst := by
  intro hmem
  obtain ⟨s, hs, rfl⟩ := List.mem_map.mp hmem
  exact lt_irrefl _ (h.precedes_sealPending hid s (mem_segmentsInMemory_of_mem_order hio hs))

/-- A row in memory is in a segment that is gone through. -/
theorem Shape.mem_order_of_holdsAt (h : t.Shape) (hio : io.Visits t) {l : RowLocation} {row : Row}
    (hl : t.HoldsAt l row) : ∃ b, (l.segmentId, b) ∈ io.order ∧ l.rowOffset < b.rowCount ∧
      b.rowAt l.rowOffset = row := by
  obtain ⟨b, hb, hrest⟩ := mem_sealed_of_holdsAt_sealPending (h.holdsAt_sealPending hl)
  exact ⟨b, hio.mem_iff.mpr hb, hrest⟩

/-- After a flush no row is in memory. -/
theorem not_holdsAt_flush (t : TableStorage) (disk : Disk) (io : FlushIO) (l : RowLocation)
    (row : Row) : ¬ (t.flush disk io).1.HoldsAt l row := by
  rintro ⟨b, hb, hlt, -⟩
  rw [flush_segmentsInMemory] at hb
  obtain ⟨-, rfl⟩ := Prod.mk.inj (List.mem_singleton.mp hb)
  rw [rowCount_active_sealPending] at hlt
  exact Nat.not_lt_zero _ hlt

/-- The builder of a segment that is gone through is well formed. -/
theorem Shape.wf_of_mem_order (h : t.Shape) (hschema : t.schema = schema) (hio : io.Visits t)
    {s : SegmentId × SegmentBuilder} (hs : s ∈ io.order) : s.2.WF schema := by
  have hwf := h.sealPending.builders _ (mem_segmentsInMemory_of_mem_order hio hs)
  rwa [t.sameRegistered_sealPending.schema, hschema] at hwf

/-- The file of a written segment opens when its id fits. -/
theorem Shape.getSegmentReader_flush (h : t.Shape) (hschema : t.schema = schema) (hs : schema.Bound)
    (hio : io.Visits t) (disk : Disk) {id : SegmentId} (hid : Fits32 id) {b : SegmentBuilder}
    (hb : (id, b) ∈ io.order) (hok : io.segment id = .complete) :
    (t.flush disk io).2.1.getSegmentReader id = some (fileReader b id) := by
  rw [Disk.getSegmentReader, flush_segments_of_mem disk (h.nodup_order hio) hb, hok,
    WriteOutcome.apply_complete]
  exact openFile_fileBytes (h.wf_of_mem_order hschema hio hb) hs.fits hid
    (h.sealPending.capacity _ (mem_segmentsInMemory_of_mem_order hio hb))

/-- **The files of written segments hold no other rows than those that were in memory.** -/
theorem Shape.holdsAt_of_hasRow_flush (h : t.Shape) (hschema : t.schema = schema) (hs : schema.Bound)
    (hio : io.Visits t) (disk : Disk) {l : RowLocation} (hl : l.segmentId ∈ written io) {row : Row}
    (hrow : (t.flush disk io).2.1.HasRow schema l row) : t.HoldsAt l row := by
  obtain ⟨b, hb, hok⟩ := mem_written.mp hl
  obtain ⟨reader, hreader, hlt, hrow⟩ := hrow
  have hreader' := h.getSegmentReader_flush hschema hs hio disk
    (Disk.fits32_of_getSegmentReader hreader) hb hok
  obtain rfl : fileReader b l.segmentId = reader := Option.some.inj (hreader'.symm.trans hreader)
  refine h.holdsAt_of_sealPending ⟨b, mem_segmentsInMemory_of_mem_order hio hb, hlt, ?_⟩
  rwa [← diskRow_fileReader hs (h.wf_of_mem_order hschema hio hb) l.segmentId hlt]

/-- **The files of written segments hold the rows that were in memory.** -/
theorem Shape.hasRow_flush_of_holdsAt (h : t.Shape) (hschema : t.schema = schema) (hs : schema.Bound)
    (hio : io.Visits t) (disk : Disk) {l : RowLocation} (hid : Fits32 l.segmentId)
    (hl : l.segmentId ∈ written io) {row : Row} (hold : t.HoldsAt l row) :
    (t.flush disk io).2.1.HasRow schema l row := by
  obtain ⟨b, hb, hok⟩ := mem_written.mp hl
  obtain ⟨b', hb', hlt, hrow⟩ := h.mem_order_of_holdsAt hio hold
  obtain rfl : b = b' :=
    (Prod.mk.inj (List.inj_on_of_nodup_map (h.nodup_order hio) hb hb' rfl)).2
  exact ⟨_, h.getSegmentReader_flush hschema hs hio disk hid hb hok, hlt,
    (diskRow_fileReader hs (h.wf_of_mem_order hschema hio hb) l.segmentId hlt).trans hrow⟩

/-- The ids that are gone through fit when the next one does. -/
theorem Shape.fits32_of_mem_written (h : t.Shape) (hio : io.Visits t)
    (hnext : t.sealPending.nextSegmentId < 2 ^ 32) {id : SegmentId} (hid : id ∈ written io) :
    Fits32 id := by
  obtain ⟨b, hb, -⟩ := mem_written.mp hid
  exact lt_trans (h.sealPending.below _ (mem_segmentsInMemory_of_mem_order hio hb)) hnext

/-- Other segment files stay as they are. -/
theorem hasRow_flush_of_notMem (disk : Disk) {l : RowLocation}
    (hl : l.segmentId ∉ io.order.map Prod.fst) (row : Row) :
    (t.flush disk io).2.1.HasRow schema l row ↔ disk.HasRow schema l row := by
  simp only [Disk.HasRow, Disk.getSegmentReader, flush_segments_of_notMem disk hl]

/-- The written ids are new and distinct. -/
theorem Shape.nodup_flushedMeta (h : t.Shape) (hio : io.Visits t)
    (hnodup : t.metadata.segmentIds.Nodup) (hids : ∀ id ∈ t.metadata.segmentIds, t.Precedes id) :
    (t.flushedMeta io).segmentIds.Nodup := by
  have hwritten : (written io).Nodup :=
    (h.nodup_order hio).sublist (List.filter_sublist.map Prod.fst)
  refine hnodup.append hwritten fun id hid hid' => ?_
  exact h.notMem_order_of_precedes hio (hids id hid) (mem_order_of_mem_written hid')

/-- All listed ids come before the segment that is active after a flush. -/
theorem Shape.lt_active_of_mem_flushedMeta (h : t.Shape) (hio : io.Visits t)
    (hids : ∀ id ∈ t.metadata.segmentIds, t.Precedes id) {id : SegmentId}
    (hid : id ∈ (t.flushedMeta io).segmentIds) : id < t.sealPending.activeSegmentId := by
  rcases List.mem_append.mp hid with hid | hid
  · exact h.precedes_sealPending (hids id hid) _ t.sealPending.active_mem_segmentsInMemory
  · obtain ⟨b, hb, -⟩ := mem_written.mp hid
    exact h.lt_active_of_mem_order hio hb

/-- The metadata of a flush fit their fields. -/
theorem Shape.fits_flushedMeta (h : t.Shape) (hio : io.Visits t)
    (hids : ∀ id ∈ t.metadata.segmentIds, t.Precedes id) (hnodup : t.metadata.segmentIds.Nodup)
    (htable : Fits32 t.metadata.tableId) (hnext : t.sealPending.nextSegmentId < 2 ^ 32) :
    (t.flushedMeta io).Fits := by
  have hactive : t.sealPending.activeSegmentId < t.sealPending.nextSegmentId :=
    h.sealPending.below _ t.sealPending.active_mem_segmentsInMemory
  have hlt : ∀ id ∈ (t.flushedMeta io).segmentIds, id < t.sealPending.nextSegmentId :=
    fun id hid => lt_trans (h.lt_active_of_mem_flushedMeta hio hids hid) hactive
  refine ⟨htable, lt_of_le_of_lt ?_ hnext, fun id hid => lt_trans (hlt id hid) hnext⟩
  have hsub : (t.flushedMeta io).segmentIds ⊆ List.range t.sealPending.nextSegmentId :=
    fun id hid => List.mem_range.mpr (hlt id hid)
  simpa using ((h.nodup_flushedMeta hio hnodup hids).subperm hsub).length_le

end Flush

end TableStorage

end SimpleOlap
