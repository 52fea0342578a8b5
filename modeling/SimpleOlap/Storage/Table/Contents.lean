import SimpleOlap.Lib.WriteBuffer
import SimpleOlap.Storage.Table.Reopen

/-!
# What a table holds, over runs

* `TableStorage.Holds`: the registered segments can be read, and hold the rows of their builders.
* `System.Filed`: a sound table that does, whose entries are each in memory or in a segment that is not; `Filed.append`,
  `Filed.flush` and `Filed.reopen`: the events keep it.
* `System.Shows`: the rows that a scan reads, those in memory, and those that opening the table would find, as the
  contents of a `WriteBuffer`.
* `System.Logged`: a run with its moves; `refines_of_logged`: the table does what the write buffer does.

Source: `table_storage.cpp` Append, Flush, Open and the destructor.
-/

namespace SimpleOlap

open Lib TableIndexManager

/-! ## Registered segments -/

namespace TableStorage

/-- Every registered segment can be read, and holds rows of the table's schema. -/
structure Holds (t : TableStorage) (disk : Disk) (builders : SegmentId → SegmentBuilder) : Prop where
  readable : ∀ id ∈ t.metadata.segmentIds, disk.getSegmentReader id = some (fileReader (builders id) id)
  wf : ∀ id ∈ t.metadata.segmentIds, (builders id).WF t.schema

/-- The rows of some segments, in their order. -/
def rowsOf (builders : SegmentId → SegmentBuilder) (ids : List SegmentId) : List Row :=
  ids.flatMap fun id => (builders id).rows

/-- The rows of the registered segments, in their order. -/
def readableRows (t : TableStorage) (builders : SegmentId → SegmentBuilder) : List Row :=
  t.metadata.segmentIds.flatMap fun id => (builders id).rows

/-- The segments that a flush writes replace those of the same ids. -/
def flushedBuilders (io : FlushIO) (builders : SegmentId → SegmentBuilder) (id : SegmentId) : SegmentBuilder :=
  (io.order.lookup id).getD (builders id)

/-- The rows of the segments whose write succeeds. -/
def writtenRows (io : FlushIO) : List Row :=
  (io.order.filter fun s => (io.segment s.1).okClosed).flatMap fun s => s.2.rows

section Flush

variable {t : TableStorage} {io : FlushIO} {builders : SegmentId → SegmentBuilder}

theorem flushedBuilders_of_notMem {id : SegmentId} (h : id ∉ io.order.map Prod.fst) :
    flushedBuilders io builders id = builders id := by
  have hnone : io.order.lookup id = none := by
    rw [List.lookup_eq_none_iff]
    rintro ⟨id', b⟩ hmem
    have hne : id ≠ id' := fun heq => h (List.mem_map.mpr ⟨(id', b), hmem, heq.symm⟩)
    simpa using hne
  rw [flushedBuilders, hnone, Option.getD_none]

theorem flushedBuilders_of_mem (hnodup : (io.order.map Prod.fst).Nodup) {id : SegmentId} {b : SegmentBuilder}
    (h : (id, b) ∈ io.order) : flushedBuilders io builders id = b := by
  rcases hlookup : io.order.lookup id with _ | b'
  · have hne := List.lookup_eq_none_iff.mp hlookup (id, b) h
    simp at hne
  · obtain ⟨before, after, horder, -⟩ := List.lookup_eq_some_iff.mp hlookup
    have hmem : (id, b') ∈ io.order := horder ▸ List.mem_append_right _ List.mem_cons_self
    rw [flushedBuilders, hlookup, Option.getD_some]
    exact (Prod.mk.inj (List.inj_on_of_nodup_map hnodup hmem h rfl)).2

/-- The rows of the written segments. -/
theorem rowsOf_written (hnodup : (io.order.map Prod.fst).Nodup) :
    rowsOf (flushedBuilders io builders) (written io) = writtenRows io := by
  rw [rowsOf, written, writtenRows, List.flatMap_map]
  refine List.flatMap_congr fun s hs => ?_
  rw [flushedBuilders_of_mem hnodup (List.mem_filter.mp hs).1]

theorem rowsOf_of_notMem {ids : List SegmentId} (h : ∀ id ∈ ids, id ∉ io.order.map Prod.fst) :
    rowsOf (flushedBuilders io builders) ids = rowsOf builders ids :=
  List.flatMap_congr fun id hid => by rw [flushedBuilders_of_notMem (h id hid)]

/-- A flush goes through all rows in memory. -/
theorem Shape.order_rows_perm (h : t.Shape) (hio : io.Visits t) :
    (io.order.flatMap fun s => s.2.rows).Perm t.heldRows := by
  have hheld : t.heldRows = t.sealPending.sealedSegments.flatMap fun s => s.2.rows := by
    rw [h.heldRows_eq]
    unfold TableStorage.sealPending
    split_ifs with hpos
    · rw [sealActiveSegment, createActiveSegment]
      simp [segmentsInMemory, h.filter_sealedSegments]
    · have hempty : t.activeSegment.rows = [] :=
        List.eq_nil_of_length_eq_zero (by rw [SegmentBuilder.length_rows]; omega)
      simp [segmentsInMemory, hempty]
  rw [hheld]
  exact hio.flatMap_right _

/-- Written rows were in memory. -/
theorem Shape.writtenRows_subperm (h : t.Shape) (hio : io.Visits t) : (writtenRows io).Subperm t.heldRows :=
  (List.filter_sublist.flatMap _).subperm.trans (h.order_rows_perm hio).subperm

end Flush

/-- The places of the rows in memory are distinct. -/
theorem Shape.nodup_heldPlaces {t : TableStorage} (h : t.Shape) : t.heldPlaces.Nodup := by
  rw [heldPlaces, List.nodup_flatMap]
  constructor
  · intro s _
    exact List.Nodup.map (fun i j hij => (RowLocation.mk.inj hij).2) List.nodup_range
  · refine h.sorted.imp fun {s s'} hlt l hl hl' => ?_
    obtain ⟨i, -, rfl⟩ := List.mem_map.mp hl
    obtain ⟨j, -, heq⟩ := List.mem_map.mp hl'
    exact absurd (RowLocation.mk.inj heq).1 (ne_of_gt hlt)

end TableStorage

/-! ## The invariant -/

namespace System

variable {tableId : TableId} {schema : TableSchema} {s s' : System} {stored : List StoredRow}
  {builders : SegmentId → SegmentBuilder}

/-- An entry's row is in memory, or its segment is not, and then the file has it if the segment is registered. -/
def Located (schema : TableSchema) (s : System) (row : Row) (l : RowLocation) : Prop :=
  s.table.HoldsAt l row ∨
    s.table.Precedes l.segmentId ∧ (l.segmentId ∈ s.table.metadata.segmentIds → s.disk.HasRow schema l row)

/-- A sound table whose registered segments hold the rows of their builders, and whose entries are located, each at
a place of its own. -/
structure Filed (tableId : TableId) (schema : TableSchema) (s : System) (stored : List StoredRow)
    (builders : SegmentId → SegmentBuilder) : Prop extends Sound tableId schema s stored where
  holds : s.table.Holds s.disk builders
  owner : ∀ metadata, s.disk.readMeta = some metadata → metadata.tableId = tableId
  count : s.table.metadata.segmentIds.length < 2 ^ 32
  located : ∀ row e, (row, e) ∈ stored → s.Located schema row e.place
  distinct : (stored.map fun r => r.2.place).Nodup

/-- A table that comes into memory has its entries in the files. -/
theorem located_of_construct {metadata : TableStorageMeta} {disk : Disk} {t : TableStorage}
    (hcons : TableStorage.construct schema metadata disk = .ok t) {row : Row} {e : IndexEntry}
    (he : (row, e) ∈ loadedRows schema disk metadata.segmentIds) : Located schema ⟨t, disk⟩ row e.place := by
  obtain ⟨-, hmem, hrow⟩ := mem_loadedRows.mp he
  obtain ⟨index, -, rfl⟩ := TableStorage.construct_eq_ok hcons
  refine .inr ⟨fun s hs => ?_, fun _ => hrow⟩
  rw [List.mem_singleton.mp hs]
  exact TableStorage.lt_nextFreeId hmem

/-- What is read of `table.meta` after the table is created. -/
theorem readMeta_of_createTable (htable : Fits32 tableId) {disk disk' : Disk} {o : WriteOutcome} {t : TableStorage}
    (h : TableStorage.createTable tableId schema disk o = (disk', .ok (some t))) {metadata : TableStorageMeta}
    (hread : disk'.readMeta = some metadata) : metadata = ⟨tableId, []⟩ := by
  obtain ⟨hok, rfl, -⟩ := TableStorage.createTable_eq_ok h
  have hfits : TableStorageMeta.Fits ⟨tableId, []⟩ := ⟨htable, Nat.two_pow_pos 32, List.forall_mem_nil _⟩
  by_cases ht : o.Tears (TableStorageMeta.serialize ⟨tableId, []⟩)
  · rw [Disk.readMeta_of_tears hfits ht rfl] at hread
    cases hread
  · rw [Disk.readMeta_of_eq hfits (WriteOutcome.apply_of_ok hok ht disk.tableMeta)] at hread
    exact (Option.some.inj hread).symm

/-- A table that is created has nothing. -/
theorem Filed.created (hs : schema.KeysBound) (htable : Fits32 tableId) {disk disk' : Disk} {o : WriteOutcome}
    {t : TableStorage} (h : TableStorage.createTable tableId schema disk o = (disk', .ok (some t))) :
    Filed tableId schema ⟨t, disk'⟩ [] builders := by
  obtain ⟨-, -, hcons⟩ := TableStorage.createTable_eq_ok h
  have hopened : Opened tableId schema ⟨t, disk'⟩ := .created h
  have hids : t.metadata.segmentIds = [] := by rw [TableStorage.metadata_of_construct hcons]
  have hclean : Clean schema ⟨t, disk'⟩ := by
    refine ⟨?_, ?_⟩
    · show t.metadata.segmentIds.Nodup
      rw [hids]
      exact List.nodup_nil
    · show KeysDistinct schema (loadedRows schema disk' t.metadata.segmentIds)
      rw [hids]
      exact fun _ _ => List.nodup_nil
  have hsound := hopened.sound hs htable hclean
  have hloaded : loadedRows schema disk' t.metadata.segmentIds = [] := by
    rw [hids]
    rfl
  rw [show loadedRows schema (System.mk t disk').disk (System.mk t disk').table.metadata.segmentIds = []
    from hloaded] at hsound
  refine ⟨hsound, ⟨fun id hid => ?_, fun id hid => ?_⟩, fun metadata hread => ?_, ?_,
    fun row e he => absurd he List.not_mem_nil, List.nodup_nil⟩
  · exact absurd (hids ▸ hid) List.not_mem_nil
  · exact absurd (hids ▸ hid) List.not_mem_nil
  · rw [readMeta_of_createTable htable h hread]
  · show t.metadata.segmentIds.length < 2 ^ 32
    rw [hids]
    exact Nat.two_pow_pos 32

namespace Filed

/-- Some front part of the registered segments is filed too. -/
theorem reopen (hs : schema.KeysBound) (h : s.Filed tableId schema stored builders) {t : TableStorage}
    (hopen : TableStorage.openTable tableId schema s.disk = .ok (some t)) :
    Filed tableId schema ⟨t, s.disk⟩ (loadedRows schema s.disk t.metadata.segmentIds) builders := by
  obtain ⟨metadata, hread, -, hcons⟩ := TableStorage.openTable_iff.mp hopen
  obtain rfl := TableStorage.metadata_of_construct hcons
  have hfront := h.persisted _ hread
  have hschema : t.schema = s.table.schema := (TableStorage.shape_of_construct hcons).2.trans h.schema_eq.symm
  refine ⟨h.toSound.reopen hs hopen, ⟨fun id hid => h.holds.readable id (hfront.subset hid), fun id hid => ?_⟩,
    h.owner, lt_of_le_of_lt hfront.length_le h.count, fun row e he => located_of_construct hcons he,
    nodup_places_loadedRows schema s.disk (h.nodup.sublist hfront.sublist)⟩
  show (builders id).WF t.schema
  rw [hschema]
  exact h.holds.wf id (hfront.subset hid)

/-- **An accepted append files its rows in memory.** -/
theorem append (hs : schema.KeysBound) (h : s.Filed tableId schema stored builders) {input : DataChunk}
    (hf : input.Fits schema) (hreads : s.table.ReadsRows input) {t : TableStorage}
    (hok : s.table.append input = (t, .ok ())) : Filed tableId schema ⟨t, s.disk⟩
      (stored ++ storedRows input.rows (s.table.appendLoop input []).2 false) builders := by
  have hsound := h.toSound.append hs hf hreads hok
  have hf' : input.Fits s.table.schema := h.schema_eq.symm ▸ hf
  obtain ⟨index, rfl⟩ := h.append_eq_ok hs hf hok
  have hloop := h.shape.appendLoop hf' []
  rw [TableStorage.readsRows_iff.mp hreads] at hloop
  have hmetadata := hloop.same.metadata
  obtain ⟨appended, happended, hall, hplaces⟩ := hloop.locations
  rw [List.nil_append] at happended
  refine ⟨hsound, ⟨fun id hid => ?_, fun id hid => ?_⟩, h.owner, ?_, fun row e he => ?_, ?_⟩
  · exact h.holds.readable id (hmetadata ▸ hid)
  · show (builders id).WF (s.table.appendLoop input []).1.schema
    rw [hloop.same.schema]
    exact h.holds.wf id (hmetadata ▸ hid)
  · show (s.table.appendLoop input []).1.metadata.segmentIds.length < 2 ^ 32
    rw [hmetadata]
    exact h.count
  · rcases List.mem_append.mp he with he | he
    · rcases h.located row e he with hheld | ⟨hprecedes, hdisk⟩
      · exact .inl (hloop.stays _ _ hheld)
      · exact .inr ⟨hloop.precedes _ hprecedes, fun hid => hdisk (hmetadata ▸ hid)⟩
    · exact .inl (hloop.holdsAt_of_mem (mem_storedRows.mp he).2)
  · have hlen : appended.length = input.rows.length := hall.length_eq
    have hnew : (storedRows input.rows (s.table.appendLoop input []).2 false).map (fun r => r.2.place) =
        appended := by
      rw [happended, storedRows, List.map_zipWith]
      apply List.ext_getElem
      · simp [hlen]
      · intro i hi hi'
        simp
    have hheld := hloop.shape.nodup_heldPlaces
    rw [hplaces] at hheld
    rw [List.map_append, hnew]
    refine h.distinct.append (List.nodup_append.mp hheld).2.1 fun l hl hl' => ?_
    obtain ⟨⟨row, e⟩, he, rfl⟩ := List.mem_map.mp hl
    rcases h.located row e he with hold | ⟨hprecedes, -⟩
    · exact (List.nodup_append.mp hheld).2.2 _ (TableStorage.mem_heldPlaces.mpr ⟨row, hold⟩) _ hl' rfl
    · obtain ⟨_, b, hb, -⟩ := hloop.holdsAt_of_mem_locations (happended ▸ hl')
      exact lt_irrefl _ (hloop.precedes _ hprecedes _ hb)

/-! ### A flush -/

section Flush

variable {io : FlushIO}

/-- The listed segments are not gone through. -/
theorem notMem_order (h : s.Filed tableId schema stored builders) (hio : io.Visits s.table) :
    ∀ id ∈ s.table.metadata.segmentIds, id ∉ io.order.map Prod.fst := fun id hid =>
  h.shape.notMem_order_of_precedes hio (h.ids id hid)

/-- A flush leaves every entry's row in a file, if it lists the segment. -/
theorem located_flush (hs : schema.Bound) (h : s.Filed tableId schema stored builders) (hio : io.Visits s.table)
    (hnext : s.table.sealPending.nextSegmentId < 2 ^ 32) {row : Row} {l : RowLocation}
    (hl : s.Located schema row l) :
    Located schema ⟨(s.table.flush s.disk io).1, (s.table.flush s.disk io).2.1⟩ row l := by
  have hmetadata : (s.table.flush s.disk io).1.metadata = s.table.flushedMeta io := TableStorage.flush_metadata _ _ _
  have hprecedes : ∀ id, id < s.table.sealPending.activeSegmentId →
      (s.table.flush s.disk io).1.Precedes id := by
    intro id hlt b hb
    rw [TableStorage.flush_segmentsInMemory] at hb
    rw [List.mem_singleton.mp hb]
    exact hlt
  right
  rcases hl with hheld | ⟨hfront, hdisk⟩
  · obtain ⟨b, hb, -⟩ := h.shape.mem_order_of_holdsAt hio hheld
    refine ⟨hprecedes _ (h.shape.lt_active_of_mem_order hio hb), fun hid => ?_⟩
    have hid' : l.segmentId ∈ (s.table.flushedMeta io).segmentIds := hmetadata ▸ hid
    rcases List.mem_append.mp hid' with hold | hwritten
    · exact absurd (List.mem_map.mpr ⟨_, hb, rfl⟩) (h.notMem_order hio _ hold)
    · exact h.shape.hasRow_flush_of_holdsAt h.schema_eq hs hio s.disk
        (h.shape.fits32_of_mem_written hio hnext hwritten) hwritten hheld
  · have hnot := h.shape.notMem_order_of_precedes hio hfront
    refine ⟨hprecedes _ (h.shape.precedes_sealPending hfront _ s.table.sealPending.active_mem_segmentsInMemory),
      fun hid => (TableStorage.hasRow_flush_of_notMem s.disk hnot row).mpr (hdisk ?_)⟩
    have hid' : l.segmentId ∈ (s.table.flushedMeta io).segmentIds := hmetadata ▸ hid
    rcases List.mem_append.mp hid' with hold | hwritten
    · exact hold
    · exact absurd (TableStorage.mem_order_of_mem_written hwritten) hnot

/-- The written segments are read back. -/
theorem holds_flush (hs : schema.Bound) (h : s.Filed tableId schema stored builders) (hio : io.Visits s.table)
    (hnext : s.table.sealPending.nextSegmentId < 2 ^ 32) :
    (s.table.flush s.disk io).1.Holds (s.table.flush s.disk io).2.1
      (TableStorage.flushedBuilders io builders) := by
  have hnodup := h.shape.nodup_order hio
  have hcases : ∀ id ∈ (s.table.flush s.disk io).1.metadata.segmentIds,
      (id ∈ s.table.metadata.segmentIds ∧ id ∉ io.order.map Prod.fst) ∨
        ∃ b, (id, b) ∈ io.order ∧ io.segment id = .complete := by
    intro id hid
    rw [TableStorage.flush_metadata] at hid
    rcases List.mem_append.mp hid with hold | hwritten
    · exact .inl ⟨hold, h.notMem_order hio id hold⟩
    · exact .inr (TableStorage.mem_written.mp hwritten)
  constructor
  · intro id hid
    rcases hcases id hid with ⟨hold, hnot⟩ | ⟨b, hb, hok⟩
    · rw [TableStorage.flushedBuilders_of_notMem hnot, Disk.getSegmentReader,
        TableStorage.flush_segments_of_notMem s.disk hnot]
      exact h.holds.readable id hold
    · rw [TableStorage.flushedBuilders_of_mem hnodup hb]
      have hwritten := TableStorage.mem_written.mpr ⟨b, hb, hok⟩
      exact h.shape.getSegmentReader_flush h.schema_eq hs hio s.disk
        (h.shape.fits32_of_mem_written hio hnext hwritten) hb hok
  · intro id hid
    rw [TableStorage.flush_schema]
    rcases hcases id hid with ⟨hold, hnot⟩ | ⟨b, hb, -⟩
    · rw [TableStorage.flushedBuilders_of_notMem hnot]
      exact h.holds.wf id hold
    · rw [TableStorage.flushedBuilders_of_mem hnodup hb]
      exact h.shape.wf_of_mem_order rfl hio hb

/-- **A flush files the rows of the segments that it writes.** -/
theorem flush (hs : schema.Bound) (htable : Fits32 tableId) (h : s.Filed tableId schema stored builders)
    (hio : io.Visits s.table) (hnext : s.table.sealPending.nextSegmentId < 2 ^ 32) :
    Filed tableId schema ⟨(s.table.flush s.disk io).1, (s.table.flush s.disk io).2.1⟩
      (Consistent.flushedRows s.table io stored) (TableStorage.flushedBuilders io builders) := by
  have hfits := h.toConsistent.fits_flushedMeta htable hio hnext
  refine ⟨h.toSound.flush hs htable hio hnext, h.holds_flush hs hio hnext, fun metadata hread => ?_, ?_,
    fun row e he => ?_, ?_⟩
  · have hdisk := TableStorage.flush_tableMeta s.table s.disk io
    by_cases ht : io.tableMeta.Tears (s.table.flushedMeta io).serialize
    · rw [Disk.readMeta_of_tears hfits ht hdisk] at hread
      cases hread
    · rcases Disk.readMeta_of_not_tears hfits ht hdisk with hold | hnew
      · exact h.owner metadata (hold.symm.trans hread)
      · obtain rfl := Option.some.inj (hnew.symm.trans hread)
        exact h.tableId_eq
  · show (s.table.flush s.disk io).1.metadata.segmentIds.length < 2 ^ 32
    rw [TableStorage.flush_metadata]
    exact hfits.segmentCount
  · obtain ⟨e₀, he₀, hplace, -⟩ := Consistent.mem_flushedRows he
    rw [hplace]
    exact h.located_flush hs hio hnext (h.located row e₀ he₀)
  · have hplaces : ∀ rows : List StoredRow, (rows.map fun r => r.2.place) = (rows.map placed).map Prod.snd := by
      intro rows
      rw [List.map_map]
      rfl
    rw [hplaces, Tracked.map_placed_flushedRows, ← hplaces]
    exact h.distinct

end Flush

end Filed

/-! ## The write buffer -/

/-- The rows that opening the table would find. -/
def durableRows (s : System) (builders : SegmentId → SegmentBuilder) : Option (Multiset Row) :=
  s.disk.readMeta.map fun metadata => ↑(TableStorage.rowsOf builders metadata.segmentIds)

/-- The table holds what the write buffer does. -/
structure Shows (s : System) (builders : SegmentId → SegmentBuilder) (g : WriteBuffer Row) : Prop where
  durable : s.durableRows builders = g.durable
  listed : ↑(s.table.readableRows builders) = g.listed
  buffered : ↑s.table.heldRows = g.buffered

/-- What a write of `table.meta` leaves to be read. -/
def savedBy (o : WriteOutcome) (new : Bytes) : Saved :=
  match o with
  | .complete => .current
  | .notOpened => .previous
  | .stopped n | .lostAtClose n => if n < new.length then .nothing else .current

/-- A flush, as a move. -/
def flushMove (s : System) (io : FlushIO) : Move Row :=
  .flush ↑(TableStorage.writtenRows io) (savedBy io.tableMeta (s.table.flushedMeta io).serialize)

/-- The moves of an event: an append that is rejected accepts nothing, and the destructor flushes if there is
anything to flush. -/
def moves (s : System) : Event → List (Move Row)
  | .append input =>
    match (s.table.append input).2 with
    | .ok () => [.accept ↑input.rows]
    | .error _ => []
  | .flush io => [s.flushMove io]
  | .crash => [.restart]
  | .close io => if s.table.sealPending.sealedSegments = [] then [.restart] else [s.flushMove io, .restart]

/-! ### One event -/

section Moves

variable {g : WriteBuffer Row}

/-- The rows of registered segments are not changed by a flush. -/
theorem Filed.rowsOf_front (h : s.Filed tableId schema stored builders) {io : FlushIO} (hio : io.Visits s.table)
    {ids : List SegmentId} (hfront : ids <+: s.table.metadata.segmentIds) :
    TableStorage.rowsOf (TableStorage.flushedBuilders io builders) ids = TableStorage.rowsOf builders ids :=
  TableStorage.rowsOf_of_notMem fun id hid => h.notMem_order hio id (hfront.subset hid)

/-- The registered rows after a flush. -/
theorem Filed.rowsOf_flushedMeta (h : s.Filed tableId schema stored builders) {io : FlushIO}
    (hio : io.Visits s.table) :
    TableStorage.rowsOf (TableStorage.flushedBuilders io builders) (s.table.flushedMeta io).segmentIds =
      s.table.readableRows builders ++ TableStorage.writtenRows io := by
  rw [TableStorage.rowsOf, TableStorage.flushedMeta, List.flatMap_append]
  exact congrArg₂ _ (h.rowsOf_front hio List.prefix_rfl) (TableStorage.rowsOf_written (h.shape.nodup_order hio))

/-- What opening the table would find after a flush. -/
theorem Filed.durableRows_flush (htable : Fits32 tableId) (h : s.Filed tableId schema stored builders)
    {io : FlushIO} (hio : io.Visits s.table) (hnext : s.table.sealPending.nextSegmentId < 2 ^ 32) :
    durableRows ⟨(s.table.flush s.disk io).1, (s.table.flush s.disk io).2.1⟩
        (TableStorage.flushedBuilders io builders) =
      WriteBuffer.save (s.durableRows builders)
        ↑(s.table.readableRows builders ++ TableStorage.writtenRows io)
        (savedBy io.tableMeta (s.table.flushedMeta io).serialize) := by
  have hfits := h.toConsistent.fits_flushedMeta htable hio hnext
  have hdisk := TableStorage.flush_tableMeta s.table s.disk io
  have hcurrent : (s.table.flush s.disk io).2.1.readMeta = some (s.table.flushedMeta io) →
      durableRows ⟨(s.table.flush s.disk io).1, (s.table.flush s.disk io).2.1⟩
          (TableStorage.flushedBuilders io builders) =
        some ↑(s.table.readableRows builders ++ TableStorage.writtenRows io) := by
    intro hread
    rw [durableRows, hread, Option.map_some, h.rowsOf_flushedMeta hio]
  have hpartly : ∀ n : ℕ, (s.table.flush s.disk io).2.1.tableMeta =
        some ((s.table.flushedMeta io).serialize.take n) →
      durableRows ⟨(s.table.flush s.disk io).1, (s.table.flush s.disk io).2.1⟩
          (TableStorage.flushedBuilders io builders) =
        WriteBuffer.save (s.durableRows builders)
          ↑(s.table.readableRows builders ++ TableStorage.writtenRows io)
          (if n < (s.table.flushedMeta io).serialize.length then .nothing else .current) := by
    intro n hn
    by_cases hlt : n < (s.table.flushedMeta io).serialize.length
    · have hstopped : (s.table.flush s.disk io).2.1.tableMeta =
          (WriteOutcome.stopped n).apply s.disk.tableMeta (s.table.flushedMeta io).serialize := hn
      have htears : (WriteOutcome.stopped n).Tears (s.table.flushedMeta io).serialize := hlt
      have hnone := Disk.readMeta_of_tears hfits htears hstopped
      rw [if_pos hlt, durableRows, hnone]
      rfl
    · rw [if_neg hlt]
      rw [List.take_of_length_le (not_lt.mp hlt)] at hn
      exact hcurrent (Disk.readMeta_of_eq hfits hn)
  cases ho : io.tableMeta with
  | complete =>
    rw [ho, WriteOutcome.apply_complete] at hdisk
    exact hcurrent (Disk.readMeta_of_eq hfits hdisk)
  | notOpened =>
    rw [ho, WriteOutcome.apply_notOpened] at hdisk
    have hread : (s.table.flush s.disk io).2.1.readMeta = s.disk.readMeta := by
      rw [Disk.readMeta, hdisk, Disk.readMeta]
    rw [savedBy, WriteBuffer.save, durableRows, hread, durableRows]
    rcases hmeta : s.disk.readMeta with _ | metadata
    · rfl
    · rw [Option.map_some, Option.map_some, h.rowsOf_front hio (h.persisted metadata hmeta)]
  | stopped n =>
    rw [ho] at hdisk
    exact hpartly n hdisk
  | lostAtClose n =>
    rw [ho] at hdisk
    exact hpartly n hdisk

/-- After a flush nothing is in memory. -/
theorem heldRows_flush (h : (s.table.flush s.disk io).1.Shape) : (s.table.flush s.disk io).1.heldRows = [] := by
  rw [h.heldRows_eq, TableStorage.flush_segmentsInMemory]
  exact List.eq_nil_of_length_eq_zero (by simp [TableStorage.rowCount_active_sealPending])

/-- **A flush is a flush of the write buffer.** -/
theorem Shows.flush (htable : Fits32 tableId) (h : s.Filed tableId schema stored builders) (hg : s.Shows builders g)
    {io : FlushIO} (hio : io.Visits s.table) (hnext : s.table.sealPending.nextSegmentId < 2 ^ 32) :
    ∃ g', WriteBuffer.Step g (s.flushMove io) g' ∧
      Shows ⟨(s.table.flush s.disk io).1, (s.table.flush s.disk io).2.1⟩
        (TableStorage.flushedBuilders io builders) g' := by
  have hkept : (↑(TableStorage.writtenRows io) : Multiset Row) ≤ g.buffered := by
    rw [← hg.buffered]
    exact h.shape.writtenRows_subperm hio
  refine ⟨_, .flush g _ hkept, ?_, ?_, ?_⟩
  · rw [← hg.durable, ← hg.listed, Multiset.coe_add]
    exact h.durableRows_flush htable hio hnext
  · show (↑(TableStorage.rowsOf _ (s.table.flush s.disk io).1.metadata.segmentIds) : Multiset Row) = g.listed + _
    rw [TableStorage.flush_metadata, h.rowsOf_flushedMeta hio, ← hg.listed, Multiset.coe_add]
  · exact congrArg _ (heldRows_flush (h.shape.flush s.disk io))

/-- **Opening the table again is a restart.** -/
theorem Shows.reopen (hg : s.Shows builders g) {t : TableStorage}
    (hopen : TableStorage.openTable tableId schema s.disk = .ok (some t)) :
    ∃ g', WriteBuffer.Step g .restart g' ∧ Shows ⟨t, s.disk⟩ builders g' := by
  obtain ⟨metadata, hread, -, hcons⟩ := TableStorage.openTable_iff.mp hopen
  obtain rfl := TableStorage.metadata_of_construct hcons
  have hdurable : g.durable = some ↑(TableStorage.rowsOf builders t.metadata.segmentIds) := by
    rw [← hg.durable, durableRows, hread, Option.map_some]
  refine ⟨_, .restart g hdurable, ?_, rfl, ?_⟩
  · exact hg.durable.trans hdurable
  · obtain ⟨index, -, heq⟩ := TableStorage.construct_eq_ok hcons
    show ↑t.heldRows = (0 : Multiset Row)
    rw [(TableStorage.shape_of_construct hcons).1.heldRows_eq, heq]
    rfl

/-- **An accepted append is accepted by the write buffer.** -/
theorem Shows.append (hs : schema.KeysBound) (h : s.Filed tableId schema stored builders) (hg : s.Shows builders g)
    {input : DataChunk} (hf : input.Fits schema) (hreads : s.table.ReadsRows input) {t : TableStorage}
    (hok : s.table.append input = (t, .ok ())) :
    ∃ g', WriteBuffer.Step g (.accept ↑input.rows) g' ∧ Shows ⟨t, s.disk⟩ builders g' := by
  obtain ⟨index, rfl⟩ := h.append_eq_ok hs hf hok
  have hloop := h.shape.appendLoop (h.schema_eq.symm ▸ hf) []
  rw [TableStorage.readsRows_iff.mp hreads] at hloop
  refine ⟨_, .accept g _, hg.durable, ?_, ?_⟩
  · show (↑(TableStorage.rowsOf builders (s.table.appendLoop input []).1.metadata.segmentIds) : Multiset Row) = g.listed
    rw [hloop.same.metadata]
    exact hg.listed
  · show (↑(TableStorage.heldRows _) : Multiset Row) = g.buffered + ↑input.rows
    rw [(hloop.shape.withIndex index).heldRows_eq, ← hg.buffered, h.shape.heldRows_eq, Multiset.coe_add]
    exact congrArg _ hloop.held

/-- **Every faithful event is a sequence of moves of the write buffer.** -/
theorem Filed.step (hs : schema.Bound) (htable : Fits32 tableId) (h : s.Filed tableId schema stored builders)
    (hg : s.Shows builders g) {e : Event} (hst : Step tableId schema s e s') (hfaithful : s.Faithful e) :
    ∃ stored' builders' g', s'.Filed tableId schema stored' builders' ∧ s'.Shows builders' g' ∧
      WriteBuffer.Run g (s.moves e) g' := by
  cases hst with
  | @append input hf =>
    rw [moves]
    rcases hres : s.table.append input with ⟨t, e | ⟨⟩⟩
    · obtain rfl := h.append_error hs.toKeysBound hf hres
      exact ⟨stored, builders, g, h, hg, .nil g⟩
    · obtain ⟨g', hstep, hg'⟩ := hg.append hs.toKeysBound h hf hfaithful.1 hres
      exact ⟨_, builders, g', h.append hs.toKeysBound hf hfaithful.1 hres, hg', .single hstep⟩
  | @flush io hio =>
    obtain ⟨g', hstep, hg'⟩ := hg.flush htable h hio hfaithful
    exact ⟨_, _, g', h.flush hs htable hio hfaithful, hg', .single hstep⟩
  | crash hopen =>
    obtain ⟨g', hstep, hg'⟩ := hg.reopen hopen
    exact ⟨_, builders, g', h.reopen hs.toKeysBound hopen, hg', .single hstep⟩
  | @close io t hio hopen =>
    rw [moves]
    rw [TableStorage.destroy_eq] at hopen ⊢
    split_ifs at hopen ⊢
    · obtain ⟨g', hstep, hg'⟩ := hg.reopen hopen
      exact ⟨_, builders, g', h.reopen hs.toKeysBound hopen, hg', .single hstep⟩
    · obtain ⟨g', hstep, hg'⟩ := hg.flush htable h hio hfaithful
      obtain ⟨g'', hstep', hg''⟩ := hg'.reopen hopen
      exact ⟨_, _, g'', (h.flush hs htable hio hfaithful).reopen hs.toKeysBound hopen, hg'',
        .cons hstep (.single hstep')⟩

end Moves

/-! ## Runs -/

/-- Runs of faithful events from the creation of the table, with their moves. -/
inductive Logged (tableId : TableId) (schema : TableSchema) : List (Move Row) → System → Prop
  | created {disk disk' : Disk} {o : WriteOutcome} {t : TableStorage}
      (h : TableStorage.createTable tableId schema disk o = (disk', .ok (some t))) :
      Logged tableId schema [] ⟨t, disk'⟩
  | next {moves : List (Move Row)} {s s' : System} {e : Event} (h : Logged tableId schema moves s)
      (hst : Step tableId schema s e s') (hfaithful : s.Faithful e) :
      Logged tableId schema (moves ++ s.moves e) s'

/-- A table that is created shows an empty write buffer. -/
theorem shows_created (htable : Fits32 tableId) {disk disk' : Disk} {o : WriteOutcome} {t : TableStorage}
    (h : TableStorage.createTable tableId schema disk o = (disk', .ok (some t))) :
    ∃ g : WriteBuffer Row, g.Fresh ∧ Shows ⟨t, disk'⟩ builders g := by
  obtain ⟨-, -, hcons⟩ := TableStorage.createTable_eq_ok h
  refine ⟨⟨durableRows ⟨t, disk'⟩ builders, 0, 0⟩, ⟨fun found hfound => ?_, rfl, rfl⟩, rfl, ?_, ?_⟩
  · obtain ⟨metadata, hread, rfl⟩ := Option.map_eq_some_iff.mp hfound
    rw [readMeta_of_createTable htable h hread]
    rfl
  · show (↑(TableStorage.rowsOf builders t.metadata.segmentIds) : Multiset Row) = 0
    rw [TableStorage.metadata_of_construct hcons]
    rfl
  · obtain ⟨index, -, heq⟩ := TableStorage.construct_eq_ok hcons
    show ↑t.heldRows = (0 : Multiset Row)
    rw [(TableStorage.shape_of_construct hcons).1.heldRows_eq, heq]
    rfl

/-- **A table does what a write buffer does**, over every run. -/
theorem filed_of_logged (hs : schema.Bound) (htable : Fits32 tableId) {moves : List (Move Row)}
    (hrun : Logged tableId schema moves s) :
    ∃ stored builders g₀ g, s.Filed tableId schema stored builders ∧ s.Shows builders g ∧ g₀.Fresh ∧
      WriteBuffer.Run g₀ moves g := by
  induction hrun with
  | created h =>
    obtain ⟨g, hfresh, hshows⟩ := shows_created htable h
    exact ⟨[], fun _ => SegmentBuilder.new schema, g, g, .created hs.toKeysBound htable h, hshows, hfresh, .nil g⟩
  | next _ hst hfaithful ih =>
    obtain ⟨stored, builders, g₀, g, hfiled, hshows, hfresh, hsofar⟩ := ih
    obtain ⟨stored', builders', g', hfiled', hshows', hmoves⟩ := hfiled.step hs htable hshows hst hfaithful
    exact ⟨stored', builders', g₀, g', hfiled', hshows', hfresh, hsofar.append hmoves⟩

/-- The rows in the files of the registered segments. -/
def registeredRows (schema : TableSchema) (s : System) : List Row :=
  (loadedRows schema s.disk s.table.metadata.segmentIds).map Prod.fst

/-- They are the rows of the builders. -/
theorem Filed.registeredRows_eq (hs : schema.Bound) (h : s.Filed tableId schema stored builders) :
    s.registeredRows schema = s.table.readableRows builders := by
  rw [registeredRows, loadedRows, List.map_flatMap, TableStorage.readableRows]
  refine List.flatMap_congr fun id hid => ?_
  rw [h.holds.readable id hid]
  have hcount : (fileReader (builders id) id).rowCount = (builders id).rowCount := rfl
  simp only [loadedFrom, List.map_map, hcount, Nat.sub_zero, ← List.range_eq_range', SegmentBuilder.rows]
  refine List.map_congr_left fun j hj => ?_
  exact diskRow_fileReader hs (h.schema_eq ▸ h.holds.wf id hid) id (List.mem_range.mp hj)

/-- The table opens again exactly when something is durable, and then with those rows. -/
theorem Filed.durable_iff (hs : schema.Bound) (h : s.Filed tableId schema stored builders) {g : WriteBuffer Row}
    (hg : s.Shows builders g) {found : Multiset Row} : g.durable = some found ↔
      ∃ t, TableStorage.openTable tableId schema s.disk = .ok (some t) ∧
        ↑(registeredRows schema ⟨t, s.disk⟩) = found := by
  constructor
  · intro hfound
    obtain ⟨metadata, hread, -⟩ := Option.map_eq_some_iff.mp (hg.durable.trans hfound)
    have hreadable : (TableIndexManager.new schema).keyColumns = [] ∨
        ∀ id ∈ metadata.segmentIds, ∃ reader, s.disk.getSegmentReader id = some reader :=
      .inr fun id hid => ⟨_, h.holds.readable id ((h.persisted metadata hread).subset hid)⟩
    obtain ⟨t, hcons⟩ := TableStorage.construct_of_readable hs.inSchema hreadable
    have hopen := TableStorage.openTable_iff.mpr ⟨metadata, hread, h.owner metadata hread, hcons⟩
    obtain ⟨g', hstep, hg'⟩ := hg.reopen hopen
    refine ⟨t, hopen, ?_⟩
    rw [(h.reopen hs.toKeysBound hopen).registeredRows_eq hs, hg'.listed]
    cases hstep with
    | restart hdurable => exact Option.some.inj (hdurable.symm.trans hfound)
  · rintro ⟨t, hopen, rfl⟩
    obtain ⟨g', hstep, hg'⟩ := hg.reopen hopen
    rw [(h.reopen hs.toKeysBound hopen).registeredRows_eq hs, hg'.listed]
    cases hstep with
    | restart hdurable => exact hdurable

/-- **A table is a write buffer.** Over every run of appends, flushes with whatever outcome, crashes and orderly ends
with the table opened again, whose appends read the rows of their chunks: the rows in the registered segments are
what the write buffer lists, those in memory what it buffers, and opening the table again succeeds exactly when
something is durable, and finds that. So no row is made up or repeated; and while all writes succeed, the registered
rows are those that were accepted and then flushed. -/
theorem refines_writeBuffer (hs : schema.Bound) (htable : Fits32 tableId) {moves : List (Move Row)}
    (hrun : Logged tableId schema moves s) :
    ∃ g₀ g : WriteBuffer Row, g₀.Fresh ∧ WriteBuffer.Run g₀ moves g ∧
      ↑(s.registeredRows schema) = g.listed ∧ ↑s.table.heldRows = g.buffered ∧
      (∀ found, g.durable = some found ↔ ∃ t, TableStorage.openTable tableId schema s.disk = .ok (some t) ∧
        ↑(registeredRows schema ⟨t, s.disk⟩) = found) ∧
      (↑(s.registeredRows schema ++ s.table.heldRows) : Multiset Row) ≤ (moves.map Move.accepted).sum ∧
      (WriteBuffer.Complete 0 moves → ↑(s.registeredRows schema) = WriteBuffer.flushedItems 0 moves) := by
  obtain ⟨stored, builders, g₀, g, hfiled, hshows, hfresh, hmoves⟩ := filed_of_logged hs htable hrun
  have hlisted : (↑(s.registeredRows schema) : Multiset Row) = g.listed := by
    rw [hfiled.registeredRows_eq hs, hshows.listed]
  refine ⟨g₀, g, hfresh, hmoves, hlisted, hshows.buffered, fun found => hfiled.durable_iff hs hshows, ?_,
    fun hcomplete => hlisted.trans (hmoves.listed_eq_flushedItems hfresh hcomplete)⟩
  rw [← Multiset.coe_add, hlisted, hshows.buffered]
  exact hmoves.le_accepted hfresh

end System

/-! ### One row, flushed -/

/-- The run that appends one row and flushes it. -/
theorem System.logged_oneRow : Logged 0 keyedSchema
    [.accept ↑oneRowChunk.rows, .flush ↑oneRowChunk.rows .current] (Tracked.oneRow.flushed savedFlush) := by
  have hcreate : TableStorage.createTable 0 keyedSchema ⟨none, fun _ => none⟩ .complete =
      (Disk.fresh 0, .ok (some (TableStorage.fresh 0 keyedSchema))) := rfl
  have happend : ((TableStorage.fresh 0 keyedSchema).append oneRowChunk).2 = .ok () := by
    unfold TableStorage.append
    rw [TableStorage.appendLoop]
    rfl
  have hrun := (Logged.created hcreate).next (.append oneRowChunk_fits_keyed) faithful_oneRowChunk
  have hmoves : System.moves ⟨TableStorage.fresh 0 keyedSchema, Disk.fresh 0⟩ (.append oneRowChunk) =
      [.accept ↑oneRowChunk.rows] := by
    rw [System.moves, happend]
  rw [hmoves] at hrun
  exact hrun.next (.flush Tracked.savedFlush_visits) Tracked.oneRow_next.2

theorem System.refines_writeBuffer_oneRow :
    (↑((Tracked.oneRow.flushed savedFlush).registeredRows keyedSchema) : Multiset Row) = {[[7, 0, 0, 0]]} := by
  obtain ⟨_, _, -, -, -, -, -, -, hcomplete⟩ :=
    refines_writeBuffer keyedSchema_bound (Nat.two_pow_pos 32) System.logged_oneRow
  refine (hcomplete (.accept ?_)).trans ?_
  · rw [zero_add]
    exact .flush (.nil 0)
  · rfl

end SimpleOlap
