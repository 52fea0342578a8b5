import SimpleOlap.Lib.FileWrite
import SimpleOlap.Storage.Index.TableIndex

/-!
# Table storage

A `TableStorage` owns the segments of one table: the active one that rows are appended to, the sealed
ones that wait for a flush, and the registered ones on disk, listed by the metadata. Source:
`table_storage.h`, `table_storage.cpp`.

* `Disk`: the files of the table's directory.
* `append`, `flush`, `destroy`: the write path; `FlushIO` is what the file system does during a flush.
* `createTable`, `openTable`: the two ways a table comes into memory.
* `lookup`, `readRows`: the index read path. The scans have modules of their own.

Segment ids are `uint32_t` in the code and unbounded here; a file holds their low 32 bits. They agree as
long as fewer than `2 ^ 32` ids are handed out, and what a wrap to 0 would break (the order of the ids, a
file that is written twice) is stated for runs whose `nextSegmentId` stays below that bound. The reader
cache is left out: an id is written at most once, before its first reading.
-/

namespace SimpleOlap

open Lib

/-! ## The directory of a table -/

/-- `table.meta` and the segment files, by id. -/
structure Disk where
  tableMeta : Option Bytes
  segments : SegmentId → Option Bytes

namespace Disk

/-- Open a segment file. Source: GetSegmentReader. -/
def getSegmentReader (disk : Disk) (id : SegmentId) : Option SegmentReader :=
  SegmentReader.openFile id (disk.segments id)

/-- Write a segment file. Source: `segment.cpp` SegmentBuilder::Flush; the writer checks the close. -/
def flushSegment (disk : Disk) (id : SegmentId) (builder : SegmentBuilder) (o : WriteOutcome) :
    Disk × Bool :=
  ({ disk with
      segments := Function.update disk.segments id (o.apply (disk.segments id) (builder.fileBytes id)) },
    o.okClosed)

/-- Write `table.meta`. Source: SaveMeta; the stream is asked before it is closed. -/
def saveMeta (disk : Disk) (metadata : TableStorageMeta) (o : WriteOutcome) : Disk × Bool :=
  ({ disk with tableMeta := o.apply disk.tableMeta metadata.serialize }, o.ok)

end Disk

/-- What the file system does during one flush: the order in which the map of sealed segments is
gone through, and how each write ends. -/
structure FlushIO where
  order : List (SegmentId × SegmentBuilder)
  segment : SegmentId → WriteOutcome
  tableMeta : WriteOutcome

/-! ## State -/

structure TableStorage where
  schema : TableSchema
  metadata : TableStorageMeta
  sealedSegments : List (SegmentId × SegmentBuilder)
  indexManager : TableIndexManager
  pendingVisibleSegments : List SegmentId
  activeSegmentId : SegmentId
  nextSegmentId : SegmentId
  activeSegment : SegmentBuilder

namespace TableStorage

/-- The next id is handed out; `next_segment_id_++` up to `2 ^ 32`. Source: CreateActiveSegment. -/
def createActiveSegment (t : TableStorage) : TableStorage :=
  { t with
    activeSegmentId := t.nextSegmentId
    nextSegmentId := t.nextSegmentId + 1
    activeSegment := SegmentBuilder.new t.schema }

/-- The active segment moves into the map; every caller creates the next active one at once. Source:
SealActiveSegment. -/
def sealActiveSegment (t : TableStorage) : TableStorage :=
  { t with
    sealedSegments :=
      t.sealedSegments.filter (fun s => s.1 != t.activeSegmentId) ++
        [(t.activeSegmentId, t.activeSegment)] }

/-! ## Rebuilding the indexes -/

/-- Register the rows of a segment from `offset` on, batch by batch. Source: RebuildIndexes, the inner
loop. -/
def rebuildSegment (keyColumns : List ColumnId) (id : SegmentId) (reader : SegmentReader)
    (m : TableIndexManager) (offset : ℕ) : Except String TableIndexManager :=
  match _h : reader.getVectorBatch ⟨keyColumns, []⟩ offset with
  | none => .ok m
  | some batch =>
    if 0 < batch.size then
      let locations := (List.range batch.size).map fun i => RowLocation.mk id (offset + i)
      match m.rebuildFromBatch keyColumns batch locations with
      | (_, some e) => .error e
      | (m', none) => rebuildSegment keyColumns id reader m' (offset + batch.size)
    else .ok m
termination_by reader.rowCount - offset
decreasing_by
  have := (SegmentReader.getVectorBatch_eq_some _h).1
  omega

/-- Register the rows of all segments. Source: RebuildIndexes. -/
def rebuildIndexes (disk : Disk) (segmentIds : List SegmentId) (m : TableIndexManager) :
    Except String TableIndexManager :=
  if segmentIds = [] ∨ m.keyColumns = [] then .ok m
  else
    segmentIds.foldlM (fun index id =>
      match disk.getSegmentReader id with
      | none => .error ("TableStorage::RebuildIndexes - failed to open segment " ++ toString id)
      | some reader => rebuildSegment m.keyColumns id reader index 0) m

/-! ## Creating and opening -/

/-- The id behind all listed ones, where the largest is not `2 ^ 32 - 1`. Source: the constructor. -/
def nextFreeId (segmentIds : List SegmentId) : SegmentId :=
  segmentIds.foldl (fun next id => max next (id + 1)) 0

/-- Source: the constructor. -/
def construct (schema : TableSchema) (metadata : TableStorageMeta) (disk : Disk) :
    Except String TableStorage := do
  let next := nextFreeId metadata.segmentIds
  let indexManager ← rebuildIndexes disk metadata.segmentIds (TableIndexManager.new schema)
  return {
    schema, metadata, indexManager
    sealedSegments := []
    pendingVisibleSegments := []
    activeSegmentId := next
    nextSegmentId := next + 1
    activeSegment := SegmentBuilder.new schema }

/-- A new table: `table.meta` is written first. Source: Create. -/
def createTable (tableId : TableId) (schema : TableSchema) (disk : Disk) (o : WriteOutcome) :
    Disk × Except String (Option TableStorage) :=
  let metadata : TableStorageMeta := ⟨tableId, []⟩
  match disk.saveMeta metadata o with
  | (disk', false) => (disk', .ok none)
  | (disk', true) => (disk', some <$> construct schema metadata disk')

/-- A table from its files. Source: Open. -/
def openTable (tableId : TableId) (schema : TableSchema) (disk : Disk) :
    Except String (Option TableStorage) :=
  match disk.tableMeta with
  | none => .ok none
  | some bytes =>
    match TableStorageMeta.deserialize bytes with
    | none => .error "BinaryReader::ReadUInt32 - out of range"
    | some (metadata, _) =>
      if metadata.tableId ≠ tableId then .ok none else some <$> construct schema metadata disk

/-! ## Appending -/

/-- Write a chunk to the active segment; returns where its rows are. Source: AppendInternal. -/
def appendInternal (t : TableStorage) (segmentId : SegmentId) (chunk : DataChunk) :
    TableStorage × List RowLocation :=
  ({ t with activeSegment := t.activeSegment.append chunk },
    (List.range (chunk.size % 2 ^ 32)).map fun i =>
      RowLocation.mk segmentId (t.activeSegment.rowCount + i))

/-- The rows that the active segment can still take. -/
def remaining (t : TableStorage) : ℕ := kMaxSegmentRowCount - t.activeSegment.rowCount

/-- A new active segment has room. -/
@[simp] theorem remaining_createActiveSegment (t : TableStorage) :
    t.createActiveSegment.remaining = kMaxSegmentRowCount := rfl

/-- Fill the active segment, seal it, go on with the rest. Source: Append, the loop. -/
def appendLoop (t : TableStorage) (chunk : DataChunk) (locations : List RowLocation) :
    TableStorage × List RowLocation :=
  if chunk.size = 0 then (t, locations)
  else if chunk.size ≤ t.remaining then
    let (t', appended) := t.appendInternal t.activeSegmentId chunk
    (t', locations ++ appended)
  else
    let cut := chunk.slice t.remaining
    let (t', appended) := t.appendInternal t.activeSegmentId cut.1
    appendLoop t'.sealActiveSegment.createActiveSegment cut.2 (locations ++ appended)
-- a full active segment takes no row, but the segment after it is empty
termination_by 2 * chunk.size + if t.remaining = 0 then 1 else 0
decreasing_by
  have hpos : ¬ kMaxSegmentRowCount = 0 := by decide
  rw [remaining_createActiveSegment, if_neg hpos]
  simp only [DataChunk.size_slice_snd]
  split_ifs <;> omega

/-- Append the rows of a chunk. An exception before the loop leaves the table as it is. Source:
Append. -/
def append (t : TableStorage) (input : DataChunk) : TableStorage × Except String Unit :=
  match t.indexManager.validatePrimaryKey input with
  | .error e => (t, .error e)
  | .ok false => (t, .error "TableStorage::Append - duplicate primary key value")
  | .ok true =>
    let (t', locations) := t.appendLoop input []
    match t'.indexManager.onAppend input locations with
    | (index, some e) => ({ t' with indexManager := index }, .error e)
    | (index, none) => ({ t' with indexManager := index }, .ok ())

/-! ## Flushing -/

/-- A non-empty active segment is sealed. Source: Flush, step 0. -/
def sealPending (t : TableStorage) : TableStorage :=
  if 0 < t.activeSegment.rowCount then t.sealActiveSegment.createActiveSegment else t

/-- Write the sealed segments one after the other and register those written. Source: Flush, step 1. -/
def flushSegments (outcome : SegmentId → WriteOutcome) :
    List (SegmentId × SegmentBuilder) → TableStorage → Disk → TableStorage × Disk
  | [], t, disk => (t, disk)
  | (id, builder) :: rest, t, disk =>
    match disk.flushSegment id builder (outcome id) with
    | (disk', true) =>
      flushSegments outcome rest { t with
        metadata := { t.metadata with segmentIds := t.metadata.segmentIds ++ [id] }
        pendingVisibleSegments := t.pendingVisibleSegments ++ [id] } disk'
    | (disk', false) => flushSegments outcome rest t disk'

/-- Source: Flush. -/
def flush (t : TableStorage) (disk : Disk) (io : FlushIO) : TableStorage × Disk × Bool :=
  let (t₁, disk₁) := flushSegments io.segment io.order t.sealPending disk
  let t₂ := { t₁ with sealedSegments := [] }
  match disk₁.saveMeta t₂.metadata io.tableMeta with
  | (disk₂, true) =>
    ({ t₂ with
        indexManager := t₂.indexManager.markSegmentsVisible t₂.pendingVisibleSegments
        pendingVisibleSegments := [] }, disk₂, true)
  | (disk₂, false) => (t₂, disk₂, false)

/-- The files after the destructor: what is in memory is flushed. Source: the destructor. -/
def destroy (t : TableStorage) (disk : Disk) (io : FlushIO) : Disk :=
  if t.sealPending.sealedSegments = [] then disk else (t.sealPending.flush disk io).2.1

/-! ## Reading by location -/

/-- Source: Lookup. -/
def lookup (t : TableStorage) (keyId : KeyId) (key : EncodedKey) : List RowLocation :=
  t.indexManager.lookup keyId key

/-- Source: ReadRows. -/
def readRows (disk : Disk) (segmentId : SegmentId) (rowOffsets : List ℕ) (columns : List ColumnId) :
    Option VectorBatch :=
  match disk.getSegmentReader segmentId with
  | none => none
  | some reader => reader.gatherRows rowOffsets columns

end TableStorage

end SimpleOlap
