import SimpleOlap.Storage.Datastructs

/-!
# Scan conditions and physical metadata

The rest of `datastructs.h`, and `table_storage_meta.h`: what a scan asks for (`Condition`,
`ScanOptions`), what an index points at (`RowLocation`), and the metadata that segment files and
`table.meta` hold (`ColumnChunkMeta`, `SegmentMeta`, `TableStorageMeta`) with its round trips.
-/

namespace SimpleOlap

open Lib

/-! ## Conditions -/

/-- The constant of a condition. -/
inductive Literal
  | int32 (value : Int32)
  | int64 (value : Int64)
  | double (value : Double)
  | string (value : Bytes)
  deriving DecidableEq

/-- A predicate that is pushed down to a scan. -/
structure Condition where
  column : ColumnId
  op : CmpOp
  value : Literal
  deriving DecidableEq

/-- The projection and the pushed predicates, joined by AND. -/
structure ScanOptions where
  columns : List ColumnId
  predicates : List Condition
  deriving DecidableEq

/-- A row of a segment. -/
structure RowLocation where
  segmentId : SegmentId
  rowOffset : ℕ
  deriving DecidableEq, Repr

/-! ## Column chunks -/

/-- What a segment file says of one column. -/
structure ColumnChunkMeta where
  columnId : ColumnId
  type : DataType
  dataOffset : ℕ
  hasStats : Bool
  minValue : Double
  maxValue : Double
  deriving DecidableEq

namespace ColumnChunkMeta

/-- The bytes of the metadata of a column. -/
def serialize (m : ColumnChunkMeta) : Bytes :=
  writeUInt32 m.columnId ++ (writeUInt8 m.type.toByte ++ (writeUInt64 m.dataOffset ++
    (writeUInt8 (flagByte m.hasStats) ++ (writeDouble m.minValue ++ writeDouble m.maxValue))))

/-- The metadata of a column, from its bytes. -/
def deserialize : Decoder ColumnChunkMeta := do
  let columnId ← readUInt32
  let type ← DataType.ofByte <$> readUInt8
  let dataOffset ← readUInt64
  let hasStats ← readFlag
  let minValue ← readDouble
  let maxValue ← readDouble
  return ⟨columnId, type, dataOffset, hasStats, minValue, maxValue⟩

/-- What a file can hold of the metadata of a column. -/
structure Fits (m : ColumnChunkMeta) : Prop where
  columnId : Fits32 m.columnId
  dataOffset : m.dataOffset < 2 ^ 64

/-- The metadata of a column is read back. -/
theorem decodes {m : ColumnChunkMeta} (h : m.Fits) : Decodes deserialize m.serialize m := by
  have htype := Decodes.map DataType.ofByte (decodes_readUInt8 m.type.toByte_lt)
  rw [DataType.ofByte_toByte] at htype
  refine Decodes.bind (decodes_readUInt32 h.columnId) ?_
  refine Decodes.bind htype ?_
  refine Decodes.bind (decodes_readUInt64 h.dataOffset) ?_
  refine Decodes.bind (decodes_readFlag m.hasStats) ?_
  refine Decodes.bind (decodes_readDouble m.minValue) ?_
  rw [← List.append_nil (writeDouble m.maxValue)]
  exact Decodes.bind (decodes_readDouble m.maxValue) (Decodes.pure m)

/-- More bytes change no metadata of a column that was read. -/
theorem stable : Stable deserialize :=
  Stable.bind stable_readUInt32 fun _ => Stable.bind (Stable.map _ stable_readUInt8) fun _ =>
    Stable.bind stable_readUInt64 fun _ => Stable.bind stable_readFlag fun _ =>
      Stable.bind stable_readDouble fun _ => Stable.bind stable_readDouble fun _ => Stable.pure _

/-- The size does not depend on the values. -/
@[simp] theorem length_serialize (m : ColumnChunkMeta) : m.serialize.length = 30 := by
  simp [serialize, writeUInt32, writeUInt8, writeUInt64, writeDouble]

end ColumnChunkMeta

/-! ## Segment metadata -/

/-- `std::to_string` of an id, the name of a segment file. -/
def toStringBytes (id : ℕ) : Bytes := (Nat.toDigits 10 id).map fun c => UInt8.ofNat c.toNat

/-- A 32-bit id has at most ten digits. -/
theorem length_toStringBytes {id : ℕ} (h : Fits32 id) : (toStringBytes id).length ≤ 10 := by
  have hlt : id < 10 ^ 10 := lt_trans h (by decide)
  rw [toStringBytes, List.length_map]
  exact (Nat.length_toDigits_le_iff (by decide) (by decide)).mpr hlt

/-- What a segment file says of itself. -/
structure SegmentMeta where
  segmentId : SegmentId
  rowCount : ℕ
  path : Bytes
  colChunkMetas : List ColumnChunkMeta
  deriving DecidableEq

namespace SegmentMeta

/-- The bytes of the metadata of a segment. -/
def serialize (m : SegmentMeta) : Bytes :=
  writeUInt32 m.segmentId ++ (writeUInt32 m.rowCount ++ (writeString m.path ++
    writeVector ColumnChunkMeta.serialize m.colChunkMetas))

/-- The metadata of a segment, from its bytes. -/
def deserialize : Decoder SegmentMeta := do
  let segmentId ← readUInt32
  let rowCount ← readUInt32
  let path ← readString
  let colChunkMetas ← readVector ColumnChunkMeta.deserialize
  return ⟨segmentId, rowCount, path, colChunkMetas⟩

/-- What a file can hold of the metadata of a segment. -/
structure Fits (m : SegmentMeta) : Prop where
  segmentId : Fits32 m.segmentId
  rowCount : Fits32 m.rowCount
  path : Fits32 m.path.length
  chunkCount : Fits32 m.colChunkMetas.length
  colChunkMetas : ∀ c ∈ m.colChunkMetas, c.Fits

/-- **The metadata of a segment is read back.** -/
theorem decodes {m : SegmentMeta} (h : m.Fits) : Decodes deserialize m.serialize m := by
  have hchunks :=
    decodes_readVector h.chunkCount fun c hc => ColumnChunkMeta.decodes (h.colChunkMetas c hc)
  refine Decodes.bind (decodes_readUInt32 h.segmentId) ?_
  refine Decodes.bind (decodes_readUInt32 h.rowCount) ?_
  refine Decodes.bind (decodes_readString h.path) ?_
  rw [← List.append_nil (writeVector ColumnChunkMeta.serialize m.colChunkMetas)]
  exact Decodes.bind hchunks (Decodes.pure m)

/-- More bytes change no metadata of a segment that was read. -/
theorem stable : Stable deserialize :=
  Stable.bind stable_readUInt32 fun _ => Stable.bind stable_readUInt32 fun _ =>
    Stable.bind stable_readString fun _ =>
      Stable.bind (stable_readVector ColumnChunkMeta.stable) fun _ => Stable.pure _

/-- The id that is read fits its field. -/
theorem yields_segmentId : Yields deserialize fun m => Fits32 m.segmentId :=
  Yields.bind (Yields.uintLE 4) fun _ hid => Yields.bind (Yields.trivial _) fun _ _ =>
    Yields.bind (Yields.trivial _) fun _ _ => Yields.bind (Yields.trivial _) fun _ _ =>
      Yields.pure hid

/-- The size depends on the name's length and the number of columns only. -/
theorem length_serialize (m : SegmentMeta) :
    m.serialize.length = 16 + m.path.length + 30 * m.colChunkMetas.length := by
  have h : (m.colChunkMetas.flatMap ColumnChunkMeta.serialize).length =
      m.colChunkMetas.length * 30 := length_flatMap_const _ ColumnChunkMeta.length_serialize _
  simp only [serialize, writeString, writeVector, writeUInt32, List.length_append, length_leBytes, h]
  omega

end SegmentMeta

/-! ## table.meta -/

/-- What `table.meta` says. -/
structure TableStorageMeta where
  tableId : TableId
  segmentIds : List SegmentId
  deriving DecidableEq, Repr

namespace TableStorageMeta

/-- The bytes of `table.meta`. -/
def serialize (m : TableStorageMeta) : Bytes :=
  writeUInt32 m.tableId ++ writeVector writeUInt32 m.segmentIds

/-- The content of `table.meta`, from its bytes. -/
def deserialize : Decoder TableStorageMeta := do
  let tableId ← readUInt32
  let segmentIds ← readVector readUInt32
  return ⟨tableId, segmentIds⟩

/-- What `table.meta` can hold. -/
structure Fits (m : TableStorageMeta) : Prop where
  tableId : Fits32 m.tableId
  segmentCount : Fits32 m.segmentIds.length
  segmentIds : ∀ id ∈ m.segmentIds, Fits32 id

/-- **The content of `table.meta` is read back.** -/
theorem decodes {m : TableStorageMeta} (h : m.Fits) : Decodes deserialize m.serialize m := by
  have hids : Decodes (readVector readUInt32) (writeVector writeUInt32 m.segmentIds) m.segmentIds :=
    decodes_readVector h.segmentCount fun id hid => decodes_readUInt32 (h.segmentIds id hid)
  refine Decodes.bind (decodes_readUInt32 h.tableId) ?_
  rw [← List.append_nil (writeVector writeUInt32 m.segmentIds)]
  exact Decodes.bind hids (Decodes.pure m)

/-- More bytes change no `table.meta` that was read. -/
theorem stable : Stable deserialize :=
  Stable.bind stable_readUInt32 fun _ =>
    Stable.bind (stable_readVector stable_readUInt32) fun _ => Stable.pure _

/-- A truncated `table.meta` does not decode. -/
theorem deserialize_take_eq_none {m : TableStorageMeta} (h : m.Fits) {n : ℕ}
    (hn : n < m.serialize.length) : deserialize (m.serialize.take n) = none :=
  (decodes h).take_eq_none stable hn

end TableStorageMeta

end SimpleOlap
