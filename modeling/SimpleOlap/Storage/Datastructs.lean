import SimpleOlap.Storage.Serialization

/-!
# Schemas, conditions and file metadata

The records of `datastructs.h` and `table_storage_meta.h` with their serializations.

* `ColumnSchema`, `KeySchema`, `TableSchema`: the logical layout of a table.
* `Condition`, `ScanOptions`, `RowLocation`: what a scan asks for and what an index points at.
* `ColumnChunkMeta`, `SegmentMeta`, `TableStorageMeta`: the physical layout, as files hold it.

Each serialized record has a `Fits` predicate (its lengths and numbers fit their fields), a round
trip `decodes_*` under it, and stability of its reader.
-/

namespace SimpleOlap

open Lib

/-! ## Constants -/

/-- Most rows of one segment; the active segment is sealed when it has this many. -/
def kMaxSegmentRowCount : ℕ := 65536

/-- Most rows of one batch. -/
def kVectorBatchSize : ℕ := 1024

/-- The cursor value for "not started". -/
def kInvalidSegmentId : ℕ := 0xFFFFFFFF

/-! ## Enumeration bytes -/

/-- The byte a type is stored as. -/
def DataType.toByte : DataType → ℕ
  | .invalid => 0
  | .int32 => 1
  | .int64 => 2
  | .float => 3
  | .double => 4
  | .varchar => 5

/-- The type a stored byte names. -/
def DataType.ofByte : ℕ → DataType
  | 1 => .int32
  | 2 => .int64
  | 3 => .float
  | 4 => .double
  | 5 => .varchar
  | _ => .invalid

/-- A type is read back from its byte. -/
@[simp] theorem DataType.ofByte_toByte (t : DataType) : ofByte t.toByte = t := by cases t <;> rfl

/-- A type is written as one byte. -/
theorem DataType.toByte_lt (t : DataType) : t.toByte < 256 := by cases t <;> decide

/-- The byte of a kind of key. Source: `type.h` KeyType. -/
def KeyType.toByte : KeyType → ℕ
  | .primary => 0
  | .secondary => 1

/-- The kind of key that a byte stands for; the code casts it. -/
def KeyType.ofByte : ℕ → KeyType
  | 0 => .primary
  | _ => .secondary

/-- A kind of key is read back from its byte. -/
@[simp] theorem KeyType.ofByte_toByte (t : KeyType) : ofByte t.toByte = t := by cases t <;> rfl

/-- A kind of key is written as one byte. -/
theorem KeyType.toByte_lt (t : KeyType) : t.toByte < 256 := by cases t <;> decide

/-- The byte of a flag, and a nonzero byte as a flag. -/
def flagByte (b : Bool) : ℕ := if b then 1 else 0

/-- Any byte but zero is true. -/
def readFlag : Decoder Bool := (fun n => decide (n ≠ 0)) <$> readUInt8

/-- A flag is read back. -/
theorem decodes_readFlag (b : Bool) : Decodes readFlag (writeUInt8 (flagByte b)) b := by
  have h := Decodes.map (fun n => decide (n ≠ 0))
    (decodes_readUInt8 (n := flagByte b) (by cases b <;> decide))
  have hb : decide (flagByte b ≠ 0) = b := by cases b <;> rfl
  rwa [hb] at h

/-- More bytes change no flag that was read. -/
theorem stable_readFlag : Stable readFlag := Stable.map _ stable_readUInt8

/-! ## Column schemas -/

/-- Source: `datastructs.h` ColumnSchema. -/
structure ColumnSchema where
  columnId : ColumnId
  name : Bytes
  type : DataType
  deriving DecidableEq, Repr

namespace ColumnSchema

/-- Source: `datastructs.h` ColumnSchema::Serialize. -/
def serialize (c : ColumnSchema) : Bytes :=
  writeUInt32 c.columnId ++ (writeString c.name ++ writeUInt8 c.type.toByte)

/-- Source: `datastructs.h` ColumnSchema::Deserialize. -/
def deserialize : Decoder ColumnSchema := do
  let columnId ← readUInt32
  let name ← readString
  let type ← DataType.ofByte <$> readUInt8
  return ⟨columnId, name, type⟩

/-- What a file can hold of a column. -/
structure Fits (c : ColumnSchema) : Prop where
  columnId : Fits32 c.columnId
  name : Fits32 c.name.length

/-- A column is read back. -/
theorem decodes {c : ColumnSchema} (h : c.Fits) : Decodes deserialize c.serialize c := by
  have htype := Decodes.map DataType.ofByte (decodes_readUInt8 c.type.toByte_lt)
  rw [DataType.ofByte_toByte] at htype
  refine Decodes.bind (decodes_readUInt32 h.columnId) ?_
  refine Decodes.bind (decodes_readString h.name) ?_
  rw [← List.append_nil (writeUInt8 c.type.toByte)]
  exact Decodes.bind htype (Decodes.pure c)

/-- More bytes change no column that was read. -/
theorem stable : Stable deserialize :=
  Stable.bind stable_readUInt32 fun _ => Stable.bind stable_readString fun _ =>
    Stable.bind (Stable.map _ stable_readUInt8) fun _ => Stable.pure _

end ColumnSchema

/-! ## Key schemas -/

/-- Source: `datastructs.h` KeySchema. -/
structure KeySchema where
  keyId : KeyId
  name : Bytes
  type : KeyType
  columns : List ColumnId
  deriving DecidableEq, Repr

namespace KeySchema

/-- Source: `datastructs.h` KeySchema::Serialize. -/
def serialize (k : KeySchema) : Bytes :=
  writeUInt32 k.keyId ++ (writeString k.name ++
    (writeUInt8 k.type.toByte ++ writeVector writeUInt32 k.columns))

/-- Source: `datastructs.h` KeySchema::Deserialize. -/
def deserialize : Decoder KeySchema := do
  let keyId ← readUInt32
  let name ← readString
  let type ← KeyType.ofByte <$> readUInt8
  let columns ← readVector readUInt32
  return ⟨keyId, name, type, columns⟩

/-- What a file can hold of a key. -/
structure Fits (k : KeySchema) : Prop where
  keyId : Fits32 k.keyId
  name : Fits32 k.name.length
  columnCount : Fits32 k.columns.length
  columns : ∀ c ∈ k.columns, Fits32 c

/-- A key is read back. -/
theorem decodes {k : KeySchema} (h : k.Fits) : Decodes deserialize k.serialize k := by
  have htype := Decodes.map KeyType.ofByte (decodes_readUInt8 k.type.toByte_lt)
  rw [KeyType.ofByte_toByte] at htype
  have hcols : Decodes (readVector readUInt32) (writeVector writeUInt32 k.columns) k.columns :=
    decodes_readVector h.columnCount fun c hc => decodes_readUInt32 (h.columns c hc)
  refine Decodes.bind (decodes_readUInt32 h.keyId) ?_
  refine Decodes.bind (decodes_readString h.name) ?_
  refine Decodes.bind htype ?_
  rw [← List.append_nil (writeVector writeUInt32 k.columns)]
  exact Decodes.bind hcols (Decodes.pure k)

/-- More bytes change no key that was read. -/
theorem stable : Stable deserialize :=
  Stable.bind stable_readUInt32 fun _ => Stable.bind stable_readString fun _ =>
    Stable.bind (Stable.map _ stable_readUInt8) fun _ =>
      Stable.bind (stable_readVector stable_readUInt32) fun _ => Stable.pure _

end KeySchema

/-! ## Table schemas -/

/-- Source: `datastructs.h` TableSchema. -/
structure TableSchema where
  columns : List ColumnSchema
  primaryKey : Option KeySchema
  secondaryKeys : List KeySchema
  deriving DecidableEq, Repr

namespace TableSchema

/-- The optional primary key: a flag, then the key if there is one. -/
def serializePrimaryKey : Option KeySchema → Bytes
  | none => writeUInt8 (flagByte false)
  | some key => writeUInt8 (flagByte true) ++ key.serialize

/-- A flag, and the key where it is set. -/
def deserializePrimaryKey : Decoder (Option KeySchema) := do
  let present ← readFlag
  if present then some <$> KeySchema.deserialize else return none

/-- Source: `datastructs.h` TableSchema::Serialize. -/
def serialize (s : TableSchema) : Bytes :=
  writeVector ColumnSchema.serialize s.columns ++ (serializePrimaryKey s.primaryKey ++
    writeVector KeySchema.serialize s.secondaryKeys)

/-- The current format: columns, primary key, secondary keys. -/
def deserialize : Decoder TableSchema := do
  let columns ← readVector ColumnSchema.deserialize
  let primaryKey ← deserializePrimaryKey
  let secondaryKeys ← readVector KeySchema.deserialize
  return ⟨columns, primaryKey, secondaryKeys⟩

/-- The older format: columns only. -/
def deserializeLegacy : Decoder TableSchema :=
  (fun columns => ⟨columns, none, []⟩) <$> readVector ColumnSchema.deserialize

/-- What a file can hold of a schema. -/
structure Fits (s : TableSchema) : Prop where
  columnCount : Fits32 s.columns.length
  columns : ∀ c ∈ s.columns, c.Fits
  primaryKey : ∀ k ∈ s.primaryKey, k.Fits
  keyCount : Fits32 s.secondaryKeys.length
  secondaryKeys : ∀ k ∈ s.secondaryKeys, k.Fits

/-- The primary key is read back, if there is one. -/
theorem decodes_primaryKey {key : Option KeySchema} (h : ∀ k ∈ key, k.Fits) :
    Decodes deserializePrimaryKey (serializePrimaryKey key) key := by
  cases key with
  | none =>
    rw [serializePrimaryKey, ← List.append_nil (writeUInt8 _)]
    exact Decodes.bind (decodes_readFlag false) (Decodes.pure none)
  | some k =>
    exact Decodes.bind (decodes_readFlag true) (Decodes.map some (KeySchema.decodes (h k rfl)))

/-- More bytes change no primary key that was read. -/
theorem stable_primaryKey : Stable deserializePrimaryKey := by
  refine Stable.bind stable_readFlag fun present => ?_
  cases present with
  | false => exact Stable.pure none
  | true => exact Stable.map some KeySchema.stable

/-- **A schema is read back.** -/
theorem decodes {s : TableSchema} (h : s.Fits) : Decodes deserialize s.serialize s := by
  have hkeys := decodes_readVector h.keyCount fun k hk => KeySchema.decodes (h.secondaryKeys k hk)
  refine Decodes.bind
    (decodes_readVector h.columnCount fun c hc => ColumnSchema.decodes (h.columns c hc)) ?_
  refine Decodes.bind (decodes_primaryKey h.primaryKey) ?_
  rw [← List.append_nil (writeVector KeySchema.serialize s.secondaryKeys)]
  exact Decodes.bind hkeys (Decodes.pure s)

/-- More bytes change no schema that was read. -/
theorem stable : Stable deserialize :=
  Stable.bind (stable_readVector ColumnSchema.stable) fun _ =>
    Stable.bind stable_primaryKey fun _ =>
      Stable.bind (stable_readVector KeySchema.stable) fun _ => Stable.pure _

end TableSchema

/-- The column of an id, the first one if there are several. -/
def findColumnSchema (schema : TableSchema) (columnId : ColumnId) : Option ColumnSchema :=
  schema.columns.find? fun c => c.columnId == columnId

/-- The type of the column of an id, `invalid` if there is none. -/
def TableSchema.typeOf (schema : TableSchema) (columnId : ColumnId) : DataType :=
  match findColumnSchema schema columnId with
  | some c => c.type
  | none => .invalid

/-- The key of an id, primary or secondary. -/
def findKeySchema (schema : TableSchema) (keyId : KeyId) : Option KeySchema :=
  match schema.primaryKey with
  | some key => if key.keyId = keyId then some key
      else schema.secondaryKeys.find? fun k => k.keyId == keyId
  | none => schema.secondaryKeys.find? fun k => k.keyId == keyId

end SimpleOlap
