import SimpleOlap.Lib.Results
import SimpleOlap.Storage.Segment.File

/-!
# Key encoding

A key of a row is encoded column by column as type byte, length and content. The encoder has three
forms, for a row of a chunk, for a row of a batch and for lookup values. Source: `key_encoder.h`,
`key_encoder.cpp`.

* `encodeCell`: the encoding of one column; `rowKey` of a whole row.
* `encodeChunk_eq`, `encodeBatch_eq`: for keys over the schema's columns both row encoders compute
  `rowKey` of the row.
* `TableSchema.KeysInSchema`: every key column is a column of the schema, as the catalog ensures.
-/

namespace SimpleOlap

open Lib

abbrev EncodedKey := Bytes

/-- A scalar of one of the column types, as lookups carry it. -/
inductive ScalarValue
  | int32 (value : Int32)
  | int64 (value : Int64)
  | float (value : Single)
  | double (value : Double)
  | string (value : Bytes)
  deriving DecidableEq

/-- Type, length, content. Source: AppendComponent. -/
def encodeComponent (type : DataType) (data : Bytes) : Bytes :=
  writeUInt8 type.toByte ++ (leBytes 4 data.length ++ data)

/-- One cell: a VARCHAR slot by its content, anything else by its bytes. -/
def encodeCell (type : DataType) (c : Bytes) : Bytes :=
  if type = .varchar then encodeComponent .varchar (readVarcharSlot c) else encodeComponent type c

namespace KeyEncoder

/-- A row of a chunk. Source: KeyEncoder::Encode, the DataChunk form. -/
def encodeChunk (schema : TableSchema) (key : KeySchema) (chunk : DataChunk) (row : ℕ) :
    Except String EncodedKey := do
  let parts ← key.columns.mapM fun id =>
    match findColumnSchema schema id, columnIndex schema id with
    | some column, some index =>
      .ok (encodeCell column.type (cell (chunk.elementSize index) row (chunk.rawData index)))
    | _, _ => .error "key encoder: key column not found in schema"
  return parts.flatten

/-- A row of a batch. Source: KeyEncoder::Encode, the VectorBatch form. -/
def encodeBatch (schema : TableSchema) (key : KeySchema) (batchColumns : List ColumnId)
    (batch : VectorBatch) (row : ℕ) : Except String EncodedKey := do
  let parts ← key.columns.mapM fun id =>
    match findColumnSchema schema id with
    | none => .error "key encoder: key column not found in schema"
    | some column =>
      match batchColumns.findIdx? fun c => c == id with
      | none => .error "key encoder: key column not present in batch"
      | some index =>
        let columnData := batch.columns.getD index ⟨.invalid, [], 0⟩
        .ok (encodeCell column.type (columnData.cellAt row))
  return parts.flatten

/-- The bytes of the bit pattern of a float. -/
def floatBytes (f : Single) : Bytes := leBytes 4 (binary32.encode f.val)

/-- The bytes of the bit pattern of a double. -/
def doubleBytes (d : Double) : Bytes := leBytes 8 (binary64.encode d.val)

/-- A lookup value after the conversions a column type allows. Source: AppendScalarComponent. -/
def encodeScalar (type : DataType) (value : ScalarValue) : Except String Bytes :=
  match type, value with
  | .int32, .int32 v => .ok (encodeComponent type (leBytes 4 v.toUInt32.toNat))
  | .int64, .int64 v => .ok (encodeComponent type (leBytes 8 v.toUInt64.toNat))
  | .int64, .int32 v => .ok (encodeComponent type (leBytes 8 v.toInt64.toUInt64.toNat))
  | .float, .float v => .ok (encodeComponent type (floatBytes v))
  | .float, .double v => .ok (encodeComponent type (floatBytes v.narrow))
  | .double, .double v => .ok (encodeComponent type (doubleBytes v))
  | .double, .float v => .ok (encodeComponent type (doubleBytes v.widen))
  | .double, .int32 v => .ok (encodeComponent type (doubleBytes (Double.ofInt v.toInt)))
  | .double, .int64 v => .ok (encodeComponent type (doubleBytes (Double.ofInt v.toInt)))
  | .varchar, .string v => .ok (encodeComponent type v)
  | _, _ => .error "key encoder: literal type does not match key column type"

/-- Lookup values. Source: KeyEncoder::Encode, the value form. -/
def encodeValues (schema : TableSchema) (key : KeySchema) (values : List ScalarValue) :
    Except String EncodedKey :=
  if values.length ≠ key.columns.length then
    .error "key encoder: lookup value count does not match key column count"
  else do
    let parts ← (key.columns.zip values).mapM fun (id, value) =>
      match findColumnSchema schema id with
      | none => .error "key encoder: key column not found in schema"
      | some column => encodeScalar column.type value
    return parts.flatten

end KeyEncoder

/-! ## The key of a row -/

/-- The keys of a schema, the primary key first. -/
def TableSchema.keys (schema : TableSchema) : List KeySchema :=
  schema.primaryKey.toList ++ schema.secondaryKeys

/-- Every key column is a column of the schema. -/
def TableSchema.KeysInSchema (schema : TableSchema) : Prop :=
  ∀ key ∈ schema.keys, ∀ id ∈ key.columns, schema.HasColumn id

/-- The encoded key of a row of the schema's columns. -/
def rowKey (schema : TableSchema) (key : KeySchema) (row : Row) : EncodedKey :=
  key.columns.flatMap fun id => encodeCell (schema.typeOf id) (rowCell schema row id)

theorem findColumnSchema_eq_some {schema : TableSchema} {id : ColumnId} (h : schema.HasColumn id) :
    ∃ i, columnIndex schema id = some i ∧ ∃ hi : i < schema.columns.length,
      findColumnSchema schema id = some schema.columns[i] ∧
      schema.typeOf id = schema.columns[i].type := by
  obtain ⟨i, hindex, hi, hid, hfirst⟩ := columnIndex_eq_some h
  have hfind : findColumnSchema schema id = some schema.columns[i] := by
    rw [findColumnSchema, List.find?_eq_some_iff_getElem]
    exact ⟨by simp [hid], i, hi, rfl, fun j hj => by simpa using hfirst j hj⟩
  exact ⟨i, hindex, hi, hfind, by rw [TableSchema.typeOf, hfind]⟩

namespace KeyEncoder

variable {schema : TableSchema} {key : KeySchema}

/-- **The chunk encoder computes the key of the row.** -/
theorem encodeChunk_eq (hkey : ∀ id ∈ key.columns, schema.HasColumn id) {chunk : DataChunk}
    (hf : chunk.Fits schema) (row : ℕ) :
    encodeChunk schema key chunk row = .ok (rowKey schema key (chunk.row row)) := by
  unfold encodeChunk
  rw [mapM_eq_ok (g := fun id => encodeCell (schema.typeOf id)
    (rowCell schema (chunk.row row) id)) ?_]
  · exact congrArg Except.ok List.flatMap_def.symm
  · intro id hid
    obtain ⟨i, hindex, hi, hfind, htype⟩ := findColumnSchema_eq_some (hkey id hid)
    have hi' : i < chunk.chunks.length := hf.columns ▸ hi
    rw [hfind, hindex, htype, rowCell, hindex]
    simp [DataChunk.row, DataChunk.bufferRow, hi', DataChunk.cell_rawData]

/-- A row of a batch has the cells of a row under the ids of the key's columns. -/
def HasCells (schema : TableSchema) (key : KeySchema) (batchColumns : List ColumnId) (batch : VectorBatch) (r : ℕ)
    (row : Row) : Prop :=
  ∀ id ∈ key.columns, ∃ index column, batchColumns.findIdx? (fun c => c == id) = some index ∧
    batch.columns[index]? = some column ∧ column.cellAt r = rowCell schema row id

/-- **The batch encoder computes the key of the row** whose key cells the batch has. -/
theorem encodeBatch_of_hasCells (hkey : ∀ id ∈ key.columns, schema.HasColumn id)
    {batchColumns : List ColumnId} {batch : VectorBatch} {r : ℕ} {row : Row}
    (hcells : HasCells schema key batchColumns batch r row) :
    encodeBatch schema key batchColumns batch r = .ok (rowKey schema key row) := by
  unfold encodeBatch
  rw [mapM_eq_ok (g := fun id => encodeCell (schema.typeOf id) (rowCell schema row id)) ?_]
  · exact congrArg Except.ok List.flatMap_def.symm
  · intro id hid
    obtain ⟨i, -, hi, hfind, htype⟩ := findColumnSchema_eq_some (hkey id hid)
    obtain ⟨index, column, hindex, hcolumn, hcell⟩ := hcells id hid
    simp only [hfind, hindex, htype, List.getD_eq_getElem?_getD, hcolumn, Option.getD_some, hcell]

/-- The same when the batch holds the row's cells under the column ids it is told. -/
theorem encodeBatch_eq (hkey : ∀ id ∈ key.columns, schema.HasColumn id)
    {batchColumns : List ColumnId} (hsub : ∀ id ∈ key.columns, id ∈ batchColumns)
    {batch : VectorBatch} {r : ℕ} {row : Row}
    (hrow : batch.physicalRow r = project schema batchColumns row) :
    encodeBatch schema key batchColumns batch r = .ok (rowKey schema key row) := by
  refine encodeBatch_of_hasCells hkey fun id hid => ?_
  obtain ⟨j, hj⟩ : ∃ j, batchColumns.findIdx? (fun c => c == id) = some j := by
    rcases hnone : batchColumns.findIdx? fun c => c == id with _ | j
    · have := List.findIdx?_eq_none_iff.mp hnone id (hsub id hid)
      simp at this
    · exact ⟨j, rfl⟩
  obtain ⟨hjlt, hjid, -⟩ := List.findIdx?_eq_some_iff_getElem.mp hj
  have hlen : batch.columns.length = batchColumns.length := by
    have := congrArg List.length hrow
    simpa [VectorBatch.physicalRow, project] using this
  have hjlt' : j < batch.columns.length := hlen.symm ▸ hjlt
  have hcell : batch.columns[j].cellAt r = rowCell schema row batchColumns[j] := by
    have := congrArg (fun l => l[j]?) hrow
    simpa [VectorBatch.physicalRow, project, hjlt, hjlt'] using this
  have hjid' : batchColumns[j] = id := by simpa using hjid
  exact ⟨j, batch.columns[j], hj, List.getElem?_eq_getElem hjlt', hjid' ▸ hcell⟩

end KeyEncoder

end SimpleOlap
