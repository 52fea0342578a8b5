import SimpleOlap.Execution.ProjectionPaths

/-!
# Result digests

A digest of a result adds up a hash of each row and its square, so that results can be compared whatever the
order of their rows. Source: `result_digest.h`.

* `CellBits`, `readCellBits`: a value with the bits that are hashed; `readExecValue_eq`: what it stands for.
* `hashRow`, `accumulateBatch`, `computeResultDigest`: as in the source, with the exceptions of a read.
* `VectorBatch.contents`: the active rows by what their cells hold. `foldlM_accumulateBatch`: the digest is
  a fold over them.
* `digest_eq_of_rows`: the digest depends on the multiset of the rows only.
-/

namespace SimpleOlap

open Lib

/-! ## Values by their bits -/

/-- A value as it is hashed: of a floating-point number its pattern, since different NaNs hash differently. -/
inductive CellBits
  | int32 (v : Int32)
  | int64 (v : Int64)
  | float (bits : UInt32)
  | double (bits : UInt64)
  | string (v : Bytes)
  | bool (v : Bool)
  deriving DecidableEq

/-- The value of the bits. -/
def CellBits.value : CellBits → ExecValue
  | int32 v => .int32 v
  | int64 v => .int64 v
  | float bits => .float ⟨binary32.decode bits.toNat, binary32.mem_decode⟩
  | double bits => .double ⟨binary64.decode bits.toNat, binary64.mem_decode⟩
  | string v => .string v
  | bool v => .bool v

/-- A cell of a column that has a type. -/
def cellBits (type : DataType) (c : Bytes) : Except String CellBits :=
  match type with
  | .int32 => .ok (.int32 (Numeric.read c))
  | .int64 => .ok (.int64 (Numeric.read c))
  | .float => .ok (.float (UInt32.ofNat (leNat c)))
  | .double => .ok (.double (UInt64.ofNat (leNat c)))
  | .varchar => .ok (.string (readVarcharSlot c))
  | .invalid => .error "execution: invalid column type"

/-- Source: `exec_expression.cpp` ReadExecValue, with the bits of the value. -/
def readCellBits (column : ColumnData) (physicalRow : ℕ) : Except String CellBits :=
  if column.count ≤ physicalRow then .error "execution: row index out of range"
  else cellBits column.type (column.cellAt physicalRow)

theorem leNat_cellAt_lt (column : ColumnData) (r : ℕ) :
    leNat (column.cellAt r) < 256 ^ typeElemSize column.type := by
  have hlen : (column.cellAt r).length ≤ typeElemSize column.type := List.length_take_le _ _
  exact (leNat_lt _).trans_le (Nat.pow_le_pow_right (by decide) hlen)

/-- What is read are these bits. -/
theorem readExecValue_eq (column : ColumnData) (r : ℕ) :
    readExecValue column r = (readCellBits column r).map CellBits.value := by
  have hlt := leNat_cellAt_lt column r
  rw [readExecValue, readCellBits]
  split_ifs with hr
  · rfl
  · rcases htype : column.type with _ | _ | _ | _ | _ | _ <;> rw [htype] at hlt
    case float =>
      have hbits : (UInt32.ofNat (leNat (column.cellAt r))).toNat = leNat (column.cellAt r) := Nat.mod_eq_of_lt hlt
      simp only [cellBits, Except.map, CellBits.value, hbits]
      rfl
    case double =>
      have hbits : (UInt64.ofNat (leNat (column.cellAt r))).toNat = leNat (column.cellAt r) := Nat.mod_eq_of_lt hlt
      simp only [cellBits, Except.map, CellBits.value, hbits]
      rfl
    all_goals rfl

/-! ## Hashes -/

/-- Source: MixHash. -/
def mixHash (x : UInt64) : UInt64 :=
  let x := x + 0x9e3779b97f4a7c15
  let x := (x ^^^ (x >>> 30)) * 0xbf58476d1ce4e5b9
  let x := (x ^^^ (x >>> 27)) * 0x94d049bb133111eb
  x ^^^ (x >>> 31)

/-- Source: HashValueBits. -/
def hashValueBits : CellBits → UInt64
  | .string raw => mixHash (raw.foldl (fun h c => (h ^^^ c.toUInt64) * 1099511628211) 1469598103934665603)
  | .float bits => mixHash bits.toUInt64
  | .double bits => mixHash bits
  | .bool raw => mixHash (if raw then 1 else 0)
  | .int32 raw => mixHash raw.toInt64.toUInt64
  | .int64 raw => mixHash raw.toUInt64

/-- One step of HashRow. -/
def hashStep (rowHash value : UInt64) : UInt64 := mixHash (rowHash ^^^ value)

/-- Source: HashRow. -/
def hashRow (batch : VectorBatch) (physicalRow : ℕ) : Except String UInt64 :=
  batch.columns.foldlM (fun rowHash column => do
    let value ← readCellBits column physicalRow
    return hashStep rowHash (hashValueBits value)) 0x243f6a8885a308d3

/-! ## Digests -/

/-- Source: ResultDigest. -/
structure ResultDigest where
  rowCount : UInt64
  hash1 : UInt64
  hash2 : UInt64
  deriving DecidableEq

namespace ResultDigest

/-- No rows. -/
def empty : ResultDigest := ⟨0, 0, 0⟩

/-- One row more. -/
def add (digest : ResultDigest) (rowHash : UInt64) : ResultDigest where
  rowCount := digest.rowCount + 1
  hash1 := digest.hash1 + rowHash
  hash2 := digest.hash2 + rowHash * rowHash

/-- The order in which two rows are added makes no difference. -/
theorem add_comm (digest : ResultDigest) (h h' : UInt64) : (digest.add h).add h' = (digest.add h').add h := by
  simp only [add, mk.injEq, true_and]
  refine ⟨?_, ?_⟩
  · rw [UInt64.add_assoc, UInt64.add_comm h, ← UInt64.add_assoc]
  · rw [UInt64.add_assoc, UInt64.add_comm (h * h), ← UInt64.add_assoc]

end ResultDigest

/-- Source: AccumulateRow. -/
def accumulateRow (batch : VectorBatch) (digest : ResultDigest) (physicalRow : ℕ) : Except String ResultDigest := do
  let rowHash ← hashRow batch physicalRow
  return digest.add rowHash

/-- Source: AccumulateBatch. -/
def accumulateBatch (digest : ResultDigest) (batch : VectorBatch) : Except String ResultDigest :=
  batch.activeIndices.foldlM (accumulateRow batch) digest

/-- Source: ComputeResultDigest, of the chunks of a result. -/
def computeResultDigest (chunks : List VectorBatch) : Except String ResultDigest :=
  chunks.foldlM accumulateBatch .empty

/-! ## The rows of a result -/

/-- A row by what its cells hold: the bytes of a number, the string of a slot. -/
abbrev ContentRow := List (DataType × Bytes)

namespace VectorBatch

/-- Physical row `r` by what its cells hold. -/
def contentRow (b : VectorBatch) (r : ℕ) : ContentRow :=
  b.columns.map fun col => (col.type, cellContent col.type (col.cellAt r))

/-- The active rows by what their cells hold. -/
def contents (b : VectorBatch) : List ContentRow :=
  ((List.range b.selection.rowCount).filter b.selection.test).map b.contentRow

/-- The batch invariant, and the columns have a type. -/
structure Typed (b : VectorBatch) : Prop extends b.Strong where
  typed : ∀ col ∈ b.columns, col.type ≠ .invalid

end VectorBatch

/-- The hash of what a cell holds. -/
def hashContent (part : DataType × Bytes) : UInt64 :=
  match part.1 with
  | .int32 => hashValueBits (.int32 (Numeric.read part.2))
  | .int64 => hashValueBits (.int64 (Numeric.read part.2))
  | .float => hashValueBits (.float (UInt32.ofNat (leNat part.2)))
  | .double => hashValueBits (.double (UInt64.ofNat (leNat part.2)))
  | .varchar => hashValueBits (.string part.2)
  | .invalid => 0

/-- The hash of a row. -/
def hashContents (row : ContentRow) : UInt64 := (row.map hashContent).foldl hashStep 0x243f6a8885a308d3

/-- A cell is hashed by what it holds, whatever the padding behind its string is. -/
theorem readCellBits_hash {column : ColumnData} {r : ℕ} (hr : r < column.count) (htype : column.type ≠ .invalid) :
    ∃ value, readCellBits column r = .ok value ∧
      hashValueBits value = hashContent (column.type, cellContent column.type (column.cellAt r)) := by
  rw [readCellBits, if_neg (Nat.not_le.mpr hr)]
  rcases hcolumn : column.type with _ | _ | _ | _ | _ | _
  case invalid => exact absurd hcolumn htype
  all_goals exact ⟨_, rfl, rfl⟩

theorem foldlM_hashStep {columns : List ColumnData} {r : ℕ} (hcount : ∀ col ∈ columns, r < col.count)
    (htyped : ∀ col ∈ columns, col.type ≠ .invalid) (seed : UInt64) :
    (columns.foldlM (fun rowHash column => do
      let value ← readCellBits column r
      return hashStep rowHash (hashValueBits value)) seed : Except String UInt64) =
      .ok ((columns.map fun col => hashContent (col.type, cellContent col.type (col.cellAt r))).foldl hashStep
        seed) := by
  induction columns generalizing seed with
  | nil => rfl
  | cons column columns ih =>
    obtain ⟨value, hread, hvalue⟩ := readCellBits_hash (hcount column List.mem_cons_self)
      (htyped column List.mem_cons_self)
    have hrest := ih (fun col hcol => hcount col (List.mem_cons_of_mem column hcol))
      (fun col hcol => htyped col (List.mem_cons_of_mem column hcol)) (hashStep seed (hashValueBits value))
    rw [List.foldlM_cons, hread, List.map_cons, List.foldl_cons, ← hvalue]
    exact hrest

variable {b : VectorBatch}

/-- **A row is hashed by what its cells hold.** -/
theorem hashRow_eq {r : ℕ} (hcount : ∀ col ∈ b.columns, r < col.count)
    (htyped : ∀ col ∈ b.columns, col.type ≠ .invalid) : hashRow b r = .ok (hashContents (b.contentRow r)) := by
  rw [hashRow, foldlM_hashStep hcount htyped, hashContents, VectorBatch.contentRow, List.map_map]
  rfl

theorem foldlM_accumulateRow {rows : List ℕ} (hrows : ∀ r ∈ rows, ∀ col ∈ b.columns, r < col.count)
    (htyped : ∀ col ∈ b.columns, col.type ≠ .invalid) (digest : ResultDigest) :
    rows.foldlM (accumulateRow b) digest =
      .ok ((rows.map b.contentRow).foldl (fun digest row => digest.add (hashContents row)) digest) := by
  induction rows generalizing digest with
  | nil => rfl
  | cons r rows ih =>
    have hfirst : accumulateRow b digest r = .ok (digest.add (hashContents (b.contentRow r))) := by
      rw [accumulateRow, hashRow_eq (hrows r List.mem_cons_self) htyped]
      rfl
    rw [List.foldlM_cons, hfirst]
    exact ih (fun r' hr' => hrows r' (List.mem_cons_of_mem r hr')) (digest.add (hashContents (b.contentRow r)))

/-- The rows that are visited are the active ones. -/
theorem VectorBatch.Strong.contents_eq (h : b.Strong) : b.contents = b.activeIndices.map b.contentRow := by
  rw [contents, filter_test, activeIndices_eq_setBits h, SelectionMask.setBits_eq h.selection]

theorem accumulateBatch_eq (h : b.Typed) (digest : ResultDigest) :
    accumulateBatch digest b =
      .ok (b.contents.foldl (fun digest row => digest.add (hashContents row)) digest) := by
  rw [accumulateBatch, h.contents_eq]
  refine foldlM_accumulateRow (fun r hr col hcol => ?_) h.typed digest
  rw [VectorBatch.activeIndices_eq_setBits h.toStrong, SelectionMask.setBits_eq h.selection] at hr
  rw [h.counts col hcol]
  exact List.mem_range.mp (List.mem_of_mem_filter hr)

/-- **The digest is a fold over the rows.** -/
theorem foldlM_accumulateBatch {chunks : List VectorBatch} (h : ∀ b ∈ chunks, b.Typed) (digest : ResultDigest) :
    chunks.foldlM accumulateBatch digest =
      .ok ((chunks.flatMap VectorBatch.contents).foldl (fun digest row => digest.add (hashContents row))
        digest) := by
  induction chunks generalizing digest with
  | nil => rfl
  | cons b chunks ih =>
    rw [List.foldlM_cons, accumulateBatch_eq (h b List.mem_cons_self), List.flatMap_cons, List.foldl_append]
    exact ih (fun b' hb' => h b' (List.mem_cons_of_mem b hb')) _

/-- **The digest of a result depends only on the multiset of its rows.** For results whose batches satisfy the
batch invariant: where the active rows, their cells compared by the bytes of numbers and the contents of
strings, form the same multiset, the digests are the same, in whatever order, batches and selections the rows
are given. -/
theorem digest_eq_of_rows {result result' : List VectorBatch} (h : ∀ b ∈ result, b.Typed)
    (h' : ∀ b ∈ result', b.Typed)
    (hrows : (result.flatMap VectorBatch.contents : Multiset ContentRow) = result'.flatMap VectorBatch.contents) :
    ∃ digest, computeResultDigest result = .ok digest ∧ computeResultDigest result' = .ok digest := by
  refine ⟨_, foldlM_accumulateBatch h .empty, ?_⟩
  rw [computeResultDigest, foldlM_accumulateBatch h', Except.ok.injEq]
  have hperm := (Multiset.coe_eq_coe.mp hrows).symm
  exact hperm.foldl_eq' (fun _ _ _ _ digest => ResultDigest.add_comm digest _ _) ResultDigest.empty

/-- The numbers 1 and 2 in one batch, and in another order with a row that is not active. -/
def oneTwo : VectorBatch := ⟨[⟨.int32, [1, 0, 0, 0, 2, 0, 0, 0], 2⟩], 2, SelectionMask.setAll 2⟩

def twoOne : VectorBatch :=
  ⟨[⟨.int32, [2, 0, 0, 0, 9, 0, 0, 0, 1, 0, 0, 0], 3⟩], 2, ((SelectionMask.setNone 3).setBit 0).setBit 2⟩

theorem digest_eq_of_rows_twoOne : computeResultDigest [oneTwo] = computeResultDigest [twoOne] := by
  have hmask : (((SelectionMask.setNone 3).setBit 0).setBit 2).WF :=
    ((SelectionMask.WF.setNone 3).setBit (by decide)).setBit (by decide)
  have hone : oneTwo.Typed := ⟨⟨SelectionMask.WF.setAll 2, by decide +kernel, by decide +kernel⟩, by decide⟩
  have htwo : twoOne.Typed := ⟨⟨hmask, by decide +kernel, by decide +kernel⟩, by decide⟩
  obtain ⟨digest, hdigest, hdigest'⟩ := digest_eq_of_rows (List.forall_mem_singleton.mpr hone)
    (List.forall_mem_singleton.mpr htwo) (by decide +kernel)
  rw [hdigest, hdigest']

end SimpleOlap
