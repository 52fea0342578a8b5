import SimpleOlap.Execution.Vector
import SimpleOlap.Storage.Metadata

/-!
# Segment readers

A `SegmentReader` gives access to a mapped segment file: metadata in front, column data behind.
Source: `segment.h`, `segment.cpp`.

* `SegmentReader.rowAt columns j`: the requested cells of row `j`.
* `getVectorBatch` produces the next at most 1024 rows from an offset (`activeRows_getVectorBatch`),
  `gatherRows` the rows of a list of offsets (`activeRows_gatherRows`); both are identity-selected
  batches.
* `evaluateByStats`, `evaluatePredicates`: the zone-map decision on the pushed predicates.
-/

namespace SimpleOlap

open Lib

/-- The metadata of a default-constructed chunk: no type, no statistics. -/
def ColumnChunkMeta.blank : ColumnChunkMeta :=
  ⟨0, .invalid, 0, false, Double.ofInt 0, Double.ofInt 0⟩

/-- A column of a segment: its metadata and the mapped bytes from its first element on. -/
structure ColumnChunkReader where
  metadata : ColumnChunkMeta
  data : Bytes
  deriving DecidableEq

structure SegmentReader where
  segmentId : SegmentId
  metadata : SegmentMeta
  file : Bytes
  deriving DecidableEq

/-- What the metadata say about a predicate. -/
abbrev SegmentMatch := Verdict

/-- Whether the segment is skipped; otherwise, predicate by predicate, whether it is to be evaluated
row by row. -/
structure SegmentFilterDecision where
  skipSegment : Bool
  rowFilterMask : List Bool
  deriving DecidableEq, Repr

namespace SegmentReader

/-! ## Opening -/

/-- Map a segment file and decode its metadata; `none` if there is no such file, if it does not
decode, or if it is about another segment. -/
def openFile (id : SegmentId) (file : Option Bytes) : Option SegmentReader :=
  match file with
  | none => none
  | some bytes =>
    match SegmentMeta.deserialize bytes with
    | none => none
    | some (metadata, _) =>
      if metadata.segmentId ≠ id then none else some ⟨id, metadata, bytes⟩

def rowCount (r : SegmentReader) : ℕ := r.metadata.rowCount

/-- The metadata of a column, the first chunk's for an unknown id. -/
def getColumnMeta (r : SegmentReader) (id : ColumnId) : ColumnChunkMeta :=
  match r.metadata.colChunkMetas.find? fun m => m.columnId == id with
  | some m => m
  | none => r.metadata.colChunkMetas.headD ColumnChunkMeta.blank

/-- The view of a column, an empty one for an unknown id. -/
def openColumn (r : SegmentReader) (id : ColumnId) : ColumnChunkReader :=
  match r.metadata.colChunkMetas.find? fun m => m.columnId == id with
  | some m => ⟨m, r.file.drop m.dataOffset⟩
  | none => ⟨ColumnChunkMeta.blank, []⟩

/-- Row `j`, restricted to the given columns. -/
def rowAt (r : SegmentReader) (columns : List ColumnId) (j : ℕ) : Row :=
  columns.map fun id =>
    cell (typeElemSize (r.openColumn id).metadata.type) j (r.openColumn id).data

/-! ## Zone maps -/

/-- The constant of a condition as a double; strings have none. -/
def condValueAsDouble : Literal → Option Double
  | .int32 v => some (Double.ofInt v.toInt)
  | .int64 v => some (Double.ofInt v.toInt)
  | .double v => some v
  | .string _ => none

/-- Source: EvaluateByStats, the switch over the operator. -/
def compareStats (op : CmpOp) (min max value : Double) : SegmentMatch :=
  match op with
  | .eq =>
    if value.val.lt min.val || max.val.lt value.val then .skip
    else if min.val.eq value.val && max.val.eq value.val then .allMatch
    else .needFilter
  | .ne =>
    if min.val.eq value.val && max.val.eq value.val then .skip
    else if value.val.lt min.val || max.val.lt value.val then .allMatch
    else .needFilter
  | .gt =>
    if max.val.le value.val then .skip
    else if value.val.lt min.val then .allMatch
    else .needFilter
  | .ge =>
    if max.val.lt value.val then .skip
    else if value.val.le min.val then .allMatch
    else .needFilter
  | .lt =>
    if value.val.le min.val then .skip
    else if max.val.lt value.val then .allMatch
    else .needFilter
  | .le =>
    if value.val.lt min.val then .skip
    else if max.val.le value.val then .allMatch
    else .needFilter

/-- Source: EvaluateByStats. -/
def evaluateByStats (metadata : ColumnChunkMeta) (cond : Condition) : SegmentMatch :=
  if metadata.hasStats = false then .needFilter
  else
    match condValueAsDouble cond.value with
    | none => .needFilter
    | some value => compareStats cond.op metadata.minValue metadata.maxValue value

/-- The decision on a conjunction: the first predicate that cannot hold skips the segment. -/
def evaluatePredicates (r : SegmentReader) : List Condition → SegmentFilterDecision
  | [] => ⟨false, []⟩
  | cond :: conds =>
    match evaluateByStats (r.getColumnMeta cond.column) cond with
    | .skip => ⟨true, []⟩
    | match₁ =>
      let rest := evaluatePredicates r conds
      if rest.skipSegment then rest
      else ⟨false, decide (match₁ = .needFilter) :: rest.rowFilterMask⟩

/-- The segment is skipped when one of the predicates says so. -/
theorem skipSegment_evaluatePredicates (r : SegmentReader) (conds : List Condition) :
    (r.evaluatePredicates conds).skipSegment = true ↔
      ∃ cond ∈ conds, evaluateByStats (r.getColumnMeta cond.column) cond = .skip := by
  induction conds with
  | nil => simp [evaluatePredicates]
  | cons cond conds ih =>
    rw [evaluatePredicates]
    rcases hm : evaluateByStats (r.getColumnMeta cond.column) cond with _ | _ | _
    · simp [hm]
    · by_cases hs : (r.evaluatePredicates conds).skipSegment = true
      · simp [hm, hs, ih.mp hs]
      · simp only [hs, List.mem_cons, exists_eq_or_imp, hm, reduceCtorEq, false_or, ← ih]
        simp
    · by_cases hs : (r.evaluatePredicates conds).skipSegment = true
      · simp [hm, hs, ih.mp hs]
      · simp only [hs, List.mem_cons, exists_eq_or_imp, hm, reduceCtorEq, false_or, ← ih]
        simp

/-- When the segment is not skipped, the mask marks the undecided predicates. -/
theorem rowFilterMask_evaluatePredicates (r : SegmentReader) {conds : List Condition}
    (h : (r.evaluatePredicates conds).skipSegment = false) :
    (r.evaluatePredicates conds).rowFilterMask =
      conds.map fun cond =>
        decide (evaluateByStats (r.getColumnMeta cond.column) cond = .needFilter) := by
  induction conds with
  | nil => rfl
  | cons cond conds ih =>
    rw [evaluatePredicates] at h ⊢
    rcases hm : evaluateByStats (r.getColumnMeta cond.column) cond with _ | _ | _
    all_goals simp only [hm] at h
    · simp at h
    all_goals
      by_cases hs : (r.evaluatePredicates conds).skipSegment = true
      · simp [hs] at h
      · simp only [hs, List.map_cons, hm]
        simp [ih (Bool.eq_false_iff.mpr hs)]

/-! ## Reading rows -/

/-- The columns a scan outputs: all of the segment's for an empty list. -/
def outColumns (r : SegmentReader) (columns : List ColumnId) : List ColumnId :=
  if columns = [] then r.metadata.colChunkMetas.map ColumnChunkMeta.columnId else columns

/-- The next at most 1024 rows from `offset` on; `none` past the end. Source: GetVectorBatch. -/
def getVectorBatch (r : SegmentReader) (options : ScanOptions) (offset : ℕ) : Option VectorBatch :=
  if r.rowCount ≤ offset then none
  else
    let scanCount := min kVectorBatchSize (r.rowCount - offset)
    let columns := (r.outColumns options.columns).map fun id =>
      let chunk := r.openColumn id
      ColumnData.mk chunk.metadata.type
        (chunk.data.drop (offset * typeElemSize chunk.metadata.type)) scanCount
    some ({ VectorBatch.empty with columns }.setIdentitySelection scanCount)

/-- The number of offsets as the code counts them, in 32 bits. Source: GatherRows. -/
def gatherCount (rowOffsets : List ℕ) : ℕ := rowOffsets.length % 2 ^ 32

theorem gatherCount_of_lt {rowOffsets : List ℕ} (h : rowOffsets.length < 2 ^ 32) :
    gatherCount rowOffsets = rowOffsets.length := Nat.mod_eq_of_lt h

/-- The rows at the given offsets; `none` for an offset out of range. Source: GatherRows. -/
def gatherRows (r : SegmentReader) (rowOffsets : List ℕ) (columns : List ColumnId) :
    Option VectorBatch :=
  if rowOffsets = [] ∨ columns = [] then none
  else if rowOffsets.any fun offset => decide (r.rowCount ≤ offset) then none
  else
    let columns := columns.map fun id =>
      let chunk := r.openColumn id
      let elemSize := typeElemSize chunk.metadata.type
      ColumnData.mk chunk.metadata.type
        ((rowOffsets.take (gatherCount rowOffsets)).flatMap fun offset => cell elemSize offset chunk.data)
        (gatherCount rowOffsets)
    some ({ VectorBatch.empty with columns }.setIdentitySelection (gatherCount rowOffsets))

/-- The batch of the rows from `offset` on. -/
theorem getVectorBatch_eq_some {r : SegmentReader} {options : ScanOptions} {offset : ℕ}
    {b : VectorBatch} (h : r.getVectorBatch options offset = some b) :
    offset < r.rowCount ∧ b.size = min kVectorBatchSize (r.rowCount - offset) ∧
      b.selection = SelectionMask.setAll b.size ∧
      b.columns = (r.outColumns options.columns).map fun id =>
        ColumnData.mk (r.openColumn id).metadata.type ((r.openColumn id).data.drop
          (offset * typeElemSize (r.openColumn id).metadata.type)) b.size := by
  unfold getVectorBatch at h
  split_ifs at h with hoff
  cases h
  exact ⟨Nat.not_le.mp hoff, rfl, rfl, rfl⟩

theorem getVectorBatch_eq_none_iff {r : SegmentReader} {options : ScanOptions} {offset : ℕ} :
    r.getVectorBatch options offset = none ↔ r.rowCount ≤ offset := by
  unfold getVectorBatch
  split_ifs with h <;> simp [h]

section Batch

variable {r : SegmentReader} {options : ScanOptions} {offset : ℕ} {b : VectorBatch}

theorem size_getVectorBatch_pos (h : r.getVectorBatch options offset = some b) : 0 < b.size := by
  obtain ⟨hlt, hsize, -⟩ := getVectorBatch_eq_some h
  have : 0 < kVectorBatchSize := by decide
  omega

theorem size_getVectorBatch_le (h : r.getVectorBatch options offset = some b) :
    b.size ≤ kVectorBatchSize := by
  obtain ⟨-, hsize, -⟩ := getVectorBatch_eq_some h
  exact hsize ▸ Nat.min_le_left _ _

theorem rowCount_selection_getVectorBatch (h : r.getVectorBatch options offset = some b) :
    b.selection.rowCount = b.size := by
  rw [(getVectorBatch_eq_some h).2.2.1, SelectionMask.rowCount_setAll,
    Nat.min_eq_left (size_getVectorBatch_le h)]

/-- The scan advances by the number of rows of the batch. -/
theorem physicalSize_getVectorBatch (h : r.getVectorBatch options offset = some b) :
    b.physicalSize = b.size := by
  have hpos := size_getVectorBatch_pos h
  have hsel := rowCount_selection_getVectorBatch h
  rw [VectorBatch.physicalSize, if_pos (Or.inl (by omega)), hsel]

/-- Physical row `i` is the segment's row `offset + i`. -/
theorem physicalRow_getVectorBatch (h : r.getVectorBatch options offset = some b) (i : ℕ) :
    b.physicalRow i = r.rowAt (r.outColumns options.columns) (offset + i) := by
  rw [VectorBatch.physicalRow, (getVectorBatch_eq_some h).2.2.2, List.map_map, rowAt]
  apply List.map_congr_left
  intro id _
  exact cell_drop_mul _ _ _ _

/-- A scanned batch presents the next rows of the segment, all of them active. -/
theorem activeRows_getVectorBatch (h : r.getVectorBatch options offset = some b) :
    b.activeRows =
      (List.range b.size).map fun i => r.rowAt (r.outColumns options.columns) (offset + i) := by
  have hid : b = b.setIdentitySelection b.size := by
    rw [VectorBatch.setIdentitySelection, ← (getVectorBatch_eq_some h).2.2.1]
  rw [hid, VectorBatch.activeRows_setIdentitySelection b (size_getVectorBatch_le h)]
  exact List.map_congr_left fun i _ => physicalRow_getVectorBatch h i

end Batch

/-! ## Gathering rows -/

/-- The column's bytes reach to the last row. -/
def Covers (r : SegmentReader) (id : ColumnId) : Prop :=
  r.rowCount * typeElemSize (r.openColumn id).metadata.type ≤ (r.openColumn id).data.length

/-- The rows at offsets that 32 bits can count. -/
theorem gatherRows_of_lt {r : SegmentReader} {rowOffsets : List ℕ} {columns : List ColumnId}
    (hfits : rowOffsets.length < 2 ^ 32) {b : VectorBatch} (h : r.gatherRows rowOffsets columns = some b) :
    b = { VectorBatch.empty with
      columns := columns.map fun id =>
        ColumnData.mk (r.openColumn id).metadata.type (rowOffsets.flatMap fun offset =>
          cell (typeElemSize (r.openColumn id).metadata.type) offset (r.openColumn id).data)
          rowOffsets.length }.setIdentitySelection rowOffsets.length := by
  unfold gatherRows at h
  rw [gatherCount_of_lt hfits, List.take_length] at h
  split_ifs at h
  exact (Option.some.inj h).symm

theorem gatherRows_eq_some {r : SegmentReader} {rowOffsets : List ℕ} {columns : List ColumnId}
    (hfits : rowOffsets.length < 2 ^ 32) (hne : rowOffsets ≠ []) (hcols : columns ≠ [])
    (hin : ∀ offset ∈ rowOffsets, offset < r.rowCount) :
    ∃ b, r.gatherRows rowOffsets columns = some b ∧ b.size = rowOffsets.length ∧
      b.selection = SelectionMask.setAll rowOffsets.length ∧
      b.columns = columns.map fun id =>
        ColumnData.mk (r.openColumn id).metadata.type (rowOffsets.flatMap fun offset =>
          cell (typeElemSize (r.openColumn id).metadata.type) offset (r.openColumn id).data)
          rowOffsets.length := by
  have hany : ¬ (rowOffsets.any fun offset => decide (r.rowCount ≤ offset)) = true := by
    simp only [List.any_eq_true, decide_eq_true_eq, not_exists, not_and, Nat.not_le]
    exact hin
  unfold gatherRows
  rw [if_neg (by simp [hne, hcols]), if_neg hany, gatherCount_of_lt hfits, List.take_length]
  exact ⟨_, rfl, rfl, rfl, rfl⟩

/-- Physical row `i` of a gathered batch is the row at offset `i`. -/
theorem physicalRow_gatherRows {r : SegmentReader} {rowOffsets : List ℕ} {columns : List ColumnId}
    (hfits : rowOffsets.length < 2 ^ 32) (hcov : ∀ id ∈ columns, r.Covers id)
    (hin : ∀ offset ∈ rowOffsets, offset < r.rowCount)
    {b : VectorBatch} (h : r.gatherRows rowOffsets columns = some b) {i : ℕ}
    (hi : i < rowOffsets.length) : b.physicalRow i = r.rowAt columns rowOffsets[i] := by
  rw [gatherRows_of_lt hfits h]
  simp only [VectorBatch.physicalRow, VectorBatch.setIdentitySelection, List.map_map, rowAt]
  apply List.map_congr_left
  intro id hid
  apply cell_flatMap _ _ _ hi
  intro offset hoff
  exact length_cell (le_trans (Nat.mul_le_mul_right _ (hin offset hoff)) (hcov id hid))

/-- Gathered rows are the rows at the offsets, in their order. -/
theorem activeRows_gatherRows {r : SegmentReader} {rowOffsets : List ℕ} {columns : List ColumnId}
    (hcov : ∀ id ∈ columns, r.Covers id) (hin : ∀ offset ∈ rowOffsets, offset < r.rowCount)
    (hlen : rowOffsets.length ≤ kVectorBatchSize) {b : VectorBatch}
    (h : r.gatherRows rowOffsets columns = some b) :
    b.activeRows = rowOffsets.map (r.rowAt columns) := by
  have hfits : rowOffsets.length < 2 ^ 32 := lt_of_le_of_lt hlen (by decide)
  have hrow := fun i => physicalRow_gatherRows hfits hcov hin h (i := i)
  have hid : b = b.setIdentitySelection rowOffsets.length := by
    rw [gatherRows_of_lt hfits h]
    rfl
  rw [hid, VectorBatch.activeRows_setIdentitySelection _ hlen]
  apply List.ext_getElem
  · simp
  · intro i hi hi'
    have hi₀ : i < rowOffsets.length := by simpa using hi'
    simpa using hrow i hi₀

end SegmentReader

end SimpleOlap
