import SimpleOlap.Execution.ProjectionPaths
import SimpleOlap.Simd.Gather

/-!
# Compaction

`CompactBySelection` drops the rows of a batch that are not active. Source: `vector.cpp`, `gather_utils.h`.

* `gatherColumn`: a column gathered by the installed kernel; `gatherColumn_resized`: into a column of the right
  size it is the gathering of the projections (`gatherColumnDense`).
* `VectorBatch.compactBySelection`; `compactBySelection_of_sparse`: the batch of the selected elements.
* `gather_keeps_selected`: the kernels write the selected elements, and a compacted batch is dense and has the
  active rows that it had.
-/

namespace SimpleOlap

open Lib

/-! ## Gathering a column -/

/-- Source: GatherColumnDense. -/
def gatherColumn (backend : Backend) (src : ColumnData) (selection : SelectionMask) (dst : ColumnData) :
    Except String ColumnData :=
  match (gatherKernels backend).kernel src.type with
  | some kernel => .ok { dst with buffer := kernel src.buffer selection dst.buffer }
  | none => .error "GatherColumnDense: unsupported column type"

/-- Every type but INVALID has a kernel. -/
theorem exists_kernel (backend : Backend) {type : DataType} (h : type ≠ .invalid) :
    ∃ kernel, (gatherKernels backend).kernel type = some kernel := by
  cases type with
  | invalid => exact absurd rfl h
  | int32 | int64 | float | double | varchar => exact ⟨_, rfl⟩

/-- The elements of a column at the set rows. -/
def ColumnData.selected (col : ColumnData) (selection : SelectionMask) : ColumnData :=
  ⟨col.type, selection.setBits.flatMap col.cellAt, selection.count⟩

variable {m : SelectionMask} {col : ColumnData}

theorem length_setBits (hm : m.WF) : m.setBits.length = m.count := by
  rw [SelectionMask.setBits_eq hm, SelectionMask.count_eq hm, List.countP_eq_length_filter]

/-- The selected elements are elements. -/
theorem ColumnData.length_cellAt (hm : m.WF) (hroom : m.rowCount * typeElemSize col.type ≤ col.buffer.length)
    {r : ℕ} (hr : r ∈ m.setBits) : (col.cellAt r).length = typeElemSize col.type := by
  rw [SelectionMask.setBits_eq hm] at hr
  have hlt : r < m.rowCount := List.mem_range.mp (List.mem_of_mem_filter hr)
  exact length_cell ((Nat.mul_le_mul_right _ hlt).trans hroom)

/-- Gathered into a column of the right size, the selected elements are all that is there. -/
theorem gatherColumn_resized (backend : Backend) (hm : m.WF) (htype : col.type ≠ .invalid)
    (hroom : m.rowCount * typeElemSize col.type ≤ col.buffer.length) :
    gatherColumn backend col m (ColumnData.resized col.type m.count) = .ok (col.selected m) := by
  obtain ⟨kernel, hkernel⟩ := exists_kernel backend htype
  have hlen : (m.setBits.flatMap col.cellAt).length = typeElemSize col.type * m.count := by
    rw [length_flatMap_of_mem fun r hr => col.length_cellAt hm hroom hr, length_setBits hm, Nat.mul_comm]
  have hwritten := gather_eq hkernel hm hroom (ColumnData.resized col.type m.count).buffer
  have hnothing : (ColumnData.resized col.type m.count).buffer.drop (m.setBits.flatMap col.cellAt).length = [] := by
    rw [hlen, ColumnData.resized, List.drop_eq_nil_iff, List.length_replicate]
  rw [gatheredInto, show (m.setBits.flatMap (cell (typeElemSize col.type) · col.buffer)) = m.setBits.flatMap col.cellAt
    from rfl, hnothing, List.append_nil] at hwritten
  rw [gatherColumn, hkernel]
  simp only
  rw [hwritten]
  rfl

/-- Element `k` of the selected elements is the element at the `k`-th set row. -/
theorem ColumnData.cellAt_selected (hm : m.WF)
    (hroom : m.rowCount * typeElemSize col.type ≤ col.buffer.length) {k : ℕ} (hk : k < m.setBits.length) :
    (col.selected m).cellAt k = col.cellAt m.setBits[k] :=
  cell_flatMap col.cellAt m.setBits (fun _ hr => col.length_cellAt hm hroom hr) hk

/-! ## Compaction -/

/-- Source: ColumnData::Reset. -/
def ColumnData.reset (col : ColumnData) : ColumnData := ⟨col.type, [], 0⟩

namespace VectorBatch

/-- Source: IsDense. -/
def isDense (b : VectorBatch) : Bool := b.selection.isAll

/-- Source: CompactBySelection. -/
def compactBySelection (backend : Backend) (b : VectorBatch) : Except String VectorBatch :=
  if b.isDense then .ok b
  else
    let newCount := b.size
    if newCount = 0 then
      .ok { columns := b.columns.map ColumnData.reset, size := 0, selection := SelectionMask.setNone 0 }
    else do
      let columns ← b.columns.mapM fun col =>
        gatherColumn backend col b.selection (ColumnData.resized col.type newCount)
      return { columns, size := newCount, selection := SelectionMask.setAll newCount }

variable {b : VectorBatch}

theorem activeRows_eq (h : b.selection.WF) : b.activeRows = b.selection.setBits.map b.physicalRow := by
  rw [activeRows, filter_test, SelectionMask.setBits_eq h]

/-- The selected elements of all columns. -/
def selected (b : VectorBatch) : VectorBatch :=
  ⟨b.columns.map (·.selected b.selection), b.size, SelectionMask.setAll b.size⟩

/-- A column has room for the physical rows. -/
theorem Strong.room (h : b.Strong) (hfilled : b.Filled) {col : ColumnData} (hcol : col ∈ b.columns) :
    b.selection.rowCount * typeElemSize col.type ≤ col.buffer.length := by
  rw [← h.counts col hcol]
  exact hfilled col hcol

/-- **The rows of the selected elements are the active rows.** -/
theorem activeRows_selected (h : b.Strong) (hfilled : b.Filled) : b.selected.activeRows = b.activeRows := by
  have hlen : b.size = b.selection.setBits.length := by rw [h.size, length_setBits h.selection]
  have hsmall : b.size ≤ kVectorBatchSize := h.size_le.trans h.selection.rowCount_le
  have hall := activeRows_setIdentitySelection b.selected hsmall
  refine (hall.trans ?_).trans (activeRows_eq h.selection).symm
  apply List.ext_getElem
  · rw [List.length_map, List.length_map, List.length_range, hlen]
  · intro k hk _
    rw [List.length_map, List.length_range, hlen] at hk
    rw [List.getElem_map, List.getElem_map, List.getElem_range, physicalRow, physicalRow, selected, List.map_map]
    apply List.map_congr_left
    intro col hcol
    exact col.cellAt_selected h.selection (h.room hfilled hcol) hk

theorem isAll_setAll (n : ℕ) : (SelectionMask.setAll n).isAll = true := by
  rw [SelectionMask.isAll_iff]
  intro r hr
  rw [SelectionMask.bit_setAll, decide_eq_true_iff]
  exact hr.trans_eq (SelectionMask.rowCount_setAll n)

theorem strong_selected (h : b.Strong) : b.selected.Strong := by
  have hsmall : b.size ≤ kVectorBatchSize := h.size_le.trans h.selection.rowCount_le
  refine @StorageRowFilter.strong_setIdentitySelection b.selected b.size hsmall fun col hcol => ?_
  obtain ⟨src, -, rfl⟩ := List.mem_map.mp hcol
  exact h.size.symm

/-- A batch with active rows, not all of its rows, becomes that of the selected elements. -/
theorem compactBySelection_of_sparse (backend : Backend) (h : b.Strong) (hfilled : b.Filled)
    (htyped : ∀ col ∈ b.columns, col.type ≠ .invalid) (hsparse : b.isDense = false) (hpos : b.size ≠ 0) :
    b.compactBySelection backend = .ok b.selected := by
  have hcolumns : (b.columns.mapM fun col =>
      gatherColumn backend col b.selection (ColumnData.resized col.type b.size)) =
        .ok (b.columns.map (·.selected b.selection)) := by
    refine mapM_eq_ok fun col hcol => ?_
    rw [h.size]
    exact gatherColumn_resized backend h.selection (htyped col hcol) (h.room hfilled hcol)
  rw [compactBySelection, hsparse, if_neg Bool.false_ne_true]
  simp only
  rw [if_neg hpos, hcolumns]
  rfl

/-- A batch without active rows is emptied. -/
theorem compactBySelection_of_empty (backend : Backend) (hsparse : b.isDense = false) (hzero : b.size = 0) :
    b.compactBySelection backend = .ok ⟨b.columns.map ColumnData.reset, 0, SelectionMask.setNone 0⟩ := by
  rw [compactBySelection, hsparse, if_neg Bool.false_ne_true]
  simp only
  rw [if_pos hzero]

/-- **Compaction keeps the active rows and makes the batch dense**, and the batch invariant holds after it. -/
theorem compactBySelection_keeps (backend : Backend) (h : b.Strong) (hfilled : b.Filled)
    (htyped : ∀ col ∈ b.columns, col.type ≠ .invalid) :
    ∃ b', b.compactBySelection backend = .ok b' ∧ b'.activeRows = b.activeRows ∧ b'.isDense = true ∧
      b'.Strong := by
  rcases hdense : b.isDense with _ | _
  · by_cases hzero : b.size = 0
    · refine ⟨_, compactBySelection_of_empty backend hdense hzero, ?_, rfl, SelectionMask.WF.setNone 0, ?_, ?_⟩
      · have hnone := h.length_activeRows
        rw [hzero] at hnone
        rw [List.length_eq_zero_iff.mp hnone]
        rfl
      · intro col hcol
        obtain ⟨src, -, rfl⟩ := List.mem_map.mp hcol
        rfl
      · have hcount : (SelectionMask.setNone 0).count = 0 := by decide
        exact hcount.symm
    · exact ⟨_, compactBySelection_of_sparse backend h hfilled htyped hdense hzero, activeRows_selected h hfilled,
        isAll_setAll _, strong_selected h⟩
  · refine ⟨b, ?_, rfl, hdense, h⟩
    rw [compactBySelection, hdense, if_pos rfl]

end VectorBatch

/-- **Gathering by a mask keeps exactly the selected rows.** Every kernel of both backends writes the elements
of the source at the set rows of the mask, in ascending order, at the start of the destination, and leaves the
bytes behind them; CompactBySelection leaves the active rows of a batch with the batch invariant as they are
and makes it dense. -/
theorem gather_keeps_selected (backend : Backend) :
    (∀ {type kernel} {m : SelectionMask} {src : Bytes}, (gatherKernels backend).kernel type = some kernel → m.WF →
      m.rowCount * typeElemSize type ≤ src.length → ∀ dst : Bytes,
        kernel src m dst =
          (((List.range m.rowCount).filter m.bit).flatMap fun row => cell (typeElemSize type) row src) ++
            dst.drop (m.count * typeElemSize type)) ∧
    ∀ {b : VectorBatch}, b.Strong → b.Filled → (∀ col ∈ b.columns, col.type ≠ .invalid) →
      ∃ b', b.compactBySelection backend = .ok b' ∧ b'.activeRows = b.activeRows ∧ b'.isDense = true := by
  refine ⟨fun {type kernel m src} hkernel hm hsrc dst => ?_, fun h hfilled htyped => ?_⟩
  · have hcells : ∀ r ∈ m.setBits, (cell (typeElemSize type) r src).length = typeElemSize type := fun r hr =>
      @ColumnData.length_cellAt m ⟨type, src, 0⟩ hm hsrc r hr
    rw [gather_eq hkernel hm hsrc, gatheredInto, length_flatMap_of_mem hcells, length_setBits hm,
      SelectionMask.setBits_eq hm]
  · obtain ⟨b', hok, hrows, hdense, -⟩ := VectorBatch.compactBySelection_keeps backend h hfilled htyped
    exact ⟨b', hok, hrows, hdense⟩

/-- A batch of the two rows 1 and 2 of which the second is active. -/
def secondOfTwo : VectorBatch :=
  ⟨[⟨.int32, [1, 0, 0, 0, 2, 0, 0, 0], 2⟩], 1, (SelectionMask.setNone 2).setBit 1⟩

theorem gather_keeps_selected_second :
    (∃ b', secondOfTwo.compactBySelection .avx2 = .ok b' ∧ b'.activeRows = [[[2, 0, 0, 0]]] ∧ b'.isDense = true) ∧
      gatherI32Avx2 [1, 0, 0, 0, 2, 0, 0, 0] ((SelectionMask.setNone 2).setBit 1) [7, 7, 7, 7, 7] =
        [2, 0, 0, 0, 7] := by
  have hmask : ((SelectionMask.setNone 2).setBit 1).WF := (SelectionMask.WF.setNone 2).setBit (by decide)
  have hboth := gather_keeps_selected .avx2
  constructor
  · have hrows : secondOfTwo.activeRows = [[[2, 0, 0, 0]]] := by decide +kernel
    rw [← hrows]
    exact hboth.2 ⟨hmask, by decide +kernel, by decide +kernel⟩ (by simp [VectorBatch.Filled, secondOfTwo,
      typeElemSize]) (by simp [secondOfTwo])
  · have hkernel : (gatherKernels .avx2).kernel .int32 = some gatherI32Avx2 := rfl
    exact (hboth.1 hkernel hmask (by decide) _).trans (by decide +kernel)

end SimpleOlap
