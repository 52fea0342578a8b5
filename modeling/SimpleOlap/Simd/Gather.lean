import SimpleOlap.Simd.Arithmetic
import SimpleOlap.Simd.SelectionCursor

/-!
# Gather kernels

A gather kernel writes the elements of a column at the set rows of a mask one behind the other. Source:
`gather_kernel.h`, `gather_scalar.cpp`, `gather_avx2.cpp`.

* `writeAt`: a store into a buffer.
* `gatherScalar`: element by element along ForEachSetBit; `gatherAvx2`: eight rows of a cursor at a time, and the
  rest one by one.
* `GatherKernels`, `gatherKernels`: the table that the registry installs.
* `gather_eq`: every kernel writes the selected elements in order and leaves the bytes behind them.
-/

namespace SimpleOlap

open Lib

/-! ## Kernels -/

/-- A store of some bytes at a position of a buffer. -/
def writeAt (pos : ℕ) (bs dst : Bytes) : Bytes := dst.take pos ++ bs ++ dst.drop (pos + bs.length)

/-- `dst[out++] = src[row]`, with elements of `w` bytes. -/
def gatherStep (w : ℕ) (src : Bytes) (state : ℕ × Bytes) (row : ℕ) : ℕ × Bytes :=
  (state.1 + 1, writeAt (state.1 * w) (cell w row src) state.2)

/-- Source: GatherScalar. -/
def gatherScalar (w : ℕ) (src : Bytes) (selection : SelectionMask) (dst : Bytes) : Bytes :=
  (selection.forEachSetBit.foldl (gatherStep w src) (0, dst)).2

/-- Source: GatherVarcharScalar. -/
def gatherVarcharScalar : Bytes → SelectionMask → Bytes → Bytes := gatherScalar kVarcharSlotSize

/-- The loop of the vector kernels: a register takes the elements of eight rows, the first row in its lowest
lane, and is stored at once; a shorter block is the last one. The fuel bounds the number of blocks. -/
def gatherBlocks (src : Bytes) : ℕ → SelectionCursor → ℕ × Bytes → Bytes
  | 0, _, state => state.2
  | fuel + 1, cursor, state =>
    let block := cursor.nextBlock 8
    let indices := block.2
    if indices.length = 0 then state.2
    else if indices.length = 8 then
      gatherBlocks src fuel block.1 (state.1 + 8, writeAt (state.1 * 4) (indices.flatMap (cell 4 · src)) state.2)
    else (indices.foldl (gatherStep 4 src) state).2

/-- The vector kernels of 32-bit elements. A mask has fewer blocks than bits. -/
def gatherAvx2 (src : Bytes) (selection : SelectionMask) (dst : Bytes) : Bytes :=
  gatherBlocks src (selection.wordCount * 64 + 1) selection.makeCursor (0, dst)

/-- Source: GatherI32Avx2. -/
def gatherI32Avx2 : Bytes → SelectionMask → Bytes → Bytes := gatherAvx2

/-- Source: GatherF32Avx2. -/
def gatherF32Avx2 : Bytes → SelectionMask → Bytes → Bytes := gatherAvx2

/-- Source: GatherVarcharAvx2. -/
def gatherVarcharAvx2 : Bytes → SelectionMask → Bytes → Bytes := gatherScalar kVarcharSlotSize

/-- Source: GatherKernels. -/
structure GatherKernels where
  i32 : Bytes → SelectionMask → Bytes → Bytes
  i64 : Bytes → SelectionMask → Bytes → Bytes
  f32 : Bytes → SelectionMask → Bytes → Bytes
  f64 : Bytes → SelectionMask → Bytes → Bytes
  varchar : Bytes → SelectionMask → Bytes → Bytes

/-- Source: InstallScalarGatherKernels. -/
def scalarGatherKernels : GatherKernels where
  i32 := gatherScalar (typeElemSize .int32)
  i64 := gatherScalar (typeElemSize .int64)
  f32 := gatherScalar (typeElemSize .float)
  f64 := gatherScalar (typeElemSize .double)
  varchar := gatherVarcharScalar

/-- The kernels of the registry: the vector kernels take the places of three scalar ones. Source:
InstallAvx2GatherKernels. -/
def gatherKernels : Backend → GatherKernels
  | .scalar => scalarGatherKernels
  | .avx2 =>
    { scalarGatherKernels with i32 := gatherI32Avx2, f32 := gatherF32Avx2, varchar := gatherVarcharAvx2 }

/-- The kernel for a type, where there is one. -/
def GatherKernels.kernel (kernels : GatherKernels) : DataType → Option (Bytes → SelectionMask → Bytes → Bytes)
  | .int32 => some kernels.i32
  | .int64 => some kernels.i64
  | .float => some kernels.f32
  | .double => some kernels.f64
  | .varchar => some kernels.varchar
  | .invalid => none

/-! ## Stores -/

/-- Bytes at the start of a buffer, and what was behind them. -/
def gatheredInto (bs dst : Bytes) : Bytes := bs ++ dst.drop bs.length

@[simp] theorem gatheredInto_nil (dst : Bytes) : gatheredInto [] dst = dst := rfl

/-- A store right behind what has been placed. -/
theorem writeAt_gatheredInto {pos : ℕ} {bs : Bytes} (h : pos = bs.length) (new dst : Bytes) :
    writeAt pos new (gatheredInto bs dst) = gatheredInto (bs ++ new) dst := by
  have hdrop : (bs ++ dst.drop bs.length).drop (bs.length + new.length) =
      dst.drop (bs.length + new.length) := by
    rw [← List.drop_drop, List.drop_left, List.drop_drop]
  rw [h, writeAt, gatheredInto, List.take_left, hdrop, gatheredInto, List.length_append]

variable {src : Bytes}

/-- Rows gathered one by one. -/
theorem foldl_gatherStep {w out : ℕ} {rows : List ℕ} {bs : Bytes} (hcells : ∀ r ∈ rows, (cell w r src).length = w)
    (hout : out * w = bs.length) (dst : Bytes) :
    rows.foldl (gatherStep w src) (out, gatheredInto bs dst) =
      (out + rows.length, gatheredInto (bs ++ rows.flatMap (cell w · src)) dst) := by
  induction rows generalizing out bs with
  | nil => rw [List.foldl_nil, List.flatMap_nil, List.append_nil, List.length_nil, Nat.add_zero]
  | cons r rows ih =>
    have hr := hcells r List.mem_cons_self
    have hnext : (out + 1) * w = (bs ++ cell w r src).length := by
      rw [List.length_append, hr, ← hout, Nat.succ_mul]
    rw [List.foldl_cons, gatherStep, writeAt_gatheredInto hout,
      ih (fun r' hr' => hcells r' (List.mem_cons_of_mem r hr')) hnext, List.append_assoc, List.flatMap_cons,
      List.length_cons, Nat.add_assoc, Nat.add_comm 1]

/-- Rows gathered block by block. -/
theorem gatherBlocks_eq {fuel out : ℕ} {cursor : SelectionCursor} {bs : Bytes}
    (hfuel : cursor.pending.length < fuel) (hcells : ∀ r ∈ cursor.pending, (cell 4 r src).length = 4)
    (hout : out * 4 = bs.length) (dst : Bytes) :
    gatherBlocks src fuel cursor (out, gatheredInto bs dst) =
      gatheredInto (bs ++ cursor.pending.flatMap (cell 4 · src)) dst := by
  induction fuel generalizing cursor out bs with
  | zero => exact absurd hfuel (Nat.not_lt_zero _)
  | succ fuel ih =>
    obtain ⟨hrows, hrest⟩ := SelectionCursor.nextBlock_eq 8 cursor
    rw [gatherBlocks]
    simp only [hrows, List.length_take]
    split_ifs with hzero height
    · have hnil : cursor.pending = [] := List.length_eq_zero_iff.mp (by omega)
      rw [hnil, List.flatMap_nil, List.append_nil]
    · have hsplit := List.take_append_drop 8 cursor.pending
      have hblock : ((cursor.pending.take 8).flatMap (cell 4 · src)).length = 8 * 4 := by
        rw [length_flatMap_of_mem fun r hr => hcells r (List.mem_of_mem_take hr), List.length_take, height]
      have hnext : (out + 8) * 4 = (bs ++ (cursor.pending.take 8).flatMap (cell 4 · src)).length := by
        rw [List.length_append, hblock, ← hout, Nat.add_mul]
      rw [writeAt_gatheredInto hout, ih ?_ ?_ hnext, hrest, List.append_assoc, ← List.flatMap_append, hsplit]
      · rw [hrest, List.length_drop]
        omega
      · intro r hr
        rw [hrest] at hr
        exact hcells r (List.mem_of_mem_drop hr)
    · rw [List.take_of_length_le (by omega), foldl_gatherStep hcells hout]

/-! ## What the kernels write -/

variable {m : SelectionMask}

theorem gatherScalar_eq {w : ℕ} (hcells : ∀ r ∈ m.setBits, (cell w r src).length = w) (dst : Bytes) :
    gatherScalar w src m dst = gatheredInto (m.setBits.flatMap (cell w · src)) dst := by
  have hstart : 0 * w = ([] : Bytes).length := Nat.zero_mul w
  have hloop := foldl_gatherStep hcells hstart dst
  rw [gatheredInto_nil] at hloop
  rw [gatherScalar, SelectionMask.forEachSetBit_eq, hloop, List.nil_append]

theorem gatherAvx2_eq (hm : m.WF) (hcells : ∀ r ∈ m.setBits, (cell 4 r src).length = 4) (dst : Bytes) :
    gatherAvx2 src m dst = gatheredInto (m.setBits.flatMap (cell 4 · src)) dst := by
  have hpending := SelectionCursor.pending_makeCursor m
  have hfuel : m.makeCursor.pending.length < m.wordCount * 64 + 1 := by
    have hle := List.length_filter_le m.bit (List.range m.rowCount)
    rw [List.length_range] at hle
    rw [hpending, SelectionMask.setBits_eq hm, SelectionMask.wordCount]
    omega
  have hstart : 0 * 4 = ([] : Bytes).length := Nat.zero_mul 4
  have hloop := gatherBlocks_eq hfuel (hpending ▸ hcells) hstart dst
  rw [gatheredInto_nil, hpending] at hloop
  rw [gatherAvx2, hloop, List.nil_append]

/-- **Every kernel writes the elements at the set rows, in order**, and leaves the bytes behind them as they
are. -/
theorem gather_eq {backend : Backend} {type : DataType} {kernel : Bytes → SelectionMask → Bytes → Bytes}
    (hkernel : (gatherKernels backend).kernel type = some kernel) (hm : m.WF)
    (hsrc : m.rowCount * typeElemSize type ≤ src.length) (dst : Bytes) :
    kernel src m dst = gatheredInto (m.setBits.flatMap (cell (typeElemSize type) · src)) dst := by
  have hcells : ∀ r ∈ m.setBits, (cell (typeElemSize type) r src).length = typeElemSize type := by
    intro r hr
    rw [SelectionMask.setBits_eq hm] at hr
    have hlt : r < m.rowCount := List.mem_range.mp (List.mem_of_mem_filter hr)
    exact length_cell ((Nat.mul_le_mul_right _ hlt).trans hsrc)
  cases backend with
  | scalar => cases type <;> cases hkernel <;> exact gatherScalar_eq hcells dst
  | avx2 =>
    cases type with
    | int32 | float =>
      cases hkernel
      exact gatherAvx2_eq hm hcells dst
    | int64 | double | varchar =>
      cases hkernel
      exact gatherScalar_eq hcells dst
    | invalid => cases hkernel

end SimpleOlap
