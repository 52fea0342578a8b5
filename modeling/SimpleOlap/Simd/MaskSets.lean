import Mathlib.Data.Finset.Sort
import SimpleOlap.Simd.SelectionCursor

/-!
# Masks are finite sets of rows

* `RowSet`: a set of rows below a row count of at most a batch, and its operations.
* `SelectionMask.Represents`: the bits of a mask are a set of rows. Such a mask has no bit at or behind its
  row count (`Represents.wf`), and each operation on masks represents the one on sets.
* `MaskOp`: an operation on named masks, on the masks (`run`) and on the sets (`apply`);
  `represents_run`: a step keeps the correspondence.
* `SelectionMask.implements_sets`: after any sequence of operations each mask is its set, and says so
  whichever way it is asked.
-/

namespace SimpleOlap

/-! ## Sets of rows -/

/-- A set of rows of a batch, with the number of rows that it is about. -/
structure RowSet where
  rowCount : ℕ
  rows : Finset ℕ
  rowCount_le : rowCount ≤ kVectorBatchSize
  lt_rowCount : ∀ r ∈ rows, r < rowCount

namespace RowSet

/-- All rows. -/
def all (n : ℕ) : RowSet where
  rowCount := min n kVectorBatchSize
  rows := Finset.range (min n kVectorBatchSize)
  rowCount_le := Nat.min_le_right _ _
  lt_rowCount _ hr := Finset.mem_range.mp hr

/-- No row. -/
def none (n : ℕ) : RowSet where
  rowCount := min n kVectorBatchSize
  rows := ∅
  rowCount_le := Nat.min_le_right _ _
  lt_rowCount _ hr := absurd hr (Finset.notMem_empty _)

/-- The rows of a list, as far as they are rows. -/
def ofList (rows : List ℕ) (n : ℕ) : RowSet where
  rowCount := min n kVectorBatchSize
  rows := rows.toFinset.filter (· < min n kVectorBatchSize)
  rowCount_le := Nat.min_le_right _ _
  lt_rowCount _ hr := (Finset.mem_filter.mp hr).2

/-- The intersection, over the smaller row count. -/
def inter (s t : RowSet) : RowSet where
  rowCount := min s.rowCount t.rowCount
  rows := s.rows ∩ t.rows
  rowCount_le := (Nat.min_le_left _ _).trans s.rowCount_le
  lt_rowCount r hr := by
    have hmem := Finset.mem_inter.mp hr
    exact lt_min (s.lt_rowCount r hmem.1) (t.lt_rowCount r hmem.2)

/-- The union, over the larger row count. -/
def union (s t : RowSet) : RowSet where
  rowCount := max s.rowCount t.rowCount
  rows := s.rows ∪ t.rows
  rowCount_le := max_le s.rowCount_le t.rowCount_le
  lt_rowCount r hr := by
    rcases Finset.mem_union.mp hr with h | h
    · exact lt_max_of_lt_left (s.lt_rowCount r h)
    · exact lt_max_of_lt_right (t.lt_rowCount r h)

/-- The difference. -/
def diff (s t : RowSet) : RowSet where
  rowCount := s.rowCount
  rows := s.rows \ t.rows
  rowCount_le := s.rowCount_le
  lt_rowCount r hr := s.lt_rowCount r (Finset.mem_sdiff.mp hr).1

end RowSet

/-! ## Masks and sets -/

namespace SelectionMask

/-- Source: FromSelectionVector. -/
def fromSelectionVector (selection : List ℕ) (physicalCount : ℕ) : SelectionMask :=
  selection.foldl (fun m row => if row < m.rowCount then m.setBit row else m) (setNone physicalCount)

/-- Source: ToSelectionVector: the output is cleared, and each visited row is put behind it. -/
def toSelectionVector (m : SelectionMask) : List ℕ :=
  m.forEachSetBit.foldl (fun output row => output ++ [row]) []

/-- The vector lists the set bits. -/
theorem toSelectionVector_eq (m : SelectionMask) : m.toSelectionVector = m.forEachSetBit := by
  suffices h : ∀ output : List ℕ,
      m.forEachSetBit.foldl (fun output row => output ++ [row]) output = output ++ m.forEachSetBit by
    rw [toSelectionVector, h, List.nil_append]
  generalize m.forEachSetBit = rows
  induction rows with
  | nil => exact fun output => (List.append_nil output).symm
  | cons row rows ih =>
    intro output
    rw [List.foldl_cons, ih, List.append_assoc, List.singleton_append]

/-- The mask has the row count of a set, and its rows are those whose bit is set. -/
structure Represents (m : SelectionMask) (s : RowSet) : Prop where
  rowCount : m.rowCount = s.rowCount
  bit : ∀ r, m.bit r = decide (r ∈ s.rows)

namespace Represents

variable {m rhs : SelectionMask} {s t : RowSet}

/-- No bit at or behind the row count. -/
theorem wf (h : m.Represents s) : m.WF where
  rowCount_le := h.rowCount.trans_le s.rowCount_le
  unused r hr := by
    rw [h.bit, decide_eq_false_iff_not]
    intro hmem
    have hlt := s.lt_rowCount r hmem
    rw [← h.rowCount] at hlt
    exact Nat.not_lt.mpr hr hlt

/-- A full mask. -/
theorem setAll (n : ℕ) : (SelectionMask.setAll n).Represents (RowSet.all n) where
  rowCount := rowCount_setAll n
  bit r := by simp only [bit_setAll, RowSet.all, Finset.mem_range]

/-- An empty mask. -/
theorem setNone (n : ℕ) : (SelectionMask.setNone n).Represents (RowSet.none n) where
  rowCount := rowCount_setNone n
  bit r := by simp [bit_setNone, RowSet.none]

/-- Intersection. -/
theorem and (h : m.Represents s) (h' : rhs.Represents t) : (m.and rhs).Represents (s.inter t) where
  rowCount := by rw [rowCount_and, h.rowCount, h'.rowCount, RowSet.inter]
  bit r := by
    rw [bit_and h.wf h'.wf, h.bit, h'.bit, ← Bool.decide_and]
    simp only [RowSet.inter, Finset.mem_inter]

/-- Union. -/
theorem or (h : m.Represents s) (h' : rhs.Represents t) : (m.or rhs).Represents (s.union t) where
  rowCount := by rw [rowCount_or, h.rowCount, h'.rowCount, RowSet.union]
  bit r := by
    rw [bit_or h.wf h'.wf, h.bit, h'.bit, ← Bool.decide_or]
    simp only [RowSet.union, Finset.mem_union]

/-- Difference. -/
theorem andNot (h : m.Represents s) (h' : rhs.Represents t) : (m.andNot rhs).Represents (s.diff t) where
  rowCount := by rw [rowCount_andNot, h.rowCount, RowSet.diff]
  bit r := by
    rw [bit_andNot h.wf, h.bit, h'.bit, ← decide_not, ← Bool.decide_and]
    simp only [RowSet.diff, Finset.mem_sdiff]

/-- Setting the bits of listed rows, as far as they are rows. -/
theorem foldl_setBit (h : m.WF) (selection : List ℕ) :
    let m' := selection.foldl (fun m row => if row < m.rowCount then m.setBit row else m) m
    m'.rowCount = m.rowCount ∧
      ∀ r, m'.bit r = (m.bit r || decide (r ∈ selection ∧ r < m.rowCount)) := by
  induction selection generalizing m with
  | nil => exact ⟨rfl, fun r => by simp⟩
  | cons row selection ih =>
    rw [List.foldl_cons]
    split_ifs with hrow
    · obtain ⟨hcount, hbit⟩ := ih (h.setBit hrow)
      rw [rowCount_setBit] at hcount hbit
      refine ⟨hcount, fun r => ?_⟩
      rw [hbit, bit_setBit (lt_of_lt_of_le hrow h.rowCount_le), Bool.or_comm (decide (r = row)), Bool.or_assoc,
        ← Bool.decide_or]
      congr 2
      rw [List.mem_cons, eq_iff_iff]
      constructor
      · rintro (rfl | ⟨hmem, hr⟩)
        · exact ⟨.inl rfl, hrow⟩
        · exact ⟨.inr hmem, hr⟩
      · rintro ⟨hmem | hmem, hr⟩
        · exact .inl hmem
        · exact .inr ⟨hmem, hr⟩
    · obtain ⟨hcount, hbit⟩ := ih h
      refine ⟨hcount, fun r => ?_⟩
      rw [hbit]
      congr 2
      rw [List.mem_cons, eq_iff_iff]
      refine and_congr_left fun hr => (or_iff_right ?_).symm
      rintro rfl
      exact hrow hr

/-- The mask of a list of rows. -/
theorem fromSelectionVector (selection : List ℕ) (n : ℕ) :
    (SelectionMask.fromSelectionVector selection n).Represents (RowSet.ofList selection n) := by
  obtain ⟨hcount, hbit⟩ := foldl_setBit (WF.setNone n) selection
  refine ⟨hcount, fun r => (hbit r).trans ?_⟩
  rw [bit_setNone, Bool.false_or, rowCount_setNone, RowSet.ofList, decide_eq_decide, Finset.mem_filter,
    List.mem_toFinset]

/-! ### What a mask says of its set -/

/-- The visited rows are the set in order. -/
theorem forEachSetBit (h : m.Represents s) : m.forEachSetBit = s.rows.sort := by
  have hset : s.rows = (m.forEachSetBit).toFinset := by
    rw [forEachSetBit_eq, setBits_eq h.wf]
    ext r
    rw [List.mem_toFinset, List.mem_filter, List.mem_range, h.bit, decide_eq_true_iff, h.rowCount]
    exact (and_iff_right_of_imp (s.lt_rowCount r)).symm
  have hsorted : m.forEachSetBit.Pairwise (· < ·) := by
    rw [forEachSetBit_eq, setBits_eq h.wf]
    exact List.pairwise_lt_range.filter _
  rw [hset]
  have hnodup : (m.forEachSetBit).Nodup := hsorted.imp fun hlt => hlt.ne
  exact ((List.toFinset_sort (· ≤ ·) hnodup).mpr (hsorted.imp fun hlt => hlt.le)).symm

/-- Count is the size of the set. -/
theorem count (h : m.Represents s) : m.count = s.rows.card := by
  rw [count_eq h.wf, List.countP_eq_length_filter, ← setBits_eq h.wf, ← forEachSetBit_eq, h.forEachSetBit,
    Finset.length_sort]

/-- Empty is the empty set. -/
theorem isEmpty (h : m.Represents s) : m.isEmpty = true ↔ s.rows = ∅ := by
  rw [isEmpty_iff, Finset.eq_empty_iff_forall_notMem]
  exact forall_congr' fun r => by rw [h.bit, decide_eq_false_iff_not]

/-- IsAll is the full set. -/
theorem isAll (h : m.Represents s) : m.isAll = true ↔ s.rows = Finset.range s.rowCount := by
  rw [isAll_iff, h.rowCount]
  constructor
  · intro hall
    refine Finset.Subset.antisymm (fun r hr => Finset.mem_range.mpr (s.lt_rowCount r hr)) fun r hr => ?_
    simpa [h.bit] using hall r (Finset.mem_range.mp hr)
  · intro hall r hr
    rw [h.bit, hall, decide_eq_true_iff]
    exact Finset.mem_range.mpr hr

/-- Test is membership. -/
theorem test (h : m.Represents s) (r : ℕ) : m.test r = true ↔ r ∈ s.rows := by
  rw [SelectionMask.test]
  split_ifs with hr
  · refine iff_of_false not_false fun hmem => ?_
    have hlt := s.lt_rowCount r hmem
    rw [← h.rowCount] at hlt
    exact Nat.not_lt.mpr hr hlt
  · rw [h.bit, decide_eq_true_iff]

end Represents

end SelectionMask

/-! ## Sequences of operations -/

/-- An operation on named masks; the right-hand side may be the mask itself. -/
inductive MaskOp (ι : Type)
  | setAll (mask : ι) (rowCount : ℕ)
  | setNone (mask : ι) (rowCount : ℕ)
  | fromSelectionVector (mask : ι) (selection : List ℕ) (physicalCount : ℕ)
  | and (mask rhs : ι)
  | or (mask rhs : ι)
  | andNot (mask rhs : ι)

namespace MaskOp

variable {ι : Type} [DecidableEq ι]

/-- The operation on the masks. -/
def run (masks : ι → SelectionMask) : MaskOp ι → ι → SelectionMask
  | setAll mask rowCount => Function.update masks mask (SelectionMask.setAll rowCount)
  | setNone mask rowCount => Function.update masks mask (SelectionMask.setNone rowCount)
  | fromSelectionVector mask selection physicalCount =>
    Function.update masks mask (SelectionMask.fromSelectionVector selection physicalCount)
  | and mask rhs => Function.update masks mask ((masks mask).and (masks rhs))
  | or mask rhs => Function.update masks mask ((masks mask).or (masks rhs))
  | andNot mask rhs => Function.update masks mask ((masks mask).andNot (masks rhs))

/-- The operation on the sets. -/
def apply (sets : ι → RowSet) : MaskOp ι → ι → RowSet
  | setAll mask rowCount => Function.update sets mask (RowSet.all rowCount)
  | setNone mask rowCount => Function.update sets mask (RowSet.none rowCount)
  | fromSelectionVector mask selection physicalCount =>
    Function.update sets mask (RowSet.ofList selection physicalCount)
  | and mask rhs => Function.update sets mask ((sets mask).inter (sets rhs))
  | or mask rhs => Function.update sets mask ((sets mask).union (sets rhs))
  | andNot mask rhs => Function.update sets mask ((sets mask).diff (sets rhs))

variable {masks : ι → SelectionMask} {sets : ι → RowSet}

/-- One mask is replaced. -/
theorem represents_update (h : ∀ i, (masks i).Represents (sets i)) {m : SelectionMask} {s : RowSet}
    (hm : m.Represents s) (mask i : ι) :
    (Function.update masks mask m i).Represents (Function.update sets mask s i) := by
  by_cases hi : i = mask
  · subst hi
    rwa [Function.update_self, Function.update_self]
  · rw [Function.update_of_ne hi, Function.update_of_ne hi]
    exact h i

/-- **One operation on masks is the operation on sets.** -/
theorem represents_run (h : ∀ i, (masks i).Represents (sets i)) (op : MaskOp ι) (i : ι) :
    (op.run masks i).Represents (op.apply sets i) := by
  cases op with
  | setAll mask n => exact represents_update h (.setAll n) mask i
  | setNone mask n => exact represents_update h (.setNone n) mask i
  | fromSelectionVector mask selection n =>
    exact represents_update h (.fromSelectionVector selection n) mask i
  | and mask rhs => exact represents_update h ((h mask).and (h rhs)) mask i
  | or mask rhs => exact represents_update h ((h mask).or (h rhs)) mask i
  | andNot mask rhs => exact represents_update h ((h mask).andNot (h rhs)) mask i

/-- **Any sequence of operations.** -/
theorem represents_foldl (h : ∀ i, (masks i).Represents (sets i)) (ops : List (MaskOp ι)) (i : ι) :
    (ops.foldl run masks i).Represents (ops.foldl apply sets i) := by
  induction ops generalizing masks sets with
  | nil => exact h i
  | cons op ops ih => exact ih (represents_run h op)

end MaskOp

/-- **Masks implement finite sets.** Let each mask represent a set, as a new mask represents the empty set
without rows. After any sequence of operations each mask has no bit at or behind its row count, it has the
row count of the set that the same operations on sets give, and Count, IsAll, Empty, Test, ForEachSetBit and
ToSelectionVector agree with that set. -/
theorem SelectionMask.implements_sets {ι : Type} [DecidableEq ι] {masks : ι → SelectionMask} {sets : ι → RowSet}
    (h : ∀ i, (masks i).Represents (sets i)) (ops : List (MaskOp ι)) (i : ι) :
    let m := ops.foldl MaskOp.run masks i
    let s := ops.foldl MaskOp.apply sets i
    m.WF ∧ m.rowCount = s.rowCount ∧ m.count = s.rows.card ∧
      (m.isAll = true ↔ s.rows = Finset.range s.rowCount) ∧ (m.isEmpty = true ↔ s.rows = ∅) ∧
      (∀ r, m.test r = true ↔ r ∈ s.rows) ∧ m.forEachSetBit = s.rows.sort ∧ m.toSelectionVector = s.rows.sort := by
  intro m s
  have hm : m.Represents s := MaskOp.represents_foldl h ops i
  exact ⟨hm.wf, hm.rowCount, hm.count, hm.isAll, hm.isEmpty, hm.test, hm.forEachSetBit,
    m.toSelectionVector_eq.trans hm.forEachSetBit⟩

/-- Three rows, in two words, are taken from seventy. -/
theorem SelectionMask.implements_sets_three :
    let ops := [MaskOp.setAll false 70, .fromSelectionVector true [0, 3, 64] 70, .andNot false true]
    let m := ops.foldl MaskOp.run (fun _ => SelectionMask.setNone 0) false
    m.WF ∧ m.count = 67 ∧ m.test 3 = false ∧ m.test 4 = true := by
  have h := SelectionMask.implements_sets (fun _ : Bool => SelectionMask.Represents.setNone 0)
    [.setAll false 70, .fromSelectionVector true [0, 3, 64] 70, .andNot false true] false
  obtain ⟨hwf, -, hcount, -, -, htest, -⟩ := h
  refine ⟨hwf, hcount.trans (by decide +kernel), ?_, (htest 4).mpr (by decide +kernel)⟩
  exact Bool.eq_false_iff.mpr fun h3 => absurd ((htest 3).mp h3) (by decide +kernel)

end SimpleOlap
