import SimpleOlap.Simd.SelectionMask

/-!
# Compare kernels

The kernels of `compare_scalar.cpp`, column against constant and column against column: clear the
mask, then set the bit of every row whose element compares true (`bit_compareConst`,
`bit_compareColumn`).
-/

namespace SimpleOlap

open Lib

/-- Element `i` of a typed column buffer. -/
def readElement (α : Type) [Numeric α] (data : Bytes) (i : ℕ) : α :=
  Numeric.read (cell (typeElemSize (Numeric.dataType α)) i data)

/-- Source: CompareConstScalar. -/
def compareConst {α : Type} [Numeric α] (data : Bytes) (count : ℕ) (op : CmpOp) (rhs : α) :
    SelectionMask :=
  (List.range count).foldl
    (fun m i => if compareTypedValue (readElement α data i) op rhs then m.setBit i else m)
    (SelectionMask.setNone count)

/-- Source: CompareColumnScalar. -/
def compareColumn (α : Type) [Numeric α] (lhs rhs : Bytes) (count : ℕ) (op : CmpOp) : SelectionMask :=
  (List.range count).foldl
    (fun m i =>
      if compareTypedValue (readElement α lhs i) op (readElement α rhs i) then m.setBit i else m)
    (SelectionMask.setNone count)

variable {α : Type} [Numeric α]

/-- One row after another: rows already seen carry their result, the others are unset. -/
theorem setBits_loop (p : ℕ → Bool) (count : ℕ) {n : ℕ} (hn : n ≤ kVectorBatchSize) :
    let m := (List.range n).foldl (fun m i => if p i then m.setBit i else m)
      (SelectionMask.setNone count)
    m.rowCount = min count kVectorBatchSize ∧ ∀ r, m.bit r = (decide (r < n) && p r) := by
  induction n with
  | zero => exact ⟨rfl, fun r => by simp [SelectionMask.bit_setNone]⟩
  | succ n ih =>
    obtain ⟨hcount, hbit⟩ := ih (Nat.le_of_succ_le hn)
    simp only [@List.range_succ n, List.foldl_append, List.foldl_cons, List.foldl_nil]
    have hn' : n < kVectorBatchSize := hn
    split_ifs with h
    · refine ⟨by rw [SelectionMask.rowCount_setBit, hcount], fun r => ?_⟩
      rw [SelectionMask.bit_setBit hn', hbit]
      by_cases hr : r = n
      · simp [hr, h]
      · have hiff : r < n + 1 ↔ r < n := by omega
        simp [hr, hiff]
    · refine ⟨hcount, fun r => ?_⟩
      rw [hbit]
      by_cases hr : r = n
      · simp [hr, h]
      · have hiff : r < n + 1 ↔ r < n := by omega
        simp [hiff]

@[simp] theorem rowCount_compareConst (data : Bytes) {count : ℕ} (h : count ≤ kVectorBatchSize)
    (op : CmpOp) (rhs : α) : (compareConst data count op rhs).rowCount = count := by
  rw [compareConst, (setBits_loop _ count h).1, Nat.min_eq_left h]

theorem bit_compareConst (data : Bytes) {count : ℕ} (h : count ≤ kVectorBatchSize) (op : CmpOp)
    (rhs : α) (r : ℕ) : (compareConst data count op rhs).bit r =
      (decide (r < count) && compareTypedValue (readElement α data r) op rhs) :=
  (setBits_loop _ count h).2 r

theorem SelectionMask.WF.compareConst (data : Bytes) {count : ℕ} (h : count ≤ kVectorBatchSize)
    (op : CmpOp) (rhs : α) : (compareConst data count op rhs).WF where
  rowCount_le := by rwa [rowCount_compareConst data h]
  unused r hr := by
    rw [rowCount_compareConst data h] at hr
    simp [bit_compareConst data h, Nat.not_lt.mpr hr]

@[simp] theorem rowCount_compareColumn (lhs rhs : Bytes) {count : ℕ} (h : count ≤ kVectorBatchSize)
    (op : CmpOp) : (compareColumn α lhs rhs count op).rowCount = count := by
  rw [compareColumn, (setBits_loop _ count h).1, Nat.min_eq_left h]

theorem bit_compareColumn (lhs rhs : Bytes) {count : ℕ} (h : count ≤ kVectorBatchSize) (op : CmpOp)
    (r : ℕ) : (compareColumn α lhs rhs count op).bit r =
      (decide (r < count) && compareTypedValue (readElement α lhs r) op (readElement α rhs r)) :=
  (setBits_loop _ count h).2 r

theorem SelectionMask.WF.compareColumn (lhs rhs : Bytes) {count : ℕ} (h : count ≤ kVectorBatchSize)
    (op : CmpOp) : (compareColumn α lhs rhs count op).WF where
  rowCount_le := by rwa [rowCount_compareColumn lhs rhs h]
  unused r hr := by
    rw [rowCount_compareColumn lhs rhs h] at hr
    simp [bit_compareColumn lhs rhs h, Nat.not_lt.mpr hr]

end SimpleOlap
