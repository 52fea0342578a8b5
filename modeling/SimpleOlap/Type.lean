import SimpleOlap.Lib.Bytes
import SimpleOlap.Lib.FpInt

/-!
# Column types and column values

The type enumerations of `type.h`, the values of the four numeric column types, and how a cell of a
column buffer is read as one.

* `Double` and `Single` are the values of the C++ types `double` and `float`: an exact value together
  with the proof that the format represents it. The common unit is `2 ^ -1074`.
* Widening is exact (`Single.val_widen`), and so are integers of at most 53 bits (`Double.val_ofInt`).
* `Numeric α` is what storage does with an element type: compare two elements and read one from its
  bytes. The comparison is tied to the exact values by the fields `eq_value`, `lt_value`, `le_value`,
  so `compareTypedValue_eq` holds for all four types at once.
-/

namespace SimpleOlap

open Lib

/-! ## Enumerations and ids

Source: `type.h`. -/

/-- Column types. A byte of a file that names none of them is read as `invalid`. -/
inductive DataType
  | invalid | int32 | int64 | float | double | varchar
  deriving DecidableEq, Repr

/-- Key kinds. -/
inductive KeyType
  | primary | secondary
  deriving DecidableEq, Repr

/-- Source: `type.h` TableId. -/
abbrev TableId := ℕ

/-- Source: `type.h` ColumnId. -/
abbrev ColumnId := ℕ

/-- Source: `type.h` SegmentId. -/
abbrev SegmentId := ℕ

/-- Source: `type.h` KeyId. -/
abbrev KeyId := ℕ

/-- Source: `type.h` kVarcharSlotSize. -/
def kVarcharSlotSize : ℕ := 64

/-- Source: `type.h` kVarcharInlineMax. -/
def kVarcharInlineMax : ℕ := kVarcharSlotSize - 4

/-- Size of one element in bytes. -/
def typeElemSize : DataType → ℕ
  | .int32 => 4
  | .int64 => 8
  | .float => 4
  | .double => 8
  | .varchar => kVarcharSlotSize
  | .invalid => 8

/-- No element is empty. -/
theorem typeElemSize_pos (t : DataType) : 0 < typeElemSize t := by cases t <;> decide

/-- The types with zone maps and compare kernels. -/
def DataType.IsNumeric (t : DataType) : Prop :=
  t = .int32 ∨ t = .int64 ∨ t = .float ∨ t = .double

/-- Whether a type is numeric can be decided. -/
instance (t : DataType) : Decidable t.IsNumeric := inferInstanceAs (Decidable (_ ∨ _))

/-! ## VARCHAR slots -/

/-- The length a slot carries, cut to what a slot can hold. -/
def readVarcharLength (slot : Bytes) : ℕ := min (leNat (slot.take 4)) kVarcharInlineMax

/-- The string a slot carries. -/
def readVarcharSlot (slot : Bytes) : Bytes := (slot.drop 4).take (readVarcharLength slot)

/-- A string as a slot: length, payload, zeros. `none` stands for the exception on a long string. -/
def writeVarcharSlot (value : Bytes) : Option Bytes :=
  if value.length > kVarcharInlineMax then none
  else some (leBytes 4 value.length ++ value ++ List.replicate (kVarcharInlineMax - value.length) 0)

/-- **A string is read back from its slot.** -/
theorem readVarcharSlot_writeVarcharSlot {value slot : Bytes} (h : writeVarcharSlot value = some slot) :
    readVarcharSlot slot = value ∧ slot.length = kVarcharSlotSize := by
  unfold writeVarcharSlot at h
  split_ifs at h with hlen
  cases h
  have hmax : value.length ≤ 60 := Nat.not_lt.mp hlen
  have hlt : value.length < 256 ^ 4 := by omega
  constructor
  · simp [readVarcharSlot, readVarcharLength, leNat_leBytes hlt, kVarcharInlineMax,
      kVarcharSlotSize, hmax]
  · simp [kVarcharInlineMax, kVarcharSlotSize]
    omega

/-- What a cell holds: the string of a slot, the bytes of anything else. -/
def cellContent (type : DataType) (c : Bytes) : Bytes := if type = .varchar then readVarcharSlot c else c

/-- The common unit is two to this power below one: the least positive double. -/
def unitLog : ℕ := 1074

/-- One, in the common unit. -/
def unit : ℕ := 2 ^ unitLog

/-- The unit is a power of two. -/
theorem unit_eq : unit = 2 ^ unitLog := rfl

/-- The unit is positive. -/
theorem unit_pos : 0 < unit := Nat.two_pow_pos unitLog

/-- The size of an integer in units. -/
theorem natAbs_mul_unit (z : ℤ) : (z * (unit : ℤ)).natAbs = z.natAbs * 2 ^ unitLog :=
  Int.natAbs_mul z _

-- keeps the power from being computed during elaboration
attribute [irreducible] unit

/-- The format of `double`. -/
def binary64 : Format := ⟨53, 0, 11, by decide, by decide⟩

/-- The format of `float`. -/
def binary32 : Format := ⟨24, 925, 8, by decide, by decide⟩

/-- The values of `double`. -/
abbrev Double := {a : Fp // binary64.Mem a}

/-- The values of `float`. -/
abbrev Single := {a : Fp // binary32.Mem a}

/-- The double nearest to a value. -/
def toDouble (a : Fp) : Double := ⟨binary64.convert a, binary64.mem_convert a⟩

/-- The float nearest to a value. -/
def toSingle (a : Fp) : Single := ⟨binary32.convert a, binary32.mem_convert a⟩

/-- `static_cast<double>` of an integer. -/
def Double.ofInt (z : ℤ) : Double := toDouble (.ofInt unit z)

/-- `static_cast<float>` of a double. -/
def Double.narrow (d : Double) : Single := toSingle d.val

/-- `static_cast<double>` of a float. -/
def Single.widen (f : Single) : Double := toDouble f.val

/-- A double is no further rounded. -/
@[simp] theorem toDouble_val (d : Double) : toDouble d.val = d :=
  Subtype.ext (binary64.convert_of_mem d.property)

/-- Every float is a double. -/
theorem mem_binary64_of_mem_binary32 {a : Fp} (h : binary32.Mem a) : binary64.Mem a :=
  Format.Mem.of_le (by decide) (by decide) (by decide) h

/-- Widening is exact. -/
@[simp] theorem Single.val_widen (f : Single) : f.widen.val = f.val := by
  show binary64.convert f.val = f.val
  exact binary64.convert_of_mem (mem_binary64_of_mem_binary32 f.property)

/-- Integers of at most 53 bits are exact as doubles. -/
theorem Double.val_ofInt {z : ℤ} (h : z.natAbs < 2 ^ 53) :
    (Double.ofInt z).val = .ofInt unit z := by
  show binary64.convert (.ofInt unit z) = .ofInt unit z
  apply binary64.convert_of_mem
  exact Format.mem_ofUnits (natAbs_mul_unit z) h (by decide) (by decide)

/-- `2 ^ j` and `-2 ^ j` are doubles. -/
theorem Double.val_ofInt_two_pow {z : ℤ} {j : ℕ} (hz : z.natAbs = 2 ^ j) (hj : j ≤ 900) :
    (Double.ofInt z).val = .ofInt unit z := by
  show binary64.convert (.ofInt unit z) = .ofInt unit z
  have habs : (z * (unit : ℤ)).natAbs = 1 * 2 ^ (j + unitLog) := by
    rw [natAbs_mul_unit, hz, one_mul, pow_add]
  apply binary64.convert_of_mem
  refine Format.mem_ofUnits habs (by decide) (Nat.zero_le _) ?_
  have : unitLog = 1074 := rfl
  show j + unitLog + 3 ≤ 0 + 2 ^ 11
  omega

/-- An integer is not NaN as a double. -/
theorem Double.ofInt_ne_nan (z : ℤ) : (Double.ofInt z).val ≠ .nan :=
  binary64.convert_ne_nan (Fp.ofInt_ne_nan z)

/-! ## Element types -/

/-- What storage does with an element type: its size, reading it from its bytes, and the C++
comparison operators, which agree with the exact values. -/
class Numeric (α : Type) where
  dataType : DataType
  read : Bytes → α
  value : α → Fp
  eq : α → α → Bool
  lt : α → α → Bool
  le : α → α → Bool
  eq_value : ∀ a b, eq a b = (value a).eq (value b)
  lt_value : ∀ a b, lt a b = (value a).lt (value b)
  le_value : ∀ a b, le a b = (value a).le (value b)

/-- Integers compare as their floating values. -/
theorem decide_holds_eq_cmp (op : CmpOp) (y z : ℤ) :
    decide (op.holds y z) = Fp.cmp op (.ofInt unit y) (.ofInt unit z) := by
  rw [Bool.eq_iff_iff, decide_eq_true_iff, Fp.cmp_ofInt_ofInt unit_pos]

/-- INT32 cells. -/
instance : Numeric Int32 where
  dataType := .int32
  read c := (UInt32.ofNat (leNat c)).toInt32
  value v := .ofInt unit v.toInt
  eq a b := decide (a = b)
  lt a b := decide (a < b)
  le a b := decide (a ≤ b)
  eq_value a b := by
    refine Eq.trans ?_ (decide_holds_eq_cmp .eq a.toInt b.toInt)
    simp [CmpOp.holds, Int32.toInt_inj]
  lt_value a b := by
    refine Eq.trans ?_ (decide_holds_eq_cmp .lt a.toInt b.toInt)
    simp [CmpOp.holds, Int32.lt_iff_toInt_lt]
  le_value a b := by
    refine Eq.trans ?_ (decide_holds_eq_cmp .le a.toInt b.toInt)
    simp [CmpOp.holds, Int32.le_iff_toInt_le]

/-- INT64 cells. -/
instance : Numeric Int64 where
  dataType := .int64
  read c := (UInt64.ofNat (leNat c)).toInt64
  value v := .ofInt unit v.toInt
  eq a b := decide (a = b)
  lt a b := decide (a < b)
  le a b := decide (a ≤ b)
  eq_value a b := by
    refine Eq.trans ?_ (decide_holds_eq_cmp .eq a.toInt b.toInt)
    simp [CmpOp.holds, Int64.toInt_inj]
  lt_value a b := by
    refine Eq.trans ?_ (decide_holds_eq_cmp .lt a.toInt b.toInt)
    simp [CmpOp.holds, Int64.lt_iff_toInt_lt]
  le_value a b := by
    refine Eq.trans ?_ (decide_holds_eq_cmp .le a.toInt b.toInt)
    simp [CmpOp.holds, Int64.le_iff_toInt_le]

/-- FLOAT cells. -/
instance : Numeric Single where
  dataType := .float
  read c := ⟨binary32.decode (leNat c), binary32.mem_decode⟩
  value v := v.val
  eq a b := a.val.eq b.val
  lt a b := a.val.lt b.val
  le a b := a.val.le b.val
  eq_value _ _ := rfl
  lt_value _ _ := rfl
  le_value _ _ := rfl

/-- DOUBLE cells. -/
instance : Numeric Double where
  dataType := .double
  read c := ⟨binary64.decode (leNat c), binary64.mem_decode⟩
  value v := v.val
  eq a b := a.val.eq b.val
  lt a b := a.val.lt b.val
  le a b := a.val.le b.val
  eq_value _ _ := rfl
  lt_value _ _ := rfl
  le_value _ _ := rfl

/-- The typed comparison of one element.

Source: `compare_kernel.h` CompareTypedValue. -/
def compareTypedValue {α : Type} [Numeric α] (lhs : α) (op : CmpOp) (rhs : α) : Bool :=
  match op with
  | .eq => Numeric.eq lhs rhs
  | .ne => !Numeric.eq lhs rhs
  | .gt => Numeric.lt rhs lhs
  | .ge => Numeric.le rhs lhs
  | .lt => Numeric.lt lhs rhs
  | .le => Numeric.le lhs rhs

/-- The typed comparison is the comparison of the exact values. -/
theorem compareTypedValue_eq {α : Type} [Numeric α] (lhs : α) (op : CmpOp) (rhs : α) :
    compareTypedValue lhs op rhs = Fp.cmp op (Numeric.value lhs) (Numeric.value rhs) := by
  cases op <;>
    simp only [compareTypedValue, Fp.cmp, Numeric.eq_value, Numeric.lt_value, Numeric.le_value]

end SimpleOlap
