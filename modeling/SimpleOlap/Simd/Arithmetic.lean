import SimpleOlap.Lib.BlockLoop
import SimpleOlap.Lib.FpArith
import SimpleOlap.Simd.Compare

/-!
# Arithmetic kernels

Element by element sums and differences of two columns, or of a column and a constant on either side.
The AVX2 kernels go in blocks of 32 bytes with a scalar tail, the scalar ones element by element; both
write the same elements (`arithmeticColumn_eq`, `arithmeticConst_eq`).

Source: `arithmetic_kernel.h`, `arithmetic_scalar.cpp`, `arithmetic_avx2.cpp`. Integers wrap in their
width, floating-point results are rounded to their format.
-/

namespace SimpleOlap

open Lib

/-- Source: `arithmetic_kernel.h` ArithmeticOp. -/
inductive ArithmeticOp
  | add | sub
  deriving DecidableEq, Repr

/-- The element types of the kernels: their arithmetic, and the bytes that an element is stored as. -/
class ArithmeticElement (α : Type) extends Numeric α where
  add : α → α → α
  sub : α → α → α
  write : α → Bytes
  add_comm : ∀ a b, add a b = add b a
  length_write : ∀ a, (write a).length = typeElemSize dataType
  read_write : ∀ a, read (write a) = a

theorem Fp.add_comm (a b : Fp) : a.add b = b.add a := by
  rcases a with _ | s | ⟨s, m⟩ <;> rcases b with _ | t | ⟨t, n⟩ <;> try rfl
  · simp only [Fp.add]
    by_cases h : s = t
    · rw [h]
    · rw [if_neg h, if_neg (Ne.symm h)]
  · simp only [Fp.add, Int.add_comm (Fp.signed s m), Bool.and_comm s]

instance : ArithmeticElement Int32 where
  add a b := a + b
  sub a b := a - b
  write a := leBytes 4 a.toUInt32.toNat
  add_comm := Int32.add_comm
  length_write a := length_leBytes 4 _
  read_write a := by
    show (UInt32.ofNat (leNat (leBytes 4 a.toUInt32.toNat))).toInt32 = a
    rw [leNat_leBytes a.toUInt32.toNat_lt, UInt32.ofNat_toNat]
    rfl

instance : ArithmeticElement Int64 where
  add a b := a + b
  sub a b := a - b
  write a := leBytes 8 a.toUInt64.toNat
  add_comm := Int64.add_comm
  length_write a := length_leBytes 8 _
  read_write a := by
    show (UInt64.ofNat (leNat (leBytes 8 a.toUInt64.toNat))).toInt64 = a
    rw [leNat_leBytes a.toUInt64.toNat_lt, UInt64.ofNat_toNat]
    rfl

/-- The patterns of a format fill its bytes. -/
theorem two_signBit : 2 * binary32.signBit = 256 ^ 4 ∧ 2 * binary64.signBit = 256 ^ 8 := by
  constructor <;> norm_num [Format.signBit, binary32, binary64]

/-- A pattern of the format is read back from its bytes. -/
theorem leNat_encode_single (a : Single) :
    leNat (leBytes 4 (binary32.encode a.val)) = binary32.encode a.val :=
  leNat_leBytes (lt_of_lt_of_eq (binary32.encode_lt a.2) two_signBit.1)

theorem leNat_encode_double (a : Double) :
    leNat (leBytes 8 (binary64.encode a.val)) = binary64.encode a.val :=
  leNat_leBytes (lt_of_lt_of_eq (binary64.encode_lt a.2) two_signBit.2)

theorem Single.val_read (c : Bytes) : (Numeric.read c : Single).val = binary32.decode (leNat c) := rfl

theorem Double.val_read (c : Bytes) : (Numeric.read c : Double).val = binary64.decode (leNat c) := rfl

instance : ArithmeticElement Single where
  add a b := toSingle (a.val.add b.val)
  sub a b := toSingle (a.val.sub b.val)
  write a := leBytes 4 (binary32.encode a.val)
  add_comm a b := congrArg toSingle (Fp.add_comm a.val b.val)
  length_write a := length_leBytes 4 _
  read_write a := by
    apply Subtype.ext
    rw [Single.val_read, leNat_encode_single]
    exact binary32.decode_encode a.2

instance : ArithmeticElement Double where
  add a b := toDouble (a.val.add b.val)
  sub a b := toDouble (a.val.sub b.val)
  write a := leBytes 8 (binary64.encode a.val)
  add_comm a b := congrArg toDouble (Fp.add_comm a.val b.val)
  length_write a := length_leBytes 8 _
  read_write a := by
    apply Subtype.ext
    rw [Double.val_read, leNat_encode_double]
    exact binary64.decode_encode a.2

/-! ## Kernels -/

/-- Source: `arithmetic_kernel.h` ArithmeticTypedValue. -/
def arithmeticTypedValue {α : Type} [ArithmeticElement α] (lhs : α) (op : ArithmeticOp) (rhs : α) : α :=
  match op with
  | .add => ArithmeticElement.add lhs rhs
  | .sub => ArithmeticElement.sub lhs rhs

/-- Which kernels the registry has installed. -/
inductive Backend
  | scalar | avx2
  deriving DecidableEq, Repr

section

variable (α : Type) [ArithmeticElement α]

/-- Elements in a register of 32 bytes. -/
def lanes : ℕ := 32 / typeElemSize (Numeric.dataType α)

/-- The kernels column with column. -/
def arithmeticColumn (backend : Backend) (op : ArithmeticOp) (lhs rhs : Bytes) (count : ℕ) : List α :=
  let element i := arithmeticTypedValue (readElement α lhs i) op (readElement α rhs i)
  match backend with
  | .scalar => (List.range count).map element
  | .avx2 =>
    let block i := (List.range' i (lanes α)).map fun j =>
      if op = .add then ArithmeticElement.add (readElement α lhs j) (readElement α rhs j)
      else ArithmeticElement.sub (readElement α lhs j) (readElement α rhs j)
    blockLoop (lanes α) block element count 0

variable {α}

/-- The kernels column with constant. A block of sums has the constant on the right always. -/
def arithmeticConst (backend : Backend) (op : ArithmeticOp) (data : Bytes) (constant : α)
    (constOnLeft : Bool) (count : ℕ) : List α :=
  let element i :=
    if constOnLeft then arithmeticTypedValue constant op (readElement α data i)
    else arithmeticTypedValue (readElement α data i) op constant
  match backend with
  | .scalar => (List.range count).map element
  | .avx2 =>
    let block i := (List.range' i (lanes α)).map fun j =>
      if op = .add then ArithmeticElement.add (readElement α data j) constant
      else if constOnLeft then ArithmeticElement.sub constant (readElement α data j)
      else ArithmeticElement.sub (readElement α data j) constant
    blockLoop (lanes α) block element count 0

variable (α) in
/-- **Both kernels give the elements one by one.** -/
theorem arithmeticColumn_eq (backend : Backend) (op : ArithmeticOp) (lhs rhs : Bytes) (count : ℕ) :
    arithmeticColumn α backend op lhs rhs count = (List.range count).map fun i =>
      arithmeticTypedValue (readElement α lhs i) op (readElement α rhs i) := by
  cases backend with
  | scalar => rfl
  | avx2 =>
    apply blockLoop_eq_map
    intro i
    cases op <;> rfl

/-- **Both kernels give the elements one by one**, the constant on its side. -/
theorem arithmeticConst_eq (backend : Backend) (op : ArithmeticOp) (data : Bytes) (constant : α)
    (constOnLeft : Bool) (count : ℕ) :
    arithmeticConst backend op data constant constOnLeft count = (List.range count).map fun i =>
      if constOnLeft then arithmeticTypedValue constant op (readElement α data i)
      else arithmeticTypedValue (readElement α data i) op constant := by
  cases backend with
  | scalar => rfl
  | avx2 =>
    apply blockLoop_eq_map
    intro i
    apply List.map_congr_left
    intro j _
    cases op with
    | add =>
      cases constOnLeft with
      | false => rfl
      | true => exact ArithmeticElement.add_comm _ _
    | sub => rfl

/-- The bytes of a column of elements. -/
def writeElements (elements : List α) : Bytes := elements.flatMap ArithmeticElement.write

/-- What was written is read back. -/
theorem readElement_writeElements {elements : List α} {i : ℕ} (h : i < elements.length) (rest : Bytes) :
    readElement α (writeElements elements ++ rest) i = elements[i] := by
  have hlen := length_flatMap_const (w := typeElemSize (Numeric.dataType α)) ArithmeticElement.write
    ArithmeticElement.length_write elements
  have hcell := cell_flatMap ArithmeticElement.write elements
    (fun a _ => ArithmeticElement.length_write a) h
  rw [readElement, writeElements, cell_append_left _ (hlen ▸ Nat.mul_le_mul_right _ h), hcell,
    ArithmeticElement.read_write]

end

end SimpleOlap
