import SimpleOlap.Lib.FpArith
import SimpleOlap.Execution.Vector

/-!
# Expressions, row by row

* `ExecValue`: a scalar value of one of the six alternatives, and the conversions on it.
* `ExecExpression.eval`: the value of an expression at a physical row of a batch. Errors are the
  exceptions of the code, with their texts.

Source: `exec_expression.h`, `exec_expression.cpp`. `long double` holds every value of the numeric types
exactly; where a sum of two of them is rounded to it is `binary80`.
-/

namespace SimpleOlap

open Lib

/-- Source: `exec_expression.h` ExecValue. -/
inductive ExecValue
  | int32 (v : Int32)
  | int64 (v : Int64)
  | float (v : Single)
  | double (v : Double)
  | string (v : Bytes)
  | bool (v : Bool)
  deriving DecidableEq

/-- The format of `long double`. Sums of doubles are whole numbers of units, so no finer ones are
needed. -/
def binary80 : Format := ⟨64, 0, 15, by decide, by decide⟩

namespace ExecValue

/-- Source: `exec_expression.cpp` ExecValueAsNumber. -/
def asNumber : ExecValue → Except String Fp
  | .int32 v => .ok (.ofInt unit v.toInt)
  | .int64 v => .ok (.ofInt unit v.toInt)
  | .float v => .ok v.val
  | .double v => .ok v.val
  | .bool v => .ok (.ofInt unit (if v then 1 else 0))
  | .string _ => .error "execution: string is not numeric"

/-- Source: `exec_expression.cpp` ExecValueAsBool. -/
def asBool : ExecValue → Except String Bool
  | .bool v => .ok v
  | .string v => .ok (!v.isEmpty)
  | value => return !(← value.asNumber).eq (.ofInt unit 0)

/-- `static_cast<int32_t>`; out of range the least integer stands for what the hardware gives. -/
def toInt32 (v : Fp) : Int32 :=
  if -2 ^ 31 ≤ Fp.trunc unit v ∧ Fp.trunc unit v < 2 ^ 31 then Int32.ofInt (Fp.trunc unit v)
  else Int32.minValue

/-- `static_cast<int64_t>`; out of range the least integer stands for what the hardware gives. -/
def toInt64 (v : Fp) : Int64 :=
  if -2 ^ 63 ≤ Fp.trunc unit v ∧ Fp.trunc unit v < 2 ^ 63 then Int64.ofInt (Fp.trunc unit v)
  else Int64.minValue

/-- Source: `exec_expression.cpp` CastNumber. -/
def castNumber (v : Fp) : DataType → ExecValue
  | .int32 => .int32 (toInt32 v)
  | .int64 => .int64 (toInt64 v)
  | .float => .float (toSingle v)
  | .double => .double (toDouble v)
  | _ => .double (toDouble v)

/-- The three-way comparison of two numbers: 0 also where neither is less. -/
def compareNumbers (a b : Fp) : ℤ := if a.lt b then -1 else if b.lt a then 1 else 0

/-- Source: `exec_expression.cpp` CompareExecValues. -/
def compare (lhs rhs : ExecValue) : Except String ℤ :=
  match lhs, rhs with
  | .string a, .string b => .ok (if a < b then -1 else if b < a then 1 else 0)
  | .string _, _ | _, .string _ =>
    .error "execution: cannot compare string with numeric value"
  | lhs, rhs => return compareNumbers (← lhs.asNumber) (← rhs.asNumber)

/-- Numbers are compared by their values. -/
theorem compare_of_asNumber {a b : ExecValue} {x y : Fp} (ha : a.asNumber = .ok x)
    (hb : b.asNumber = .ok y) : a.compare b = .ok (compareNumbers x y) := by
  have hcompare : a.compare b = (do return compareNumbers (← a.asNumber) (← b.asNumber)) := by
    cases a <;> cases b <;> first | rfl | (cases ha; done) | cases hb
  rw [hcompare, ha, hb]
  rfl

/-- What a comparison says of two numbers, NaN apart. -/
theorem compareNumbers_cases {x y : Fp} (hx : x ≠ .nan) (hy : y ≠ .nan) :
    (compareNumbers x y < 0 ↔ x.key < y.key) ∧ (0 < compareNumbers x y ↔ y.key < x.key) := by
  rw [compareNumbers]
  simp only [Fp.lt_iff hx hy, Fp.lt_iff hy hx]
  have hasymm : x.key < y.key → ¬ y.key < x.key := fun h => lt_asymm h
  split_ifs <;> grind

end ExecValue

/-- Source: `exec_expression.cpp` ReadExecValue. -/
def readExecValue (column : ColumnData) (physicalRow : ℕ) : Except String ExecValue :=
  if column.count ≤ physicalRow then .error "execution: row index out of range"
  else match column.type with
    | .int32 => .ok (.int32 (Numeric.read (column.cellAt physicalRow)))
    | .int64 => .ok (.int64 (Numeric.read (column.cellAt physicalRow)))
    | .float => .ok (.float (Numeric.read (column.cellAt physicalRow)))
    | .double => .ok (.double (Numeric.read (column.cellAt physicalRow)))
    | .varchar => .ok (.string (readVarcharSlot (column.cellAt physicalRow)))
    | .invalid => .error "execution: invalid column type"

/-! ## Expressions -/

/-- Source: `plan_expression.h` PlanBinaryOp. -/
inductive PlanBinaryOp
  | add | sub | eq | ne | gt | ge | lt | le | and | or
  deriving DecidableEq, Repr

namespace PlanBinaryOp

/-- Source: `exec_expression.h` IsPlanComparison, `boundexpr.h` ToCmpOp. -/
def toCmpOp? : PlanBinaryOp → Option CmpOp
  | .eq => some .eq
  | .ne => some .ne
  | .gt => some .gt
  | .ge => some .ge
  | .lt => some .lt
  | .le => some .le
  | _ => none

end PlanBinaryOp

/-- Source: `exec_expression.h` ExecColumnRef, ExecLiteral, ExecBinary. -/
inductive ExecExpression
  | columnRef (inputSlot : ℕ) (type : DataType)
  | literal (value : ExecValue) (type : DataType)
  | binary (op : PlanBinaryOp) (left right : ExecExpression) (returnType : DataType)

/-- What a comparison says about the three-way result. Source: `exec_expression.cpp` ExecBinary::Eval. -/
def signHolds (op : CmpOp) (cmp : ℤ) : Bool :=
  match op with
  | .eq => cmp = 0
  | .ne => cmp ≠ 0
  | .gt => 0 < cmp
  | .ge => 0 ≤ cmp
  | .lt => cmp < 0
  | .le => cmp ≤ 0

/-- **The comparison is that of the values**, NaN apart. -/
theorem signHolds_compareNumbers (op : CmpOp) {x y : Fp} (hx : x ≠ .nan) (hy : y ≠ .nan) :
    signHolds op (ExecValue.compareNumbers x y) = Fp.cmp op x y := by
  obtain ⟨hneg, hpos⟩ := ExecValue.compareNumbers_cases hx hy
  rw [Bool.eq_iff_iff, Fp.cmp_iff hx hy]
  cases op with
  | eq =>
    simp only [signHolds, CmpOp.holds, decide_eq_true_eq]
    rw [← not_iff_not, ← Ne, ← Ne, ne_iff_lt_or_gt, ne_iff_lt_or_gt, hneg, hpos]
  | ne =>
    simp only [signHolds, CmpOp.holds, decide_eq_true_eq]
    rw [ne_iff_lt_or_gt, ne_iff_lt_or_gt, hneg, hpos]
  | gt => simpa [signHolds, CmpOp.holds] using hpos
  | ge =>
    simp only [signHolds, CmpOp.holds, decide_eq_true_eq]
    rw [← not_lt, hneg, not_lt]
  | lt => simpa [signHolds, CmpOp.holds] using hneg
  | le =>
    simp only [signHolds, CmpOp.holds, decide_eq_true_eq]
    rw [← not_lt, hpos, not_lt]

/-- The operators besides AND and OR, on the values of the operands. Source: `exec_expression.cpp`
ExecBinary::Eval. -/
def evalOperator (op : PlanBinaryOp) (lhs rhs : ExecValue) (returnType : DataType) :
    Except String ExecValue :=
  match op.toCmpOp? with
  | some cmp => return .bool (signHolds cmp (← lhs.compare rhs))
  | none => do
    let a ← lhs.asNumber
    let b ← rhs.asNumber
    match op with
    | .add => .ok (.castNumber (binary80.convert (a.add b)) returnType)
    | .sub => .ok (.castNumber (binary80.convert (a.sub b)) returnType)
    | _ => .error "execution: unsupported binary operator"

/-- Source: `exec_expression.cpp` Eval. -/
def ExecExpression.eval (batch : VectorBatch) (physicalRow : ℕ) : ExecExpression → Except String ExecValue
  | .columnRef slot _ =>
    match batch.columns[slot]? with
    | none => .error "execution: input slot out of range"
    | some column => readExecValue column physicalRow
  | .literal value _ => .ok value
  | .binary .and left right _ => do
    if ← (← left.eval batch physicalRow).asBool then
      return .bool (← (← right.eval batch physicalRow).asBool)
    else return .bool false
  | .binary .or left right _ => do
    if ← (← left.eval batch physicalRow).asBool then return .bool true
    else return .bool (← (← right.eval batch physicalRow).asBool)
  | .binary op left right type => do
    let lhs ← left.eval batch physicalRow
    let rhs ← right.eval batch physicalRow
    evalOperator op lhs rhs type

/-- An operator other than AND and OR evaluates both operands. -/
theorem eval_binary {batch : VectorBatch} {row : ℕ} {op : PlanBinaryOp} {left right : ExecExpression}
    {type : DataType} {a b : ExecValue} (hand : op ≠ .and) (hor : op ≠ .or)
    (ha : left.eval batch row = .ok a) (hb : right.eval batch row = .ok b) :
    (ExecExpression.binary op left right type).eval batch row = evalOperator op a b type := by
  rw [ExecExpression.eval.eq_5 batch row op left right type hand hor, ha, hb]
  rfl

end SimpleOlap
