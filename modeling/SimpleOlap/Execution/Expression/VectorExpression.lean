import SimpleOlap.Execution.Expression.CompiledPredicate
import SimpleOlap.Execution.Aggregate.HashAggregateState
import SimpleOlap.Simd.Arithmetic
import SimpleOlap.Storage.Scan.IntegerBinding

/-!
# Expressions on whole columns

A sum or difference of two columns, or of a column and a literal that its type can hold, is computed for
a dense batch by one kernel call.

* `tryCompileVectorExpression`, `ArithmeticVectorExpression.evaluateDense`: the compiler and the
  evaluation, with the exceptions of the code.
* `AgreesAt`: the element of a row is what the row's scalar evaluation writes, every conversion in range.
* `evaluateDense_agrees_iff`: for integer results this is so exactly on the rows whose exact sum or
  difference lies in the range of the result type.

Source: `vector_expression.h`, `vector_expression.cpp`, `vector_expression_compiler.cpp`.
-/

namespace SimpleOlap

open Lib PreparedScanPredicates

/-- Source: `vector_expression.h` ArithmeticOperand::Kind. -/
inductive OperandKind
  | column | constant
  deriving DecidableEq, Repr

/-- Source: `vector_expression.h` ArithmeticOperand. -/
structure ArithmeticOperand where
  kind : OperandKind := .constant
  type : DataType := .invalid
  columnSlot : ℕ := 0
  constant : NumericConstant := .int32 0
  deriving DecidableEq

/-- Source: `vector_expression.h` ArithmeticVectorExpression. -/
structure ArithmeticVectorExpression where
  op : ArithmeticOp
  lhs : ArithmeticOperand
  rhs : ArithmeticOperand
  type : DataType
  deriving DecidableEq

/-! ## The compiler -/

/-- Source: `vector_expression_compiler.cpp` ClassifyOperand. -/
def classifyOperand (expr : ExecExpression) (resultType : DataType) : Option ArithmeticOperand :=
  match expr with
  | .columnRef slot type =>
    if type ≠ resultType then none
    else some { kind := .column, type := resultType, columnSlot := slot }
  | .literal value _ => do
    let constant ← tryCoerceExact value resultType
    return { kind := .constant, type := resultType, constant := constant }
  | .binary _ _ _ _ => none

/-- The operators with a kernel. -/
def ArithmeticOp.ofPlan? : PlanBinaryOp → Option ArithmeticOp
  | .add => some .add
  | .sub => some .sub
  | _ => none

/-- Source: `vector_expression_compiler.cpp` TryCompileVectorExpression. -/
def tryCompileVectorExpression (expr : ExecExpression) : Option ArithmeticVectorExpression :=
  match expr with
  | .binary planOp left right resultType => do
    let op ← ArithmeticOp.ofPlan? planOp
    if ¬ resultType.IsNumeric then none
    else
      let lhs ← classifyOperand left resultType
      let rhs ← classifyOperand right resultType
      if lhs.kind = .constant ∧ rhs.kind = .constant then none
      else return ⟨op, lhs, rhs, resultType⟩
  | _ => none

/-! ## Evaluation -/

/-- Elements over the front of a column's buffer. -/
def ColumnData.overwrite {α : Type} [ArithmeticElement α] (column : ColumnData) (elements : List α) :
    ColumnData :=
  { column with
    buffer := writeElements elements ++ column.buffer.drop (writeElements elements).length }

/-- `std::get` of one alternative. -/
def NumericConstant.int32? : NumericConstant → Option Int32
  | .int32 v => some v
  | _ => none

def NumericConstant.int64? : NumericConstant → Option Int64
  | .int64 v => some v
  | _ => none

def NumericConstant.float? : NumericConstant → Option Single
  | .float v => some v
  | _ => none

def NumericConstant.double? : NumericConstant → Option Double
  | .double v => some v
  | _ => none

/-- Source: `vector_expression.cpp` ColumnDataPtr. -/
def columnDataPtr (batch : VectorBatch) (slot : ℕ) : Except String Bytes :=
  match batch.columns[slot]? with
  | none => .error "ArithmeticVectorExpression: input slot out of range"
  | some column => .ok column.buffer

namespace ArithmeticVectorExpression

/-- The kernel call with two columns, for one element type. -/
def evaluateColumns (α : Type) [ArithmeticElement α] (backend : Backend) (e : ArithmeticVectorExpression)
    (input : VectorBatch) (output : ColumnData) (count : ℕ) : Except String ColumnData := do
  let lhs ← columnDataPtr input e.lhs.columnSlot
  let rhs ← columnDataPtr input e.rhs.columnSlot
  return output.overwrite (arithmeticColumn α backend e.op lhs rhs count)

/-- The kernel call with a column and a constant, for one element type; `get` takes the constant out of
the variant. -/
def evaluateConst {α : Type} [ArithmeticElement α] (get : NumericConstant → Option α)
    (backend : Backend) (e : ArithmeticVectorExpression) (input : VectorBatch) (output : ColumnData)
    (count : ℕ) : Except String ColumnData :=
  let lhsIsColumn := e.lhs.kind = .column
  let columnOperand := if lhsIsColumn then e.lhs else e.rhs
  let constantOperand := if lhsIsColumn then e.rhs else e.lhs
  do
    let data ← columnDataPtr input columnOperand.columnSlot
    match get constantOperand.constant with
    | none => .error "std::get: wrong index for variant"
    | some constant =>
      return output.overwrite (arithmeticConst backend e.op data constant (!lhsIsColumn) count)

/-- Source: `vector_expression.cpp` EvaluateDense. -/
def evaluateDense (backend : Backend) (e : ArithmeticVectorExpression) (input : VectorBatch)
    (output : ColumnData) (count : ℕ) : Except String ColumnData :=
  if count = 0 then .ok output
  else if output.type ≠ e.type then .error "ArithmeticVectorExpression: output type mismatch"
  else if e.lhs.kind = .column ∧ e.rhs.kind = .column then
    match e.type with
    | .int32 => e.evaluateColumns Int32 backend input output count
    | .int64 => e.evaluateColumns Int64 backend input output count
    | .float => e.evaluateColumns Single backend input output count
    | .double => e.evaluateColumns Double backend input output count
    | _ => .error "ArithmeticVectorExpression: non-numeric result type"
  else
    match e.type with
    | .int32 => e.evaluateConst NumericConstant.int32? backend input output count
    | .int64 => e.evaluateConst NumericConstant.int64? backend input output count
    | .float => e.evaluateConst NumericConstant.float? backend input output count
    | .double => e.evaluateConst NumericConstant.double? backend input output count
    | _ => .error "ArithmeticVectorExpression: non-numeric result type"

end ArithmeticVectorExpression

/-! ## The scalar path -/

/-- Converting a number to a type is defined: for an integer type, the integral part is in its range. -/
def conversionDefined (type : DataType) (v : Fp) : Bool :=
  match type, v with
  | .int32, .num _ _ | .int64, .num _ _ =>
    (integerBounds type).1 ≤ v.trunc unit && v.trunc unit ≤ (integerBounds type).2
  | .int32, _ | .int64, _ => false
  | _, _ => true

/-- The sum or difference in `long double`, before it is converted. Source: `exec_expression.cpp`
ExecBinary::Eval. -/
def scalarResult (op : ArithmeticOp) (left right : ExecExpression) (batch : VectorBatch) (row : ℕ) :
    Except String Fp := do
  let lhs ← left.eval batch row
  let rhs ← right.eval batch row
  let a ← lhs.asNumber
  let b ← rhs.asNumber
  match op with
  | .add => return binary80.convert (a.add b)
  | .sub => return binary80.convert (a.sub b)

/-- The plan operator of an arithmetic operator. -/
def ArithmeticOp.toPlan : ArithmeticOp → PlanBinaryOp
  | .add => .add
  | .sub => .sub

/-- What `Eval` and then `WriteExecValue` leave in an output column of the expression's type. -/
def writtenValue (op : ArithmeticOp) (left right : ExecExpression) (type : DataType)
    (batch : VectorBatch) (row : ℕ) : Except String ExecValue := do
  writeExecValue type (← (ExecExpression.binary op.toPlan left right type).eval batch row)

/-- The element of a row is what the scalar path writes for the row, by a conversion that is defined. -/
def AgreesAt (op : ArithmeticOp) (left right : ExecExpression) (type : DataType) (batch : VectorBatch)
    (out : ColumnData) (row : ℕ) : Prop :=
  ∃ result value, scalarResult op left right batch row = .ok result ∧
    conversionDefined type result = true ∧
    writtenValue op left right type batch row = .ok value ∧ readExecValue out row = .ok value

/-- The integer of a constant of an integer type. -/
def NumericConstant.toInt : NumericConstant → ℤ
  | .int32 v => v.toInt
  | .int64 v => v.toInt
  | _ => 0

/-- The integer of an operand in a row. -/
def ArithmeticOperand.intAt (operand : ArithmeticOperand) (batch : VectorBatch) (row : ℕ) : ℤ :=
  match operand.kind with
  | .column =>
    match batch.columns[operand.columnSlot]? with
    | some column => integerCell operand.type (column.cellAt row)
    | none => 0
  | .constant => operand.constant.toInt

/-- The exact sum or difference. -/
def ArithmeticOp.exact (op : ArithmeticOp) (x y : ℤ) : ℤ :=
  match op with
  | .add => x + y
  | .sub => x - y

/-- An integer of the range of a type. -/
def InRange (type : DataType) (z : ℤ) : Prop :=
  (integerBounds type).1 ≤ z ∧ z ≤ (integerBounds type).2

instance (type : DataType) (z : ℤ) : Decidable (InRange type z) := by
  unfold InRange
  infer_instance

/-! ## Integer elements -/

/-- The integer element types, between the kernels and the scalar values. -/
class IntegerElement (α : Type) extends ArithmeticElement α where
  toInt : α → ℤ
  toExec : α → ExecValue
  get : NumericConstant → Option α
  isInteger : dataType = .int32 ∨ dataType = .int64
  inRange_toInt : ∀ a, InRange dataType (toInt a)
  toInt_arithmetic : ∀ a op b, InRange dataType (ArithmeticOp.exact op (toInt a) (toInt b)) →
    toInt (arithmeticTypedValue a op b) = ArithmeticOp.exact op (toInt a) (toInt b)
  integerCell_eq : ∀ c, integerCell dataType c = toInt (read c)
  get_eq : ∀ c : NumericConstant, c.dataType = dataType →
    ∃ a, get c = some a ∧ c.value = .ofInt unit (toInt a) ∧ c.toInt = toInt a
  asNumber_toExec : ∀ a, (toExec a).asNumber = .ok (.ofInt unit (toInt a))
  castNumber_eq : ∀ v a, v.trunc unit = toInt a → ExecValue.castNumber v dataType = toExec a
  readExecValue_eq : ∀ (column : ColumnData) (row : ℕ), column.type = dataType → row < column.count →
    readExecValue column row = .ok (toExec (read (column.cellAt row)))

instance : IntegerElement Int32 where
  toInt := Int32.toInt
  toExec := ExecValue.int32
  get := NumericConstant.int32?
  isInteger := .inl rfl
  inRange_toInt a := ⟨Int32.le_toInt a, Int.le_sub_one_of_lt (Int32.toInt_lt a)⟩
  toInt_arithmetic a op b h := by
    cases op with
    | add => exact (Int32.toInt_add a b).trans (Int.bmod_eq_of_le h.1 (Int.lt_of_le_sub_one h.2))
    | sub => exact (Int32.toInt_sub a b).trans (Int.bmod_eq_of_le h.1 (Int.lt_of_le_sub_one h.2))
  integerCell_eq _ := rfl
  get_eq c h := by
    cases c with
    | int32 v => exact ⟨v, rfl, rfl, rfl⟩
    | _ => cases h
  asNumber_toExec _ := rfl
  castNumber_eq v a h := by
    show ExecValue.int32 (ExecValue.toInt32 v) = .int32 a
    rw [ExecValue.toInt32, h, if_pos ⟨Int32.le_toInt a, Int32.toInt_lt a⟩, Int32.ofInt_toInt]
  readExecValue_eq column row htype hrow := by
    have htype' : column.type = .int32 := htype
    rw [readExecValue, if_neg (Nat.not_le.mpr hrow), htype']

instance : IntegerElement Int64 where
  toInt := Int64.toInt
  toExec := ExecValue.int64
  get := NumericConstant.int64?
  isInteger := .inr rfl
  inRange_toInt a := ⟨Int64.le_toInt a, Int.le_sub_one_of_lt (Int64.toInt_lt a)⟩
  toInt_arithmetic a op b h := by
    cases op with
    | add => exact (Int64.toInt_add a b).trans (Int.bmod_eq_of_le h.1 (Int.lt_of_le_sub_one h.2))
    | sub => exact (Int64.toInt_sub a b).trans (Int.bmod_eq_of_le h.1 (Int.lt_of_le_sub_one h.2))
  integerCell_eq _ := rfl
  get_eq c h := by
    cases c with
    | int64 v => exact ⟨v, rfl, rfl, rfl⟩
    | _ => cases h
  asNumber_toExec _ := rfl
  castNumber_eq v a h := by
    show ExecValue.int64 (ExecValue.toInt64 v) = .int64 a
    rw [ExecValue.toInt64, h, if_pos ⟨Int64.le_toInt a, Int64.toInt_lt a⟩, Int64.ofInt_toInt]
  readExecValue_eq column row htype hrow := by
    have htype' : column.type = .int64 := htype
    rw [readExecValue, if_neg (Nat.not_le.mpr hrow), htype']

/-! ## One row -/

section

variable {α : Type} [IntegerElement α] {batch : VectorBatch} {count row : ℕ}

/-- The elements of an operand, row by row. -/
def ArithmeticOperand.Holds (operand : ArithmeticOperand) (batch : VectorBatch) (f : ℕ → α) : Prop :=
  match operand.kind with
  | .column => ∃ column, batch.columns[operand.columnSlot]? = some column ∧
      ∀ i, f i = readElement α column.buffer i
  | .constant => ∃ c, IntegerElement.get operand.constant = some c ∧ ∀ i, f i = c

/-- An expression has an integer as its value in a row. -/
def ExecExpression.DenotesAt (expr : ExecExpression) (batch : VectorBatch) (row : ℕ) (x : ℤ) : Prop :=
  ∃ value number, expr.eval batch row = .ok value ∧ value.asNumber = .ok number ∧
    number.Denotes (x * unit)

/-- **A classified operand has the elements that its expression evaluates to.** -/
theorem classifyOperand_spec {expr : ExecExpression} {operand : ArithmeticOperand}
    (h : classifyOperand expr (Numeric.dataType α) = some operand) (hreads : expr.Reads batch count) :
    ∃ f : ℕ → α, operand.Holds batch f ∧ ∀ row < count,
      operand.intAt batch row = IntegerElement.toInt (f row) ∧
        expr.DenotesAt batch row (IntegerElement.toInt (f row)) := by
  unfold classifyOperand at h
  cases expr with
  | columnRef slot type =>
    dsimp only at h
    split_ifs at h with htype
    rw [not_not] at htype
    subst htype
    obtain rfl := Option.some.inj h
    obtain ⟨column, hslot, hctype, hcount⟩ := hreads
    refine ⟨readElement α column.buffer, ⟨column, hslot, fun _ => rfl⟩, fun row hrow => ?_⟩
    have hcell : Numeric.read (column.cellAt row) = readElement α column.buffer row := by
      rw [ColumnData.cellAt, hctype]
      rfl
    have hread := IntegerElement.readExecValue_eq (α := α) column row hctype
      (lt_of_lt_of_le hrow hcount)
    rw [hcell] at hread
    refine ⟨?_, _, _, ?_, IntegerElement.asNumber_toExec _, Fp.denotes_ofUnits _⟩
    · simp only [ArithmeticOperand.intAt, hslot, IntegerElement.integerCell_eq, hcell]
    · simp only [ExecExpression.eval, hslot, hread]
  | literal value type =>
    obtain ⟨constant, hconstant, h⟩ := Option.bind_eq_some_iff.mp h
    obtain rfl := Option.some.inj h
    obtain ⟨htype, number, hnumber, hsame⟩ := tryCoerceExact_eq_some hconstant
    obtain ⟨a, hget, hvalue, hint⟩ := IntegerElement.get_eq (α := α) constant htype
    refine ⟨fun _ => a, ⟨a, hget, fun _ => rfl⟩, fun row _ => ⟨hint, value, number, rfl, hnumber, ?_⟩⟩
    obtain ⟨-, hkey⟩ := hsame (ne_nan_of_tryCoerceExact IntegerElement.isInteger hconstant hnumber)
    rw [hvalue] at hkey
    exact Fp.denotes_of_key_eq (ne_nan_of_tryCoerceExact IntegerElement.isInteger hconstant hnumber)
      hkey.symm
  | binary op left right type => cases h

/-- Integers of 64 bits and a sign are `long double`s, and so is the sum of two least INT64s. -/
theorem mem_binary80_int {z : ℤ} (hz : z.natAbs ≤ 2 ^ 64) : binary80.Mem (.ofUnits (z * unit)) := by
  rcases Nat.lt_or_eq_of_le hz with hlt | heq
  · exact Format.mem_ofUnits (natAbs_mul_unit _) hlt (Nat.zero_le _) (by decide)
  · have hpow : (z * (unit : ℤ)).natAbs = 1 * 2 ^ (64 + unitLog) := by
      rw [natAbs_mul_unit, heq, one_mul, pow_add]
    exact Format.mem_ofUnits hpow (by decide) (Nat.zero_le _) (by decide)

/-- The exact result of two integer elements is a `long double`. -/
theorem mem_binary80 (op : ArithmeticOp) (a b : α) :
    binary80.Mem (.ofUnits (op.exact (IntegerElement.toInt a) (IntegerElement.toInt b) * unit)) := by
  have hbound : ∀ a : α, -2 ^ 63 ≤ IntegerElement.toInt a ∧ IntegerElement.toInt a < 2 ^ 63 := by
    intro a
    have hb := integerBounds_le (Numeric.dataType α)
    have hr := IntegerElement.inRange_toInt a
    exact ⟨le_trans hb.1 hr.1, lt_of_le_of_lt hr.2 hb.2⟩
  have ha := hbound a
  have hb := hbound b
  apply mem_binary80_int
  cases op <;> simp only [ArithmeticOp.exact] <;> omega

/-- **The scalar path computes the exact result.** -/
theorem scalarResult_spec {op : ArithmeticOp} {left right : ExecExpression} {a b : α}
    (ha : left.DenotesAt batch row (IntegerElement.toInt a))
    (hb : right.DenotesAt batch row (IntegerElement.toInt b)) :
    ∃ result, scalarResult op left right batch row = .ok result ∧
      result.Denotes (op.exact (IntegerElement.toInt a) (IntegerElement.toInt b) * unit) ∧
      ∀ type, (ExecExpression.binary op.toPlan left right type).eval batch row =
        .ok (.castNumber result type) := by
  obtain ⟨lhs, x, hl, hx, hdx⟩ := ha
  obtain ⟨rhs, y, hr, hy, hdy⟩ := hb
  have hmem := mem_binary80 op a b
  cases op with
  | add =>
    have hsum := hdx.add hdy
    rw [← Int.add_mul] at hsum
    have hconvert := binary80.convert_of_mem (hsum.mem hmem)
    refine ⟨binary80.convert (x.add y), ?_, hconvert.symm ▸ hsum, fun type => ?_⟩
    · simp only [scalarResult, hl, hr, hx, hy, bind, Except.bind]
      rfl
    · rw [eval_binary (by decide) (by decide) hl hr]
      simp only [evalOperator, ArithmeticOp.toPlan, PlanBinaryOp.toCmpOp?, hx, hy, bind, Except.bind]
  | sub =>
    have hsum := hdx.sub hdy
    rw [← Int.sub_mul] at hsum
    have hconvert := binary80.convert_of_mem (hsum.mem hmem)
    refine ⟨binary80.convert (x.sub y), ?_, hconvert.symm ▸ hsum, fun type => ?_⟩
    · simp only [scalarResult, hl, hr, hx, hy, bind, Except.bind]
      rfl
    · rw [eval_binary (by decide) (by decide) hl hr]
      simp only [evalOperator, ArithmeticOp.toPlan, PlanBinaryOp.toCmpOp?, hx, hy, bind, Except.bind]

/-- A whole number converts to the integer type exactly within its range. -/
theorem conversionDefined_iff {type : DataType} (h : type = .int32 ∨ type = .int64) {v : Fp} {z : ℤ}
    (hv : v.Denotes (z * unit)) : conversionDefined type v = true ↔ InRange type z := by
  have htrunc : v.trunc unit = z := by
    rw [hv.trunc, Int.mul_tdiv_cancel z (by exact_mod_cast unit_pos.ne')]
  obtain ⟨s, m, rfl, -⟩ := hv
  rcases h with rfl | rfl <;>
    simp only [conversionDefined, htrunc, Bool.and_eq_true, decide_eq_true_eq, InRange]

/-- Writing an integer of the column's type leaves it alone. -/
theorem writeExecValue_toExec (a : α) :
    writeExecValue (Numeric.dataType α) (IntegerElement.toExec a) = .ok (IntegerElement.toExec a) := by
  have hwrite : writeExecValue (Numeric.dataType α) (IntegerElement.toExec a) = do
      return .castNumber (← (IntegerElement.toExec a).asNumber) (Numeric.dataType α) := by
    rcases IntegerElement.isInteger (α := α) with h | h <;> rw [h] <;> rfl
  rw [hwrite, IntegerElement.asNumber_toExec]
  exact congrArg Except.ok (IntegerElement.castNumber_eq _ a (Fp.trunc_ofInt unit_pos _))

/-- **A row agrees when the exact result is in the range of its type.** -/
theorem agreesAt_iff {op : ArithmeticOp} {left right : ExecExpression} {a b : α} {out : ColumnData}
    (ha : left.DenotesAt batch row (IntegerElement.toInt a))
    (hb : right.DenotesAt batch row (IntegerElement.toInt b)) (htype : out.type = Numeric.dataType α)
    (hrow : row < out.count)
    (helement : readElement α out.buffer row = arithmeticTypedValue a op b) :
    AgreesAt op left right (Numeric.dataType α) batch out row ↔
      InRange (Numeric.dataType α) (op.exact (IntegerElement.toInt a) (IntegerElement.toInt b)) := by
  obtain ⟨result, hresult, hdenotes, heval⟩ := scalarResult_spec ha hb
  have hdefined := conversionDefined_iff (IntegerElement.isInteger (α := α)) hdenotes
  constructor
  · rintro ⟨result', value, hresult', hconv, -⟩
    obtain rfl : result' = result := Except.ok.inj (hresult'.symm.trans hresult)
    exact hdefined.mp hconv
  · intro hrange
    have hint := IntegerElement.toInt_arithmetic a op b hrange
    refine ⟨result, IntegerElement.toExec (arithmeticTypedValue a op b), hresult, hdefined.mpr hrange,
      ?_, ?_⟩
    · have htrunc : result.trunc unit = IntegerElement.toInt (arithmeticTypedValue a op b) := by
        rw [hdenotes.trunc, Int.mul_tdiv_cancel _ (by exact_mod_cast unit_pos.ne'), hint]
      rw [writtenValue, heval, IntegerElement.castNumber_eq _ _ htrunc]
      exact writeExecValue_toExec _
    · rw [IntegerElement.readExecValue_eq out row htype hrow, ← helement, ColumnData.cellAt, htype]
      rfl

end

/-! ## A whole column -/

namespace ArithmeticVectorExpression

section

variable {α : Type} [IntegerElement α] {e : ArithmeticVectorExpression} {batch : VectorBatch}
  {output : ColumnData} {f g : ℕ → α}

theorem columnDataPtr_eq {slot : ℕ} {column : ColumnData} (h : batch.columns[slot]? = some column) :
    columnDataPtr batch slot = .ok column.buffer := by
  rw [columnDataPtr, h]

/-- **The kernel call writes the results of the operands' elements.** -/
theorem evaluate_spec (backend : Backend) (count : ℕ) (hlhs : e.lhs.Holds batch f)
    (hrhs : e.rhs.Holds batch g) (hkinds : ¬ (e.lhs.kind = .constant ∧ e.rhs.kind = .constant)) :
    (if e.lhs.kind = .column ∧ e.rhs.kind = .column then
      e.evaluateColumns α backend batch output count
    else e.evaluateConst (IntegerElement.get (α := α)) backend batch output count) =
      .ok (output.overwrite ((List.range count).map fun i => arithmeticTypedValue (f i) e.op (g i))) := by
  unfold ArithmeticOperand.Holds at hlhs hrhs
  rcases hl : e.lhs.kind <;> rcases hr : e.rhs.kind <;> rw [hl] at hlhs <;> rw [hr] at hrhs
  · obtain ⟨left, hleft, hf⟩ := hlhs
    obtain ⟨right, hright, hg⟩ := hrhs
    rw [if_pos ⟨rfl, rfl⟩, evaluateColumns, columnDataPtr_eq hleft, columnDataPtr_eq hright]
    simp only [bind, Except.bind, arithmeticColumn_eq, hf, hg]
    rfl
  · obtain ⟨left, hleft, hf⟩ := hlhs
    obtain ⟨c, hc, hg⟩ := hrhs
    rw [if_neg (by simp), evaluateConst]
    simp only [hl, if_true, columnDataPtr_eq hleft, bind, Except.bind, hc, arithmeticConst_eq, hf, hg,
      decide_true, Bool.not_true, Bool.false_eq_true, if_false]
    rfl
  · obtain ⟨c, hc, hf⟩ := hlhs
    obtain ⟨right, hright, hg⟩ := hrhs
    rw [if_neg (by simp), evaluateConst]
    simp only [hl, reduceCtorEq, if_false, columnDataPtr_eq hright, bind, Except.bind, hc,
      arithmeticConst_eq, hf, hg, decide_false, Bool.not_false, if_true]
    rfl
  · exact absurd ⟨hl, hr⟩ hkinds

/-- What dense evaluation is for one of the integer types. -/
def Dispatches (α : Type) [IntegerElement α] (e : ArithmeticVectorExpression) : Prop :=
  ∀ (backend : Backend) (batch : VectorBatch) (output : ColumnData) (count : ℕ), count ≠ 0 →
    output.type = e.type → e.evaluateDense backend batch output count =
      if e.lhs.kind = .column ∧ e.rhs.kind = .column then
        e.evaluateColumns α backend batch output count
      else e.evaluateConst (IntegerElement.get (α := α)) backend batch output count

theorem dispatches_int32 (h : e.type = .int32) : e.Dispatches Int32 := by
  intro backend batch output count hcount htype
  rw [evaluateDense, if_neg hcount, if_neg (not_not.mpr htype), h]
  rfl

theorem dispatches_int64 (h : e.type = .int64) : e.Dispatches Int64 := by
  intro backend batch output count hcount htype
  rw [evaluateDense, if_neg hcount, if_neg (not_not.mpr htype), h]
  rfl

/-- What a compiled expression was compiled from. -/
theorem tryCompileVectorExpression_eq_some {planOp : PlanBinaryOp} {left right : ExecExpression}
    {type : DataType}
    (h : tryCompileVectorExpression (.binary planOp left right type) = some e) :
    planOp = e.op.toPlan ∧ e.type = type ∧ classifyOperand left type = some e.lhs ∧
      classifyOperand right type = some e.rhs ∧ ¬ (e.lhs.kind = .constant ∧ e.rhs.kind = .constant) := by
  rw [tryCompileVectorExpression] at h
  obtain ⟨op, hop, h⟩ := Option.bind_eq_some_iff.mp h
  split_ifs at h with hnumeric
  obtain ⟨lhs, hlhs, h⟩ := Option.bind_eq_some_iff.mp h
  obtain ⟨rhs, hrhs, h⟩ := Option.bind_eq_some_iff.mp h
  split_ifs at h with hkinds
  obtain rfl := Option.some.inj h
  refine ⟨?_, rfl, hlhs, hrhs, hkinds⟩
  cases planOp <;> first
    | (cases hop; rfl)
    | cases hop

/-- The rows of the output column, for an integer element type. -/
theorem evaluateDense_spec (backend : Backend) {left right : ExecExpression} {count : ℕ}
    (hdispatch : e.Dispatches α) (htype : e.type = Numeric.dataType α)
    (hlhs : classifyOperand left (Numeric.dataType α) = some e.lhs)
    (hrhs : classifyOperand right (Numeric.dataType α) = some e.rhs)
    (hkinds : ¬ (e.lhs.kind = .constant ∧ e.rhs.kind = .constant))
    (hleft : left.Reads batch count) (hright : right.Reads batch count)
    (houtput : output.type = Numeric.dataType α) (hcount : count ≤ output.count) :
    ∃ out, e.evaluateDense backend batch output count = .ok out ∧ ∀ row < count,
      (AgreesAt e.op left right (Numeric.dataType α) batch out row ↔
        InRange (Numeric.dataType α) (e.op.exact (e.lhs.intAt batch row) (e.rhs.intAt batch row))) := by
  obtain ⟨f, hf, hfrows⟩ := classifyOperand_spec hlhs hleft
  obtain ⟨g, hg, hgrows⟩ := classifyOperand_spec hrhs hright
  rcases Nat.eq_zero_or_pos count with rfl | hpos
  · exact ⟨output, by rw [evaluateDense, if_pos rfl], fun row hrow => absurd hrow (Nat.not_lt_zero row)⟩
  refine ⟨_, (hdispatch backend batch output count hpos.ne' (houtput.trans htype.symm)).trans
    (evaluate_spec backend count hf hg hkinds), fun row hrow => ?_⟩
  obtain ⟨hx, hxrow⟩ := hfrows row hrow
  obtain ⟨hy, hyrow⟩ := hgrows row hrow
  rw [hx, hy]
  have hlength : row < ((List.range count).map fun i =>
      arithmeticTypedValue (f i) e.op (g i)).length := by simpa using hrow
  have helement : ((List.range count).map fun i => arithmeticTypedValue (f i) e.op (g i))[row] =
      arithmeticTypedValue (f row) e.op (g row) := by simp
  generalize (List.range count).map (fun i => arithmeticTypedValue (f i) e.op (g i)) = elements
    at hlength helement ⊢
  have htype' : (output.overwrite elements).type = Numeric.dataType α := houtput
  apply agreesAt_iff hxrow hyrow htype' (lt_of_lt_of_le hrow hcount)
  rw [ColumnData.overwrite, readElement_writeElements hlength, helement]

end

/-- **Dense evaluation and scalar evaluation of integer sums and differences.** An expression that the
compiler accepts is evaluated for any number of rows of a batch that has its columns, whichever kernels
are installed. The element of a row is the value that the row's scalar evaluation writes, by conversions
that are in range, exactly when the row's exact result lies in the range of the result type. -/
theorem evaluateDense_agrees_iff (backend : Backend) {planOp : PlanBinaryOp}
    {left right : ExecExpression} {type : DataType} {e : ArithmeticVectorExpression}
    {batch : VectorBatch} {output : ColumnData} {count : ℕ} (htype : type = .int32 ∨ type = .int64)
    (hcompile : tryCompileVectorExpression (.binary planOp left right type) = some e)
    (hreads : (ExecExpression.binary planOp left right type).Reads batch count)
    (houtput : output.type = type) (hcount : count ≤ output.count) :
    planOp = e.op.toPlan ∧ ∃ out, e.evaluateDense backend batch output count = .ok out ∧
      ∀ row < count, (AgreesAt e.op left right type batch out row ↔
        InRange type (e.op.exact (e.lhs.intAt batch row) (e.rhs.intAt batch row))) := by
  obtain ⟨hop, he, hlhs, hrhs, hkinds⟩ := tryCompileVectorExpression_eq_some hcompile
  refine ⟨hop, ?_⟩
  rcases htype with rfl | rfl
  · exact evaluateDense_spec backend (dispatches_int32 he) he hlhs hrhs hkinds hreads.1 hreads.2
      houtput hcount
  · exact evaluateDense_spec backend (dispatches_int64 he) he hlhs hrhs hkinds hreads.1 hreads.2
      houtput hcount

/-! ### A sum at the end of the range -/

/-- A batch of two rows of an INT32 column, the greatest value and `5`. -/
def maxBatch : VectorBatch :=
  ⟨[⟨.int32, leBytes 4 0x7fffffff ++ leBytes 4 5, 2⟩], 2, SelectionMask.setAll 2⟩

/-- `a + 1` over it. -/
def maxPlusOne : ArithmeticVectorExpression :=
  ⟨.add, { kind := .column, type := .int32, columnSlot := 0 },
    { kind := .constant, type := .int32, constant := .int32 1 }, .int32⟩

/-- An output column for it. -/
def newColumn : ColumnData := ⟨.int32, List.replicate 8 0, 2⟩

/-- The kernel wraps the sum of the first row round to the least value; the scalar path converts
`2 ^ 31` to `int32_t`. -/
theorem maxPlusOne_disagrees :
    tryCompileVectorExpression (.binary .add (.columnRef 0 .int32) (.literal (.int32 1) .int32) .int32) =
      some maxPlusOne ∧
    ∃ out, maxPlusOne.evaluateDense .scalar maxBatch newColumn 2 = .ok out ∧
      readExecValue out 0 = .ok (.int32 Int32.minValue) ∧
      ¬ AgreesAt .add (.columnRef 0 .int32) (.literal (.int32 1) .int32) .int32 maxBatch out 0 := by
  refine ⟨by decide +kernel, _, rfl, by decide +kernel, ?_⟩
  rintro ⟨result, value, hresult, hdefined, -⟩
  have hundefined : ((scalarResult .add (.columnRef 0 .int32) (.literal (.int32 1) .int32) maxBatch
      0).map (conversionDefined .int32)) = .ok false := by decide +kernel
  rw [hresult] at hundefined
  rw [Except.map, hdefined] at hundefined
  cases hundefined

/-- In the second row both paths write `6`. -/
theorem evaluateDense_agrees_six :
    ∃ out, maxPlusOne.evaluateDense .avx2 maxBatch newColumn 2 = .ok out ∧
      AgreesAt .add (.columnRef 0 .int32) (.literal (.int32 1) .int32) .int32 maxBatch out 1 := by
  have hcompile : tryCompileVectorExpression (.binary .add (.columnRef 0 .int32)
      (.literal (.int32 1) .int32) .int32) = some maxPlusOne := by decide +kernel
  have hreads : (ExecExpression.binary .add (.columnRef 0 .int32) (.literal (.int32 1) .int32)
      .int32).Reads maxBatch 2 := ⟨⟨_, rfl, rfl, le_rfl⟩, trivial⟩
  have houtput : newColumn.type = .int32 := rfl
  have hcount : 2 ≤ newColumn.count := le_rfl
  obtain ⟨-, out, hout, hrows⟩ := evaluateDense_agrees_iff .avx2 (.inl rfl) hcompile hreads houtput hcount
  exact ⟨out, hout, (hrows 1 (by decide)).mpr (by decide +kernel)⟩

end ArithmeticVectorExpression

end SimpleOlap
