import SimpleOlap.Execution.Expression.NumericValue

/-!
# Predicates on selection masks

* `VectorPredicate`, `VectorPredicate.evaluate`: a predicate that is evaluated for a whole batch, on the
  rows of an input mask.
* `compileVectorPredicate`: the predicate for an expression.

Source: `vector_predicate.h`, `vector_predicate.cpp`, `vector_predicate_compiler.cpp`. Of the kernels the
scalar ones are modelled.
-/

namespace SimpleOlap

open Lib

/-- Source: `vector_predicate.h` CompareOperand. -/
inductive CompareOperand
  | column (type : DataType) (columnSlot : ℕ)
  | constant (type : DataType) (value : NumericConstant)
  deriving DecidableEq

namespace CompareOperand

/-- The field `type`. -/
def type : CompareOperand → DataType
  | column type _ => type
  | constant type _ => type

end CompareOperand

/-- Source: `vector_predicate.h` LogicalVectorPredicate::Op. -/
inductive LogicalOp
  | and | or
  deriving DecidableEq

/-- Source: `vector_predicate.h` NumericComparePredicate, LogicalVectorPredicate,
ScalarVectorPredicate. -/
inductive VectorPredicate
  | numericCompare (op : CmpOp) (lhs rhs : CompareOperand)
  | logical (op : LogicalOp) (lhs rhs : VectorPredicate)
  | scalar (expr : ExecExpression)

/-- Source: `vector_predicate.h` ReverseCmpOp. -/
def reverseCmpOp : CmpOp → CmpOp
  | .lt => .gt
  | .le => .ge
  | .gt => .lt
  | .ge => .le
  | .eq => .eq
  | .ne => .ne

/-! ## Evaluation -/

/-- The kernel column against column for a type; `none` where there is none. -/
def columnKernel (type : DataType) (lhs rhs : Bytes) (count : ℕ) (op : CmpOp) : Option SelectionMask :=
  match type with
  | .int32 => some (compareColumn Int32 lhs rhs count op)
  | .int64 => some (compareColumn Int64 lhs rhs count op)
  | .float => some (compareColumn Single lhs rhs count op)
  | .double => some (compareColumn Double lhs rhs count op)
  | _ => none

/-- The kernel column against constant for a type; the constant is taken out of the variant. -/
def constKernel (type : DataType) (data : Bytes) (count : ℕ) (op : CmpOp) (value : NumericConstant) :
    Except String (Option SelectionMask) :=
  match type, value with
  | .int32, .int32 v => .ok (some (compareConst data count op v))
  | .int64, .int64 v => .ok (some (compareConst data count op v))
  | .float, .float v => .ok (some (compareConst data count op v))
  | .double, .double v => .ok (some (compareConst data count op v))
  | .invalid, _ | .varchar, _ => .ok none
  | _, _ => .error "std::get: wrong index for variant"

/-- What `Evaluate` leaves in the output mask: the intersection of a kernel's result with the input, or
the cleared mask. -/
def intersectWithInput (result : Option SelectionMask) (physicalCount : ℕ) (input : SelectionMask) :
    SelectionMask :=
  match result with
  | some output => output.and input
  | none => SelectionMask.setNone physicalCount

namespace VectorPredicate

/-- Source: `vector_predicate.cpp` NumericComparePredicate::Evaluate, after the test of the input. A slot
out of range gives no pointer. -/
def evaluateCompare (op : CmpOp) (lhs rhs : CompareOperand) (batch : VectorBatch) (physicalCount : ℕ)
    (input : SelectionMask) : Except String SelectionMask :=
  match lhs, rhs with
  | .column _ slot, .column _ slot' =>
    match batch.columns[slot]?, batch.columns[slot']? with
    | some left, some right =>
      .ok (intersectWithInput (columnKernel lhs.type left.buffer right.buffer physicalCount op)
        physicalCount input)
    | _, _ => .ok (SelectionMask.setNone physicalCount)
  | .column _ slot, .constant _ value | .constant _ value, .column _ slot =>
    match batch.columns[slot]? with
    | some column => do
      let result ← constKernel lhs.type column.buffer physicalCount op value
      return intersectWithInput result physicalCount input
    | none => .ok (SelectionMask.setNone physicalCount)
  | .constant _ _, .constant _ _ => .ok (SelectionMask.setNone physicalCount)

/-- Source: `vector_predicate.cpp` Evaluate; what is in the output mask at the end. -/
def evaluate (batch : VectorBatch) (physicalCount : ℕ) :
    VectorPredicate → SelectionMask → Except String SelectionMask
  | .numericCompare op lhs rhs, input =>
    if input.isEmpty then .ok (SelectionMask.setNone physicalCount)
    else evaluateCompare op lhs rhs batch physicalCount input
  | .logical .and lhs rhs, input =>
    if input.isEmpty then .ok (SelectionMask.setNone physicalCount)
    else do
      let output ← lhs.evaluate batch physicalCount input
      if output.isEmpty then return output
      else
        let rhsMask ← rhs.evaluate batch physicalCount output
        return output.and rhsMask
  | .logical .or lhs rhs, input =>
    if input.isEmpty then .ok (SelectionMask.setNone physicalCount)
    else do
      let output ← lhs.evaluate batch physicalCount input
      if input.count ≤ output.count then return output
      else
        let rhsMask ← rhs.evaluate batch physicalCount (input.andNot output)
        return output.or rhsMask
  | .scalar expr, input =>
    if input.isEmpty then .ok (SelectionMask.setNone physicalCount)
    else input.setBits.foldlM (fun (output : SelectionMask) row => do
        if ← (← expr.eval batch row).asBool then return output.setBit row else return output)
      (SelectionMask.setNone physicalCount)

end VectorPredicate

/-! ## The compiler -/

/-- Source: `vector_predicate_compiler.cpp` StaticOperand. -/
inductive StaticOperand
  | column (columnSlot : ℕ) (type : DataType)
  | constant (literal : ExecValue)
  | other

/-- Source: `vector_predicate_compiler.cpp` Classify. -/
def classify : ExecExpression → StaticOperand
  | .columnRef slot type => .column slot type
  | .literal value _ => .constant value
  | .binary _ _ _ _ => .other

/-- Source: `vector_predicate_compiler.cpp` TryCompileNumericCompare. -/
def tryCompileNumericCompare (op : CmpOp) (left right : ExecExpression) : Option VectorPredicate :=
  match classify left, classify right with
  | .column slot type, .column slot' type' =>
    if type ≠ type' ∨ ¬ type.IsNumeric then none
    else some (.numericCompare op (.column type slot) (.column type' slot'))
  | .column slot type, .constant literal =>
    if ¬ type.IsNumeric then none
    else do
      let constant ← tryCoerceExact literal type
      return .numericCompare op (.column type slot) (.constant type constant)
  | .constant literal, .column slot type =>
    if ¬ type.IsNumeric then none
    else do
      let constant ← tryCoerceExact literal type
      return .numericCompare (reverseCmpOp op) (.column type slot) (.constant type constant)
  | _, _ => none

/-- Source: `vector_predicate_compiler.cpp` CompileVectorPredicate. -/
def compileVectorPredicate : ExecExpression → VectorPredicate
  | .binary .and left right _ =>
    .logical .and (compileVectorPredicate left) (compileVectorPredicate right)
  | .binary .or left right _ =>
    .logical .or (compileVectorPredicate left) (compileVectorPredicate right)
  | .binary op left right type =>
    match op.toCmpOp? with
    | some cmp => (tryCompileNumericCompare cmp left right).getD (.scalar (.binary op left right type))
    | none => .scalar (.binary op left right type)
  | expr => .scalar expr

end SimpleOlap
