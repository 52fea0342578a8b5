import SimpleOlap.Execution.Expression.VectorExpression
import SimpleOlap.Execution.PlanRun

/-!
# Sums, from the statement to the row

* `compileExpr`: an expression of a statement as it is evaluated on the rows of a node.
* `addition_spec`: the type of a sum is DOUBLE where an operand's is, and otherwise that of its left
  operand; where the two orders have one type they have one value, and integers are added exactly as far
  as the type of the sum reaches.

Source: `binder.cpp` BindBinaryOp, `exec_expression.cpp` ExecBinary::Eval and CastNumber.
-/

namespace SimpleOlap

open Lib

/-- An expression of a statement, bound, planned and compiled. -/
def compileExpr (table : BoundTable) (schema : ExecSchema) (expr : Expr) :
    Except String ExecExpression := do
  let bound ← Binder.bindExpr table expr
  let plan ← buildPlanExpr bound
  compileExecExpr schema plan

/-- The type that the binder derives. -/
def boundType (table : BoundTable) (expr : Expr) : Except String DataType :=
  BoundExpr.returnType <$> Binder.bindExpr table expr

section

variable {table : BoundTable} {schema : ExecSchema} {l r : Expr} {left right : ExecExpression}
  {lt rt : DataType}

/-- A sum is compiled from its operands, with the type that the binder derives. -/
theorem compileExpr_add (hl : compileExpr table schema l = .ok left)
    (hr : compileExpr table schema r = .ok right)
    (hlt : boundType table l = .ok lt) (hrt : boundType table r = .ok rt) :
    compileExpr table schema (.binaryOp .add l r) =
        .ok (.binary .add left right (Binder.binaryType .add lt rt)) ∧
      boundType table (.binaryOp .add l r) = .ok (Binder.binaryType .add lt rt) := by
  obtain ⟨bl, hbl, hl⟩ := bind_eq_ok hl
  obtain ⟨pl, hpl, hl⟩ := bind_eq_ok hl
  obtain ⟨br, hbr, hr⟩ := bind_eq_ok hr
  obtain ⟨pr, hpr, hr⟩ := bind_eq_ok hr
  rw [boundType, hbl] at hlt
  rw [boundType, hbr] at hrt
  obtain rfl : bl.returnType = lt := Except.ok.inj hlt
  obtain rfl : br.returnType = rt := Except.ok.inj hrt
  have hbind : Binder.bindExpr table (.binaryOp .add l r) =
      .ok (.binaryOp .add bl br (Binder.binaryType .add bl.returnType br.returnType)) := by
    rw [Binder.bindExpr, hbl, hbr]
    rfl
  have hplan : buildPlanExpr (.binaryOp .add bl br (Binder.binaryType .add bl.returnType br.returnType)) =
      .ok (.binary .add pl pr (Binder.binaryType .add bl.returnType br.returnType)) := by
    rw [buildPlanExpr, hpl, hpr]
    rfl
  have hcompile : compileExecExpr schema (.binary .add pl pr
    (Binder.binaryType .add bl.returnType br.returnType)) =
      .ok (.binary .add left right (Binder.binaryType .add bl.returnType br.returnType)) := by
    rw [compileExecExpr, hl, hr]
    rfl
  constructor
  · simp only [compileExpr, hbind, bind, Except.bind, hplan, hcompile]
  · rw [boundType, hbind]
    rfl

/-- The type of a sum does not depend on the order of the operands, when their types are the same or one is
DOUBLE, and only then. -/
theorem binaryType_add_comm_iff :
    Binder.binaryType .add lt rt = Binder.binaryType .add rt lt ↔ lt = rt ∨ lt = .double ∨
      rt = .double := by
  unfold Binder.binaryType
  by_cases h : lt = .double ∨ rt = .double
  · rw [if_pos h, if_pos h.symm]
    exact iff_of_true rfl (.inr h)
  · rw [if_neg h, if_neg (mt Or.symm h)]
    exact (or_iff_left h).symm

variable {batch : VectorBatch} {row : ℕ}

/-- A sum of one type has one value, whatever the order of the operands. -/
theorem eval_add_comm (type : DataType) (value : ExecValue) :
    (ExecExpression.binary .add left right type).eval batch row = .ok value ↔
      (ExecExpression.binary .add right left type).eval batch row = .ok value := by
  suffices h : ∀ left right : ExecExpression, (ExecExpression.binary .add left right type).eval batch
    row = .ok value →
      (ExecExpression.binary .add right left type).eval batch row =
        .ok value from ⟨h left right, h right left⟩
  intro left right h
  rw [ExecExpression.eval.eq_5 batch row .add left right type (by decide) (by decide)] at h
  obtain ⟨a, ha, h⟩ := bind_eq_ok h
  obtain ⟨b, hb, h⟩ := bind_eq_ok h
  obtain ⟨x, hx, h⟩ := bind_eq_ok h
  obtain ⟨y, hy, h⟩ := bind_eq_ok h
  rw [eval_binary (by decide) (by decide) hb ha]
  simp only [evalOperator, PlanBinaryOp.toCmpOp?, hx, hy, bind, Except.bind]
  rw [Fp.add_comm y x]
  exact h

/-- **Integers are added exactly**, as far as the type of the sum reaches. -/
theorem denotesAt_add {type : DataType} (htype : type = .int32 ∨ type = .int64) {a b : ℤ}
    (ha : left.DenotesAt batch row a) (hb : right.DenotesAt batch row b) (hrange : InRange type (a + b)) :
    (ExecExpression.binary .add left right type).DenotesAt batch row (a + b) := by
  obtain ⟨v, x, hv, hx, hdx⟩ := ha
  obtain ⟨w, y, hw, hy, hdy⟩ := hb
  have hsum := hdx.add hdy
  rw [← Int.add_mul] at hsum
  have hbounds := integerBounds_le type
  have hmem : binary80.Mem (.ofUnits ((a + b) * unit)) := by
    apply mem_binary80_int
    have hlo := le_trans hbounds.1 hrange.1
    have hhi := lt_of_le_of_lt hrange.2 hbounds.2
    omega
  have hconvert : binary80.convert (x.add y) = x.add y := binary80.convert_of_mem (hsum.mem hmem)
  have htrunc : Fp.trunc unit (x.add y) = a + b := by
    rw [hsum.trunc, Int.mul_tdiv_cancel _ (by exact_mod_cast unit_pos.ne')]
  have heval : (ExecExpression.binary .add left right type).eval batch row =
      .ok (.castNumber (x.add y) type) := by
    rw [eval_binary (by decide) (by decide) hv hw]
    simp only [evalOperator, PlanBinaryOp.toCmpOp?, hx, hy, bind, Except.bind, hconvert]
  rcases htype with rfl | rfl
  · refine ⟨_, .ofInt unit (a + b), heval, ?_, Fp.denotes_ofUnits _⟩
    have hlo : -2 ^ 31 ≤ a + b := hrange.1
    have hhi : a + b < 2 ^ 31 := Int.lt_of_le_sub_one hrange.2
    show (ExecValue.int32 (ExecValue.toInt32 (x.add y))).asNumber = _
    rw [ExecValue.toInt32, htrunc, if_pos ⟨hlo, hhi⟩, ExecValue.asNumber, Int32.toInt_ofInt_of_le hlo hhi]
  · refine ⟨_, .ofInt unit (a + b), heval, ?_, Fp.denotes_ofUnits _⟩
    have hlo : -2 ^ 63 ≤ a + b := hrange.1
    have hhi : a + b < 2 ^ 63 := Int.lt_of_le_sub_one hrange.2
    show (ExecValue.int64 (ExecValue.toInt64 (x.add y))).asNumber = _
    rw [ExecValue.toInt64, htrunc, if_pos ⟨hlo, hhi⟩, ExecValue.asNumber, Int64.toInt_ofInt_of_le hlo hhi]

/-- **Sums of numeric operands.** Both orders are compiled. A sum is of type DOUBLE where an operand is, and
otherwise of the type of its left operand, so that the two orders have the same type where the types of the
operands are the same or one is DOUBLE. With the same type they have the same value on every row. Integers
are added exactly wherever their sum fits the type of the sum. -/
theorem addition_spec (hl : compileExpr table schema l = .ok left)
    (hr : compileExpr table schema r = .ok right)
    (hlt : boundType table l = .ok lt) (hrt : boundType table r = .ok rt)
    (hlnum : lt.IsNumeric) (hrnum : rt.IsNumeric) :
    ∃ sum sum' type type',
      compileExpr table schema (.binaryOp .add l r) = .ok sum ∧
      compileExpr table schema (.binaryOp .add r l) = .ok sum' ∧
      boundType table (.binaryOp .add l r) = .ok type ∧ boundType table (.binaryOp .add r l) = .ok type' ∧
      type.IsNumeric ∧ type = (if lt = .double ∨ rt = .double then .double else lt) ∧
      (type = type' ↔ lt = rt ∨ lt = .double ∨ rt = .double) ∧
      ∀ (batch : VectorBatch) (row : ℕ),
        (type = type' → ∀ value, sum.eval batch row = .ok value ↔ sum'.eval batch row = .ok value) ∧
        (lt = .int32 ∨ lt = .int64 → rt = .int32 ∨ rt = .int64 → ∀ a b : ℤ,
          left.DenotesAt batch row a → right.DenotesAt batch row b → InRange lt (a + b) →
          sum.DenotesAt batch row (a + b)) := by
  obtain ⟨hsum, htype⟩ := compileExpr_add hl hr hlt hrt
  obtain ⟨hsum', htype'⟩ := compileExpr_add hr hl hrt hlt
  refine ⟨_, _, _, _, hsum, hsum', htype, htype', ?_, rfl, binaryType_add_comm_iff,
    fun batch row => ⟨?_, ?_⟩⟩
  · unfold Binder.binaryType
    dsimp only
    split_ifs
    · exact .inr (.inr (.inr rfl))
    · exact hlnum
  · intro hsame value
    rw [hsame]
    exact eval_add_comm _ value
  · intro hlint hrint a b ha hb hrange
    have hleftType : Binder.binaryType .add lt rt = lt := by
      refine if_neg ?_
      rcases hlint with rfl | rfl <;> rcases hrint with rfl | rfl <;> decide
    rw [hleftType]
    exact denotesAt_add hlint ha hb hrange

end

/-! ## An INT32 and an INT64 column -/

/-- The columns `a` and `b`. -/
def narrowWideTable : BoundTable := ⟨0, [⟨0, [97], .int32⟩, ⟨1, [98], .int64⟩]⟩

def narrowWideSchema : ExecSchema := [⟨.int32, some ⟨0, 0⟩⟩, ⟨.int64, some ⟨0, 1⟩⟩]

/-- One row with 1 and 2 ^ 40. -/
def narrowWideBatch : VectorBatch :=
  ⟨[⟨.int32, [1, 0, 0, 0], 1⟩, ⟨.int64, [0, 0, 0, 0, 0, 1, 0, 0], 1⟩], 1, SelectionMask.setAll 1⟩

/-- `a + b` is an INT32 and `b + a` an INT64, and only the second is the sum. -/
theorem narrowWide_add :
    boundType narrowWideTable (.binaryOp .add (.columnRef [97]) (.columnRef [98])) = .ok .int32 ∧
    boundType narrowWideTable (.binaryOp .add (.columnRef [98]) (.columnRef [97])) = .ok .int64 ∧
    (do (← compileExpr narrowWideTable narrowWideSchema
      (.binaryOp .add (.columnRef [97]) (.columnRef [98]))).eval narrowWideBatch 0) =
        .ok (.int32 Int32.minValue) ∧
    (do (← compileExpr narrowWideTable narrowWideSchema
      (.binaryOp .add (.columnRef [98]) (.columnRef [97]))).eval narrowWideBatch 0) =
        .ok (.int64 1099511627777) := by
  refine ⟨rfl, rfl, ?_, ?_⟩ <;> decide +kernel

/-- `b + b`. -/
theorem addition_spec_wide : ∃ sum sum' type type',
    compileExpr narrowWideTable narrowWideSchema
      (.binaryOp .add (.columnRef [98]) (.columnRef [98])) = .ok sum ∧
    compileExpr narrowWideTable narrowWideSchema
      (.binaryOp .add (.columnRef [98]) (.columnRef [98])) = .ok sum' ∧
    boundType narrowWideTable (.binaryOp .add (.columnRef [98]) (.columnRef [98])) = .ok type ∧
    boundType narrowWideTable (.binaryOp .add (.columnRef [98]) (.columnRef [98])) = .ok type' ∧
    type.IsNumeric ∧
    type = (if DataType.int64 = .double ∨ DataType.int64 = .double then .double else .int64) ∧
    (type = type' ↔ DataType.int64 = .int64 ∨ DataType.int64 = .double ∨ DataType.int64 = .double) ∧
    ∀ (batch : VectorBatch) (row : ℕ),
      (type = type' → ∀ value, sum.eval batch row = .ok value ↔ sum'.eval batch row = .ok value) ∧
      (DataType.int64 = .int32 ∨ DataType.int64 = .int64 → DataType.int64 = .int32 ∨
        DataType.int64 = .int64 →
        ∀ a b : ℤ, (ExecExpression.columnRef 1 .int64).DenotesAt batch row a →
        (ExecExpression.columnRef 1 .int64).DenotesAt batch row b → InRange .int64 (a + b) →
        sum.DenotesAt batch row (a + b)) :=
  addition_spec rfl rfl rfl rfl (.inr (.inl rfl)) (.inr (.inl rfl))

end SimpleOlap
