import SimpleOlap.Execution.Expression.ExecExpression
import SimpleOlap.Planner.BindInsert
import SimpleOlap.Simd.Arithmetic
import SimpleOlap.Storage.Table.Consistency

/-!
# Executing INSERT

* `evalInsertConstant`: the values are folded in `double`.
* `executeInsert`: the rows are written to column buffers, which are then appended to the table. A conversion of
  a number outside the range of the integer type is undefined in the language, and an outcome of its own here.
* `Expr.constantSum?`: the exact value of `int32` literals combined by `+` and `-`.
* `insert_exact_iff`: where INSERT stores the exact values, or nothing.

Source: `command_executor.cpp`. The binder's rows go through the planner and the optimizer as they are.
-/

namespace SimpleOlap

open Lib

/-! ## Folding -/

/-- Source: `command_executor.cpp` InsertValue. -/
inductive InsertValue
  | number (v : Double)
  | text (v : Bytes)
  deriving DecidableEq

/-- How an INSERT fails. -/
inductive InsertFailure
  | thrown (message : String)
  | undefinedConversion
  deriving DecidableEq

/-- The operation on two values. Source: `command_executor.cpp` EvalInsertConstant. -/
def insertOperation (op : PlanBinaryOp) : InsertValue → InsertValue → Except InsertFailure InsertValue
  | .number lhs, .number rhs =>
    match op with
    | .add => .ok (.number (toDouble (lhs.val.add rhs.val)))
    | .sub => .ok (.number (toDouble (lhs.val.sub rhs.val)))
    | _ => .error (.thrown "INSERT: unsupported operator in VALUES expression")
  | _, _ => .error (.thrown "INSERT: arithmetic on string literal is not supported")

/-- Source: `command_executor.cpp` EvalInsertConstant. -/
def evalInsertConstant : PlanExpr → Except InsertFailure InsertValue
  | .literal (.int32 v) _ => .ok (.number (Double.ofInt v.toInt))
  | .literal (.double v) _ => .ok (.number v)
  | .literal (.string v) _ => .ok (.text v)
  | .binary op left right _ => do
    let lhs ← evalInsertConstant left
    let rhs ← evalInsertConstant right
    insertOperation op lhs rhs
  | _ => .error (.thrown "INSERT VALUES must be constant expressions")

/-! ## Rows -/

/-- `static_cast` to an integer type of the given width. -/
def castInteger (width : ℕ) (v : Double) : Except InsertFailure ℤ :=
  match v.val with
  | .num neg mag =>
    let z := (Fp.signed neg mag).tdiv unit
    if -2 ^ (width - 1) ≤ z ∧ z < 2 ^ (width - 1) then .ok z else .error .undefinedConversion
  | _ => .error .undefinedConversion

/-- The bytes of a value in a column. Source: `command_executor.cpp` ExecuteInsert, the switch. -/
def insertCell (column : ColumnSchema) : InsertValue → Except InsertFailure Bytes
  | .number v =>
    match column.type with
    | .int32 => do return ArithmeticElement.write (Int32.ofInt (← castInteger 32 v))
    | .int64 => do return ArithmeticElement.write (Int64.ofInt (← castInteger 64 v))
    | .float => .ok (ArithmeticElement.write v.narrow)
    | .double => .ok (ArithmeticElement.write v)
    | .varchar => .error (.thrown ("INSERT: numeric literal for VARCHAR column " ++ nameText column.name))
    | .invalid => .error (.thrown ("INSERT: unsupported column type for column " ++ nameText column.name))
  | .text v =>
    match column.type with
    | .varchar =>
      match writeVarcharSlot v with
      | some slot => .ok slot
      | none => .error (.thrown "VARCHAR value too long for inline slot (max 60 bytes)")
    | .invalid => .error (.thrown ("INSERT: unsupported column type for column " ++ nameText column.name))
    | _ => .error (.thrown ("INSERT: string literal for numeric column " ++ nameText column.name))

/-- One value of a row, with the place of its column. -/
def writeValue (schema : TableSchema) (value : PlanExpr × ℕ) : Except InsertFailure (ℕ × Bytes) :=
  match schema.columns[value.2]? with
  | none => .error (.thrown "INSERT: target column index out of range")
  | some column => do return (value.2, ← insertCell column (← evalInsertConstant value.1))

/-- A row before its values are written. -/
def zeroRow (schema : TableSchema) : Row :=
  schema.columns.map fun column => List.replicate (typeElemSize column.type) 0

/-- The cells after some are written. -/
def writeCells (written : List (ℕ × Bytes)) (cells : Row) : Row :=
  written.foldl (fun cells w => cells.set w.1 w.2) cells

/-- One row: the columns that the statement does not name stay zero. Source: `command_executor.cpp`
ExecuteInsert, the inner loop. -/
def writeRow (schema : TableSchema) (targets : List ℕ) (row : List PlanExpr) : Except InsertFailure Row :=
  if row.length ≠ targets.length then .error (.thrown "INSERT: row width mismatch with target columns")
  else do
    let written ← (row.zip targets).mapM (writeValue schema)
    return writeCells written (zeroRow schema)

/-- The buffers of the columns, each with the cells of the rows one after the other. -/
def rowsChunk (schema : TableSchema) (rows : List Row) : DataChunk where
  size := rows.length
  sliceStart := 0
  chunks := (List.range schema.columns.length).map fun place => rows.flatMap fun row => row.getD place []
  elementSizes := schema.columns.map fun column => typeElemSize column.type

/-- Source: `physical_plan.h` PhysicalInsert. -/
structure PhysicalInsert where
  tableOid : ℕ
  targetColumns : List ℕ
  rows : List (List PlanExpr)

/-- Source: `planner.cpp` PlanInsert. -/
def planInsert (bound : BoundInsertStatement) : Except String PhysicalInsert := do
  let rows ← bound.values.mapM fun row => row.mapM buildPlanExpr
  return ⟨bound.tableOid, bound.targetColIndices, rows⟩

/-- The chunk of an INSERT. Source: `command_executor.cpp` ExecuteInsert, up to the storage. -/
def insertChunk (schema : TableSchema) (plan : PhysicalInsert) : Except InsertFailure DataChunk :=
  match schema.columns.find? fun column => column.type = .invalid with
  | some column => .error (.thrown ("INSERT: unsupported column type for column " ++ nameText column.name))
  | none => do return rowsChunk schema (← plan.rows.mapM (writeRow schema plan.targetColumns))

/-- The rows go to the table. Source: `command_executor.cpp` ExecuteInsert, the last part. -/
def appendChunk (storage : Option TableStorage) (tableOid : ℕ) (chunk : DataChunk) :
    Option TableStorage × Except InsertFailure ℕ :=
  match storage with
  | none =>
    (none, .error (.thrown ("INSERT: failed to open physical storage for table " ++ Nat.repr tableOid)))
  | some table =>
    match table.append chunk with
    | (table, .ok ()) => (some table, .ok chunk.size)
    | (table, .error message) => (some table, .error (.thrown message))

/-- The table behind an INSERT, and the number of rows. `entry` is what the catalog has under the table's id, and
`storage` the table if it can be opened. Source: `command_executor.cpp` ExecuteInsert. -/
def executeInsert (entry : Option TableSchema) (storage : Option TableStorage) (plan : PhysicalInsert) :
    Option TableStorage × Except InsertFailure ℕ :=
  match entry with
  | none =>
    (storage, .error (.thrown ("INSERT: table " ++ Nat.repr plan.tableOid ++ " not found in catalog")))
  | some schema =>
    match insertChunk schema plan with
    | .error failure => (storage, .error failure)
    | .ok chunk => appendChunk storage plan.tableOid chunk

/-! ## Constants -/

namespace Expr

/-- The exact value of `int32` literals that are combined by `+` and `-`. -/
def constantSum? : Expr → Option ℤ
  | .literal (.int32 v) => some v.toInt
  | .binaryOp .add left right => do return (← left.constantSum?) + (← right.constantSum?)
  | .binaryOp .sub left right => do return (← left.constantSum?) - (← right.constantSum?)
  | _ => none

/-- Numbers that are combined by `+` and `-`. -/
def isArithmetic : Expr → Bool
  | .literal (.int32 _) | .literal (.double _) => true
  | .binaryOp .add left right | .binaryOp .sub left right => left.isArithmetic && right.isArithmetic
  | _ => false

/-- Every partial sum of the expression is a `double`. -/
def SumsFitDouble : Expr → Prop
  | .binaryOp op left right => left.SumsFitDouble ∧ right.SumsFitDouble ∧
    ∀ z ∈ (Expr.binaryOp op left right).constantSum?, z.natAbs ≤ 2 ^ 53
  | _ => True

end Expr

/-- What a bound value evaluates to. -/
inductive EvaluatesAs (expr : Expr) : Except InsertFailure InsertValue → Prop
  | number {v : Double} (harith : expr.isArithmetic = true)
      (hsum : ∀ z, expr.constantSum? = some z → expr.SumsFitDouble → v.val.Denotes (z * unit)) :
      EvaluatesAs expr (.ok (.number v))
  | text {v : Bytes} (h : expr = .literal (.string v)) : EvaluatesAs expr (.ok (.text v))
  | thrown {message : String} (harith : expr.isArithmetic = false) (htext : ∀ v, expr ≠ .literal (.string v)) :
      EvaluatesAs expr (.error (.thrown message))

/-- Integers up to this size are doubles. -/
theorem mem_binary64_int {z : ℤ} (hz : z.natAbs ≤ 2 ^ 53) : binary64.Mem (.ofUnits (z * unit)) := by
  rcases Nat.lt_or_eq_of_le hz with hlt | heq
  · exact Format.mem_ofUnits (natAbs_mul_unit _) hlt (Nat.zero_le _) (by decide)
  · have hpow : (z * (unit : ℤ)).natAbs = 1 * 2 ^ (53 + unitLog) := by
      rw [natAbs_mul_unit, heq, one_mul, pow_add]
    exact Format.mem_ofUnits hpow (by decide) (Nat.zero_le _) (by decide)

/-- A value that denotes such an integer is kept by the rounding. -/
theorem toDouble_val_of_denotes {a : Fp} {z : ℤ} (ha : a.Denotes (z * unit)) (hz : z.natAbs ≤ 2 ^ 53) :
    (toDouble a).val.Denotes (z * unit) := by
  have hconvert : (toDouble a).val = a := binary64.convert_of_mem (ha.mem (mem_binary64_int hz))
  rw [hconvert]
  exact ha

/-- An operation is arithmetic where its operands are. -/
theorem isArithmetic_eq_false {op : BinaryOp} {left right : Expr}
    (h : left.isArithmetic = false ∨ right.isArithmetic = false) :
    (Expr.binaryOp op left right).isArithmetic = false := by
  cases op <;> rcases h with h | h <;> simp [Expr.isArithmetic, h]

/-- The operation on what the operands evaluate to. -/
theorem evaluatesAs_binaryOp {op : BinaryOp} {left right : Expr} {l r : Except InsertFailure InsertValue}
    (hl : EvaluatesAs left l) (hr : EvaluatesAs right r) :
    EvaluatesAs (.binaryOp op left right)
      (do let lhs ← l; let rhs ← r; insertOperation (toPlanBinaryOp op) lhs rhs) := by
  cases hl with
  | thrown harith => exact .thrown (isArithmetic_eq_false (.inl harith)) nofun
  | text h =>
    have hleft : left.isArithmetic = false := h ▸ rfl
    cases hr with
    | thrown | text | number => exact .thrown (isArithmetic_eq_false (.inl hleft)) nofun
  | @number x hx hxsum =>
    cases hr with
    | thrown harith => exact .thrown (isArithmetic_eq_false (.inr harith)) nofun
    | text h => exact .thrown (isArithmetic_eq_false (.inr (h ▸ rfl))) nofun
    | @number y hy hysum =>
      cases op with
      | add =>
        refine .number (by simp [Expr.isArithmetic, hx, hy]) fun z hz hfit => ?_
        have hbound := hfit.2.2 z hz
        obtain ⟨a, ha, b, hb, rfl⟩ : ∃ a, left.constantSum? = some a ∧ ∃ b, right.constantSum? = some b ∧
            a + b = z := by simpa [Expr.constantSum?, Option.bind_eq_some_iff] using hz
        refine toDouble_val_of_denotes ?_ hbound
        rw [Int.add_mul]
        exact (hxsum a ha hfit.1).add (hysum b hb hfit.2.1)
      | sub =>
        refine .number (by simp [Expr.isArithmetic, hx, hy]) fun z hz hfit => ?_
        have hbound := hfit.2.2 z hz
        obtain ⟨a, ha, b, hb, rfl⟩ : ∃ a, left.constantSum? = some a ∧ ∃ b, right.constantSum? = some b ∧
            a - b = z := by simpa [Expr.constantSum?, Option.bind_eq_some_iff] using hz
        refine toDouble_val_of_denotes ?_ hbound
        rw [Int.sub_mul]
        exact (hxsum a ha hfit.1).sub (hysum b hb hfit.2.1)
      | eq | ne | gt | ge | lt | le | and | or => exact .thrown rfl nofun

/-- **Folding is exact** as long as the partial sums are doubles. -/
theorem evaluatesAs (expr : Expr) {bound : BoundExpr} {plan : PlanExpr}
    (hbound : Binder.bindConstant expr = .ok bound) (hplan : buildPlanExpr bound = .ok plan) :
    EvaluatesAs expr (evalInsertConstant plan) := by
  induction expr generalizing bound plan with
  | columnRef columnName => cases hbound
  | literal value =>
    cases hbound
    cases hplan
    cases value with
    | int32 v =>
      refine .number rfl fun z hz _ => ?_
      obtain rfl := Option.some.inj hz
      have hlt : v.toInt.natAbs < 2 ^ 53 := by
        have := v.toInt_lt
        have := v.le_toInt
        omega
      rw [Double.val_ofInt hlt]
      exact Fp.denotes_ofUnits _
    | double v =>
      refine .number rfl fun z hz _ => ?_
      cases hz
    | string v => exact .text rfl
  | binaryOp op left right ihl ihr =>
    obtain ⟨l, hl, hbound⟩ := bind_eq_ok hbound
    obtain ⟨r, hr, hbound⟩ := bind_eq_ok hbound
    cases hbound
    obtain ⟨pl, hpl, hplan⟩ := bind_eq_ok hplan
    obtain ⟨pr, hpr, hplan⟩ := bind_eq_ok hplan
    cases hplan
    exact evaluatesAs_binaryOp (ihl hl hpl) (ihr hr hpr)
  | aggFunc aggType arg ih =>
    obtain ⟨a, ha, hbound⟩ := bind_eq_ok hbound
    rcases @Binder.bindAggFunc_spec aggType a with ⟨type, hagg, -⟩ | ⟨⟨message, hagg⟩, -⟩
    · rw [hagg] at hbound
      cases hbound
      obtain ⟨pa, -, hplan⟩ := bind_eq_ok hplan
      cases hplan
      exact .thrown rfl fun v h => Expr.noConfusion h
    · rw [hagg] at hbound
      cases hbound
  | aggStar aggType =>
    rw [Binder.bindConstant] at hbound
    split_ifs at hbound
    · cases hbound
      cases hplan
      exact .thrown rfl fun v h => Expr.noConfusion h
    · cases hbound

/-- Arithmetic on integers is an exact sum, and any other is of type DOUBLE. -/
theorem constantType?_of_isArithmetic {expr : Expr} (h : expr.isArithmetic = true) :
    expr.constantType? = some .int32 ∧ (∃ z, expr.constantSum? = some z) ∨ expr.constantType? = some .double := by
  induction expr with
  | columnRef | aggFunc | aggStar => simp [Expr.isArithmetic] at h
  | literal value =>
    cases value with
    | int32 v => exact .inl ⟨rfl, _, rfl⟩
    | double v => exact .inr rfl
    | string v => simp [Expr.isArithmetic] at h
  | binaryOp op left right ihl ihr =>
    cases op with
    | add | sub =>
      rw [Expr.isArithmetic, Bool.and_eq_true] at h
      rcases ihl h.1 with ⟨hl, a, ha⟩ | hl <;> rcases ihr h.2 with ⟨hr, b, hb⟩ | hr
      · refine .inl ⟨by rw [Expr.constantType?, hl, hr]; rfl, ?_⟩
        simp [Expr.constantSum?, ha, hb]
      · exact .inr (by rw [Expr.constantType?, hl, hr]; rfl)
      · exact .inr (by rw [Expr.constantType?, hl, hr]; rfl)
      · exact .inr (by rw [Expr.constantType?, hl, hr]; rfl)
    | eq | ne | gt | ge | lt | le | and | or => simp [Expr.isArithmetic] at h

/-- An exact sum is arithmetic, of type INT32. -/
theorem isArithmetic_of_constantSum? {expr : Expr} {z : ℤ} (h : expr.constantSum? = some z) :
    expr.isArithmetic = true := by
  induction expr generalizing z with
  | columnRef | aggFunc | aggStar => simp [Expr.constantSum?] at h
  | literal value => cases value <;> first | rfl | simp [Expr.constantSum?] at h
  | binaryOp op left right ihl ihr =>
    cases op with
    | add | sub =>
      obtain ⟨a, ha, b, hb, -⟩ : ∃ a, left.constantSum? = some a ∧ ∃ b, right.constantSum? = some b ∧ _ = z := by
        simpa [Expr.constantSum?, Option.bind_eq_some_iff] using h
      rw [Expr.isArithmetic, ihl ha, ihr hb]
      rfl
    | eq | ne | gt | ge | lt | le | and | or => simp [Expr.constantSum?] at h

/-! ## Values -/

/-- A number that an INT32 column holds. -/
def FitsInt32 (z : ℤ) : Prop := -2 ^ 31 ≤ z ∧ z < 2 ^ 31

/-- The value is written to its column without an exception, and no conversion is out of range. -/
def Storable (schema : TableSchema) (value : Expr × ℕ) : Prop :=
  match Binder.columnTypeAt schema value.2 with
  | .int32 => ∃ z, value.1.constantSum? = some z ∧ FitsInt32 z
  | .double => value.1.isArithmetic = true
  | .varchar => ∃ v, value.1 = .literal (.string v) ∧ v.length ≤ kVarcharInlineMax
  | _ => False

/-- The value of an INT32 column is a sum that the column does not hold. -/
def Overflows (schema : TableSchema) (value : Expr × ℕ) : Prop :=
  Binder.columnTypeAt schema value.2 = .int32 ∧ ∃ z, value.1.constantSum? = some z ∧ ¬ FitsInt32 z

/-- How writing a value ends. -/
inductive WritesAs (schema : TableSchema) (value : Expr × ℕ) : Except InsertFailure (ℕ × Bytes) → Prop
  | written {cell : Bytes} (hstorable : Storable schema value)
      (hlength : cell.length = typeElemSize (Binder.columnTypeAt schema value.2))
      (hexact : Binder.columnTypeAt schema value.2 = .int32 →
        ∀ z, value.1.constantSum? = some z → (Numeric.read cell : Int32).toInt = z) :
      WritesAs schema value (.ok (value.2, cell))
  | thrown {message : String} (hnot : ¬ Storable schema value) (hover : ¬ Overflows schema value) :
      WritesAs schema value (.error (.thrown message))
  | undefinedConversion (hnot : ¬ Storable schema value) (hover : Overflows schema value) :
      WritesAs schema value (.error .undefinedConversion)

/-- A failure is an undefined conversion exactly where the value overflows. -/
theorem WritesAs.says {schema : TableSchema} {value : Expr × ℕ} {result : Except InsertFailure (ℕ × Bytes)}
    (h : WritesAs schema value result) :
    StepSays (Storable schema) (Overflows schema) (· = .undefinedConversion) value result := by
  cases h with
  | written hstorable => exact hstorable
  | thrown hnot hover => exact ⟨hnot, iff_of_false nofun hover⟩
  | undefinedConversion hnot hover => exact ⟨hnot, iff_of_true rfl hover⟩

/-- A value that overflows is not storable. -/
theorem not_storable_of_overflows {schema : TableSchema} {value : Expr × ℕ} (h : Overflows schema value) :
    ¬ Storable schema value := by
  obtain ⟨htype, z, hz, hrange⟩ := h
  intro hs
  simp only [Storable, htype] at hs
  obtain ⟨z', hz', hrange'⟩ := hs
  obtain rfl := Option.some.inj (hz.symm.trans hz')
  exact hrange hrange'

/-- The conversion of an integer. -/
theorem castInteger_of_denotes {v : Double} {z : ℤ} (hv : v.val.Denotes (z * unit)) (width : ℕ) :
    castInteger width v =
      if -2 ^ (width - 1) ≤ z ∧ z < 2 ^ (width - 1) then .ok z else .error .undefinedConversion := by
  obtain ⟨neg, mag, hnum, hsigned⟩ := hv
  have htrunc : (Fp.signed neg mag).tdiv unit = z := by
    rw [hsigned, Int.mul_tdiv_cancel _ (by exact_mod_cast unit_pos.ne')]
  rw [castInteger, hnum]
  simp only [htrunc]

/-- What is storable is arithmetic or a string. -/
theorem Storable.cases {schema : TableSchema} {value : Expr × ℕ} (h : Storable schema value) :
    value.1.isArithmetic = true ∨ ∃ v, value.1 = .literal (.string v) := by
  unfold Storable at h
  split at h
  · obtain ⟨z, hz, -⟩ := h
    exact .inl (isArithmetic_of_constantSum? hz)
  · exact .inl h
  · obtain ⟨v, hv, -⟩ := h
    exact .inr ⟨v, hv⟩
  · exact h.elim

/-- The partial sums of a value for an INT32 column are doubles. -/
def ValueSumsFit (schema : TableSchema) (value : Expr × ℕ) : Prop :=
  Binder.columnTypeAt schema value.2 = .int32 → value.1.SumsFitDouble

/-- **Writing a value** that the binder has accepted. -/
theorem writesAs {schema : TableSchema} {value : Expr × ℕ} {bound : BoundExpr} {plan : PlanExpr}
    (haccepted : Binder.ValueAccepted schema value) (hplace : value.2 < schema.columns.length)
    (hbound : Binder.bindConstant value.1 = .ok bound) (hplan : buildPlanExpr bound = .ok plan)
    (hfit : ValueSumsFit schema value) : WritesAs schema value (writeValue schema (plan, value.2)) := by
  have hcolumn : schema.columns[value.2]? = some schema.columns[value.2] := List.getElem?_eq_getElem hplace
  have htype : schema.columns[value.2].type = Binder.columnTypeAt schema value.2 := by
    rw [Binder.columnTypeAt, hcolumn]
    rfl
  have hvalue := haccepted.2
  have heval := evaluatesAs value.1 hbound hplan
  rw [writeValue, hcolumn]
  dsimp only
  generalize evalInsertConstant plan = result at heval ⊢
  cases heval with
  | thrown harith htext =>
    refine .thrown (fun h => ?_) fun ⟨_, z, hz, _⟩ => ?_
    · rcases h.cases with h | ⟨v, h⟩
      · simp [harith] at h
      · exact htext v h
    · simp [isArithmetic_of_constantSum? hz] at harith
  | @text v h =>
    rw [h] at hvalue
    have hvarchar : Binder.columnTypeAt schema value.2 = .varchar := (Option.some.inj hvalue).symm
    have hover : ¬ Overflows schema value := fun hover => by cases hvarchar.symm.trans hover.1
    have hstorable : Storable schema value ↔ v.length ≤ kVarcharInlineMax := by
      simp [Storable, hvarchar, h]
    simp only [bind, Except.bind, insertCell, htype, hvarchar]
    rcases hslot : writeVarcharSlot v with _ | slot
    · refine .thrown (fun hs => ?_) hover
      rw [writeVarcharSlot, if_neg (Nat.not_lt.mpr (hstorable.mp hs))] at hslot
      cases hslot
    · refine .written (hstorable.mpr ?_) ?_ fun hint => by simp [hvarchar] at hint
      · by_contra hlong
        rw [writeVarcharSlot, if_pos (Nat.not_le.mp hlong)] at hslot
        cases hslot
      · rw [hvarchar]
        exact (readVarcharSlot_writeVarcharSlot hslot).2
  | @number v harith hsum =>
    rcases constantType?_of_isArithmetic harith with ⟨hint, z, hz⟩ | hdouble
    · have hcol : Binder.columnTypeAt schema value.2 = .int32 := Option.some.inj (hvalue.symm.trans hint)
      have hcast := castInteger_of_denotes (hsum z hz (hfit hcol)) 32
      simp only [bind, Except.bind, insertCell, htype, hcol]
      by_cases hrange : FitsInt32 z
      · rw [hcast.trans (if_pos hrange)]
        refine .written ?_ ?_ fun _ z' hz' => ?_
        · simp only [Storable, hcol]
          exact ⟨z, hz, hrange⟩
        · rw [hcol]
          exact ArithmeticElement.length_write _
        · obtain rfl := Option.some.inj (hz.symm.trans hz')
          rw [ArithmeticElement.read_write]
          exact Int32.toInt_ofInt_of_le hrange.1 hrange.2
      · rw [hcast.trans (if_neg hrange)]
        have hover : Overflows schema value := ⟨hcol, z, hz, hrange⟩
        exact .undefinedConversion (not_storable_of_overflows hover) hover
    · have hcol : Binder.columnTypeAt schema value.2 = .double := Option.some.inj (hvalue.symm.trans hdouble)
      simp only [bind, Except.bind, insertCell, htype, hcol]
      refine .written ?_ ?_ fun hint => by simp [hcol] at hint
      · simpa only [Storable, hcol] using harith
      · rw [hcol]
        exact ArithmeticElement.length_write _

/-! ## Rows -/

/-- The row is written without an exception, and no conversion is out of range. -/
def RowStorable (schema : TableSchema) (targets : List ℕ) (row : List Expr) : Prop :=
  ∀ value ∈ row.zip targets, Storable schema value

/-- Writing the row comes to a value that overflows. -/
def RowOverflows (schema : TableSchema) (targets : List ℕ) (row : List Expr) : Prop :=
  FirstAt (Storable schema) (Overflows schema) (row.zip targets)

/-- So are those of the values that writing the row comes to. -/
def RowSumsFit (schema : TableSchema) (targets : List ℕ) (row : List Expr) : Prop :=
  AllReached (Storable schema) (ValueSumsFit schema) (row.zip targets)

/-- The cells of INT32 columns hold the exact values of the sums. -/
def RowExact (schema : TableSchema) (targets : List ℕ) (row : List Expr) (cells : Row) : Prop :=
  ∀ value ∈ row.zip targets, Binder.columnTypeAt schema value.2 = .int32 → ∀ z, value.1.constantSum? = some z →
    ∃ cell, cells[value.2]? = some cell ∧ (Numeric.read cell : Int32).toInt = z

/-- The cells have the sizes of the columns. -/
structure CellsFit (schema : TableSchema) (cells : Row) : Prop where
  length : cells.length = schema.columns.length
  sizes : ∀ place cell, cells[place]? = some cell → cell.length = typeElemSize (Binder.columnTypeAt schema place)

/-- A row of zeros has the sizes. -/
theorem cellsFit_zeroRow (schema : TableSchema) : CellsFit schema (zeroRow schema) where
  length := List.length_map _
  sizes place cell h := by
    rw [zeroRow, List.getElem?_map, Option.map_eq_some_iff] at h
    obtain ⟨column, hcolumn, rfl⟩ := h
    rw [List.length_replicate, Binder.columnTypeAt, hcolumn]
    rfl

/-- Writing a cell of the right size keeps the sizes. -/
theorem CellsFit.set {schema : TableSchema} {cells : Row} (h : CellsFit schema cells) {place : ℕ} {cell : Bytes}
    (hcell : cell.length = typeElemSize (Binder.columnTypeAt schema place)) :
    CellsFit schema (cells.set place cell) where
  length := (List.length_set ..).trans h.length
  sizes other otherCell hother := by
    rw [List.getElem?_set] at hother
    split_ifs at hother with hsame hlt
    · cases hother
      exact hsame ▸ hcell
    · exact h.sizes other otherCell hother

/-- Writing keeps the number of cells. -/
@[simp] theorem length_writeCells (written : List (ℕ × Bytes)) (cells : Row) :
    (writeCells written cells).length = cells.length := by
  induction written generalizing cells with
  | nil => rfl
  | cons w written ih => exact (ih _).trans (List.length_set ..)

/-- Writing keeps the sizes. -/
theorem CellsFit.writeCells {schema : TableSchema} {written : List (ℕ × Bytes)}
    (hwritten : ∀ w ∈ written, w.2.length = typeElemSize (Binder.columnTypeAt schema w.1)) {cells : Row}
    (h : CellsFit schema cells) : CellsFit schema (writeCells written cells) := by
  induction written generalizing cells with
  | nil => exact h
  | cons w written ih =>
    obtain ⟨hw, hrest⟩ := List.forall_mem_cons.mp hwritten
    exact ih hrest (h.set hw)

/-- A place that is not written keeps its cell. -/
theorem getElem?_writeCells_of_notMem {written : List (ℕ × Bytes)} {place : ℕ}
    (hplace : place ∉ written.map Prod.fst) (cells : Row) : (writeCells written cells)[place]? = cells[place]? := by
  induction written generalizing cells with
  | nil => rfl
  | cons w written ih =>
    rw [List.map_cons, List.mem_cons, not_or] at hplace
    exact (ih hplace.2 _).trans (List.getElem?_set_ne (Ne.symm hplace.1))

/-- A place has the cell that is written to it, as no place is written twice. -/
theorem getElem?_writeCells {written : List (ℕ × Bytes)} (hnodup : (written.map Prod.fst).Nodup) {place : ℕ}
    {cell : Bytes} (hmem : (place, cell) ∈ written) {cells : Row} (hplace : place < cells.length) :
    (writeCells written cells)[place]? = some cell := by
  induction written generalizing cells with
  | nil => exact absurd hmem List.not_mem_nil
  | cons w written ih =>
    rw [List.map_cons, List.nodup_cons] at hnodup
    rcases List.mem_cons.mp hmem with rfl | hmem
    · exact (getElem?_writeCells_of_notMem hnodup.1 _).trans (List.getElem?_set_self hplace)
    · exact ih hnodup.2 hmem ((List.length_set ..).symm ▸ hplace)

/-- How writing a row ends. -/
inductive RowWritesAs (schema : TableSchema) (targets : List ℕ) (row : List Expr) :
    Except InsertFailure Row → Prop
  | written {cells : Row} (hstorable : RowStorable schema targets row) (hfit : CellsFit schema cells)
      (hexact : RowExact schema targets row cells) : RowWritesAs schema targets row (.ok cells)
  | failed {failure : InsertFailure} (hnot : ¬ RowStorable schema targets row)
      (hover : failure = .undefinedConversion ↔ RowOverflows schema targets row) :
      RowWritesAs schema targets row (.error failure)

/-- **Writing a row**, once its values are planned. -/
theorem rowWritesAs {schema : TableSchema} {targets : List ℕ} {row : List Expr} {plans : List PlanExpr}
    (hrow : row.length = targets.length) (hlength : plans.length = targets.length) (htargets : targets.Nodup)
    (hplaces : ∀ place ∈ targets, place < schema.columns.length)
    (hwrites : List.Forall₂ (fun value plan => ValueSumsFit schema value →
      WritesAs schema value (writeValue schema plan)) (row.zip targets) (plans.zip targets))
    (hfit : RowSumsFit schema targets row) : RowWritesAs schema targets row (writeRow schema targets plans) := by
  have hpass : StepSays _ _ _ (row.zip targets) ((plans.zip targets).mapM (writeValue schema)) :=
    mapM_says (fun _ => not_storable_of_overflows) (hwrites.imp fun _ _ h hvalue => WritesAs.says (h hvalue)) hfit
  rw [writeRow, if_neg (not_not.mpr hlength)]
  rcases hresult : (plans.zip targets).mapM (writeValue schema) with failure | written
  · rw [hresult] at hpass
    exact .failed hpass.1 hpass.2
  · rw [hresult] at hpass
    have hall := forall₂_of_mapM_eq_ok (((List.forall₂_and_left _ _).mpr
      ⟨hfit.forall_mem hpass, hwrites⟩).imp fun _ _ h => h.2 h.1) hresult
    have hfst : written.map Prod.fst = targets := by
      have hsame : List.Forall₂ (fun value w => value.2 = w.1) (row.zip targets) written :=
        hall.imp fun value w h => by cases h; rfl
      have hmap := List.forall₂_map_right_iff.mpr (List.forall₂_map_left_iff.mpr hsame)
      rw [List.forall₂_eq_eq_eq, List.map_snd_zip hrow.ge] at hmap
      exact hmap.symm
    refine .written hpass (CellsFit.writeCells (fun w hw => ?_) (cellsFit_zeroRow schema)) ?_
    · obtain ⟨value, -, h⟩ := exists_of_mem_right hall hw
      cases h with
      | written _ hwidth => exact hwidth
    · intro value hvalue htype z hz
      obtain ⟨w, hw, h⟩ := exists_of_mem_left hall hvalue
      cases h with
      | @written cell _ _ hexact =>
        have hplace : value.2 < (zeroRow schema).length :=
          (cellsFit_zeroRow schema).length.symm ▸ hplaces value.2 (List.of_mem_zip hvalue).2
        exact ⟨cell, getElem?_writeCells (hfst.symm ▸ htargets) hw hplace, hexact htype z hz⟩

/-- A failure is an undefined conversion exactly where writing comes to an overflow. -/
theorem RowWritesAs.says {schema : TableSchema} {targets : List ℕ} {row : List Expr}
    {result : Except InsertFailure Row} (h : RowWritesAs schema targets row result) :
    StepSays (RowStorable schema targets) (RowOverflows schema targets) (· = .undefinedConversion) row result := by
  cases h with
  | written hstorable => exact hstorable
  | failed hnot hover => exact ⟨hnot, hover⟩

/-- A row that overflows is not storable. -/
theorem not_rowStorable_of_rowOverflows {schema : TableSchema} {targets : List ℕ} {row : List Expr}
    (h : RowOverflows schema targets row) : ¬ RowStorable schema targets row := by
  obtain ⟨before, value, after, heq, -, hover⟩ := h
  intro hall
  exact not_storable_of_overflows hover (hall value (heq ▸ List.mem_append_right _ List.mem_cons_self))

/-- **Writing a row** that the binder has accepted. -/
theorem rowWritesAs_of_bound {schema : TableSchema} {targets : List ℕ} {row : List Expr} {bound : List BoundExpr}
    {plans : List PlanExpr} (htargets : targets.Nodup) (hplaces : ∀ place ∈ targets, place < schema.columns.length)
    (hbound : Binder.bindInsertRow schema targets row = .ok bound) (hplan : bound.mapM buildPlanExpr = .ok plans)
    (hfit : RowSumsFit schema targets row) :
    RowWritesAs schema targets row (writeRow schema targets plans) := by
  obtain ⟨hrow, hvalues⟩ := Binder.bindInsertRow_eq_ok hbound
  have hlength : plans.length = targets.length := by
    rw [length_of_mapM_eq_ok hplan, length_of_mapM_eq_ok hvalues, List.length_zip, hrow, min_self]
  refine rowWritesAs hrow hlength htargets hplaces ?_ hfit
  -- the planned values, with the values that they are of
  have hplans : List.Forall₂ (fun value plan => ∃ b, Binder.bindInsertValue schema value = .ok b ∧
      buildPlanExpr b = .ok plan) (row.zip targets) plans := by
    refine forall₂_of_mapM_eq_ok (R := fun value r => ∃ b, Binder.bindInsertValue schema value = .ok b ∧
      buildPlanExpr b = r) ?_ hplan
    exact (forall₂_of_mapM hvalues).imp fun value b hb => ⟨b, hb, rfl⟩
  have hplacesOf : List.Forall₂ (fun (value : Expr × ℕ) place => value.2 = place) (row.zip targets) targets := by
    have hsame := List.forall₂_map_right_iff.mpr (List.forall₂_same.mpr fun value (_ : value ∈ row.zip targets) =>
      (rfl : value.2 = Prod.snd value))
    rwa [List.map_snd_zip hrow.ge] at hsame
  have hknown : ∀ value ∈ row.zip targets, value.2 < schema.columns.length :=
    fun value hvalue => hplaces value.2 (List.of_mem_zip hvalue).2
  refine (forall₂_zip ((List.forall₂_and_left _ _).mpr ⟨hknown, hplans⟩) hplacesOf).imp ?_
  rintro value ⟨plan, place⟩ ⟨⟨hplace, b, hb, hplan⟩, hsame⟩ hsums
  obtain rfl : value.2 = place := hsame
  exact writesAs ((Binder.bindInsertValue_spec schema value).1.mp ⟨b, hb⟩) hplace
    (Binder.bindConstant_of_bindInsertValue hb) hplan hsums

/-! ## Chunks -/

section Chunks

variable {schema : TableSchema} {rows : List Row}

/-- The size of the elements of a column. -/
theorem elementSize_rowsChunk (place : ℕ) (hplace : place < schema.columns.length) :
    (rowsChunk schema rows).elementSize place = typeElemSize (Binder.columnTypeAt schema place) := by
  simp [DataChunk.elementSize, rowsChunk, Binder.columnTypeAt, hplace]

/-- The buffer of a column. -/
theorem getD_chunks_rowsChunk (place : ℕ) (hplace : place < schema.columns.length) :
    (rowsChunk schema rows).chunks.getD place [] = rows.flatMap fun row => row.getD place [] := by
  simp [rowsChunk, hplace]

/-- A cell has the size of its column. -/
theorem CellsFit.length_getD {cells : Row} (h : CellsFit schema cells) {place : ℕ}
    (hplace : place < schema.columns.length) :
    (cells.getD place []).length = typeElemSize (Binder.columnTypeAt schema place) := by
  have hlt : place < cells.length := h.length.symm ▸ hplace
  have hcell : cells[place]? = some cells[place] := List.getElem?_eq_getElem hlt
  rw [List.getD_eq_getElem?_getD, hcell]
  exact h.sizes place _ hcell

/-- A chunk of rows with the sizes of the columns fits. -/
theorem rowsChunk_fits (hrows : ∀ cells ∈ rows, CellsFit schema cells) (hsmall : rows.length < 2 ^ 32) :
    (rowsChunk schema rows).Fits schema where
  columns := by simp [rowsChunk]
  sizes := rfl
  inside place hplace := by
    have hplace' : place < schema.columns.length := by simpa [rowsChunk] using hplace
    have hwidths : ∀ cells ∈ rows, (cells.getD place []).length = (rowsChunk schema rows).elementSize place :=
      fun cells hcells => ((hrows cells hcells).length_getD hplace').trans (elementSize_rowsChunk _ hplace').symm
    rw [getD_chunks_rowsChunk _ hplace', List.length_flatMap,
      List.sum_eq_card_nsmul _ ((rowsChunk schema rows).elementSize place) (by simpa using hwidths)]
    simp [rowsChunk]
  small := hsmall

/-- The rows of the chunk. -/
theorem rows_rowsChunk (hrows : ∀ cells ∈ rows, CellsFit schema cells) : (rowsChunk schema rows).rows = rows := by
  refine List.ext_getElem (by simp [rowsChunk]) fun i hi hi' => ?_
  have hcells := hrows rows[i] (List.getElem_mem hi')
  rw [DataChunk.getElem_rows]
  refine List.ext_getElem (by simp [DataChunk.row, DataChunk.bufferRow, rowsChunk, hcells.length]) fun place hp hp' => ?_
  have hplace : place < schema.columns.length := hcells.length ▸ hp'
  have hcell : (rowsChunk schema rows).bufferCell i place = rows[i].getD place [] := by
    rw [DataChunk.bufferCell, getD_chunks_rowsChunk _ hplace, elementSize_rowsChunk _ hplace]
    exact cell_flatMap _ rows (fun cells hmem => (hrows cells hmem).length_getD hplace) hi'
  simp only [DataChunk.row, DataChunk.bufferRow, List.getElem_map, List.getElem_range]
  rw [show (rowsChunk schema rows).sliceStart + i = i from Nat.zero_add i, hcell]
  simp [List.getD_eq_getElem?_getD, hp']

end Chunks

/-- The rows of the statement, once planned. -/
theorem rowsWriteAs {schema : TableSchema} {stmt : InsertStatement} {tableOid : ℕ} {bound : BoundInsertStatement}
    {plan : PhysicalInsert} (hbound : Binder.bindInsert (some (tableOid, schema)) stmt = .ok bound)
    (hplan : planInsert bound = .ok plan) :
    List.Forall₂ (fun row plans => RowSumsFit schema plan.targetColumns row →
      RowWritesAs schema plan.targetColumns row (writeRow schema plan.targetColumns plans))
      stmt.values plan.rows := by
  obtain ⟨rows, hrows, heq⟩ := bind_eq_ok hplan
  cases heq
  obtain ⟨htargets, hvalues⟩ := Binder.bindInsert_eq_ok hbound
  obtain ⟨hnodup, hplaces⟩ := Binder.places_of_targetIndices htargets
  have hplans : List.Forall₂ (fun row r => ∀ plans, r = .ok plans → RowSumsFit schema bound.targetColIndices row →
      RowWritesAs schema bound.targetColIndices row (writeRow schema bound.targetColIndices plans))
      stmt.values (bound.values.map fun row => row.mapM buildPlanExpr) :=
    List.forall₂_map_right_iff.mpr ((forall₂_of_mapM hvalues).imp fun row b hb plans hp =>
      rowWritesAs_of_bound hnodup hplaces hb hp)
  rw [mapM_eq_ok_iff.mp hrows] at hplans
  exact (List.forall₂_map_right_iff.mp hplans).imp fun row plans h => h plans rfl

/-! ## INSERT -/

/-- Execution comes to a value that overflows. -/
def ReachesOverflow (schema : TableSchema) (targets : List ℕ) (rows : List (List Expr)) : Prop :=
  FirstAt (RowStorable schema targets) (RowOverflows schema targets) rows

/-- The partial sums are doubles of the values that execution comes to. -/
def SumsFit (schema : TableSchema) (targets : List ℕ) (rows : List (List Expr)) : Prop :=
  AllReached (RowStorable schema targets) (RowSumsFit schema targets) rows

/-- The rows are behind those of the table, with the exact values, or the statement has failed without an
effect; no conversion was out of range. -/
inductive StoredExactly (schema : TableSchema) (targets : List ℕ) (values : List (List Expr)) :
    Option TableStorage → Option TableStorage × Except InsertFailure ℕ → Prop
  | stored {t t' : TableStorage} {rows : List Row} (hrows : List.Forall₂ (RowExact schema targets) values rows)
      (hheld : t'.heldRows = t.heldRows ++ rows) :
      StoredExactly schema targets values (some t) (some t', .ok values.length)
  | failed {storage : Option TableStorage} {message : String} :
      StoredExactly schema targets values storage (storage, .error (.thrown message))

/-- After an undefined conversion nothing is promised. -/
theorem not_storedExactly_undefinedConversion {schema : TableSchema} {targets : List ℕ} {values : List (List Expr)}
    {before after : Option TableStorage} :
    ¬ StoredExactly schema targets values before (after, .error .undefinedConversion) := nofun

/-- The append of the chunk. -/
theorem storedExactly_appendChunk {schema : TableSchema} {targets : List ℕ} {values : List (List Expr)}
    {rows : List Row} {storage : Option TableStorage} {tableOid : ℕ} (hs : schema.KeysBound)
    (hrows : List.Forall₂ (RowExact schema targets) values rows) (hfit : ∀ cells ∈ rows, CellsFit schema cells)
    (hcapacity : ∀ t ∈ storage, values.length ≤ t.remaining + kMaxSegmentRowCount)
    (hstorage : ∀ t ∈ storage, ∃ tableId s, System.Reached tableId schema s ∧ s.table = t) :
    StoredExactly schema targets values storage (appendChunk storage tableOid (rowsChunk schema rows)) := by
  have hlength := hrows.length_eq
  rcases storage with _ | t
  · exact .failed
  have hcapacity := hcapacity t rfl
  obtain ⟨tableId, s, hreach, rfl⟩ := hstorage t rfl
  obtain ⟨hshape, hschema⟩ := System.shape_of_reachable hreach
  obtain ⟨stored, hrep⟩ := System.represents_of_reachable hs hreach
  have hsmall : rows.length < 2 ^ 32 := by
    have hremaining : s.table.remaining ≤ kMaxSegmentRowCount := Nat.sub_le _ _
    have hmax : kMaxSegmentRowCount + kMaxSegmentRowCount < 2 ^ 32 := by decide
    omega
  have hf := rowsChunk_fits hfit hsmall
  have hf' : (rowsChunk schema rows).Fits s.table.schema := by
    rw [hschema]
    exact hf
  unfold appendChunk
  cases hshape.append_cases hschema hs.inSchema hrep hf with
  | rejected _ heq =>
    simp only [heq]
    exact .failed
  | @accepted _ index _ heq =>
    simp only [heq]
    have hloop := hshape.appendLoop hf' []
    have hsize : (rowsChunk schema rows).size = values.length := hlength.symm
    rw [hsize]
    refine .stored hrows ?_
    have hsource : TableStorage.sourceRows s.table.remaining (rowsChunk schema rows) = rows :=
      (TableStorage.readsRows_iff.mp (TableStorage.readsRows_of_front rfl (hsize ▸ hcapacity))).trans
        (rows_rowsChunk hfit)
    have hheld := hloop.held
    rw [hsource] at hheld
    rw [(hloop.shape.withIndex index).heldRows_eq, hshape.heldRows_eq]
    exact hheld

/-- A statement that throws before the storage is opened. -/
theorem executeInsert_of_error {schema : TableSchema} {plan : PhysicalInsert} {failure : InsertFailure}
    (h : insertChunk schema plan = .error failure) (storage : Option TableStorage) :
    executeInsert (some schema) storage plan = (storage, .error failure) := by
  unfold executeInsert
  simp only [h]

/-- A statement whose chunk is built. -/
theorem executeInsert_of_ok {schema : TableSchema} {plan : PhysicalInsert} {chunk : DataChunk}
    (h : insertChunk schema plan = .ok chunk) (storage : Option TableStorage) :
    executeInsert (some schema) storage plan = appendChunk storage plan.tableOid chunk := by
  unfold executeInsert
  simp only [h]

/-- The chunk of a table whose columns have types. -/
theorem insertChunk_of_find?_eq_none {schema : TableSchema} (plan : PhysicalInsert)
    (h : (schema.columns.find? fun column => column.type = .invalid) = none) :
    insertChunk schema plan =
      (do return rowsChunk schema (← plan.rows.mapM (writeRow schema plan.targetColumns))) := by
  unfold insertChunk
  rw [h]

/-- **INSERT stores the exact values, or nothing,** exactly where execution does not come to a value that an
INT32 column does not hold. -/
theorem insert_exact_iff {schema : TableSchema} {stmt : InsertStatement} {tableOid : ℕ}
    {bound : BoundInsertStatement} {plan : PhysicalInsert} {storage : Option TableStorage} (hs : schema.KeysBound)
    (hbound : Binder.bindInsert (some (tableOid, schema)) stmt = .ok bound) (hplan : planInsert bound = .ok plan)
    (hfit : SumsFit schema plan.targetColumns stmt.values)
    (hcapacity : (∀ row ∈ stmt.values, RowStorable schema plan.targetColumns row) → ∀ t ∈ storage,
      stmt.values.length ≤ t.remaining + kMaxSegmentRowCount)
    (hstorage : ∀ t ∈ storage, ∃ tableId s, System.Reached tableId schema s ∧ s.table = t) :
    StoredExactly schema plan.targetColumns stmt.values storage (executeInsert (some schema) storage plan) ↔
      (∃ column ∈ schema.columns, column.type = .invalid) ∨
        ¬ ReachesOverflow schema plan.targetColumns stmt.values := by
  have hwrites := rowsWriteAs hbound hplan
  have hpass : StepSays _ (ReachesOverflow schema plan.targetColumns) _ stmt.values
      (plan.rows.mapM (writeRow schema plan.targetColumns)) :=
    mapM_says (fun _ => not_rowStorable_of_rowOverflows) (hwrites.imp fun _ _ h hrow => RowWritesAs.says (h hrow)) hfit
  rcases hfind : schema.columns.find? fun column => column.type = .invalid with _ | column
  · have hvalid : ¬ ∃ column ∈ schema.columns, column.type = .invalid := by
      simpa using hfind
    have hchunk := insertChunk_of_find?_eq_none plan hfind
    rw [or_iff_right hvalid]
    rcases hresult : plan.rows.mapM (writeRow schema plan.targetColumns) with failure | rows
    · rw [hresult] at hpass hchunk
      rw [executeInsert_of_error hchunk, ← hpass.2]
      cases failure with
      | thrown message => exact iff_of_true .failed nofun
      | undefinedConversion => exact iff_of_false not_storedExactly_undefinedConversion (not_not.mpr rfl)
    · rw [hresult] at hpass hchunk
      have hall := forall₂_of_mapM_eq_ok (((List.forall₂_and_left _ _).mpr
        ⟨hfit.forall_mem hpass, hwrites⟩).imp fun _ _ h => h.2 h.1) hresult
      rw [executeInsert_of_ok hchunk]
      refine iff_of_true (storedExactly_appendChunk hs ?_ (fun cells hcells => ?_) (hcapacity hpass) hstorage) ?_
      · exact hall.imp fun row cells h => by cases h with | written _ _ hexact => exact hexact
      · obtain ⟨row, -, h⟩ := exists_of_mem_right hall hcells
        cases h with
        | written _ hcellsFit => exact hcellsFit
      · rintro ⟨before, row, after, heq, -, hover⟩
        exact not_rowStorable_of_rowOverflows hover (hpass row (heq ▸ List.mem_append_right _ List.mem_cons_self))
  · have hmem := List.mem_of_find?_eq_some hfind
    have htype : column.type = .invalid := by simpa using List.find?_some hfind
    have hchunk : insertChunk schema plan =
        .error (.thrown ("INSERT: unsupported column type for column " ++ nameText column.name)) := by
      unfold insertChunk
      rw [hfind]
    rw [executeInsert_of_error hchunk]
    exact iff_of_true .failed (.inl ⟨column, hmem, htype⟩)

/-! ## A sum that does not fit -/

/-- The table has no keys. -/
theorem countersSchema_keysBound : Binder.countersSchema.KeysBound where
  nonempty := List.forall_mem_nil _
  inSchema := List.forall_mem_nil _

/-- `INSERT INTO t VALUES (1 + 2)`. -/
def insertSum : InsertStatement :=
  ⟨[116], [], [[.binaryOp .add (.literal (.int32 1)) (.literal (.int32 2))]]⟩

/-- `1 + 2` is stored as it is. -/
theorem insert_exact_iff_sum :
    let schema := Binder.countersSchema
    let storage := some (TableStorage.fresh 0 schema)
    let plan : PhysicalInsert :=
      ⟨0, [0], [[.binary .add (.literal (.int32 1) .int32) (.literal (.int32 2) .int32) .int32]]⟩
    StoredExactly schema [0] insertSum.values storage (executeInsert (some schema) storage plan) ↔
      (∃ column ∈ schema.columns, column.type = .invalid) ∨
        ¬ ReachesOverflow schema [0] insertSum.values := by
  intro schema storage plan
  have hbound : Binder.bindInsert (some (0, schema)) insertSum = .ok ⟨0, [0],
      [[.binaryOp .add (.literal (.int32 1) .int32) (.literal (.int32 2) .int32) .int32]]⟩ := rfl
  have hplan : planInsert ⟨0, [0],
      [[.binaryOp .add (.literal (.int32 1) .int32) (.literal (.int32 2) .int32) .int32]]⟩ = .ok plan := rfl
  refine insert_exact_iff countersSchema_keysBound hbound hplan ?_ (fun _ t ht => ?_) fun t ht => ?_
  · intro before row after heq _ before' value after' heq' _ _
    obtain rfl := List.mem_singleton.mp (heq ▸ List.mem_append_right before List.mem_cons_self)
    obtain rfl := List.mem_singleton.mp (heq' ▸ List.mem_append_right before' List.mem_cons_self)
    refine ⟨trivial, trivial, fun z hz => ?_⟩
    obtain rfl : 3 = z := Option.some.inj hz
    decide
  · obtain rfl := Option.some.inj ht
    decide
  · obtain rfl := Option.some.inj ht
    exact ⟨0, _, .start (System.opened_fresh 0 schema), rfl⟩

/-- `INSERT INTO t VALUES (2147483647 + 1)`. -/
def insertOverflow : InsertStatement :=
  ⟨[116], [], [[.binaryOp .add (.literal (.int32 2147483647)) (.literal (.int32 1))]]⟩

/-- `2147483647 + 1` is accepted, and converted to `int32` although it is out of range. -/
theorem insertOverflow_undefined :
    let schema := Binder.countersSchema
    let storage := some (TableStorage.fresh 0 schema)
    let plan : PhysicalInsert :=
      ⟨0, [0], [[.binary .add (.literal (.int32 2147483647) .int32) (.literal (.int32 1) .int32) .int32]]⟩
    (Binder.bindInsert (some (0, schema)) insertOverflow).toOption.map planInsert = some (.ok plan) ∧
      executeInsert (some schema) storage plan = (storage, .error .undefinedConversion) ∧
      ¬ StoredExactly schema [0] insertOverflow.values storage (executeInsert (some schema) storage plan) := by
  intro schema storage plan
  have hrows : plan.rows.mapM (writeRow schema plan.targetColumns) = .error .undefinedConversion := by
    decide +kernel
  have hchunk : insertChunk schema plan = .error .undefinedConversion := by
    rw [insertChunk_of_find?_eq_none plan rfl, hrows]
    rfl
  have hexecute := executeInsert_of_error hchunk storage
  exact ⟨rfl, hexecute, hexecute ▸ not_storedExactly_undefinedConversion⟩

end SimpleOlap
