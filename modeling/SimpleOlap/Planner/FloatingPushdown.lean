import SimpleOlap.Planner.Pushdown
import SimpleOlap.Storage.Scan.Binding

/-!
# Pushed comparisons of floating-point columns

A comparison with a FLOAT column is pushed into storage with its literal narrowed to float, and left in
a filter it widens the column.

* `holds_rounded_iff`: comparing a value of a format with a number, and with the number rounded to the
  format.
* `RoundingDecides`: the column holds just the rounded literal, and the rounding went where the
  operator looks.
* `pushed_floating_comparison_iff`: the two ways agree if and only if the rounding does not decide, and
  no NaN is tested for equality.
-/

namespace SimpleOlap

open Lib

/-! ## Rounding one side of a comparison -/

section Order

variable {β : Type*} [LinearOrder β] {v l r : β}

/-- A rounded bound never passes a value that rounding keeps. So the comparison changes only where the
bound is rounded onto the value. -/
theorem holds_rounded_iff {op : CmpOp} (hop : op = .eq ∨ op = .gt ∨ op = .lt) (hle : l ≤ v → r ≤ v)
    (hge : v ≤ l → v ≤ r) :
    (op.holds v r ↔ op.holds v l) ↔ ¬ (v = r ∧ (op = .eq ∧ l ≠ r ∨ op = .gt ∧ l < r ∨
      op = .lt ∧ r < l)) := by
  rcases hop with rfl | rfl | rfl
  · simp only [CmpOp.holds, true_and, reduceCtorEq, false_and, or_false]
    constructor
    · rintro h ⟨hvr, hlr⟩
      exact hlr ((h.mp hvr).symm.trans hvr)
    · intro h
      refine ⟨fun hvr => ?_, fun hvl => le_antisymm (hge hvl.le) (hle hvl.ge)⟩
      by_contra hvl
      exact h ⟨hvr, fun hlr => hvl (hvr.trans hlr.symm)⟩
  · simp only [CmpOp.holds, true_and, reduceCtorEq, false_and, or_false, false_or]
    constructor
    · rintro h ⟨rfl, hlr⟩
      exact lt_irrefl v (h.mpr hlr)
    · intro h
      refine ⟨fun hrv => ?_, fun hlv => ?_⟩
      · by_contra hvl
        exact absurd (hge (not_lt.mp hvl)) (not_le.mpr hrv)
      · refine lt_of_le_of_ne (hle hlv.le) fun hrv => ?_
        exact h ⟨hrv.symm, hrv ▸ hlv⟩
  · simp only [CmpOp.holds, true_and, reduceCtorEq, false_and, false_or]
    constructor
    · rintro h ⟨rfl, hrl⟩
      exact lt_irrefl v (h.mpr hrl)
    · intro h
      refine ⟨fun hvr => ?_, fun hvl => ?_⟩
      · by_contra hlv
        exact absurd (hle (not_lt.mp hlv)) (not_le.mpr hvr)
      · refine lt_of_le_of_ne (hge hvl.le) fun hvr => ?_
        exact h ⟨hvr, hvr ▸ hvl⟩

end Order

/-- The value of a column is the rounded literal, and the literal lies where the operator makes a
difference of it: anywhere else for `=`, below for `>`, above for `<`. -/
def RoundingDecides (op : CmpOp) (v l rounded : Fp) : Prop :=
  v.eq rounded ∧ (op = .eq ∧ ¬ l.eq rounded ∨ op = .gt ∧ l.lt rounded ∨ op = .lt ∧ rounded.lt l)

instance (op : CmpOp) (v l rounded : Fp) : Decidable (RoundingDecides op v l rounded) := by
  unfold RoundingDecides
  infer_instance

section Compare

variable {op : CmpOp} {v l : Fp}

/-- Against NaN, a three-way comparison takes the sides for equal. -/
theorem signHolds_compareNumbers_nan (hop : op = .eq ∨ op = .gt ∨ op = .lt)
    (h : v = .nan ∨ l = .nan) : signHolds op (ExecValue.compareNumbers v l) = decide (op = .eq) := by
  have hzero : ExecValue.compareNumbers v l = 0 := by
    rcases h with rfl | rfl <;> simp [ExecValue.compareNumbers]
  rw [hzero]
  rcases hop with rfl | rfl | rfl <;> rfl

/-- **The comparison with the rounded number and the three-way comparison with the number itself.** -/
theorem cmp_convert_eq_signHolds_iff {F : Format} (hop : op = .eq ∨ op = .gt ∨ op = .lt)
    (hv : F.Mem v) :
    Fp.cmp op v (F.convert l) = signHolds op (ExecValue.compareNumbers v l) ↔
      (op = .eq → v ≠ .nan ∧ l ≠ .nan) ∧ ¬ RoundingDecides op v l (F.convert l) := by
  by_cases hnan : v = .nan ∨ l = .nan
  · have hcmp : Fp.cmp op v (F.convert l) = false := by
      rcases hnan with rfl | rfl
      · rw [Fp.cmp_nan_left]
        rcases hop with rfl | rfl | rfl <;> rfl
      · rw [show F.convert .nan = .nan from rfl, Fp.cmp_nan_right]
        rcases hop with rfl | rfl | rfl <;> rfl
    have hnot : ¬ RoundingDecides op v l (F.convert l) := by
      rintro ⟨heq, -⟩
      rcases hnan with rfl | rfl
      · simp at heq
      · rw [show F.convert .nan = .nan from rfl, Fp.eq_nan_right] at heq
        cases heq
    have hboth : ¬ (v ≠ .nan ∧ l ≠ .nan) := by
      rintro ⟨hv', hl'⟩
      exact hnan.elim hv' hl'
    rw [hcmp, signHolds_compareNumbers_nan hop hnan]
    simp [hnot, hboth]
  · rw [not_or] at hnan
    obtain ⟨hv', hl'⟩ := hnan
    have hr' := F.convert_ne_nan hl'
    have hiff := holds_rounded_iff (v := v.key) (l := l.key) (r := (F.convert l).key) hop
      (F.key_convert_le hl' hv' hv) (F.le_key_convert hv' hl' hv)
    rw [signHolds_compareNumbers op hv' hl', Bool.eq_iff_iff, Fp.cmp_iff hv' hr', Fp.cmp_iff hv' hl',
      hiff, RoundingDecides, Fp.eq_iff hv' hr', Fp.eq_iff hl' hr', Fp.lt_iff hl' hr', Fp.lt_iff hr' hl']
    simp [hv', hl']

end Compare

/-! ## The two ways of a comparison -/

/-- The format of a floating-point column. -/
def columnFormat (type : DataType) : Format := if type = .float then binary32 else binary64

theorem mem_cellValue {type : DataType} (h : type = .float ∨ type = .double) (c : Bytes) :
    (columnFormat type).Mem (cellValue type c) := by
  rcases h with rfl | rfl
  · exact (Numeric.read c : Single).2
  · exact (Numeric.read c : Double).2

/-- The literals of a query are doubles already. -/
theorem boundLiteral_eq_convert {type : DataType} (h : type = .float ∨ type = .double)
    {value : PlanLiteralValue} (hvalue : isNumericLiteral value = true) :
    boundLiteral type value.toLiteral = (columnFormat type).convert (literalValue value.toLiteral) := by
  have hdouble : binary64.convert (literalValue value.toLiteral) = literalValue value.toLiteral := by
    cases value with
    | int32 v =>
      apply Double.val_ofInt
      have hlo := Int32.le_toInt v
      have hhi := Int32.toInt_lt v
      omega
    | double d => exact binary64.convert_of_mem d.2
    | string s => cases hvalue
  rcases h with rfl | rfl
  · rw [boundLiteral, hdouble]
    rfl
  · rfl

/-- The operator for the operands the other way round. -/
def PlanBinaryOp.mirror : PlanBinaryOp → PlanBinaryOp
  | .gt => .lt
  | .lt => .gt
  | .ge => .le
  | .le => .ge
  | op => op

theorem compareNumbers_swap (a b : Fp) :
    ExecValue.compareNumbers b a = -ExecValue.compareNumbers a b := by
  unfold ExecValue.compareNumbers
  by_cases hab : a.lt b = true
  · have hba : ¬ b.lt a = true := by
      simp only [Fp.lt, Bool.and_eq_true, decide_eq_true_eq] at hab ⊢
      exact fun h => lt_asymm hab.2 h.2
    rw [if_neg hba, if_pos hab, if_pos hab]
    rfl
  · rw [if_neg hab, if_neg hab]
    split_ifs <;> rfl

/-- Equality and the two strict comparisons are pushed. -/
theorem pushableOp?_eq_some {op : PlanBinaryOp} {cmp : CmpOp} (h : pushableOp? op = some cmp) :
    cmp = .eq ∨ cmp = .gt ∨ cmp = .lt := by
  unfold pushableOp? at h
  split at h
  · exact .inl (Option.some.inj h).symm
  · exact .inr (.inl (Option.some.inj h).symm)
  · exact .inr (.inr (Option.some.inj h).symm)
  · cases h

/-- The test of a comparison that can be pushed is the sign of the three-way comparison. -/
theorem evalOperator_eq_signHolds {op : PlanBinaryOp} {cmp : CmpOp} (hop : pushableOp? op = some cmp)
    {a b : ExecValue} {x y : Fp} (ha : a.asNumber = .ok x) (hb : b.asNumber = .ok y)
    (type : DataType) :
    evalOperator op a b type = .ok (.bool (signHolds cmp (ExecValue.compareNumbers x y))) := by
  have hcmp : op.toCmpOp? = some cmp := by
    cases op <;> first
      | exact hop
      | cases hop
  rw [evalOperator, hcmp]
  simp only [ExecValue.compare_of_asNumber ha hb]
  rfl

/-- With the operands the other way round the test is the same. -/
theorem evalOperator_mirror {op : PlanBinaryOp} {cmp : CmpOp} (hop : pushableOp? op = some cmp)
    {a b : ExecValue} {x y : Fp} (ha : a.asNumber = .ok x) (hb : b.asNumber = .ok y)
    (type : DataType) : evalOperator op.mirror b a type = evalOperator op a b type := by
  obtain ⟨cmp', hop', hsign⟩ : ∃ cmp', pushableOp? op.mirror = some cmp' ∧
      ∀ z, signHolds cmp' (-z) = signHolds cmp z := by
    cases op <;> first
      | exact ⟨_, rfl, fun z => by cases hop; simp [signHolds]⟩
      | cases hop
  rw [evalOperator_eq_signHolds hop' hb ha, evalOperator_eq_signHolds hop ha hb, compareNumbers_swap,
    hsign]

/-- A number is bound to a floating-point column. -/
theorem prepare_floating {schema : TableSchema} {columns : List ColumnId} (cond : Condition)
    (htype : schema.typeOf cond.column = .float ∨ schema.typeOf cond.column = .double)
    (hscanned : cond.column ∈ columns) (hvalue : cond.value.IsNumeric) :
    ∃ p, PreparedScanPredicates.prepare columns schema cond = .ok p := by
  obtain ⟨slot, hslot⟩ : ∃ slot, columns.findIdx? (fun id => id == cond.column) = some slot := by
    rw [← Option.isSome_iff_exists, List.findIdx?_isSome, List.any_eq_true]
    exact ⟨cond.column, hscanned, beq_self_eq_true _⟩
  unfold PreparedScanPredicates.prepare PreparedScanPredicates.bindFloatingPredicate
  rw [hslot, condValueAsDouble_of_isNumeric hvalue]
  rcases htype with htype | htype
  · exact ⟨_, by rw [htype]⟩
  · exact ⟨_, by rw [htype]⟩

/-- **When pushing a floating-point comparison keeps its result.** A comparison that the optimizer
pushes is bound without an exception. On a cell of the column the pushed predicate holds if and only if
the comparison is true as a filter expression, written either way round, exactly when the cell is not the
rounded literal with the rounding deciding, and NaN is not tested for equality. -/
theorem pushed_floating_comparison_iff {schema : TableSchema} {columns : List ColumnId}
    {op : PlanBinaryOp} {oid : TableId} {colIdx : ℕ} {value : PlanLiteralValue}
    {literalType returnType : DataType} {pushed : SimplePredicate}
    (htype : schema.typeOf colIdx = .float ∨ schema.typeOf colIdx = .double)
    (hscanned : colIdx ∈ columns)
    (hpushed : extractSimplePredicate (.binary op (.columnRef oid colIdx (schema.typeOf colIdx))
      (.literal value literalType) returnType) = some pushed) :
    ∃ p, PreparedScanPredicates.prepare columns schema pushed.toCondition = .ok p ∧
      ∀ (batch : VectorBatch) (slot row : ℕ) (column : ColumnData),
        batch.columns[slot]? = some column → column.type = schema.typeOf colIdx → row < column.count →
        let direct := ExecExpression.binary op (.columnRef slot column.type)
          (.literal (planLiteralToExec value) literalType) returnType
        let mirrored := ExecExpression.binary op.mirror (.literal (planLiteralToExec value) literalType)
          (.columnRef slot column.type) returnType
        let v := cellValue column.type (column.cellAt row)
        let l := literalValue value.toLiteral
        mirrored.eval batch row = direct.eval batch row ∧
        ((p.passes (column.cellAt row) = true ↔ direct.eval batch row = .ok (.bool true)) ↔
          (pushed.op = .eq → v ≠ .nan ∧ l ≠ .nan) ∧
            ¬ RoundingDecides pushed.op v l ((columnFormat column.type).convert l)) := by
  obtain ⟨op', oid', columnType, value', literalType', type', hexpr, hop, -, hvalue, hpvalue⟩ :=
    extractSimplePredicate_eq_some hpushed
  obtain ⟨rfl, ⟨rfl, rfl, rfl⟩, ⟨rfl, rfl⟩, rfl⟩ : op = op' ∧
      (oid = oid' ∧ colIdx = pushed.columnIndex ∧ schema.typeOf colIdx = columnType) ∧
      (value = value' ∧ literalType = literalType') ∧ returnType = type' := by
    simpa using hexpr
  have hnumeric : pushed.toCondition.value.IsNumeric := by
    rw [SimplePredicate.toCondition, hpvalue]
    cases value with
    | string s => cases hvalue
    | _ => trivial
  obtain ⟨p, hp⟩ := prepare_floating pushed.toCondition htype hscanned hnumeric
  refine ⟨p, hp, ?_⟩
  intro batch slot row column hslot hcolumn hrow direct mirrored v l
  have hprep := prepare_eq_ok hp
  have hfloating : column.type = .float ∨ column.type = .double := hcolumn ▸ htype
  have hnumber : column.type.IsNumeric := by
    rcases hfloating with h | h <;> simp [h, DataType.IsNumeric]
  obtain ⟨cell, hcell, hnumber⟩ := readExecValue_of_isNumeric hnumber hrow
  have hv : column.numberAt row = v := by
    rcases hfloating with h | h <;> simp only [v, ColumnData.numberAt, cellValue, h]
  rw [hv] at hnumber
  have hl := asNumber_planLiteralToExec hvalue
  have hread : (ExecExpression.columnRef slot column.type).eval batch row = .ok cell := by
    simp only [ExecExpression.eval, hslot, hcell]
  have hdirect : direct.eval batch row = evalOperator op cell (planLiteralToExec value) returnType :=
    eval_binary (by rintro rfl; cases hop) (by rintro rfl; cases hop) hread rfl
  have hmirror : op.mirror ≠ .and ∧ op.mirror ≠ .or := by
    cases op <;> first
      | decide
      | cases hop
  have hmirrored : mirrored.eval batch row =
      evalOperator op.mirror (planLiteralToExec value) cell returnType :=
    eval_binary hmirror.1 hmirror.2 rfl hread
  refine ⟨by rw [hdirect, hmirrored, evalOperator_mirror hop hnumber hl], ?_⟩
  have hpasses : p.passes (column.cellAt row) =
      Fp.cmp pushed.op v ((columnFormat column.type).convert l) := by
    rw [hprep.passes, hprep.type]
    simp only [SimplePredicate.toCondition, hpvalue, ← hcolumn]
    rw [boundLiteral_eq_convert hfloating hvalue]
  have hagree := cmp_convert_eq_signHolds_iff (l := l) (pushableOp?_eq_some hop)
    (mem_cellValue hfloating (column.cellAt row))
  rw [Bool.eq_iff_iff] at hagree
  rw [hdirect, evalOperator_eq_signHolds hop hnumber hl, hpasses, Except.ok.injEq,
    ExecValue.bool.injEq]
  exact hagree

/-! ### The literal `0.1` and a FLOAT column -/

/-- The double `0.1`. -/
def tenth : Double := ⟨binary64.decode 0x3fb999999999999a, binary64.mem_decode⟩

/-- One row of a FLOAT column, with the float nearest to `0.1`. -/
def tenthColumn : ColumnData := ⟨.float, leBytes 4 0x3dcccccd, 1⟩

/-- A table with one FLOAT column. -/
def tenthSchema : TableSchema := ⟨[⟨0, ascii ['f'], .float⟩], none, []⟩

/-- `f = 0.1` is pushed and selects the row, and is false for it as a filter expression. -/
theorem pushed_tenth_selects :
    extractSimplePredicate (.binary .eq (.columnRef 7 0 .float) (.literal (.double tenth) .double)
      .int32) = some ⟨0, .eq, .double tenth⟩ ∧
    (∃ p, PreparedScanPredicates.prepare [0] tenthSchema ⟨0, .eq, .double tenth⟩ = .ok p ∧
      p.passes (tenthColumn.cellAt 0) = true) ∧
    (ExecExpression.binary .eq (.columnRef 0 .float) (.literal (.double tenth) .double) .int32).eval
      ⟨[tenthColumn], 1, SelectionMask.setAll 1⟩ 0 = .ok (.bool false) :=
  ⟨rfl, ⟨_, rfl, by decide +kernel⟩, by decide +kernel⟩

/-- With the literal `1`, which is a float, both ways agree. -/
theorem pushed_floating_comparison_one :
    ∃ p, PreparedScanPredicates.prepare [0] tenthSchema ⟨0, .eq, .int32 1⟩ = .ok p ∧
      (p.passes (tenthColumn.cellAt 0) = true ↔
        (ExecExpression.binary .eq (.columnRef 0 .float) (.literal (.int32 1) .int32) .int32).eval
          ⟨[tenthColumn], 1, SelectionMask.setAll 1⟩ 0 = .ok (.bool true)) := by
  have htype : tenthSchema.typeOf 0 = .float ∨ tenthSchema.typeOf 0 = .double := .inl rfl
  have hpushed : extractSimplePredicate (.binary .eq (.columnRef 7 0 (tenthSchema.typeOf 0))
      (.literal (.int32 1) .int32) .int32) = some ⟨0, .eq, .int32 1⟩ := rfl
  obtain ⟨p, hp, hrun⟩ := pushed_floating_comparison_iff htype (List.mem_singleton_self 0) hpushed
  refine ⟨p, hp, (hrun ⟨[tenthColumn], 1, SelectionMask.setAll 1⟩ 0 0 tenthColumn rfl rfl
    (by decide)).2.mpr ?_⟩
  decide +kernel

end SimpleOlap
