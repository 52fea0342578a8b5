import SimpleOlap.Execution.PlanSlots

/-!
# Predicate pushdown keeps the rows

* `allHold`: a list of conjuncts on a row, from the left, to the first that is false.
* `allHold_flattenConjuncts`, `holds_buildConjunction`: flattening and rebuilding keep it.
* `holds_of_extractSimplePredicate`: a simple conjunct is the exact comparison.
* `runPlan_pushPredicate`: a plan and the plan after pushdown have the same rows.
-/

namespace SimpleOlap

open Lib

/-! ## Conjuncts -/

/-- The conjuncts hold, from the left; after the first that does not, the rest is not evaluated. -/
def allHold (column : ℕ → Except String ExecValue) : List PlanExpr → Except String Bool
  | [] => .ok true
  | e :: es => do if ← e.holds column then allHold column es else return false

section

variable {column : ℕ → Except String ExecValue}

/-- A conjunction holds where both sides do. -/
theorem holds_and (left right : PlanExpr) (type : DataType) :
    (PlanExpr.binary .and left right type).holds column = do
      if ← left.holds column then right.holds column else return false := by
  simp only [PlanExpr.holds, PlanExpr.value]
  cases left.value column with
  | error e => rfl
  | ok a =>
    simp only [bind, Except.bind]
    rcases a.asBool with e | _ | _
    · rfl
    · rfl
    · have hright := ExecExpression.asBool_bool (do (← right.value column).asBool)
      simp only [bind, Except.bind] at hright
      cases hr : right.value column with
      | error e => rfl
      | ok b => simpa only [hr, if_true, Bool.false_eq_true, if_false] using hright

/-- Conjuncts behind others. -/
theorem allHold_append (es fs : List PlanExpr) :
    allHold column (es ++ fs) = do
      if ← allHold column es then allHold column fs else return false := by
  induction es with
  | nil => rfl
  | cons e es ih =>
    rw [List.cons_append, allHold, allHold, ih]
    rcases e.holds column with err | _ | _ <;> rfl

/-- A single conjunct. -/
theorem allHold_singleton (e : PlanExpr) : allHold column [e] = e.holds column := by
  rw [allHold, allHold]
  rcases e.holds column with err | _ | _ <;> rfl

/-- **The flattened conjuncts are the expression.** -/
theorem allHold_flattenConjuncts (e : PlanExpr) :
    allHold column (flattenConjuncts e) = e.holds column := by
  induction e using flattenConjuncts.induct with
  | case1 left right type ihl ihr => rw [flattenConjuncts, allHold_append, ihl, ihr, holds_and]
  | case2 e hne => rw [flattenConjuncts.eq_2 e hne, allHold_singleton]

/-- **The rebuilt conjunction is the list of its conjuncts.** -/
theorem holds_buildConjunction {es : List PlanExpr} {rest : PlanExpr}
    (h : buildConjunction es = some rest) : rest.holds column = allHold column es := by
  rcases es with _ | ⟨e, es⟩
  · cases h
  · cases h
    induction es generalizing e with
    | nil => rw [List.foldl_nil, allHold_singleton]
    | cons e' es ih =>
      rw [List.foldl_cons, ih, allHold, holds_and, allHold, allHold]
      rcases e.holds column with err | _ | _ <;> rfl

/-- Some of the conjuncts hold or fail as `exact` says: where all of those hold, the rest decides, and
where one fails, the whole does. -/
theorem allHold_residual {exact : SimplePredicate → Bool} {es : List PlanExpr}
    (hexact : ∀ e ∈ es, ∀ p, extractSimplePredicate e = some p → e.holds column = .ok (exact p))
    {b : Bool} (h : allHold column es = .ok b) :
    ((es.filterMap extractSimplePredicate).all exact = true →
      allHold column (es.filter isResidual) = .ok b) ∧
    ((es.filterMap extractSimplePredicate).all exact = false → b = false) := by
  induction es generalizing b with
  | nil => exact ⟨fun _ => h, by simp⟩
  | cons e es ih =>
    have hrest := fun {b} => ih (fun e' he' => hexact e' (List.mem_cons_of_mem e he')) (b := b)
    obtain ⟨holds, hholds, h⟩ := bind_eq_ok h
    rcases hextract : extractSimplePredicate e with _ | p
    · have hnone : isResidual e = true := by rw [isResidual, hextract]; rfl
      rw [List.filterMap_cons_none hextract, List.filter_cons_of_pos hnone, allHold, hholds]
      cases holds with
      | true => exact hrest h
      | false =>
        cases h
        exact ⟨fun _ => rfl, fun _ => rfl⟩
    · have hsome : ¬ isResidual e = true := by simp [isResidual, hextract]
      rw [List.filterMap_cons_some hextract, List.filter_cons_of_neg hsome, List.all_cons]
      have hp := hexact e List.mem_cons_self p hextract
      obtain rfl : holds = exact p := Except.ok.inj (hholds.symm.trans hp)
      cases hpb : exact p with
      | true =>
        rw [hpb] at h
        exact hrest h
      | false =>
        rw [hpb] at h
        cases h
        exact ⟨by simp, fun _ => rfl⟩

end

/-! ## Simple predicates -/

/-- The column at a position is that of the id. -/
theorem findColumnSchema_of_lt {schema : TableSchema} (hids : schema.IdsArePositions) {i : ℕ}
    (h : i < schema.columns.length) : findColumnSchema schema i = some schema.columns[i] := by
  refine List.find?_eq_some_iff_getElem.mpr ⟨by simp [hids i h], i, h, rfl, fun j hj => ?_⟩
  simpa [hids j (hj.trans h)] using hj.ne

section

variable {t : TableContent} {e : PlanExpr} {p : SimplePredicate}

/-- The binder knows the types of the table. -/
theorem columnType_boundTable (hids : t.schema.IdsArePositions) {i : ℕ}
    (h : i < t.schema.columns.length) : t.boundTable.columnType i = t.schema.typeOf i := by
  rw [TableSchema.typeOf, findColumnSchema_of_lt hids h, BoundTable.columnType,
    TableContent.boundTable, List.getElem?_eq_getElem h]

/-- A numeric literal is a number. -/
theorem asNumber_planLiteralToExec {value : PlanLiteralValue} (h : isNumericLiteral value = true) :
    (planLiteralToExec value).asNumber = .ok (literalValue value.toLiteral) := by
  cases value with
  | int32 v => rfl
  | double v => rfl
  | string v => cases h

/-- A literal that is not NaN. -/
theorem literalValue_ne_nan {value : PlanLiteralValue} (h : isNumericLiteral value = true)
    (hno : ¬ value.IsNan) : literalValue value.toLiteral ≠ .nan := by
  cases value with
  | int32 v => exact Fp.ofInt_ne_nan v.toInt
  | double v => exact hno
  | string v => cases h

/-- The test for numeric types. -/
theorem isNumeric_of_isNumericType {type : DataType} (h : isNumericType type = true) :
    type.IsNumeric := by
  cases type with
  | invalid => cases h
  | varchar => cases h
  | int32 => exact .inl rfl
  | int64 => exact .inr (.inl rfl)
  | float => exact .inr (.inr (.inl rfl))
  | double => exact .inr (.inr (.inr rfl))

/-- What a simple predicate was extracted from. -/
theorem extractSimplePredicate_eq_some (h : extractSimplePredicate e = some p) :
    ∃ op oid columnType value literalType type,
      e = .binary op (.columnRef oid p.columnIndex columnType) (.literal value literalType) type ∧
      pushableOp? op = some p.op ∧ isNumericType columnType = true ∧ isNumericLiteral value = true ∧
      p.value = value := by
  unfold extractSimplePredicate at h
  split at h
  · rename_i op oid colIdx columnType value literalType type
    split at h
    · cases h
    · rename_i cmp hcmp
      split_ifs at h with htype hvalue
      cases h
      exact ⟨op, oid, columnType, value, literalType, type, rfl, hcmp, by simpa using htype,
        by simpa using hvalue, rfl⟩
  · cases h

/-- A comparison that can be pushed, on numbers. -/
theorem evalOperator_of_pushableOp {op : PlanBinaryOp} {cmp : CmpOp} (hop : pushableOp? op = some cmp)
    {a b : ExecValue} {x y : Fp} (ha : a.asNumber = .ok x) (hb : b.asNumber = .ok y) (hx : x ≠ .nan)
    (hy : y ≠ .nan) (type : DataType) : evalOperator op a b type = .ok (.bool (Fp.cmp cmp x y)) := by
  have hcmp : op.toCmpOp? = some cmp := by cases op <;> first | cases hop; done | exact hop
  rw [evalOperator, hcmp]
  simp only [ExecValue.compare_of_asNumber ha hb, ← signHolds_compareNumbers cmp hx hy]
  rfl

/-- **A simple conjunct is the exact comparison of its column with its literal.** -/
theorem holds_of_extractSimplePredicate (hids : t.schema.IdsArePositions) (hof : e.OfTable t.boundTable)
    (hnoNan : e.NoNan) (hextract : extractSimplePredicate e = some p) {row : Row}
    (hrow : ∀ columnId, (t.columnData row columnId).numberAt 0 ≠ .nan) :
    e.holds (t.column row) = .ok (t.holdsExactly row p.toCondition) := by
  obtain ⟨op, oid, columnType, value, literalType, type, rfl, hop, htype, hvalue, hpvalue⟩ :=
    extractSimplePredicate_eq_some hextract
  obtain ⟨⟨-, hlt, hcolumn⟩, -⟩ := hof
  have hnum : (t.columnData row p.columnIndex).type.IsNumeric := by
    rw [hcolumn, columnType_boundTable hids hlt] at htype
    exact isNumeric_of_isNumericType htype
  have hzero : 0 < (t.columnData row p.columnIndex).count := Nat.one_pos
  obtain ⟨cellValue, hcell, hnumber⟩ := readExecValue_of_isNumeric hnum hzero
  have heval := evalOperator_of_pushableOp hop hnumber (asNumber_planLiteralToExec hvalue)
    (hrow p.columnIndex) (literalValue_ne_nan hvalue hnoNan.2) type
  have hbinary : (PlanExpr.binary op (.columnRef oid p.columnIndex columnType)
      (.literal value literalType) type).value (t.column row) =
        evalOperator op cellValue (planLiteralToExec value) type := by
    rw [PlanExpr.value.eq_5 (t.column row) op _ _ type (by rintro rfl; cases hop)
      (by rintro rfl; cases hop)]
    simp only [PlanExpr.value, TableContent.column, hcell]
    rfl
  rw [PlanExpr.holds, hbinary, heval, TableContent.holdsExactly, SimplePredicate.toCondition, hpvalue]
  rfl

end

/-! ## What flattening and rebuilding keep -/

section

variable {P : PlanExpr → Prop}

/-- What holds of a conjunction holds of its conjuncts. -/
theorem forall_flattenConjuncts
    (hand : ∀ left right type, P (.binary .and left right type) → P left ∧ P right) {e : PlanExpr}
    (h : P e) : ∀ c ∈ flattenConjuncts e, P c := by
  induction e using flattenConjuncts.induct with
  | case1 left right type ihl ihr =>
    obtain ⟨hl, hr⟩ := hand left right type h
    intro c hc
    rw [flattenConjuncts] at hc
    rcases List.mem_append.mp hc with hc | hc
    · exact ihl hl c hc
    · exact ihr hr c hc
  | case2 e hne =>
    intro c hc
    rw [flattenConjuncts.eq_2 e hne] at hc
    rwa [List.mem_singleton.mp hc]

/-- What holds of conjuncts holds of their conjunction. -/
theorem of_buildConjunction (hand : ∀ left right, P left → P right → P (.binary .and left right .int32))
    {es : List PlanExpr} (h : ∀ e ∈ es, P e) {rest : PlanExpr} (hrest : buildConjunction es = some rest) :
    P rest := by
  rcases es with _ | ⟨e, es⟩
  · cases hrest
  · cases hrest
    induction es generalizing e with
    | nil => exact h e List.mem_cons_self
    | cons e' es ih =>
      apply ih
      intro c hc
      rcases List.mem_cons.mp hc with rfl | hc
      · exact hand e e' (h e List.mem_cons_self) (h e' (by simp))
      · exact h c (by simp [hc])

end

/-! ## Plans -/

/-- The expression can be compiled. -/
def PlanExpr.Compiles (schema : ExecSchema) (expr : PlanExpr) : Prop :=
  ∃ compiled, compileExecExpr schema expr = .ok compiled

/-- A conjunction is compiled where both sides are. -/
theorem compiles_and_iff {schema : ExecSchema} {left right : PlanExpr} {type : DataType} :
    (PlanExpr.binary .and left right type).Compiles schema ↔
      left.Compiles schema ∧ right.Compiles schema := by
  constructor
  · rintro ⟨compiled, h⟩
    obtain ⟨l, hl, h⟩ := bind_eq_ok h
    obtain ⟨r, hr, -⟩ := bind_eq_ok h
    exact ⟨⟨l, hl⟩, ⟨r, hr⟩⟩
  · rintro ⟨⟨l, hl⟩, ⟨r, hr⟩⟩
    exact ⟨.binary .and l r type, by rw [compileExecExpr, hl, hr]; rfl⟩

section

variable {t : TableContent} {schema : ExecSchema} {rows : List Row} {plan child : LogicalPlan}
  {predicate : PlanExpr} {unset : List ℕ}

/-- Only rows of the table are read. -/
theorem subset_sourceRows (h : sourceRows t unset plan = .ok (schema, rows)) : rows ⊆ t.rows := by
  induction plan generalizing rows with
  | scan tableOid required pushed =>
    obtain ⟨spec, -, h⟩ := bind_eq_ok h
    cases h
    exact List.filter_sublist.subset
  | filter predicate child ih =>
    obtain ⟨⟨schema', rows'⟩, hchild, h⟩ := bind_eq_ok h
    obtain ⟨compiled, -, h⟩ := bind_eq_ok h
    obtain ⟨kept, hkept, h⟩ := bind_eq_ok h
    cases h
    obtain ⟨keep, -, rfl⟩ := keepM_eq_ok_iff.mp hkept
    exact fun row hrow => ih hchild (List.filter_sublist.subset hrow)
  | project outputs child ih => cases h
  | aggregate groupBy outputs child ih => cases h
  | insert tableOid targetColumns rows' => cases h
  | createTable tableName tableSchema => cases h

/-- More pushed predicates filter the rows of the scan. -/
theorem sourceRows_scan_append {tableOid : TableId} {required : List ℕ} {pushed : List SimplePredicate}
    (h : sourceRows t unset (.scan tableOid required pushed) = .ok (schema, rows))
    (more : List SimplePredicate) :
    sourceRows t unset (.scan tableOid required (pushed ++ more)) =
      .ok (schema, rows.filter fun row => more.all fun p => t.holdsExactly row p.toCondition) := by
  obtain ⟨spec, hspec, h⟩ := bind_eq_ok h
  cases h
  obtain ⟨rfl, hpredicates, scanned, hscanned, hschema⟩ := buildScanSpec_eq_ok hspec
  have hspec' : buildScanSpec (t.entry t.tableOid) t.tableOid (if required = [] then unset else required)
      (pushed ++ more) = .ok ⟨t.tableOid, ⟨scanned, (pushed ++ more).map SimplePredicate.toCondition⟩,
        spec.outputSchema⟩ := by
    rw [TableContent.entry, if_pos rfl, buildScanSpec, hscanned]
    simp only [bind, Except.bind, hschema]
    rfl
  rw [sourceRows]
  simp only [bind, Except.bind, hspec', hpredicates, List.map_append, List.all_append, List.filter_filter,
    List.all_map]
  congr 3
  funext row
  rw [Bool.and_comm]
  rfl

/-- A conjunct of a filter over the table, on a row of the table. -/
theorem allHold_pushed (hids : t.schema.IdsArePositions) (hnoNan : t.NoNan)
    (hof : predicate.OfTable t.boundTable) (hno : predicate.NoNan) {row : Row} (hrow : row ∈ t.rows)
    {b : Bool} (h : predicate.holds (t.column row) = .ok b) :
    ((((flattenConjuncts predicate).filterMap extractSimplePredicate).all fun p =>
        t.holdsExactly row p.toCondition) = true →
      allHold (t.column row) ((flattenConjuncts predicate).filter isResidual) = .ok b) ∧
    ((((flattenConjuncts predicate).filterMap extractSimplePredicate).all fun p =>
        t.holdsExactly row p.toCondition) = false → b = false) := by
  rw [← allHold_flattenConjuncts] at h
  refine allHold_residual (fun e he p hp => ?_) h
  have hofe := forall_flattenConjuncts (P := fun e => e.OfTable t.boundTable) (fun _ _ _ h => h) hof e he
  have hnoe := forall_flattenConjuncts (P := PlanExpr.NoNan) (fun _ _ _ h => h) hno e he
  exact holds_of_extractSimplePredicate hids hofe hnoe hp (hnoNan row hrow)

/-- **A filter and what pushdown makes of it have the same rows.** -/
theorem sourceRows_pushFilter (hids : t.schema.IdsArePositions) (hnoNan : t.NoNan)
    (hof : (LogicalPlan.filter predicate child).OfTable t.boundTable)
    (h : sourceRows t unset (.filter predicate child) = .ok (schema, rows)) (changed : Bool) :
    sourceRows t unset (pushFilter predicate child changed).1 = .ok (schema, rows) := by
  unfold pushFilter
  split
  · rename_i tableOid required pushed
    dsimp only
    split_ifs
    · exact h
    · obtain ⟨⟨schema₀, rows₀⟩, hchild, h⟩ := bind_eq_ok h
      obtain ⟨compiled, hcompiled, h⟩ := bind_eq_ok h
      obtain ⟨kept, hkept, h⟩ := bind_eq_ok h
      cases h
      have hshows := shows_sourceRows hchild
      have hscan := sourceRows_scan_append hchild
        ((flattenConjuncts predicate).filterMap extractSimplePredicate)
      have hrows : ∀ row ∈ rows₀, ∀ b, compiled.rowHolds (t.rowBatch schema row) 0 = .ok b → _ :=
        fun row hrow b hb => allHold_pushed hids hnoNan hof.1.1 hof.1.2 (subset_sourceRows hchild hrow)
          (by rwa [compileExecExpr_rowHolds hshows hcompiled] at hb)
      have hkept' := keepM_filter hkept hrows
      split
      · -- nothing is left of the filter
        rename_i hnone
        have hnil : (flattenConjuncts predicate).filter isResidual = [] := by
          rcases hres : (flattenConjuncts predicate).filter isResidual with _ | ⟨e, es⟩
          · rfl
          · rw [hres] at hnone
            cases hnone
        simp only [hnil, allHold, keepM_true] at hkept'
        rw [hscan, Except.ok.inj hkept']
      · rename_i rest hrest
        have hcompiles := forall_flattenConjuncts (fun left right type => compiles_and_iff.mp)
          ⟨compiled, hcompiled⟩
        obtain ⟨compiled', hcompiled'⟩ := of_buildConjunction
          (fun left right hl hr => compiles_and_iff.mpr ⟨hl, hr⟩)
          (fun e he => hcompiles e (List.mem_filter.mp he).1) hrest
        have htest : (fun row => compiled'.rowHolds (t.rowBatch schema row) 0) =
            fun row => allHold (t.column row) ((flattenConjuncts predicate).filter isResidual) := by
          funext row
          rw [compileExecExpr_rowHolds hshows hcompiled', holds_buildConjunction hrest]
        dsimp only
        rw [sourceRows, hscan]
        simp only [bind, Except.bind, hcompiled', htest, hkept']
        rfl
  · exact h

end

end SimpleOlap
