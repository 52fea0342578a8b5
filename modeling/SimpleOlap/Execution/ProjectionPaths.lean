import SimpleOlap.Execution.Aggregate.BatchSummary
import SimpleOlap.Execution.Projection

/-!
# The paths of a projection

* `projectedRows`, `outputRows`: the expressions evaluated on the active rows of a batch, and the active rows
  of what a path makes.
* `EvaluatesRowwise`: the evaluation on whole columns has, in each row, the value of the row's evaluation.
* `buildDirectOutputMap`: the map of gathered columns, which is filled anew over the one of the batch before.
* `projection_paths_agree`: the three paths make the same rows, those of the expressions.

Source: `projection.cpp`. An element of a column that is shorter than its count says would be read beyond the
buffer; `VectorBatch.Filled` leaves such columns out.
-/

namespace SimpleOlap

open Lib

/-! ## Rows of values -/

/-- The value of an output expression in a row: a column as it is, the value of another expression as a column
of its type holds it. -/
def ExecExpression.projected (input : VectorBatch) (row : ℕ) (expr : ExecExpression) : Except String ExecValue :=
  match expr with
  | .columnRef _ _ => expr.eval input row
  | _ => do writeExecValue expr.returnType (← expr.eval input row)

/-- The expressions evaluated on the active rows, in order. -/
def projectedRows (expressions : List ExecExpression) (input : VectorBatch) :
    Except String (List (List ExecValue)) :=
  input.activeIndices.mapM fun row => expressions.mapM (ExecExpression.projected input row)

/-- The active rows, in order. -/
def VectorBatch.activeValues (b : VectorBatch) : Except String (List (List ExecValue)) :=
  b.activeIndices.mapM fun row => b.columns.mapM fun column => readExecValue column row

/-- The active rows of an output, unless an exception is thrown. -/
def outputRows (result : Except String VectorBatch) : Option (List (List ExecValue)) :=
  (result >>= VectorBatch.activeValues).toOption

/-- The buffers hold the elements that the columns count. -/
def VectorBatch.Filled (b : VectorBatch) : Prop :=
  ∀ column ∈ b.columns, column.count * typeElemSize column.type ≤ column.buffer.length

/-- The columns at some slots have, from the front, the elements of the active rows of another batch. -/
def VectorBatch.Gathers (b input : VectorBatch) (slots : List ℕ) : Prop :=
  ∀ slot ∈ slots, ∃ src column, input.columns[slot]? = some src ∧ b.columns[slot]? = some column ∧
    column.type = src.type ∧
    ∀ i row, input.activeIndices[i]? = some row → i < column.count ∧ column.cellAt i = src.cellAt row

/-- On the active rows of the input, the evaluation on whole columns has the values of the scalar evaluation. -/
def EvaluatesRowwise (backend : Backend) (input : VectorBatch) (expr : ExecExpression)
    (e : ArithmeticVectorExpression) : Prop :=
  ∀ b : VectorBatch, b.Gathers input e.inputSlots → ∃ out,
    e.evaluateDense backend b (ColumnData.resized e.type input.size) input.size = .ok out ∧
      ∀ i < input.size, readExecValue out i = expr.projected b i

/-- An expression throws on an active row. -/
def ThrowsOn (input : VectorBatch) (expr : ExecExpression) : Prop :=
  ∃ row ∈ input.activeIndices, ∃ e, expr.projected input row = .error e

/-- A column has the values of an expression, row by row. -/
def ColumnData.Projects (column : ColumnData) (input : VectorBatch) (rows : List ℕ) (expr : ExecExpression) :
    Prop :=
  ∀ i row, (i, row) ∈ rows.zip input.activeIndices → readExecValue column i = expr.projected input row

section

variable {backend : Backend} {input output : VectorBatch} {expressions : List ExecExpression}

/-- An expression that throws lets the evaluation fail. -/
theorem toOption_projectedRows_of_throwsOn (h : ∃ expr ∈ expressions, ThrowsOn input expr) :
    (projectedRows expressions input).toOption = none := by
  obtain ⟨expr, hexpr, row, hrow, e, he⟩ := h
  rcases hrows : projectedRows expressions input with e' | rows
  · rfl
  · obtain ⟨values, -, hvalues⟩ := exists_of_mem_mapM hrows hrow
    obtain ⟨value, -, hvalue⟩ := exists_of_mem_mapM hvalues hexpr
    simp [he] at hvalue

/-- **Columns with the values of the expressions** make the rows of the expressions. -/
theorem activeValues_eq (hlength : output.activeIndices.length = input.activeIndices.length)
    (h : List.Forall₂ (fun expr column => ColumnData.Projects column input output.activeIndices expr) expressions
      output.columns) : output.activeValues = projectedRows expressions input := by
  refine mapM_congr (List.forall₂_iff_zip.mpr ⟨hlength, fun {i row} hmem => ?_⟩)
  exact mapM_congr (h.imp fun expr column hproject => hproject i row hmem).flip

/-! ## Rows of a batch -/

/-- The active rows are the set bits. -/
theorem VectorBatch.activeIndices_eq_setBits (h : input.Strong) : input.activeIndices = input.selection.setBits := by
  unfold VectorBatch.activeIndices
  split_ifs with hall
  · rw [h.size_of_isAll hall, SelectionMask.setBits_eq h.selection, List.filter_eq_self.mpr]
    intro row hrow
    exact (SelectionMask.isAll_iff _).mp hall row (List.mem_range.mp hrow)
  · rfl

/-- All rows are active. -/
theorem VectorBatch.activeIndices_setIdentitySelection (b : VectorBatch) (n : ℕ) :
    (b.setIdentitySelection n).activeIndices = List.range n := by
  have hall : (SelectionMask.setAll n).isAll = true := by
    rw [SelectionMask.isAll_iff]
    intro row hrow
    rw [SelectionMask.bit_setAll]
    exact decide_eq_true (by simpa using hrow)
  rw [VectorBatch.activeIndices, VectorBatch.setIdentitySelection, if_pos hall]

/-- The rows of a sparse batch, and those of the dense one made out of it. -/
theorem VectorBatch.getElem?_of_mem_zip {i row : ℕ} (h : (i, row) ∈ (List.range input.size).zip input.activeIndices) :
    i < input.size ∧ input.activeIndices[i]? = some row := by
  obtain ⟨j, hj, heq⟩ := List.getElem_of_mem h
  rw [List.length_zip, List.length_range, lt_min_iff] at hj
  rw [List.getElem_zip, List.getElem_range] at heq
  obtain ⟨rfl, rfl⟩ := Prod.mk.inj heq
  exact ⟨hj.1, List.getElem?_eq_getElem hj.2⟩

/-! ## Columns -/

/-- A written value is read back. -/
theorem readExecValue_of_write {type : DataType} {v value : ExecValue} (h : writeExecValue type v = .ok value) :
    value.cell.length = typeElemSize type ∧ ∀ (column : ColumnData) (row : ℕ), column.type = type →
      row < column.count → column.cellAt row = value.cell → readExecValue column row = .ok value := by
  cases type with
  | int32 | int64 | float | double =>
    obtain ⟨number, -, h⟩ := bind_eq_ok h
    cases h
    refine ⟨ArithmeticElement.length_write _, fun column row htype hrow hcell => ?_⟩
    rw [readExecValue, if_neg (Nat.not_le.mpr hrow), htype, hcell]
    simp only [ExecValue.cell, ArithmeticElement.read_write]
  | varchar =>
    cases v with
    | string text =>
      rw [writeExecValue] at h
      split_ifs at h with hlong
      cases h
      have hslot : ∃ slot, writeVarcharSlot text = some slot := ⟨_, if_neg hlong⟩
      obtain ⟨slot, hslot⟩ := hslot
      have hcell : (ExecValue.string text).cell = slot := by rw [ExecValue.cell, hslot]; rfl
      obtain ⟨hread, hlength⟩ := readVarcharSlot_writeVarcharSlot hslot
      refine ⟨by rw [hcell, hlength]; rfl, fun column row htype hrow hcell' => ?_⟩
      rw [readExecValue, if_neg (Nat.not_le.mpr hrow), htype, hcell', hcell]
      simp only [hread]
    | int32 | int64 | float | double | bool => cases h
  | invalid => cases h

/-- The values of an expression that is not a column, written one after the other. -/
theorem projects_fillScalar {expr : ExecExpression} {rows : List ℕ} {column out : ColumnData}
    (hexpr : ∀ slot type, expr ≠ .columnRef slot type) (htype : column.type = expr.returnType)
    (hcount : rows.length ≤ column.count) (h : fillScalar expr input rows column = .ok out) (i row : ℕ)
    (hrow : rows[i]? = some row) : readExecValue out i = expr.projected input row := by
  have hprojected : ∀ row, expr.projected input row =
      (do writeExecValue expr.returnType (← expr.eval input row)) := by
    intro row
    cases expr with
    | columnRef slot type => exact absurd rfl (hexpr slot type)
    | literal | binary => rfl
  obtain ⟨cells, hcells, h⟩ := bind_eq_ok h
  cases h
  obtain ⟨hlt, rfl⟩ := List.getElem?_eq_some_iff.mp hrow
  have hall := forall₂_of_mapM hcells
  have hvalues : ∀ cell ∈ cells, cell.length = typeElemSize expr.returnType := by
    intro cell hcell
    obtain ⟨row, -, hstep⟩ := exists_of_mem_right hall hcell
    obtain ⟨value, -, hstep⟩ := bind_eq_ok hstep
    obtain ⟨written, hwritten, hstep⟩ := bind_eq_ok hstep
    cases hstep
    exact (readExecValue_of_write (htype ▸ hwritten)).1
  have hlt' : i < cells.length := hall.length_eq ▸ hlt
  have hstep := hall.get hlt hlt'
  obtain ⟨value, hvalue, hstep⟩ := bind_eq_ok hstep
  obtain ⟨written, hwritten, hstep⟩ := bind_eq_ok hstep
  rw [htype] at hwritten
  have hcell : written.cell = cells[i] := Except.ok.inj hstep
  have hvalue' : expr.eval input rows[i] = .ok value := hvalue
  rw [hprojected, hvalue']
  refine Eq.trans ?_ hwritten.symm
  refine (readExecValue_of_write hwritten).2 _ i htype (lt_of_lt_of_le hlt hcount) ?_
  rw [hcell, ColumnData.cellAt, htype, ← List.flatMap_id]
  exact cell_flatMap id cells hvalues hlt'

/-- A column with the elements of another in other rows is read as it. -/
theorem readExecValue_congr {src column : ColumnData} {i row : ℕ} (htype : column.type = src.type)
    (hi : i < column.count) (hrow : row < src.count) (hcell : column.cellAt i = src.cellAt row) :
    readExecValue column i = readExecValue src row := by
  rw [readExecValue, readExecValue, if_neg (Nat.not_le.mpr hi), if_neg (Nat.not_le.mpr hrow), htype, hcell]

/-- **A gathered column has the elements of the active rows.** -/
theorem cellAt_gatherColumnDense (hinput : input.Strong) (hfilled : input.Filled) {src out : ColumnData} {count : ℕ}
    (hsrc : src ∈ input.columns) (h : gatherColumnDense src input.selection count = .ok out) :
    out = ⟨src.type, input.selection.setBits.flatMap src.cellAt, count⟩ ∧
      ∀ i row, input.activeIndices[i]? = some row → out.cellAt i = src.cellAt row := by
  have hout : out = ⟨src.type, input.selection.setBits.flatMap src.cellAt, count⟩ := by
    unfold gatherColumnDense at h
    split at h
    · cases h
    · exact (Except.ok.inj h).symm
  refine ⟨hout, fun i row hrow => ?_⟩
  rw [VectorBatch.activeIndices_eq_setBits hinput] at hrow
  obtain ⟨hlt, rfl⟩ := List.getElem?_eq_some_iff.mp hrow
  have hwidths : ∀ row ∈ input.selection.setBits, (src.cellAt row).length = typeElemSize src.type := by
    intro row hrow
    rw [SelectionMask.setBits_eq hinput.selection] at hrow
    have hbound : row < src.count :=
      hinput.counts src hsrc ▸ List.mem_range.mp (List.mem_of_mem_filter hrow)
    exact length_cell (le_trans (Nat.mul_le_mul_right _ hbound) (hfilled src hsrc))
  rw [hout]
  exact cell_flatMap src.cellAt _ hwidths hlt

/-- Only columns without a type cannot be gathered; they cannot be read either. -/
theorem readExecValue_of_gather_error {src : ColumnData} {count : ℕ} {e : String}
    (h : gatherColumnDense src input.selection count = .error e) (row : ℕ) :
    ∃ e', readExecValue src row = .error e' := by
  have htype : src.type = .invalid := by
    unfold gatherColumnDense at h
    split at h
    · assumption
    · cases h
  rw [readExecValue, htype]
  split_ifs <;> exact ⟨_, rfl⟩

/-! ## Expressions on whole columns -/

/-- A slot plan for whole columns is that of a sum or difference. -/
theorem projectionSlotPlan_eq_vectorExpression {expr : ExecExpression} {e : ArithmeticVectorExpression}
    (h : projectionSlotPlan expr = .vectorExpression e) :
    ∃ left right, expr = .binary e.op.toPlan left right e.type ∧ classifyOperand left e.type = some e.lhs ∧
      classifyOperand right e.type = some e.rhs ∧ ¬ (e.lhs.kind = .constant ∧ e.rhs.kind = .constant) := by
  cases expr with
  | columnRef slot type => cases h
  | literal value type => cases h
  | binary op left right type =>
    have hcompile : tryCompileVectorExpression (.binary op left right type) = some e := by
      unfold projectionSlotPlan at h
      dsimp only at h
      split at h
      · next hsome =>
        cases h
        exact hsome
      · cases h
    obtain ⟨rfl, rfl, hlhs, hrhs, hkinds⟩ :=
      ArithmeticVectorExpression.tryCompileVectorExpression_eq_some hcompile
    exact ⟨left, right, rfl, hlhs, hrhs, hkinds⟩

/-- An operand is a column or a literal. -/
theorem classifyOperand_cases {expr : ExecExpression} {type : DataType} {operand : ArithmeticOperand}
    (h : classifyOperand expr type = some operand) :
    (operand.kind = .column ∧ expr = .columnRef operand.columnSlot type) ∨
      operand.kind = .constant ∧ ∃ value type', expr = .literal value type' := by
  cases expr with
  | columnRef slot type' =>
    unfold classifyOperand at h
    dsimp only at h
    split_ifs at h with htype
    obtain rfl := Option.some.inj h
    exact .inl ⟨rfl, by rw [not_not.mp htype]⟩
  | literal value type' =>
    obtain ⟨constant, -, h⟩ := Option.bind_eq_some_iff.mp h
    obtain rfl := Option.some.inj h
    exact .inr ⟨rfl, value, type', rfl⟩
  | binary => cases h

section

variable {expr : ExecExpression} {e : ArithmeticVectorExpression} {b : VectorBatch}

/-- An operation, row by row. -/
theorem eval_toPlan (op : ArithmeticOp) (left right : ExecExpression) (type : DataType) (row : ℕ) :
    (ExecExpression.binary op.toPlan left right type).eval b row =
      (do let lhs ← left.eval b row
          let rhs ← right.eval b row
          evalOperator op.toPlan lhs rhs type) := by
  cases op <;> rfl

/-- An operand has in a gathered batch the values that it has in the active rows. -/
theorem eval_operand_of_gathers (hinput : input.Deliverable) {operand : ArithmeticOperand} {type : DataType}
    (hclassify : classifyOperand expr type = some operand) {slots : List ℕ} (hb : b.Gathers input slots)
    (hslot : operand.kind = .column → operand.columnSlot ∈ slots) {i row : ℕ}
    (hrow : input.activeIndices[i]? = some row) : expr.eval b i = expr.eval input row := by
  rcases classifyOperand_cases hclassify with ⟨hkind, rfl⟩ | ⟨-, value, type', rfl⟩
  · obtain ⟨src, column, hsrc, hcolumn, htype, hcells⟩ := hb _ (hslot hkind)
    obtain ⟨hi, hcell⟩ := hcells i row hrow
    have hlt := hinput.lt_count (List.mem_of_getElem? hrow) (List.mem_of_getElem? hsrc)
    simp only [ExecExpression.eval, hsrc, hcolumn]
    exact readExecValue_congr htype hi hlt hcell
  · rfl

/-- **A gathered batch is as good as the active rows** for the expression that it was gathered for. -/
theorem projected_of_gathers (hinput : input.Deliverable) (hplan : projectionSlotPlan expr = .vectorExpression e)
    (hb : b.Gathers input e.inputSlots) {i row : ℕ} (hrow : input.activeIndices[i]? = some row) :
    expr.projected b i = expr.projected input row := by
  obtain ⟨left, right, rfl, hlhs, hrhs, -⟩ := projectionSlotPlan_eq_vectorExpression hplan
  have hleft := eval_operand_of_gathers hinput hlhs hb (fun h => by simp [ArithmeticVectorExpression.inputSlots, h])
    hrow
  have hright := eval_operand_of_gathers hinput hrhs hb (fun h => by simp [ArithmeticVectorExpression.inputSlots, h])
    hrow
  show (do writeExecValue _ (← _)) = (do writeExecValue _ (← _))
  rw [eval_toPlan, eval_toPlan, hleft, hright]

/-- The expression throws where one of its columns cannot be read. -/
theorem throwsOn_of_slot (hpos : input.activeIndices ≠ []) (hplan : projectionSlotPlan expr = .vectorExpression e)
    {slot : ℕ} (hslot : slot ∈ e.inputSlots)
    (hthrows : ∀ row, ∃ e', (ExecExpression.columnRef slot e.type).eval input row = .error e') :
    ThrowsOn input expr := by
  obtain ⟨row, hrow⟩ := List.exists_mem_of_ne_nil _ hpos
  obtain ⟨left, right, rfl, hlhs, hrhs, -⟩ := projectionSlotPlan_eq_vectorExpression hplan
  obtain ⟨message, hmessage⟩ := hthrows row
  have heval : ∃ e', (ExecExpression.binary e.op.toPlan left right e.type).eval input row = .error e' := by
    rw [eval_toPlan]
    rcases hleft : left.eval input row with e' | lhs
    · exact ⟨e', rfl⟩
    rcases hright : right.eval input row with e' | rhs
    · exact ⟨e', rfl⟩
    -- one of the operands is the column
    exfalso
    rw [ArithmeticVectorExpression.inputSlots, List.mem_append] at hslot
    rcases hslot with hmem | hmem
    · split_ifs at hmem with hkind
      · obtain rfl := List.mem_singleton.mp hmem
        rcases classifyOperand_cases hlhs with ⟨-, rfl⟩ | ⟨hconst, -⟩
        · simp [hmessage] at hleft
        · simp [hkind] at hconst
      · exact absurd hmem List.not_mem_nil
    · split_ifs at hmem with hkind
      · obtain rfl := List.mem_singleton.mp hmem
        rcases classifyOperand_cases hrhs with ⟨-, rfl⟩ | ⟨hconst, -⟩
        · simp [hmessage] at hright
        · simp [hkind] at hconst
      · exact absurd hmem List.not_mem_nil
  obtain ⟨e', he'⟩ := heval
  refine ⟨row, hrow, e', ?_⟩
  show (do writeExecValue _ (← _)) = _
  rw [he']
  rfl

/-- Without one of its columns the evaluation on whole columns throws. -/
theorem evaluateDense_of_missing {column : ColumnData} {count : ℕ} (hcount : count ≠ 0)
    (hkinds : ¬ (e.lhs.kind = .constant ∧ e.rhs.kind = .constant)) {slot : ℕ} (hslot : slot ∈ e.inputSlots)
    (hmissing : b.columns[slot]? = none) : ∃ message, e.evaluateDense backend b column count = .error message := by
  have hptr : columnDataPtr b slot = .error "ArithmeticVectorExpression: input slot out of range" := by
    rw [columnDataPtr, hmissing]
  have hcolumn : e.lhs.kind ≠ .constant ∨ e.rhs.kind ≠ .constant := not_and_or.mp hkinds
  rw [ArithmeticVectorExpression.inputSlots, List.mem_append] at hslot
  unfold ArithmeticVectorExpression.evaluateDense
  rw [if_neg hcount]
  split_ifs with htype hboth
  · exact ⟨_, rfl⟩
  · have hcolumns : ∀ (α : Type) [ArithmeticElement α],
        ∃ message, e.evaluateColumns α backend b column count = .error message := by
      intro α _
      unfold ArithmeticVectorExpression.evaluateColumns
      rw [if_pos hboth.1, if_pos hboth.2, List.mem_singleton, List.mem_singleton] at hslot
      rcases hslot with rfl | rfl
      · rw [hptr]
        exact ⟨_, rfl⟩
      · rw [hptr]
        rcases columnDataPtr b e.lhs.columnSlot with e' | data
        · exact ⟨_, rfl⟩
        · exact ⟨_, rfl⟩
    split
    any_goals exact hcolumns _
    exact ⟨_, rfl⟩
  · have hconst : ∀ (α : Type) [ArithmeticElement α] (get : NumericConstant → Option α),
        ∃ message, e.evaluateConst get backend b column count = .error message := by
      intro α _ get
      unfold ArithmeticVectorExpression.evaluateConst
      rcases hl : e.lhs.kind with _ | _ <;> rcases hr : e.rhs.kind with _ | _ <;> simp [hl, hr] at hslot hboth hcolumn
      · subst hslot
        simp only [if_true, hptr]
        exact ⟨_, rfl⟩
      · subst hslot
        simp only [reduceCtorEq, if_false, hptr]
        exact ⟨_, rfl⟩
    split
    any_goals exact hconst _ _
    exact ⟨_, rfl⟩

/-- **An expression on whole columns**, on a batch that has the columns of the input at its slots. -/
theorem evaluateDense_cases (hinput : input.Deliverable) (hplan : projectionSlotPlan expr = .vectorExpression e)
    (hrowwise : EvaluatesRowwise backend input expr e)
    (hb : ∀ slot ∈ e.inputSlots, b.columns[slot]? = none ∧ input.columns[slot]? = none ∨ b.Gathers input [slot]) :
    (∃ out, e.evaluateDense backend b (ColumnData.resized e.type input.size) input.size = .ok out ∧
        out.Projects input (List.range input.size) expr) ∨
      (∃ message, e.evaluateDense backend b (ColumnData.resized e.type input.size) input.size = .error message) ∧
        ThrowsOn input expr := by
  by_cases hmissing : ∃ slot ∈ e.inputSlots, b.columns[slot]? = none ∧ input.columns[slot]? = none
  · obtain ⟨slot, hslot, hbslot, hslotInput⟩ := hmissing
    obtain ⟨-, -, -, -, -, hkinds⟩ := projectionSlotPlan_eq_vectorExpression hplan
    have hpos : input.activeIndices ≠ [] := by
      rw [← List.length_pos_iff, VectorBatch.length_activeIndices hinput.toStrong]
      exact hinput.nonempty
    refine .inr ⟨evaluateDense_of_missing hinput.nonempty.ne' hkinds hslot hbslot,
      throwsOn_of_slot hpos hplan hslot fun row => ?_⟩
    simp only [ExecExpression.eval, hslotInput]
    exact ⟨_, rfl⟩
  · have hgathers : b.Gathers input e.inputSlots := by
      intro slot hslot
      rcases hb slot hslot with hnone | hgather
      · exact absurd ⟨slot, hslot, hnone⟩ hmissing
      · exact hgather slot List.mem_cons_self
    obtain ⟨out, hout, hvalues⟩ := hrowwise b hgathers
    refine .inl ⟨out, hout, fun i row hrow => ?_⟩
    obtain ⟨hlt, hget⟩ := VectorBatch.getElem?_of_mem_zip hrow
    rw [hvalues i hlt]
    exact projected_of_gathers hinput hplan hgathers hget

end

/-! ## Making an output column -/

/-- The result of a pass for one output column: it is done so far, or an exception is thrown where the expression
throws. -/
def SlotMade (Done : OutputSlot → Prop) (input : VectorBatch) (expr : ExecExpression) :
    Except String OutputSlot → Prop
  | .ok slot => slot.expr = expr ∧ slot.plan = projectionSlotPlan expr ∧ Done slot
  | .error _ => ThrowsOn input expr

/-- **A batch of columns that are done** has the rows of the expressions. -/
theorem activeValues_denseOutput (hinput : input.Deliverable) {slots : List OutputSlot}
    (h : List.Forall₂ (fun expr slot => SlotMade
      (fun slot => slot.column.Projects input (List.range input.size) slot.expr) input expr (.ok slot))
      expressions slots) : (denseOutput slots input.size).activeValues = projectedRows expressions input := by
  have hindices : (denseOutput slots input.size).activeIndices = List.range input.size :=
    VectorBatch.activeIndices_setIdentitySelection _ _
  apply activeValues_eq
  · rw [hindices, List.length_range, VectorBatch.length_activeIndices hinput.toStrong]
  · rw [hindices]
    refine List.forall₂_map_right_iff.mpr (h.imp ?_)
    rintro expr slot ⟨rfl, -, hdone⟩
    exact hdone

/-- A column of the input has the values of the reference to it, or the reference throws. -/
theorem eval_directColumn (slot : ℕ) (type : DataType) :
    (∃ column ∈ input.columns, directColumn input slot = .ok column ∧ input.columns[slot]? = some column ∧
        ∀ row, (ExecExpression.columnRef slot type).projected input row = readExecValue column row) ∨
      (∃ message, directColumn input slot = .error message) ∧
        ∀ row, ∃ e, (ExecExpression.columnRef slot type).projected input row = .error e := by
  rcases hcolumn : input.columns[slot]? with _ | column
  · refine .inr ⟨⟨"ProjectionOperator: input slot out of range", by rw [directColumn, hcolumn]⟩, fun row => ?_⟩
    exact ⟨"execution: input slot out of range", by simp only [ExecExpression.projected, ExecExpression.eval, hcolumn]⟩
  · refine .inl ⟨column, List.mem_of_getElem? hcolumn, by rw [directColumn, hcolumn], rfl, fun row => ?_⟩
    simp only [ExecExpression.projected, ExecExpression.eval, hcolumn]

/-- Only a column reference is a direct column. -/
theorem projectionSlotPlan_eq_directColumn {expr : ExecExpression} {slot : ℕ}
    (h : projectionSlotPlan expr = .directColumn slot) : ∃ type, expr = .columnRef slot type := by
  cases expr with
  | columnRef slot' type =>
    cases h
    exact ⟨type, rfl⟩
  | literal value type => cases h
  | binary op left right type =>
    unfold projectionSlotPlan at h
    dsimp only at h
    split at h <;> cases h

/-- What is computed row by row is no column. -/
theorem projectionSlotPlan_scalar_ne {expr : ExecExpression} (h : projectionSlotPlan expr = .scalarExpression)
    (slot : ℕ) (type : DataType) : expr ≠ .columnRef slot type := by
  rintro rfl
  cases h

/-- Some row is active. -/
theorem activeIndices_ne_nil (hinput : input.Deliverable) : input.activeIndices ≠ [] := by
  rw [← List.length_pos_iff, VectorBatch.length_activeIndices hinput.toStrong]
  exact hinput.nonempty

/-- An expression that throws on every row throws. -/
theorem throwsOn_of_forall (hinput : input.Deliverable) {expr : ExecExpression}
    (h : ∀ row, ∃ e, expr.projected input row = .error e) : ThrowsOn input expr := by
  obtain ⟨row, hrow⟩ := List.exists_mem_of_ne_nil _ (activeIndices_ne_nil hinput)
  exact ⟨row, hrow, h row⟩

/-- A column that is written row by row. -/
theorem slotMade_fillScalar (hinput : input.Deliverable) {expr : ExecExpression} {slot : OutputSlot}
    (hexpr : slot.expr = expr) (hplan : slot.plan = projectionSlotPlan expr)
    (hscalar : projectionSlotPlan expr = .scalarExpression) (htype : slot.column.type = expr.returnType)
    (hcount : slot.column.count = input.size) :
    SlotMade (fun slot => slot.column.Projects input (List.range input.size) slot.expr) input expr
      (slot.fill (fillScalar slot.expr input input.activeIndices slot.column)) := by
  subst hexpr
  have hlength := VectorBatch.length_activeIndices hinput.toStrong
  rcases hfill : fillScalar slot.expr input input.activeIndices slot.column with message | column
  · -- the first row that cannot be evaluated or written
    rcases hrows : input.activeIndices.mapM (fun row => do
        let value ← writeExecValue slot.column.type (← slot.expr.eval input row)
        return value.cell) with e | cells
    · obtain ⟨before, row, after, heq, -, hrow⟩ := mapM_eq_error_iff.mp hrows
      refine ⟨row, heq ▸ List.mem_append_right _ List.mem_cons_self, ?_⟩
      rw [htype] at hrow
      have hprojected : slot.expr.projected input row =
          (do writeExecValue slot.expr.returnType (← slot.expr.eval input row)) := by
        cases hkind : slot.expr with
        | columnRef i type => exact absurd hkind (projectionSlotPlan_scalar_ne hscalar i type)
        | literal | binary => rfl
      rw [hprojected]
      rcases hvalue : slot.expr.eval input row with e' | value
      · exact ⟨e', rfl⟩
      rcases hwrite : writeExecValue slot.expr.returnType value with e' | written
      · exact ⟨e', hwrite⟩
      · rw [hvalue] at hrow
        simp only [bind, Except.bind, hwrite] at hrow
        cases hrow
    · rw [fillScalar, hrows] at hfill
      cases hfill
  · refine ⟨rfl, hplan, fun i row hrow => ?_⟩
    obtain ⟨hlt, hget⟩ := VectorBatch.getElem?_of_mem_zip hrow
    exact projects_fillScalar (projectionSlotPlan_scalar_ne hscalar) htype (by rw [hlength, hcount]) hfill i row hget

/-! ## Columns as they are -/

/-- All expressions are columns. -/
theorem directSlots_eq_some {slots : List ℕ} (h : directSlots expressions = some slots) :
    List.Forall₂ (fun expr slot => projectionSlotPlan expr = .directColumn slot) expressions slots := by
  induction expressions generalizing slots with
  | nil =>
    cases h
    exact .nil
  | cons expr expressions ih =>
    rw [directSlots, List.mapM_cons] at h
    obtain ⟨slot, hslot, h⟩ := Option.bind_eq_some_iff.mp h
    obtain ⟨rest, hrest, h⟩ := Option.bind_eq_some_iff.mp h
    cases h
    refine .cons ?_ (ih hrest)
    split at hslot
    · next hplan =>
      cases hslot
      exact hplan
    · cases hslot

/-- **Columns as they are**, with the selection of the input. -/
theorem outputRows_produceViewProjection (hinput : input.Deliverable) {slots : List ℕ}
    (h : directSlots expressions = some slots) :
    outputRows (produceViewProjection slots input) = (projectedRows expressions input).toOption := by
  have hpass := mapM_cases (R := fun expr (r : Except String ColumnData) => match r with
      | .ok column => column.Projects input input.activeIndices expr
      | .error _ => ThrowsOn input expr) (f := directColumn input) ((directSlots_eq_some h).imp ?_)
  · rcases hpass with ⟨columns, hcolumns, hall⟩ | ⟨e, herror, expr, hexpr, hthrows⟩
    · have hresult : produceViewProjection slots input = .ok ⟨columns, input.size, input.selection⟩ := by
        rw [produceViewProjection, hcolumns]
        rfl
      have hrows : VectorBatch.activeValues ⟨columns, input.size, input.selection⟩ = projectedRows expressions input :=
        activeValues_eq rfl hall
      rw [outputRows, hresult]
      exact congrArg Except.toOption hrows
    · rw [toOption_projectedRows_of_throwsOn ⟨expr, hexpr, hthrows⟩, outputRows, produceViewProjection, herror]
      rfl
  · intro expr slot hplan
    obtain ⟨type, rfl⟩ := projectionSlotPlan_eq_directColumn hplan
    rcases @eval_directColumn input slot type with ⟨column, -, hcolumn, -, hvalues⟩ | ⟨⟨e, he⟩, hthrows⟩
    · rw [hcolumn]
      intro i row hrow
      have hsame : i = row := by
        obtain ⟨j, hj, heq⟩ := List.getElem_of_mem hrow
        rw [List.getElem_zip] at heq
        exact (Prod.mk.inj heq).1.symm.trans (Prod.mk.inj heq).2
      rw [hvalues, hsame]
    · rw [he]
      exact throwsOn_of_forall hinput hthrows

/-! ## A dense batch -/

/-- A dense batch has its columns at every slot. -/
theorem gathers_self (hinput : input.Deliverable) (hdense : input.selection.isAll = true) (slot : ℕ) :
    input.columns[slot]? = none ∧ input.columns[slot]? = none ∨ input.Gathers input [slot] := by
  rcases hcolumn : input.columns[slot]? with _ | column
  · exact .inl ⟨rfl, rfl⟩
  · refine .inr fun slot' hslot' => ?_
    obtain rfl := List.mem_singleton.mp hslot'
    refine ⟨column, column, hcolumn, hcolumn, rfl, fun i row hrow => ?_⟩
    have hlt := hinput.lt_count (List.mem_of_getElem? hrow) (List.mem_of_getElem? hcolumn)
    have hsame : i = row := by
      rw [VectorBatch.activeIndices, if_pos hdense] at hrow
      obtain ⟨hi, rfl⟩ := List.getElem?_eq_some_iff.mp hrow
      exact (List.getElem_range _).symm
    exact ⟨hsame ▸ hlt, by rw [hsame]⟩

/-- After the first pass over a dense batch: the columns of scalar expressions have room for their values, the
others are done. -/
def DenseDone (input : VectorBatch) (slot : OutputSlot) : Prop :=
  match slot.plan with
  | .scalarExpression => slot.column = ColumnData.resized slot.expr.returnType input.size
  | _ => slot.column.Projects input (List.range input.size) slot.expr

/-- The first pass over a dense batch. -/
theorem slotMade_denseColumn (hinput : input.Deliverable) (hdense : input.selection.isAll = true)
    {expr : ExecExpression}
    (hrowwise : ∀ e, projectionSlotPlan expr = .vectorExpression e → EvaluatesRowwise backend input expr e) :
    SlotMade (DenseDone input) input expr (denseColumn backend input expr) := by
  unfold denseColumn denseColumnData
  rcases hplan : projectionSlotPlan expr with slot | e | _
  · obtain ⟨type, rfl⟩ := projectionSlotPlan_eq_directColumn hplan
    rcases @eval_directColumn input slot type with ⟨column, hmem, hcolumn, -, hvalues⟩ | ⟨⟨message, he⟩, hthrows⟩
    · simp only [hcolumn]
      refine ⟨rfl, hplan.symm, fun i row hrow => ?_⟩
      have hsame : i = row := by
        obtain ⟨hlt, hget⟩ := VectorBatch.getElem?_of_mem_zip hrow
        rw [VectorBatch.activeIndices, if_pos hdense] at hget
        obtain ⟨_, rfl⟩ := List.getElem?_eq_some_iff.mp hget
        exact (List.getElem_range _).symm
      rw [hvalues, hsame]
    · simp only [he]
      exact throwsOn_of_forall hinput hthrows
  · rcases evaluateDense_cases hinput hplan (hrowwise e hplan) (fun slot _ => gathers_self hinput hdense slot) with
      ⟨out, hout, hvalues⟩ | ⟨⟨message, he⟩, hthrows⟩
    · simp only [hout]
      exact ⟨rfl, hplan.symm, hvalues⟩
    · simp only [he]
      exact hthrows
  · exact ⟨rfl, hplan.symm, rfl⟩

/-- The second pass over a dense batch. -/
theorem slotMade_denseScalar (hinput : input.Deliverable) (hdense : input.selection.isAll = true)
    {expr : ExecExpression} {slot : OutputSlot} (h : SlotMade (DenseDone input) input expr (.ok slot)) :
    SlotMade (fun slot => slot.column.Projects input (List.range input.size) slot.expr) input expr
      (denseScalar input slot) := by
  obtain ⟨hexpr, hplan, hdone⟩ := h
  unfold denseScalar
  rcases hkind : slot.plan with i | e | _
  · refine ⟨hexpr, hplan, ?_⟩
    simpa only [DenseDone, hkind] using hdone
  · refine ⟨hexpr, hplan, ?_⟩
    simpa only [DenseDone, hkind] using hdone
  · have hcolumn : slot.column = ColumnData.resized slot.expr.returnType input.size := by
      simpa only [DenseDone, hkind] using hdone
    have hrows : input.activeIndices = List.range input.size := by
      rw [VectorBatch.activeIndices, if_pos hdense]
    have hmade := slotMade_fillScalar hinput hexpr hplan (hplan ▸ hkind) (by rw [hcolumn, hexpr]; rfl)
      (by rw [hcolumn]; rfl)
    rw [hrows] at hmade
    exact hmade

/-- **Whole columns of a dense batch.** -/
theorem outputRows_produceDenseProjection (hinput : input.Deliverable) (hdense : input.selection.isAll = true)
    (hrowwise : ∀ expr ∈ expressions, ∀ e, projectionSlotPlan expr = .vectorExpression e →
      EvaluatesRowwise backend input expr e) :
    outputRows (produceDenseProjection backend expressions input) = (projectedRows expressions input).toOption := by
  have hfirst := mapM_cases (List.forall₂_same.mpr fun expr hexpr =>
    slotMade_denseColumn hinput hdense (hrowwise expr hexpr))
  rcases hfirst with ⟨slots, hslots, hall⟩ | ⟨e, herror, hthrows⟩
  · rcases mapM_cases (hall.imp fun expr slot h => slotMade_denseScalar hinput hdense h) with
      ⟨filled, hfilled, hdone⟩ | ⟨e, herror, hthrows⟩
    · rw [outputRows, produceDenseProjection, hslots]
      simp only [bind, Except.bind, hfilled]
      exact congrArg Except.toOption (activeValues_denseOutput hinput hdone)
    · rw [toOption_projectedRows_of_throwsOn hthrows, outputRows, produceDenseProjection, hslots]
      simp only [bind, Except.bind, herror]
      rfl
  · rw [toOption_projectedRows_of_throwsOn hthrows, outputRows, produceDenseProjection, herror]
    rfl

/-! ## A sparse batch -/

/-- After the first step: the columns have their types. -/
def SparseTyped (slot : OutputSlot) : Prop :=
  match slot.plan with
  | .directColumn _ => True
  | .vectorExpression e => slot.column.type = e.type
  | .scalarExpression => slot.column.type = slot.expr.returnType

/-- After the second step: direct columns are gathered. -/
def SparseGathered (input : VectorBatch) (slot : OutputSlot) : Prop :=
  match slot.plan with
  | .directColumn i => ∃ src, input.columns[i]? = some src ∧
      gatherColumnDense src input.selection input.size = .ok slot.column
  | _ => SparseTyped slot

/-- After the fourth step: only the scalar expressions are left. -/
def SparseEvaluated (input : VectorBatch) (slot : OutputSlot) : Prop :=
  match slot.plan with
  | .scalarExpression => slot.column.type = slot.expr.returnType
  | _ => slot.column.Projects input (List.range input.size) slot.expr

/-- A sparse slot is made. -/
theorem slotMade_sparseColumn (hinput : input.Deliverable) (expr : ExecExpression) :
    SlotMade SparseTyped input expr (sparseColumn input expr) := by
  unfold sparseColumn sparseType
  rcases hplan : projectionSlotPlan expr with slot | e | _
  · obtain ⟨type, rfl⟩ := projectionSlotPlan_eq_directColumn hplan
    rcases @eval_directColumn input slot type with ⟨column, hmem, hcolumn, -, -⟩ | ⟨⟨message, he⟩, hthrows⟩
    · simp only [hcolumn]
      exact ⟨rfl, hplan.symm, trivial⟩
    · simp only [he]
      exact throwsOn_of_forall hinput hthrows
  · exact ⟨rfl, hplan.symm, rfl⟩
  · exact ⟨rfl, hplan.symm, rfl⟩

/-- A sparse slot is gathered. -/
theorem slotMade_sparseDirect (hinput : input.Deliverable) {expr : ExecExpression} {slot : OutputSlot}
    (h : SlotMade SparseTyped input expr (.ok slot)) :
    SlotMade (SparseGathered input) input expr (sparseDirect input slot) := by
  obtain ⟨hexpr, hplan, hdone⟩ := h
  unfold sparseDirect
  rcases hkind : slot.plan with i | e | _
  · obtain ⟨type, rfl⟩ := projectionSlotPlan_eq_directColumn (hplan ▸ hkind)
    rcases @eval_directColumn input i type with ⟨src, hmem, hcolumn, hsrc, hvalues⟩ | ⟨⟨message, he⟩, hthrows⟩
    · simp only [OutputSlot.fill, hcolumn, bind, Except.bind]
      rcases hgather : gatherColumnDense src input.selection input.size with message | column
      · refine throwsOn_of_forall hinput fun row => ?_
        rw [hvalues]
        exact readExecValue_of_gather_error hgather row
      · refine ⟨hexpr, hplan, ?_⟩
        simp only [SparseGathered, hkind]
        exact ⟨src, hsrc, hgather⟩
    · simp only [OutputSlot.fill, he]
      exact throwsOn_of_forall hinput hthrows
  · refine ⟨hexpr, hplan, ?_⟩
    simpa only [SparseGathered, hkind] using hdone
  · refine ⟨hexpr, hplan, ?_⟩
    simpa only [SparseGathered, hkind] using hdone

/-- A gathered column has the values of the reference. -/
theorem projects_of_gather (hinput : input.Deliverable) (hfilled : input.Filled) {slot : ℕ} {type : DataType}
    {src column : ColumnData} (hsrc : input.columns[slot]? = some src)
    (hgather : gatherColumnDense src input.selection input.size = .ok column) :
    column.Projects input (List.range input.size) (.columnRef slot type) := by
  obtain ⟨hcolumn, hcells⟩ :=
    cellAt_gatherColumnDense hinput.toStrong hfilled (List.mem_of_getElem? hsrc) hgather
  intro i row hrow
  obtain ⟨hlt, hget⟩ := VectorBatch.getElem?_of_mem_zip hrow
  have hrowlt := hinput.lt_count (List.mem_of_getElem? hget) (List.mem_of_getElem? hsrc)
  simp only [ExecExpression.projected, ExecExpression.eval, hsrc]
  exact readExecValue_congr (by rw [hcolumn]) (by rw [hcolumn]; exact hlt) hrowlt (hcells i row hget)

/-- A column that was gathered for the output. -/
theorem directOutput_eq_some {slots : List OutputSlot} {slot : ℕ} {column : ColumnData}
    (h : directOutput slots slot = some column) :
    ∃ made ∈ slots, made.plan = .directColumn slot ∧ made.column = column := by
  obtain ⟨made, hmade, rfl⟩ := Option.map_eq_some_iff.mp h
  refine ⟨made, List.mem_reverse.mp (List.mem_of_find?_eq_some hmade), ?_, rfl⟩
  have hplan := List.find?_some hmade
  split at hplan
  · next i hi =>
    rw [hi, beq_iff_eq.mp hplan]
  · cases hplan

/-- **A shared column is the one that would be gathered.** -/
theorem gatheredColumn_eq {slots : List OutputSlot} {gather : List ℕ} {slot : ℕ} {src : ColumnData}
    (hsrc : input.columns[slot]? = some src) (hgather : slot ∈ gather)
    (hslots : ∀ made ∈ slots, SparseGathered input made) :
    gatheredColumn gather input slots (src, slot) = gatherColumnDense src input.selection input.size := by
  unfold gatheredColumn
  rw [if_pos hgather]
  rcases hdirect : directOutput slots slot with _ | column
  · rfl
  · obtain ⟨made, hmade, hplan, rfl⟩ := directOutput_eq_some hdirect
    have hdone := hslots made hmade
    simp only [SparseGathered, hplan] at hdone
    obtain ⟨src', hsrc', hcolumn⟩ := hdone
    obtain rfl := Option.some.inj (hsrc.symm.trans hsrc')
    dsimp only
    rw [hcolumn]
    congr 1
    unfold gatherColumnDense at hcolumn
    split at hcolumn
    · cases hcolumn
    · rw [← Except.ok.inj hcolumn]

/-- The slots that are gathered are those of the expressions on whole columns. -/
theorem mem_gatherSlots {slot : ℕ} : slot ∈ gatherSlots expressions ↔
    ∃ expr ∈ expressions, ∃ e, projectionSlotPlan expr = .vectorExpression e ∧ slot ∈ e.inputSlots := by
  rw [gatherSlots, List.mem_flatMap]
  refine exists_congr fun expr => and_congr_right fun _ => ?_
  rcases projectionSlotPlan expr with i | e | _ <;> simp

/-- **The dense input of the expressions on whole columns** has their columns, or one of them throws. -/
theorem buildGatheredInput_cases (hinput : input.Deliverable) (hfilled : input.Filled) {slots : List OutputSlot}
    (hslots : ∀ made ∈ slots, SparseGathered input made) :
    (∃ gathered, buildGatheredInput (gatherSlots expressions) input slots = .ok gathered ∧
        ∀ expr ∈ expressions, ∀ e, projectionSlotPlan expr = .vectorExpression e → ∀ slot ∈ e.inputSlots,
          gathered.columns[slot]? = none ∧ input.columns[slot]? = none ∨ gathered.Gathers input [slot]) ∨
      ∃ e, buildGatheredInput (gatherSlots expressions) input slots = .error e ∧
        ∃ expr ∈ expressions, ThrowsOn input expr := by
  unfold buildGatheredInput
  by_cases hempty : gatherSlots expressions = []
  · rw [if_pos hempty]
    refine .inl ⟨_, rfl, fun expr hexpr e hplan slot hslot => ?_⟩
    have hmem := mem_gatherSlots.mpr ⟨expr, hexpr, e, hplan, hslot⟩
    exact absurd (hempty ▸ hmem) List.not_mem_nil
  rw [if_neg hempty]
  rcases hcolumns : input.columns.zipIdx.mapM (gatheredColumn (gatherSlots expressions) input slots) with e | columns
  · refine .inr ⟨e, rfl, ?_⟩
    obtain ⟨before, ⟨src, slot⟩, after, heq, -, herror⟩ := mapM_eq_error_iff.mp hcolumns
    have hmem : (src, slot) ∈ input.columns.zipIdx := heq ▸ List.mem_append_right _ List.mem_cons_self
    have hsrc : input.columns[slot]? = some src := List.mem_zipIdx_iff_getElem?.mp hmem
    have hgather : slot ∈ gatherSlots expressions := by
      by_contra hnot
      rw [gatheredColumn, if_neg hnot] at herror
      cases herror
    rw [gatheredColumn_eq hsrc hgather hslots] at herror
    obtain ⟨expr, hexpr, e', hplan, hslot⟩ := mem_gatherSlots.mp hgather
    refine ⟨expr, hexpr, throwsOn_of_slot (activeIndices_ne_nil hinput) hplan hslot fun row => ?_⟩
    simp only [ExecExpression.eval, hsrc]
    exact readExecValue_of_gather_error herror row
  · refine .inl ⟨_, rfl, fun expr hexpr e hplan slot hslot => ?_⟩
    have hgather := mem_gatherSlots.mpr ⟨expr, hexpr, e, hplan, hslot⟩
    have hall := forall₂_of_mapM hcolumns
    have hlength : columns.length = input.columns.length := by
      rw [← hall.length_eq, List.length_zipIdx]
    show columns[slot]? = none ∧ _ ∨ _
    rcases hsrc : input.columns[slot]? with _ | src
    · rw [List.getElem?_eq_none_iff] at hsrc ⊢
      exact .inl ⟨hlength ▸ hsrc, rfl⟩
    · refine .inr fun slot' hslot' => ?_
      obtain rfl := List.mem_singleton.mp hslot'
      obtain ⟨hlt, hget⟩ := List.getElem?_eq_some_iff.mp hsrc
      have hlt' : slot' < columns.length := hlength ▸ hlt
      have hstep := hall.get (by simpa using hlt) hlt'
      simp only [List.get_eq_getElem, List.getElem_zipIdx, Nat.zero_add, hget] at hstep
      rw [gatheredColumn_eq hsrc hgather hslots] at hstep
      obtain ⟨hcolumn, hcells⟩ :=
        cellAt_gatherColumnDense hinput.toStrong hfilled (List.mem_of_getElem? hsrc) hstep
      refine ⟨src, columns[slot'], hsrc, List.getElem?_eq_getElem hlt', by rw [hcolumn],
        fun i row hrow => ⟨?_, hcells i row hrow⟩⟩
      rw [hcolumn]
      have := (List.getElem?_eq_some_iff.mp hrow).1
      rwa [VectorBatch.length_activeIndices hinput.toStrong] at this

/-- A sparse slot is computed by the kernels. -/
theorem slotMade_sparseVector (hinput : input.Deliverable) (hfilled : input.Filled) {gathered : VectorBatch}
    {expr : ExecExpression} {slot : OutputSlot}
    (hrowwise : ∀ e, projectionSlotPlan expr = .vectorExpression e → EvaluatesRowwise backend input expr e)
    (hgathered : ∀ e, projectionSlotPlan expr = .vectorExpression e → ∀ slot ∈ e.inputSlots,
      gathered.columns[slot]? = none ∧ input.columns[slot]? = none ∨ gathered.Gathers input [slot])
    (h : SlotMade (SparseGathered input) input expr (.ok slot)) :
    SlotMade (SparseEvaluated input) input expr (sparseVector backend gathered input.size slot) := by
  obtain ⟨hexpr, hplan, hdone⟩ := h
  unfold sparseVector
  rcases hkind : slot.plan with i | e | _
  · obtain ⟨type, rfl⟩ := projectionSlotPlan_eq_directColumn (hplan ▸ hkind)
    refine ⟨hexpr, hplan, ?_⟩
    simp only [SparseGathered, hkind] at hdone
    obtain ⟨src, hsrc, hgather⟩ := hdone
    simp only [SparseEvaluated, hkind, hexpr]
    exact projects_of_gather hinput hfilled hsrc hgather
  · have htype : slot.column.type = e.type := by
      simpa only [SparseGathered, SparseTyped, hkind] using hdone
    have hvector : projectionSlotPlan expr = .vectorExpression e := hplan ▸ hkind
    rw [htype]
    rcases evaluateDense_cases hinput hvector (hrowwise e hvector) (hgathered e hvector) with
      ⟨out, hout, hvalues⟩ | ⟨⟨message, he⟩, hthrows⟩
    · simp only [OutputSlot.fill, hout]
      refine ⟨hexpr, hplan, ?_⟩
      simp only [SparseEvaluated, hkind, hexpr]
      exact hvalues
    · simp only [OutputSlot.fill, he]
      exact hthrows
  · refine ⟨hexpr, hplan, ?_⟩
    simpa only [SparseGathered, SparseTyped, SparseEvaluated, hkind] using hdone

/-- A sparse slot is computed row by row. -/
theorem slotMade_sparseScalar (hinput : input.Deliverable) {expr : ExecExpression} {slot : OutputSlot}
    (h : SlotMade (SparseEvaluated input) input expr (.ok slot)) :
    SlotMade (fun slot => slot.column.Projects input (List.range input.size) slot.expr) input expr
      (sparseScalar input slot) := by
  obtain ⟨hexpr, hplan, hdone⟩ := h
  unfold sparseScalar
  rcases hkind : slot.plan with i | e | _
  · refine ⟨hexpr, hplan, ?_⟩
    simpa only [SparseEvaluated, hkind] using hdone
  · refine ⟨hexpr, hplan, ?_⟩
    simpa only [SparseEvaluated, hkind] using hdone
  · have htype : slot.column.type = slot.expr.returnType := by
      simpa only [SparseEvaluated, hkind] using hdone
    have hroom := @slotMade_fillScalar input hinput expr
      ⟨slot.expr, slot.plan, ColumnData.resized slot.column.type input.size⟩ hexpr hplan (hplan ▸ hkind)
      (htype.trans (by rw [hexpr])) rfl
    exact hroom

/-- **Gathered columns of a sparse batch**, shared between the slots. -/
theorem outputRows_produceSparseProjection (hinput : input.Deliverable) (hfilled : input.Filled)
    (hrowwise : ∀ expr ∈ expressions, ∀ e, projectionSlotPlan expr = .vectorExpression e →
      EvaluatesRowwise backend input expr e) :
    outputRows (produceSparseProjection backend expressions input) = (projectedRows expressions input).toOption := by
  rcases mapM_cases (List.forall₂_same.mpr fun expr (_ : expr ∈ expressions) =>
    slotMade_sparseColumn hinput expr) with ⟨typed, htyped, hall⟩ | ⟨e, herror, hthrows⟩
  swap
  · rw [toOption_projectedRows_of_throwsOn hthrows, outputRows, produceSparseProjection, herror]
    rfl
  rcases mapM_cases (hall.imp fun expr slot h => slotMade_sparseDirect hinput h) with
    ⟨direct, hdirect, hall⟩ | ⟨e, herror, hthrows⟩
  swap
  · rw [toOption_projectedRows_of_throwsOn hthrows, outputRows, produceSparseProjection, htyped]
    simp only [bind, Except.bind, herror]
    rfl
  have hslots : ∀ made ∈ direct, SparseGathered input made := by
    intro made hmade
    obtain ⟨expr, -, -, -, hdone⟩ := exists_of_mem_right hall hmade
    exact hdone
  rcases @buildGatheredInput_cases input expressions hinput hfilled direct hslots with
    ⟨gathered, hgathered, hcolumns⟩ | ⟨e, herror, hthrows⟩
  swap
  · rw [toOption_projectedRows_of_throwsOn hthrows, outputRows, produceSparseProjection, htyped]
    simp only [bind, Except.bind, hdirect, herror]
    rfl
  have hknown := (List.forall₂_and_left _ _).mpr ⟨fun expr hexpr => And.intro (hrowwise expr hexpr)
    (hcolumns expr hexpr), hall⟩
  rcases mapM_cases (R := SlotMade (SparseEvaluated input) input) (f := sparseVector backend gathered input.size)
    (hknown.imp fun expr slot h => slotMade_sparseVector hinput hfilled h.1.1 h.1.2 h.2) with
    ⟨evaluated, hevaluated, hall⟩ | ⟨e, herror, hthrows⟩
  swap
  · rw [toOption_projectedRows_of_throwsOn hthrows, outputRows, produceSparseProjection, htyped]
    simp only [bind, Except.bind, hdirect, hgathered, herror]
    rfl
  rcases mapM_cases (hall.imp fun expr slot h => slotMade_sparseScalar hinput h) with
    ⟨filled, hdone, hall⟩ | ⟨e, herror, hthrows⟩
  swap
  · rw [toOption_projectedRows_of_throwsOn hthrows, outputRows, produceSparseProjection, htyped]
    simp only [bind, Except.bind, hdirect, hgathered, hevaluated, herror]
    rfl
  rw [outputRows, produceSparseProjection, htyped]
  simp only [bind, Except.bind, hdirect, hgathered, hevaluated, hdone]
  exact congrArg Except.toOption (activeValues_denseOutput hinput hall)

/-- **The paths of a projection agree.** For a batch that satisfies its invariant and has an active row, whose
compiled expressions are evaluated row by row: the columns as they are (if all expressions are columns), the
whole columns (of a dense batch) and the gathered columns have the same rows, those of the expressions; and so
does the path that the operator takes. -/
theorem projection_paths_agree (hinput : input.Strong) (hfilled : input.Filled) (hactive : 0 < input.size)
    (hrowwise : ∀ expr ∈ expressions, ∀ e, projectionSlotPlan expr = .vectorExpression e →
      EvaluatesRowwise backend input expr e) :
    (∀ slots, directSlots expressions = some slots →
      outputRows (produceViewProjection slots input) = (projectedRows expressions input).toOption) ∧
    (input.selection.isAll = true →
      outputRows (produceDenseProjection backend expressions input) = (projectedRows expressions input).toOption) ∧
    outputRows (produceSparseProjection backend expressions input) = (projectedRows expressions input).toOption ∧
    outputRows (projectBatch backend expressions input) = (projectedRows expressions input).toOption := by
  have hdeliverable := hinput.deliverable hactive
  have hview : ∀ slots, directSlots expressions = some slots →
      outputRows (produceViewProjection slots input) = (projectedRows expressions input).toOption :=
    fun slots h => outputRows_produceViewProjection hdeliverable h
  have hdense := fun hall => outputRows_produceDenseProjection hdeliverable hall hrowwise
  have hsparse := outputRows_produceSparseProjection hdeliverable hfilled hrowwise
  refine ⟨hview, hdense, hsparse, ?_⟩
  unfold projectBatch
  split
  · next slots hslots => exact hview slots hslots
  · split_ifs with hall
    · exact hdense hall
    · exact hsparse

/-! ## Integer sums in range -/

section

variable {expr : ExecExpression} {e : ArithmeticVectorExpression} {b : VectorBatch}

/-- An operand has in a gathered batch the integers that it has in the active rows. -/
theorem intAt_of_gathers {operand : ArithmeticOperand} {slots : List ℕ} (hb : b.Gathers input slots)
    (hslot : operand.kind = .column → operand.columnSlot ∈ slots) {i row : ℕ}
    (hrow : input.activeIndices[i]? = some row) : operand.intAt b i = operand.intAt input row := by
  unfold ArithmeticOperand.intAt
  cases hkind : operand.kind with
  | column =>
    obtain ⟨src, column, hsrc, hcolumn, -, hcells⟩ := hb _ (hslot hkind)
    simp only [hsrc, hcolumn, (hcells i row hrow).2]
  | constant => rfl

/-- A gathered batch has the columns that an operand reads. -/
theorem reads_of_gathers (hinput : input.Deliverable) {operand : ArithmeticOperand} {type : DataType}
    (hclassify : classifyOperand expr type = some operand) {slots : List ℕ} (hb : b.Gathers input slots)
    (hslot : operand.kind = .column → operand.columnSlot ∈ slots)
    (htypes : ∀ slot ∈ slots, ∃ src, input.columns[slot]? = some src ∧ src.type = type) :
    expr.Reads b input.size := by
  rcases classifyOperand_cases hclassify with ⟨hkind, rfl⟩ | ⟨-, value, type', rfl⟩
  · obtain ⟨src, column, hsrc, hcolumn, htype, hcells⟩ := hb _ (hslot hkind)
    obtain ⟨src', hsrc', htype'⟩ := htypes _ (hslot hkind)
    obtain rfl := Option.some.inj (hsrc.symm.trans hsrc')
    refine ⟨column, hcolumn, htype.trans htype', ?_⟩
    have hlast : input.size - 1 < input.activeIndices.length := by
      have := hinput.nonempty
      rw [VectorBatch.length_activeIndices hinput.toStrong]
      omega
    have hlt := (hcells _ _ (List.getElem?_eq_getElem hlast)).1
    omega
  · trivial

/-- **Integer sums and differences are evaluated row by row** where their exact results are in range. -/
theorem evaluatesRowwise_of_inRange (hinput : input.Deliverable)
    (hplan : projectionSlotPlan expr = .vectorExpression e) (htype : e.type = .int32 ∨ e.type = .int64)
    (htypes : ∀ slot ∈ e.inputSlots, ∃ src, input.columns[slot]? = some src ∧ src.type = e.type)
    (hrange : ∀ row ∈ input.activeIndices, InRange e.type (e.op.exact (e.lhs.intAt input row) (e.rhs.intAt input row))) :
    EvaluatesRowwise backend input expr e := by
  intro b hb
  obtain ⟨left, right, rfl, hlhs, hrhs, hkinds⟩ := projectionSlotPlan_eq_vectorExpression hplan
  have hlslot : e.lhs.kind = .column → e.lhs.columnSlot ∈ e.inputSlots := fun h => by
    simp [ArithmeticVectorExpression.inputSlots, h]
  have hrslot : e.rhs.kind = .column → e.rhs.columnSlot ∈ e.inputSlots := fun h => by
    simp [ArithmeticVectorExpression.inputSlots, h]
  have hleft := reads_of_gathers hinput hlhs hb hlslot htypes
  have hright := reads_of_gathers hinput hrhs hb hrslot htypes
  have hspec : ∃ out, e.evaluateDense backend b (ColumnData.resized e.type input.size) input.size = .ok out ∧
      ∀ i < input.size, (AgreesAt e.op left right e.type b out i ↔
        InRange e.type (e.op.exact (e.lhs.intAt b i) (e.rhs.intAt b i))) := by
    rcases htype with htype | htype
    · have hdispatch := ArithmeticVectorExpression.dispatches_int32 htype
      rw [htype] at hlhs hrhs ⊢
      exact ArithmeticVectorExpression.evaluateDense_spec backend hdispatch htype hlhs hrhs hkinds hleft hright rfl
        le_rfl
    · have hdispatch := ArithmeticVectorExpression.dispatches_int64 htype
      rw [htype] at hlhs hrhs ⊢
      exact ArithmeticVectorExpression.evaluateDense_spec backend hdispatch htype hlhs hrhs hkinds hleft hright rfl
        le_rfl
  obtain ⟨out, hout, hrows⟩ := hspec
  refine ⟨out, hout, fun i hi => ?_⟩
  have hlt : i < input.activeIndices.length := by rwa [VectorBatch.length_activeIndices hinput.toStrong]
  have hrow := List.getElem?_eq_getElem hlt
  have hinRange := hrange _ (List.getElem_mem hlt)
  rw [← intAt_of_gathers hb hlslot hrow, ← intAt_of_gathers hb hrslot hrow] at hinRange
  obtain ⟨result, value, -, -, hwritten, hread⟩ := (hrows i hi).mpr hinRange
  exact hread.trans hwritten.symm

end

end

/-! ## The map of gathered columns -/

/-- The output column of a slot plan, in the map. -/
def mapDirectSlot (slotCount : ℕ) (map : List (Option ℕ)) (plan : ProjectionSlotPlan × ℕ) : List (Option ℕ) :=
  match plan.1 with
  | .directColumn slot => if slot < slotCount then map.set slot (some plan.2) else map
  | _ => map

/-- The output columns that input columns are gathered into, `none` for `kInvalidSlot`: the entries of the input's
columns are filled anew, those behind them stay from the batch before. Source: `projection.cpp`
BuildDirectOutputMap. -/
def buildDirectOutputMap (previous : List (Option ℕ)) (slotCount : ℕ) (plans : List ProjectionSlotPlan) :
    List (Option ℕ) :=
  plans.zipIdx.foldl (mapDirectSlot slotCount) (List.replicate slotCount none ++ previous.drop slotCount)

/-- The last direct column of a slot is the one that is shared. -/
theorem directOutput_append_of_eq {slots : List OutputSlot} {made : OutputSlot} {slot : ℕ}
    (h : made.plan = .directColumn slot) : directOutput (slots ++ [made]) slot = some made.column := by
  simp [directOutput, h]

/-- A slot that shows another column. -/
theorem directOutput_append_of_ne {slots : List OutputSlot} {made : OutputSlot} {slot : ℕ}
    (h : made.plan ≠ .directColumn slot) : directOutput (slots ++ [made]) slot = directOutput slots slot := by
  rcases hplan : made.plan with i | e | _
  · have hne : i ≠ slot := fun heq => h (heq ▸ hplan)
    simp [directOutput, hplan, hne]
  · simp [directOutput, hplan]
  · simp [directOutput, hplan]

/-- A plan of another column leaves the entry of a slot alone. -/
theorem getElem?_mapDirectSlot_of_ne {slotCount slot : ℕ} {map : List (Option ℕ)} {plan : ProjectionSlotPlan × ℕ}
    (h : plan.1 ≠ .directColumn slot) : (mapDirectSlot slotCount map plan)[slot]? = map[slot]? := by
  unfold mapDirectSlot
  split
  · next i hplan =>
    split_ifs
    · refine List.getElem?_set_ne ?_
      rintro rfl
      exact h hplan
    · rfl
  · rfl

/-- **The map says which column a slot was gathered into**, whatever it said for the batch before. -/
theorem directOutput_eq_map (previous : List (Option ℕ)) {slotCount slot : ℕ} (hslot : slot < slotCount)
    (slots : List OutputSlot) :
    ∃ entry, (buildDirectOutputMap previous slotCount (slots.map OutputSlot.plan))[slot]? = some entry ∧
      (∀ i ∈ entry, i < slots.length) ∧
      directOutput slots slot = entry.bind fun i => slots[i]?.map OutputSlot.column := by
  induction slots using List.reverseRecOn with
  | nil =>
    refine ⟨none, ?_, nofun, rfl⟩
    rw [List.map_nil, buildDirectOutputMap, List.zipIdx_nil, List.foldl_nil,
      List.getElem?_append_left (by simpa using hslot), List.getElem?_replicate_of_lt hslot]
  | append_singleton slots made ih =>
    obtain ⟨entry, hentry, hlt, hdirect⟩ := ih
    have hmap : buildDirectOutputMap previous slotCount ((slots ++ [made]).map OutputSlot.plan) =
        mapDirectSlot slotCount (buildDirectOutputMap previous slotCount (slots.map OutputSlot.plan))
          (made.plan, slots.length) := by
      simp [buildDirectOutputMap, List.zipIdx_append]
    rw [hmap]
    by_cases hplan : made.plan = .directColumn slot
    · refine ⟨some slots.length, ?_, by simp, ?_⟩
      · rw [mapDirectSlot, hplan]
        simp only [if_pos hslot]
        exact List.getElem?_set_self (List.getElem?_eq_some_iff.mp hentry).1
      · rw [directOutput_append_of_eq hplan]
        simp
    · refine ⟨entry, (getElem?_mapDirectSlot_of_ne hplan).trans hentry, fun i hi => ?_, ?_⟩
      · rw [List.length_append]
        exact Nat.lt_add_right _ (hlt i hi)
      · -- the entry is that of a front column
        rw [directOutput_append_of_ne hplan, hdirect]
        cases entry with
        | none => rfl
        | some i => simp [List.getElem?_append_left (hlt i rfl)]

/-! ## A sparse batch with shared columns -/

/-- Three rows of an INT32 column, of which the last two are active. -/
def sparseBatch : VectorBatch :=
  ⟨[⟨.int32, leBytes 4 0x7fffffff ++ leBytes 4 5 ++ leBytes 4 6, 3⟩], 2,
    ((SelectionMask.setNone 3).setBit 1).setBit 2⟩

/-- `SELECT a + 1, a, 7`. -/
def sharedExpressions : List ExecExpression :=
  [.binary .add (.columnRef 0 .int32) (.literal (.int32 1) .int32) .int32, .columnRef 0 .int32,
    .literal (.int32 7) .int32]

/-- The gathered column is shared by `a + 1` and `a`. -/
theorem projection_paths_agree_shared :
    outputRows (projectBatch .avx2 sharedExpressions sparseBatch) =
      (projectedRows sharedExpressions sparseBatch).toOption := by
  have hstrong : sparseBatch.Strong :=
    ⟨((SelectionMask.WF.setNone 3).setBit (by decide)).setBit (by decide), by decide, by decide⟩
  have hfilled : sparseBatch.Filled := by
    intro column hcolumn
    obtain rfl := List.mem_singleton.mp hcolumn
    decide
  have hrowwise : ∀ expr ∈ sharedExpressions, ∀ e, projectionSlotPlan expr = .vectorExpression e →
      EvaluatesRowwise .avx2 sparseBatch expr e := by
    intro expr hexpr e hplan
    simp only [sharedExpressions, List.mem_cons, List.not_mem_nil, or_false] at hexpr
    rcases hexpr with rfl | rfl | rfl
    · have hcompiled : projectionSlotPlan (.binary .add (.columnRef 0 .int32) (.literal (.int32 1) .int32) .int32) =
          .vectorExpression ArithmeticVectorExpression.maxPlusOne := rfl
      rw [hcompiled] at hplan
      cases hplan
      refine evaluatesRowwise_of_inRange (hstrong.deliverable (by decide)) hcompiled (.inl rfl) ?_ ?_
      · intro slot hslot
        obtain rfl := List.mem_singleton.mp hslot
        exact ⟨_, rfl, rfl⟩
      · decide +kernel
    · cases hplan
    · cases hplan
  exact (projection_paths_agree hstrong hfilled (by decide) hrowwise).2.2.2

end SimpleOlap
