import SimpleOlap.Execution.Expression.VectorExpression
import SimpleOlap.Execution.PlanRun
import SimpleOlap.Storage.Scan.RowFilter

/-!
# Projecting a batch

* `ProjectionSlotPlan`, `projectionSlotPlan`: how each output column is made.
* `projectBatch`: the output for one batch, by one of three paths: columns as they are with the selection
  of the input, whole columns for a dense batch, gathered columns for a sparse one.
* `VectorBatch.Deliverable`: what a batch handed from one operator to the next satisfies.
* `deliverable_projectBatch`: each path makes such a batch out of such a batch.

Source: `projection.h`, `projection.cpp`, `gather_utils.h`. Whether a column is a view of another's buffer is
left out; the bytes of a fresh buffer, which are all written over, are zeros.
-/

namespace SimpleOlap

open Lib

/-! ## Slot plans -/

/-- Source: `projection.h` ProjectionSlotPlan. -/
inductive ProjectionSlotPlan
  | directColumn (directSlot : ℕ)
  | vectorExpression (expression : ArithmeticVectorExpression)
  | scalarExpression

/-- Source: `projection.cpp` Init, the loop over the expressions. -/
def projectionSlotPlan (expr : ExecExpression) : ProjectionSlotPlan :=
  match expr with
  | .columnRef slot _ => .directColumn slot
  | expr =>
    match tryCompileVectorExpression expr with
    | some expression => .vectorExpression expression
    | none => .scalarExpression

/-- An output column with its expression, while it is filled. -/
structure OutputSlot where
  expr : ExecExpression
  plan : ProjectionSlotPlan
  column : ColumnData

/-- The column slots of an expression. Source: `vector_expression.cpp` CollectInputSlots. -/
def ArithmeticVectorExpression.inputSlots (e : ArithmeticVectorExpression) : List ℕ :=
  (if e.lhs.kind = .column then [e.lhs.columnSlot] else []) ++
    if e.rhs.kind = .column then [e.rhs.columnSlot] else []

/-- The input columns that expressions on whole columns read; only which ones they are is of use. Source:
`projection.cpp` Init, `gather_slots_`. -/
def gatherSlots (expressions : List ExecExpression) : List ℕ :=
  expressions.flatMap fun expr =>
    match projectionSlotPlan expr with
    | .vectorExpression e => e.inputSlots
    | _ => []

/-! ## Columns -/

/-- A column with room for `count` elements. Source: AddColumn, then Resize. -/
def ColumnData.resized (type : DataType) (count : ℕ) : ColumnData :=
  ⟨type, List.replicate (typeElemSize type * count) 0, count⟩

/-- Source: `gather_utils.h` GatherColumnDense, into a column with room for `count` elements. -/
def gatherColumnDense (src : ColumnData) (selection : SelectionMask) (count : ℕ) :
    Except String ColumnData :=
  match src.type with
  | .invalid => .error "GatherColumnDense: unsupported column type"
  | type => .ok ⟨type, selection.setBits.flatMap src.cellAt, count⟩

/-- The bytes of an element with a written value. -/
def ExecValue.cell : ExecValue → Bytes
  | .int32 v => ArithmeticElement.write v
  | .int64 v => ArithmeticElement.write v
  | .float v => ArithmeticElement.write v
  | .double v => ArithmeticElement.write v
  | .string v => (writeVarcharSlot v).getD []
  | .bool _ => []

/-- The values of an expression in some rows, written one after the other into a column. Source:
`projection.cpp`, the loops over the scalar expressions. -/
def fillScalar (expr : ExecExpression) (input : VectorBatch) (rows : List ℕ) (column : ColumnData) :
    Except String ColumnData := do
  let cells ← rows.mapM fun row => do
    let value ← writeExecValue column.type (← expr.eval input row)
    return value.cell
  return { column with buffer := cells.flatten }

/-- An input column. -/
def directColumn (input : VectorBatch) (slot : ℕ) : Except String ColumnData :=
  match input.columns[slot]? with
  | none => .error "ProjectionOperator: input slot out of range"
  | some column => .ok column

/-- Fill an output column anew. -/
def OutputSlot.fill (slot : OutputSlot) (column : Except String ColumnData) : Except String OutputSlot := do
  return { slot with column := ← column }

/-- The batch of filled columns, all rows active. -/
def denseOutput (slots : List OutputSlot) (active : ℕ) : VectorBatch :=
  ({ VectorBatch.empty with columns := slots.map OutputSlot.column }).setIdentitySelection active

/-! ## The three paths -/

/-- The slots of the expressions, when all of them are columns. Source: `projection.cpp` Init,
`all_direct_columns_`. -/
def directSlots (expressions : List ExecExpression) : Option (List ℕ) :=
  expressions.mapM fun expr =>
    match projectionSlotPlan expr with
    | .directColumn slot => some slot
    | _ => none

/-- Source: `projection.cpp` ProduceViewProjection. -/
def produceViewProjection (slots : List ℕ) (input : VectorBatch) : Except String VectorBatch := do
  let columns ← slots.mapM (directColumn input)
  return ⟨columns, input.size, input.selection⟩

/-- A column of a dense projection after the first pass. Source: `projection.cpp` ProduceDenseProjection. -/
def denseColumnData (backend : Backend) (input : VectorBatch) (expr : ExecExpression) :
    Except String ColumnData :=
  match projectionSlotPlan expr with
  | .directColumn slot => directColumn input slot
  | .vectorExpression e => e.evaluateDense backend input (ColumnData.resized e.type input.size) input.size
  | .scalarExpression => .ok (ColumnData.resized expr.returnType input.size)

/-- The first pass of a dense projection. Source: `projection.cpp` ProduceDenseProjection. -/
def denseColumn (backend : Backend) (input : VectorBatch) (expr : ExecExpression) : Except String OutputSlot := do
  return ⟨expr, projectionSlotPlan expr, ← denseColumnData backend input expr⟩

/-- The second pass of a dense projection. Source: `projection.cpp` ProduceDenseProjection. -/
def denseScalar (input : VectorBatch) (slot : OutputSlot) : Except String OutputSlot :=
  match slot.plan with
  | .scalarExpression => slot.fill (fillScalar slot.expr input (List.range input.size) slot.column)
  | _ => .ok slot

/-- Source: `projection.cpp` ProduceDenseProjection. -/
def produceDenseProjection (backend : Backend) (expressions : List ExecExpression) (input : VectorBatch) :
    Except String VectorBatch := do
  let slots ← expressions.mapM (denseColumn backend input)
  let slots ← slots.mapM (denseScalar input)
  return denseOutput slots input.size

/-- The type of an output column. Source: `projection.cpp` ProduceSparseProjection, step 1. -/
def sparseType (input : VectorBatch) (expr : ExecExpression) : Except String DataType :=
  match projectionSlotPlan expr with
  | .directColumn slot => ColumnData.type <$> directColumn input slot
  | .vectorExpression e => .ok e.type
  | .scalarExpression => .ok expr.returnType

/-- An empty output column. Source: `projection.cpp` ProduceSparseProjection, step 1. -/
def sparseColumn (input : VectorBatch) (expr : ExecExpression) : Except String OutputSlot := do
  return ⟨expr, projectionSlotPlan expr, ⟨← sparseType input expr, [], 0⟩⟩

/-- Source: `projection.cpp` ProduceSparseProjection, step 2. -/
def sparseDirect (input : VectorBatch) (slot : OutputSlot) : Except String OutputSlot :=
  match slot.plan with
  | .directColumn i => slot.fill do gatherColumnDense (← directColumn input i) input.selection input.size
  | _ => .ok slot

/-- The output column that an input column was gathered into. Source: `projection.cpp`
BuildDirectOutputMap. -/
def directOutput (slots : List OutputSlot) (slot : ℕ) : Option ColumnData :=
  (slots.reverse.find? fun output =>
    match output.plan with
    | .directColumn i => i == slot
    | _ => false).map OutputSlot.column

/-- A column of the dense input of the expressions on whole columns, a placeholder where they do not read
it. Source: `projection.cpp` BuildGatheredInput, the body of the loop. -/
def gatheredColumn (gather : List ℕ) (input : VectorBatch) (slots : List OutputSlot) (column : ColumnData × ℕ) :
    Except String ColumnData :=
  if column.2 ∈ gather then
    match directOutput slots column.2 with
    | some gathered => .ok ⟨column.1.type, gathered.buffer, input.size⟩
    | none => gatherColumnDense column.1 input.selection input.size
  else .ok ⟨column.1.type, [], input.size⟩

/-- The dense input of the expressions on whole columns; nothing is built where there are none. Source:
`projection.cpp` BuildGatheredInput, and the condition of its call. -/
def buildGatheredInput (gather : List ℕ) (input : VectorBatch) (slots : List OutputSlot) :
    Except String VectorBatch :=
  if gather = [] then .ok VectorBatch.empty
  else do
    let columns ← input.columns.zipIdx.mapM (gatheredColumn gather input slots)
    return ({ VectorBatch.empty with columns }).setIdentitySelection input.size

/-- Source: `projection.cpp` ProduceSparseProjection, step 4. -/
def sparseVector (backend : Backend) (gathered : VectorBatch) (active : ℕ) (slot : OutputSlot) :
    Except String OutputSlot :=
  match slot.plan with
  | .vectorExpression e =>
    slot.fill (e.evaluateDense backend gathered (ColumnData.resized slot.column.type active) active)
  | _ => .ok slot

/-- Source: `projection.cpp` ProduceSparseProjection, step 5. -/
def sparseScalar (input : VectorBatch) (slot : OutputSlot) : Except String OutputSlot :=
  match slot.plan with
  | .scalarExpression => slot.fill
      (fillScalar slot.expr input input.activeIndices (ColumnData.resized slot.column.type input.size))
  | _ => .ok slot

/-- Source: `projection.cpp` ProduceSparseProjection. -/
def produceSparseProjection (backend : Backend) (expressions : List ExecExpression) (input : VectorBatch) :
    Except String VectorBatch := do
  let slots ← expressions.mapM (sparseColumn input)
  let slots ← slots.mapM (sparseDirect input)
  let gathered ← buildGatheredInput (gatherSlots expressions) input slots
  let slots ← slots.mapM (sparseVector backend gathered input.size)
  let slots ← slots.mapM (sparseScalar input)
  return denseOutput slots input.size

/-- The output for one batch. Source: `projection.cpp` Next, the body of the loop. -/
def projectBatch (backend : Backend) (expressions : List ExecExpression) (input : VectorBatch) :
    Except String VectorBatch :=
  match directSlots expressions with
  | some slots => produceViewProjection slots input
  | none =>
    if input.selection.isAll then produceDenseProjection backend expressions input
    else produceSparseProjection backend expressions input

/-! ## Batches between operators -/

/-- What a batch handed from one operator to the next satisfies: the batch invariant, on at most 1024
physical rows of which at least one is active. -/
structure VectorBatch.Deliverable (b : VectorBatch) : Prop extends b.Strong where
  small : b.selection.rowCount ≤ kVectorBatchSize
  nonempty : 0 < b.size

namespace VectorBatch

/-- The invariant already bounds the rows. -/
theorem Strong.deliverable {b : VectorBatch} (h : b.Strong) (hpos : 0 < b.size) : b.Deliverable :=
  ⟨h, h.selection.1, hpos⟩

/-- A batch has no more active rows than rows. -/
theorem Strong.size_le {b : VectorBatch} (h : b.Strong) : b.size ≤ b.selection.rowCount := by
  rw [h.size, SelectionMask.count_eq h.selection]
  exact List.countP_le_length.trans (List.length_range).le

/-- A batch whose columns have as many elements as it gets active rows. -/
theorem deliverable_setIdentitySelection {b : VectorBatch} {n : ℕ} (hpos : 0 < n)
    (hn : n ≤ kVectorBatchSize) (hcounts : ∀ col ∈ b.columns, col.count = n) :
    (b.setIdentitySelection n).Deliverable :=
  (StorageRowFilter.strong_setIdentitySelection hn hcounts).deliverable hpos

/-- The physical rows of a batch with an active row are those of its selection. -/
theorem Deliverable.physicalSize {b : VectorBatch} (h : b.Deliverable) :
    b.physicalSize = b.selection.rowCount := by
  have hle := h.size_le
  have hpos := h.nonempty
  rw [VectorBatch.physicalSize, if_pos (Or.inl (by omega))]

/-- **The rows that an operator goes through are rows of every column.** -/
theorem Deliverable.lt_count {b : VectorBatch} (h : b.Deliverable) {row : ℕ} (hrow : row ∈ b.activeIndices)
    {col : ColumnData} (hcol : col ∈ b.columns) : row < col.count := by
  rw [h.counts col hcol]
  unfold VectorBatch.activeIndices at hrow
  split_ifs at hrow with hall
  · exact (List.mem_range.mp hrow).trans_le h.size_le
  · rw [SelectionMask.setBits_eq h.selection] at hrow
    exact List.mem_range.mp (List.mem_of_mem_filter hrow)

end VectorBatch

/-! ## What each path makes -/

section

variable {backend : Backend} {input output : VectorBatch} {expressions : List ExecExpression}

/-- The evaluation on whole columns does not resize its output. -/
theorem count_evaluateDense {e : ArithmeticVectorExpression} {column out : ColumnData} {count : ℕ}
    (h : e.evaluateDense backend input column count = .ok out) : out.count = column.count := by
  have hcolumns : ∀ {α : Type} [ArithmeticElement α],
      e.evaluateColumns α backend input column count = .ok out → out.count = column.count := by
    intro α _ h
    obtain ⟨lhs, -, h⟩ := bind_eq_ok h
    obtain ⟨rhs, -, h⟩ := bind_eq_ok h
    rw [← Except.ok.inj h]
    rfl
  have hconst : ∀ {α : Type} [ArithmeticElement α] {get : NumericConstant → Option α},
      e.evaluateConst get backend input column count = .ok out → out.count = column.count := by
    intro α _ get h
    obtain ⟨data, -, h⟩ := bind_eq_ok h
    split at h
    · cases h
    · rw [← Except.ok.inj h]
      rfl
  unfold ArithmeticVectorExpression.evaluateDense at h
  split_ifs at h with hzero htype hkinds
  · rw [Except.ok.inj h]
  · split at h
    any_goals exact hcolumns h
    cases h
  · split at h
    any_goals exact hconst h
    cases h

theorem count_gatherColumnDense {src out : ColumnData} {selection : SelectionMask} {count : ℕ}
    (h : gatherColumnDense src selection count = .ok out) : out.count = count := by
  unfold gatherColumnDense at h
  split at h
  · cases h
  · rw [← Except.ok.inj h]

theorem count_fillScalar {expr : ExecExpression} {rows : List ℕ} {column out : ColumnData}
    (h : fillScalar expr input rows column = .ok out) : out.count = column.count := by
  obtain ⟨cells, -, h⟩ := bind_eq_ok h
  rw [← Except.ok.inj h]

/-- A column of the input has a row for each row of its selection. -/
theorem count_directColumn (hinput : input.Strong) {slot : ℕ} {column : ColumnData}
    (h : directColumn input slot = .ok column) : column.count = input.selection.rowCount := by
  unfold directColumn at h
  split at h
  · cases h
  · next hslot =>
    rw [← Except.ok.inj h]
    exact hinput.counts _ (List.mem_of_getElem? hslot)

/-- Filling a slot replaces its column. -/
theorem OutputSlot.fill_eq_ok {slot slot' : OutputSlot} {column : Except String ColumnData}
    (h : slot.fill column = .ok slot') : ∃ c, column = .ok c ∧ slot' = { slot with column := c } := by
  obtain ⟨c, hc, h⟩ := bind_eq_ok h
  exact ⟨c, hc, (Except.ok.inj h).symm⟩

/-- Columns as long as there are active rows make a deliverable batch. -/
theorem deliverable_denseOutput {slots : List OutputSlot} (hinput : input.Deliverable)
    (h : ∀ slot ∈ slots, slot.column.count = input.size) : (denseOutput slots input.size).Deliverable := by
  apply VectorBatch.deliverable_setIdentitySelection hinput.nonempty (hinput.size_le.trans hinput.small)
  intro col hcol
  obtain ⟨slot, hslot, rfl⟩ := List.mem_map.mp hcol
  exact h slot hslot

/-- Columns as they are keep the selection of the input. -/
theorem deliverable_produceViewProjection {slots : List ℕ} (hinput : input.Deliverable)
    (h : produceViewProjection slots input = .ok output) : output.Deliverable := by
  obtain ⟨columns, hcolumns, h⟩ := bind_eq_ok h
  obtain rfl := Except.ok.inj h
  have hcounts : ∀ col ∈ columns, col.count = input.selection.rowCount := by
    intro col hcol
    obtain ⟨slot, -, hslot⟩ := mem_of_mapM_eq_ok hcolumns hcol
    exact count_directColumn hinput.toStrong hslot
  exact ⟨⟨hinput.selection, hcounts, hinput.size⟩, hinput.small, hinput.nonempty⟩

/-- In a dense batch every row is active. -/
theorem VectorBatch.Strong.size_of_isAll {b : VectorBatch} (h : b.Strong) (hall : b.selection.isAll = true) :
    b.size = b.selection.rowCount := by
  rw [h.size, SelectionMask.count_eq h.selection, List.countP_eq_length.mpr, List.length_range]
  intro row hrow
  exact (SelectionMask.isAll_iff _).mp hall row (List.mem_range.mp hrow)

/-- The first pass gives every column its length, the second keeps it. -/
theorem deliverable_produceDenseProjection (hinput : input.Deliverable)
    (hdense : input.selection.isAll = true)
    (h : produceDenseProjection backend expressions input = .ok output) : output.Deliverable := by
  obtain ⟨slots, hslots, h⟩ := bind_eq_ok h
  obtain ⟨filled, hfilled, h⟩ := bind_eq_ok h
  obtain rfl := Except.ok.inj h
  have hfirst : ∀ slot ∈ slots, slot.column.count = input.size := by
    intro slot hslot
    obtain ⟨expr, -, hexpr⟩ := mem_of_mapM_eq_ok hslots hslot
    obtain ⟨column, hcolumn, hexpr⟩ := bind_eq_ok hexpr
    obtain rfl := Except.ok.inj hexpr
    unfold denseColumnData at hcolumn
    split at hcolumn
    · exact (count_directColumn hinput.toStrong hcolumn).trans (hinput.size_of_isAll hdense).symm
    · exact count_evaluateDense hcolumn
    · rw [← Except.ok.inj hcolumn]
      rfl
  apply deliverable_denseOutput hinput
  intro slot hslot
  obtain ⟨before, hbefore, hscalar⟩ := mem_of_mapM_eq_ok hfilled hslot
  unfold denseScalar at hscalar
  split at hscalar
  · obtain ⟨column, hcolumn, rfl⟩ := OutputSlot.fill_eq_ok hscalar
    exact (count_fillScalar hcolumn).trans (hfirst before hbefore)
  · rw [← Except.ok.inj hscalar]
    exact hfirst before hbefore

/-- Each pass of a sparse projection gives the columns of one kind their length. -/
theorem deliverable_produceSparseProjection (hinput : input.Deliverable)
    (h : produceSparseProjection backend expressions input = .ok output) : output.Deliverable := by
  obtain ⟨slots, -, h⟩ := bind_eq_ok h
  obtain ⟨direct, hdirect, h⟩ := bind_eq_ok h
  obtain ⟨gathered, -, h⟩ := bind_eq_ok h
  obtain ⟨vector, hvector, h⟩ := bind_eq_ok h
  obtain ⟨filled, hfilled, h⟩ := bind_eq_ok h
  obtain rfl := Except.ok.inj h
  have hdirectCount : ∀ slot ∈ direct, ∀ i, slot.plan = .directColumn i → slot.column.count = input.size := by
    intro slot hslot i hplan
    obtain ⟨before, -, hstep⟩ := mem_of_mapM_eq_ok hdirect hslot
    unfold sparseDirect at hstep
    split at hstep
    · obtain ⟨column, hcolumn, rfl⟩ := OutputSlot.fill_eq_ok hstep
      obtain ⟨src, -, hgather⟩ := bind_eq_ok hcolumn
      exact count_gatherColumnDense hgather
    · next hother =>
      obtain rfl := Except.ok.inj hstep
      exact absurd hplan (hother i)
  have hvectorCount : ∀ slot ∈ vector, slot.plan ≠ .scalarExpression → slot.column.count = input.size := by
    intro slot hslot hplan
    obtain ⟨before, hbefore, hstep⟩ := mem_of_mapM_eq_ok hvector hslot
    unfold sparseVector at hstep
    split at hstep
    · obtain ⟨column, hcolumn, rfl⟩ := OutputSlot.fill_eq_ok hstep
      exact count_evaluateDense hcolumn
    · next hother =>
      obtain rfl := Except.ok.inj hstep
      rcases hkind : before.plan with i | e | _
      · exact hdirectCount before hbefore i hkind
      · exact absurd hkind (hother e)
      · exact absurd hkind hplan
  apply deliverable_denseOutput hinput
  intro slot hslot
  obtain ⟨before, hbefore, hstep⟩ := mem_of_mapM_eq_ok hfilled hslot
  unfold sparseScalar at hstep
  split at hstep
  · obtain ⟨column, hcolumn, rfl⟩ := OutputSlot.fill_eq_ok hstep
    exact count_fillScalar hcolumn
  · next hother =>
    obtain rfl := Except.ok.inj hstep
    exact hvectorCount before hbefore hother

/-- **A projection makes a deliverable batch out of a deliverable one**, on each of its paths. -/
theorem deliverable_projectBatch (hinput : input.Deliverable)
    (h : projectBatch backend expressions input = .ok output) : output.Deliverable := by
  unfold projectBatch at h
  split at h
  · exact deliverable_produceViewProjection hinput h
  · split_ifs at h with hdense
    · exact deliverable_produceDenseProjection hinput hdense h
    · exact deliverable_produceSparseProjection hinput h

end

end SimpleOlap
