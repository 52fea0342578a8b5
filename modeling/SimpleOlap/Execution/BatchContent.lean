import SimpleOlap.Execution.Aggregate.BatchSummary
import SimpleOlap.Execution.OperatorRuns
import SimpleOlap.Execution.ProjectionPaths

/-!
# Batches and the rows of a table

* `SameRow`: a row of one batch and a row of another one have the same types and cells. Whatever an operator
  evaluates on a row it evaluates alike on the other.
* `VectorBatch.Content`: a deliverable batch with columns of given types, every physical row of which is one
  of some rows.
* `VectorBatch.Lists`: the active rows of a batch are rows of a table, in the slots of a schema.
* `filterNext_spec`, `projectNext_spec`, `consume_spec`: one batch in a filter, a projection and an aggregate
  is its rows, one after the other.
-/

namespace SimpleOlap

open Lib

/-! ## Equal rows -/

/-- Row `r` of a batch is row `r'` of another one. -/
structure SameRow (b : VectorBatch) (r : ℕ) (b' : VectorBatch) (r' : ℕ) : Prop where
  types : b.columns.map ColumnData.type = b'.columns.map ColumnData.type
  cells : b.physicalRow r = b'.physicalRow r'
  inside : ∀ col ∈ b.columns, r < col.count
  inside' : ∀ col ∈ b'.columns, r' < col.count

section

variable {b b' : VectorBatch} {r r' : ℕ}

/-- The columns at a slot, if there are any, have one element. -/
theorem SameRow.column (h : SameRow b r b' r') (slot : ℕ) :
    b.columns[slot]? = none ∧ b'.columns[slot]? = none ∨
    ∃ col col', b.columns[slot]? = some col ∧ b'.columns[slot]? = some col' ∧
      readExecValue col r = readExecValue col' r' := by
  have htype := congrArg (·[slot]?) h.types
  have hcell := congrArg (·[slot]?) h.cells
  simp only [VectorBatch.physicalRow, List.getElem?_map] at htype hcell
  rcases hcol : b.columns[slot]? with _ | col <;> rcases hcol' : b'.columns[slot]? with _ | col'
  · exact .inl ⟨rfl, rfl⟩
  · simp [hcol, hcol'] at htype
  · simp [hcol, hcol'] at htype
  · simp only [hcol, hcol', Option.map_some, Option.some.injEq] at htype hcell
    refine .inr ⟨col, col', rfl, rfl, readExecValue_congr htype ?_ ?_ hcell⟩
    · exact h.inside col (List.mem_of_getElem? hcol)
    · exact h.inside' col' (List.mem_of_getElem? hcol')

/-- **An expression has one value on equal rows.** -/
theorem SameRow.eval (h : SameRow b r b' r') (expr : ExecExpression) :
    expr.eval b r = expr.eval b' r' := by
  induction expr with
  | columnRef slot type =>
    rcases h.column slot with ⟨hcol, hcol'⟩ | ⟨col, col', hcol, hcol', hread⟩
    · simp only [ExecExpression.eval, hcol, hcol']
    · simp only [ExecExpression.eval, hcol, hcol', hread]
  | literal value type => rfl
  | binary op left right type ihl ihr => cases op <;> simp only [ExecExpression.eval, ihl, ihr]

/-- The same rows pass a test. -/
theorem SameRow.rowHolds (h : SameRow b r b' r') (expr : ExecExpression) :
    expr.rowHolds b r = expr.rowHolds b' r' := by
  rw [ExecExpression.rowHolds, h.eval, ExecExpression.rowHolds]

/-- The same values are shown. -/
theorem SameRow.projected (h : SameRow b r b' r') (expr : ExecExpression) :
    expr.projected b r = expr.projected b' r' := by
  cases expr <;> simp only [ExecExpression.projected, h.eval]

/-- The same aggregate. -/
theorem SameRow.updateAggregate (h : SameRow b r b' r') (call : AggCallSpec) (state : AggState) :
    updateAggregate call state b r = updateAggregate call state b' r' := by
  simp only [SimpleOlap.updateAggregate, h.eval]

/-- The same aggregates. -/
theorem SameRow.updateStates (h : SameRow b r b' r') (calls : List AggCallSpec) (states : List AggState) :
    updateStates calls states b r = updateStates calls states b' r' := by
  simp only [SimpleOlap.updateStates, h.updateAggregate]

/-- The same group. -/
theorem SameRow.evalGroupKey (h : SameRow b r b' r') (spec : AggregateSpec) :
    spec.evalGroupKey b r = spec.evalGroupKey b' r' := by
  simp only [AggregateSpec.evalGroupKey, h.eval]

end

/-! ## Batches of a scan -/

/-- A deliverable batch with columns of these types, filled, whose physical rows all have a property. -/
structure VectorBatch.Content (types : List DataType) (P : Row → Prop) (b : VectorBatch) : Prop
    extends b.Deliverable where
  types : b.columns.map ColumnData.type = types
  filled : b.Filled
  rows : ∀ r < b.selection.rowCount, P (b.physicalRow r)

/-- The types of the slots of a schema. -/
def slotTypes (schema : ExecSchema) : List DataType := schema.map ExecSlot.type

namespace TableContent

variable (t : TableContent) (schema : ExecSchema)

/-- The cells of a row in the slots of a schema. -/
def slotRow (row : Row) : Row := (t.rowBatch schema row).physicalRow 0

/-- The rows of the table, in the slots. -/
def Shown (cells : Row) : Prop := ∃ row ∈ t.rows, cells = t.slotRow schema row

/-- The types of the columns of a row. -/
theorem types_rowBatch (row : Row) :
    (t.rowBatch schema row).columns.map ColumnData.type = slotTypes schema := by
  rw [rowBatch, List.map_map, slotTypes]
  refine List.map_congr_left fun slot _ => ?_
  rw [Function.comp_apply, slotData]
  split <;> rfl

/-- One row has one cell in each column. -/
theorem count_rowBatch {row : Row} {col : ColumnData} (h : col ∈ (t.rowBatch schema row).columns) :
    col.count = 1 := by
  obtain ⟨slot, -, rfl⟩ := List.mem_map.mp h
  rw [slotData]
  split <;> rfl

end TableContent

/-- The active rows of a batch are these rows of a table, in the slots of a schema. -/
def VectorBatch.Lists (t : TableContent) (schema : ExecSchema) (b : VectorBatch) (rows : List Row) : Prop :=
  List.Forall₂ (fun r row => SameRow b r (t.rowBatch schema row) 0) b.activeIndices rows

section

variable {t : TableContent} {schema : ExecSchema} {types : List DataType} {P : Row → Prop}
  {b : VectorBatch} {rows : List Row}

/-- The active rows, by their places. -/
theorem VectorBatch.activeRows_eq_map (h : b.Strong) : b.activeRows = b.activeIndices.map b.physicalRow := by
  rw [VectorBatch.activeRows, VectorBatch.filter_test, VectorBatch.activeIndices_eq_setBits h,
    SelectionMask.setBits_eq h.selection]

/-- Another selection of the same rows. -/
theorem VectorBatch.Content.select {b' : VectorBatch} (h : b.Content types P) (hcolumns : b'.columns = b.columns)
    (hrows : b'.selection.rowCount = b.selection.rowCount) (hb' : b'.Deliverable) : b'.Content types P where
  toDeliverable := hb'
  types := hcolumns ▸ h.types
  filled col hcol := h.filled col (hcolumns ▸ hcol)
  rows r hr := by
    rw [VectorBatch.physicalRow, hcolumns]
    exact h.rows r (hrows ▸ hr)

/-- A physical row with the cells of a row of the table. -/
theorem sameRow_rowBatch (hb : b.Content (slotTypes schema) P) {r : ℕ} {row : Row}
    (hr : r < b.selection.rowCount) (hcells : b.physicalRow r = t.slotRow schema row) :
    SameRow b r (t.rowBatch schema row) 0 where
  types := hb.types.trans (t.types_rowBatch schema row).symm
  cells := hcells
  inside col hcol := (hb.counts col hcol).symm ▸ hr
  inside' _ hcol := (t.count_rowBatch schema hcol).symm ▸ Nat.one_pos

/-- An active row is a physical row. -/
theorem VectorBatch.Strong.lt_of_mem_activeIndices (h : b.Strong) {r : ℕ} (hr : r ∈ b.activeIndices) :
    r < b.selection.rowCount ∧ b.selection.bit r = true := by
  rw [VectorBatch.activeIndices_eq_setBits h, SelectionMask.setBits_eq h.selection] at hr
  obtain ⟨hlt, hbit⟩ := List.mem_filter.mp hr
  exact ⟨List.mem_range.mp hlt, hbit⟩

/-- A row whose bit is set is active. -/
theorem VectorBatch.Strong.mem_activeIndices (h : b.Strong) {r : ℕ} (hr : b.selection.bit r = true) :
    r ∈ b.activeIndices := by
  rw [VectorBatch.activeIndices_eq_setBits h, SelectionMask.setBits_eq h.selection]
  refine List.mem_filter.mpr ⟨List.mem_range.mpr ?_, hr⟩
  by_contra hge
  rw [h.selection.unused r (Nat.not_lt.mp hge)] at hr
  cases hr

/-- **The active rows by their cells.** -/
theorem lists_of_activeRows (hb : b.Content (slotTypes schema) P)
    (h : b.activeRows = rows.map (t.slotRow schema)) : b.Lists t schema rows := by
  rw [VectorBatch.activeRows_eq_map hb.toStrong] at h
  have hlen := congrArg List.length h
  rw [List.length_map, List.length_map] at hlen
  refine List.forall₂_iff_get.mpr ⟨hlen, fun i hi hi' => ?_⟩
  obtain ⟨hlt, -⟩ := hb.toStrong.lt_of_mem_activeIndices (List.get_mem b.activeIndices ⟨i, hi⟩)
  refine sameRow_rowBatch hb hlt ?_
  have hi₀ : i < (b.activeIndices.map b.physicalRow).length := by simpa using hi
  have hget := List.getElem_of_eq h hi₀
  simpa using hget

/-! ## One batch in a filter -/

/-- Nothing for no rows, otherwise a batch that lists them. -/
def Part (t : TableContent) (schema : ExecSchema) (P : Row → Prop) : Option VectorBatch → List Row → Prop
  | none, rows => rows = []
  | some b, rows => b.Content (slotTypes schema) P ∧ b.Lists t schema rows

/-- The rows that pass a test, of a list and of the rows it stands for. -/
theorem forall₂_filter {α β : Type} {R : α → β → Prop} {keep : α → Bool} {keep' : β → Bool} {xs : List α}
    {ys : List β} (h : List.Forall₂ R xs ys) (hkeep : ∀ x y, R x y → x ∈ xs → keep x = keep' y) :
    List.Forall₂ R (xs.filter keep) (ys.filter keep') := by
  induction h with
  | nil => exact .nil
  | @cons x y xs ys hxy _ ih =>
    have htail := ih fun x' y' hR hx' => hkeep x' y' hR (List.mem_cons_of_mem x hx')
    rw [List.filter_cons, List.filter_cons, hkeep x y hxy List.mem_cons_self]
    split
    · exact .cons hxy htail
    · exact htail

/-- What a filter hands over, once its mask is computed. -/
def VectorBatch.kept (b : VectorBatch) (mask : SelectionMask) : Option VectorBatch :=
  if mask.isEmpty then none
  else if mask.isAll then some (b.setIdentitySelection b.selection.rowCount)
  else some (b.setSelection mask)

/-- The filter hands it over. -/
theorem filterNext_of_evaluate {predicate : VectorPredicate} {mask : SelectionMask} (hb : b.Deliverable)
    (h : predicate.evaluate b b.selection.rowCount b.selection = .ok mask) :
    filterNext predicate b = .ok (b.kept mask) := by
  have hpos : 0 < b.selection.rowCount := hb.nonempty.trans_le hb.size_le
  rw [filterNext, hb.physicalSize, if_neg hpos.ne', h]
  unfold VectorBatch.kept
  show (if mask.isEmpty = true then .ok none else if mask.isAll = true then _ else _ :
    Except String (Option VectorBatch)) = _
  split_ifs <;> rfl

/-- A test that fails on an active row fails in the pass over the rows. -/
theorem keepM_of_agrees_error {expr : ExecExpression} {e : String} (hb : b.Strong) (hlists : b.Lists t schema rows)
    (h : Agrees (expr.rowHolds b) b.selection (.error e)) :
    ∃ e', keepM (fun row => expr.rowHolds (t.rowBatch schema row) 0) rows = .error e' := by
  obtain ⟨r, hr, e', he'⟩ := h
  obtain ⟨row, hrow, hsame⟩ := exists_of_mem_left hlists (hb.mem_activeIndices hr)
  rcases hkept : keepM (fun row => expr.rowHolds (t.rowBatch schema row) 0) rows with e'' | kept
  · exact ⟨e'', rfl⟩
  · obtain ⟨keep, hkeep, -⟩ := keepM_eq_ok_iff.mp hkept
    have hbad := ((hsame.rowHolds expr).symm.trans he').symm.trans (hkeep row hrow)
    cases hbad

/-- The rows that a mask keeps are those that pass. -/
theorem keepM_of_agrees_ok {expr : ExecExpression} {mask : SelectionMask} (hb : b.Strong)
    (hlists : b.Lists t schema rows) (h : Agrees (expr.rowHolds b) b.selection (.ok mask)) :
    ∃ kept, keepM (fun row => expr.rowHolds (t.rowBatch schema row) 0) rows = .ok kept ∧
      List.Forall₂ (fun r row => SameRow b r (t.rowBatch schema row) 0)
        ((List.range mask.rowCount).filter mask.bit) kept := by
  obtain ⟨-, hcount, hsub, htest⟩ := h
  have hbit : ∀ r ∈ b.activeIndices, expr.rowHolds b r = .ok (mask.bit r) := fun r hr =>
    htest r (hb.lt_of_mem_activeIndices hr).2
  refine ⟨rows.filter fun row => (expr.rowHolds (t.rowBatch schema row) 0).toOption.getD false,
    keepM_eq_ok_iff.mpr ⟨_, fun row hrow => ?_, rfl⟩, ?_⟩
  · obtain ⟨r, hr, hsame⟩ := exists_of_mem_right hlists hrow
    rw [← hsame.rowHolds expr, hbit r hr]
    rfl
  · have hindices : (List.range mask.rowCount).filter mask.bit = b.activeIndices.filter mask.bit := by
      rw [VectorBatch.activeIndices_eq_setBits hb, SelectionMask.setBits_eq hb.selection,
        List.filter_filter, hcount]
      refine List.filter_congr fun r _ => ?_
      by_cases hr : mask.bit r = true
      · rw [hr, hsub r hr, Bool.and_self]
      · rw [Bool.eq_false_iff.mpr hr, Bool.false_and]
    rw [hindices]
    refine forall₂_filter hlists fun r row hsame hr => ?_
    rw [← hsame.rowHolds expr, hbit r hr]
    rfl

/-- The output lists the rows that the mask keeps. -/
theorem part_kept {predicate : VectorPredicate} {mask : SelectionMask} {kept : List Row}
    (hb : b.Content (slotTypes schema) P) (hresult : predicate.evaluate b b.selection.rowCount b.selection = .ok mask)
    (hwf : mask.WF) (hcount : mask.rowCount = b.selection.rowCount)
    (hrows : List.Forall₂ (fun r row => SameRow b r (t.rowBatch schema row) 0)
      ((List.range mask.rowCount).filter mask.bit) kept) : Part t schema P (b.kept mask) kept := by
  have hpos : 0 < b.selection.rowCount := hb.nonempty.trans_le hb.size_le
  have hnext := filterNext_of_evaluate hb.toDeliverable hresult
  rw [VectorBatch.kept] at hnext ⊢
  split_ifs at hnext ⊢ with hempty hall
  · have hnone : (List.range mask.rowCount).filter mask.bit = [] := by
      refine List.filter_eq_nil_iff.mpr fun r _ => ?_
      rw [(SelectionMask.isEmpty_iff mask).mp hempty r]
      exact Bool.false_ne_true
    rw [hnone] at hrows
    exact List.forall₂_nil_left_iff.mp hrows
  · have hout := deliverable_filterNext hb.toDeliverable hnext
    have hmin : min b.selection.rowCount kVectorBatchSize = b.selection.rowCount := Nat.min_eq_left hb.small
    refine ⟨hb.select rfl (by simp [VectorBatch.setIdentitySelection, hmin]) hout, ?_⟩
    have hindices : (b.setIdentitySelection b.selection.rowCount).activeIndices =
        (List.range mask.rowCount).filter mask.bit := by
      rw [VectorBatch.activeIndices_setIdentitySelection, hcount, List.filter_eq_self.mpr]
      intro r hr
      exact (SelectionMask.isAll_iff mask).mp hall r (hcount ▸ List.mem_range.mp hr)
    show List.Forall₂ _ (b.setIdentitySelection b.selection.rowCount).activeIndices _
    rw [hindices]
    exact hrows.imp fun r row h => ⟨h.types, h.cells, h.inside, h.inside'⟩
  · have hout := deliverable_filterNext hb.toDeliverable hnext
    refine ⟨hb.select rfl hcount hout, ?_⟩
    show List.Forall₂ _ (b.setSelection mask).activeIndices _
    rw [VectorBatch.activeIndices_eq_setBits hout.toStrong]
    show List.Forall₂ _ mask.setBits _
    rw [SelectionMask.setBits_eq hwf]
    exact hrows.imp fun r row h => ⟨h.types, h.cells, h.inside, h.inside'⟩

/-- **A filter on a batch is the test of its rows**, one after the other. -/
theorem filterNext_spec {expr : ExecExpression} (hb : b.Content (slotTypes schema) P) (hfits : expr.Fits b)
    (hlists : b.Lists t schema rows) :
    Alike (Part t schema P) (filterNext (compileVectorPredicate expr) b)
      (keepM (fun row => expr.rowHolds (t.rowBatch schema row) 0) rows) := by
  have hpos : 0 < b.selection.rowCount := hb.nonempty.trans_le hb.size_le
  have hagrees := ExecExpression.agrees_evaluate expr hb.toStrong hfits hb.selection rfl
  cases hresult : (compileVectorPredicate expr).evaluate b b.selection.rowCount b.selection with
  | error e =>
    rw [hresult] at hagrees
    obtain ⟨e', he'⟩ := keepM_of_agrees_error hb.toStrong hlists hagrees
    rw [he', filterNext, hb.physicalSize, if_neg hpos.ne', hresult]
    trivial
  | ok mask =>
    rw [hresult] at hagrees
    obtain ⟨kept, hkept, hrows⟩ := keepM_of_agrees_ok hb.toStrong hlists hagrees
    rw [filterNext_of_evaluate hb.toDeliverable hresult, hkept]
    exact part_kept hb hresult hagrees.1 hagrees.2.1 hrows

/-! ## One batch in a projection -/

/-- The columns of an expression are slots of a schema, with their types. -/
def ExecExpression.Typed (schema : ExecSchema) : ExecExpression → Prop
  | .columnRef slot type => (slotTypes schema)[slot]? = some type
  | .literal _ _ => True
  | .binary _ left right _ => left.Typed schema ∧ right.Typed schema

/-- Where an expression is computed on whole columns, it is a sum or a difference of integers that stays in the
range of its type. -/
def ExecExpression.InRangeOn (t : TableContent) (schema : ExecSchema) (rows : List Row)
    (expr : ExecExpression) : Prop :=
  ∀ e, projectionSlotPlan expr = .vectorExpression e →
    (e.type = .int32 ∨ e.type = .int64) ∧ ∀ row ∈ rows, InRange e.type
      (e.op.exact (e.lhs.intAt (t.rowBatch schema row) 0) (e.rhs.intAt (t.rowBatch schema row) 0))

/-- The slots that an expression on whole columns reads have its type. -/
theorem type_of_mem_inputSlots {expr : ExecExpression} (htyped : expr.Typed schema)
    {e : ArithmeticVectorExpression} (hplan : projectionSlotPlan expr = .vectorExpression e) {slot : ℕ}
    (hslot : slot ∈ e.inputSlots) : (slotTypes schema)[slot]? = some e.type := by
  obtain ⟨left, right, rfl, hlhs, hrhs, -⟩ := projectionSlotPlan_eq_vectorExpression hplan
  rcases List.mem_append.mp hslot with hmem | hmem <;> split_ifs at hmem with hkind
  · obtain rfl := List.mem_singleton.mp hmem
    rcases classifyOperand_cases hlhs with ⟨-, rfl⟩ | ⟨hconst, -⟩
    · exact htyped.1
    · simp [hkind] at hconst
  · cases hmem
  · obtain rfl := List.mem_singleton.mp hmem
    rcases classifyOperand_cases hrhs with ⟨-, rfl⟩ | ⟨hconst, -⟩
    · exact htyped.2
    · simp [hkind] at hconst
  · cases hmem

/-- The integer of an operand is the same in equal rows. -/
theorem SameRow.intAt {b b' : VectorBatch} {r r' : ℕ} (h : SameRow b r b' r') (operand : ArithmeticOperand) :
    operand.intAt b r = operand.intAt b' r' := by
  unfold ArithmeticOperand.intAt
  cases operand.kind with
  | constant => rfl
  | column =>
    have hcell := congrArg (·[operand.columnSlot]?) h.cells
    simp only [VectorBatch.physicalRow, List.getElem?_map] at hcell
    rcases h.column operand.columnSlot with ⟨hcol, hcol'⟩ | ⟨col, col', hcol, hcol', -⟩
    · simp only [hcol, hcol']
    · simp only [hcol, hcol', Option.map_some, Option.some.injEq] at hcell
      simp only [hcol, hcol', hcell]

/-- What is in range of its rows is computed row by row. -/
theorem evaluatesRowwise_of_inRangeOn {backend : Backend} {expr : ExecExpression}
    (hb : b.Content (slotTypes schema) P) (hlists : b.Lists t schema rows) (htyped : expr.Typed schema)
    (hrange : expr.InRangeOn t schema rows) {e : ArithmeticVectorExpression}
    (hplan : projectionSlotPlan expr = .vectorExpression e) : EvaluatesRowwise backend b expr e := by
  obtain ⟨htype, hrows⟩ := hrange e hplan
  refine evaluatesRowwise_of_inRange hb.toDeliverable hplan htype (fun slot hslot => ?_) fun r hr => ?_
  · have hsome := type_of_mem_inputSlots htyped hplan hslot
    rw [← hb.types, List.getElem?_map, Option.map_eq_some_iff] at hsome
    exact hsome
  · obtain ⟨row, hrow, hsame⟩ := exists_of_mem_left hlists hr
    rw [hsame.intAt e.lhs, hsame.intAt e.rhs]
    exact hrows row hrow

/-- The rows of a batch that may not be there. -/
def readOutput : Option VectorBatch → Except String (List (List ExecValue))
  | none => .ok []
  | some b => b.activeValues

/-- **A projection of a batch is that of its rows**, one after the other. -/
theorem projectNext_spec {backend : Backend} {exprs : List ExecExpression}
    (hb : b.Content (slotTypes schema) P) (hlists : b.Lists t schema rows)
    (htyped : ∀ expr ∈ exprs, expr.Typed schema) (hrange : ∀ expr ∈ exprs, expr.InRangeOn t schema rows) :
    Alike Eq (projectNext backend exprs b >>= readOutput)
      (rows.mapM fun row => exprs.mapM (projectValue (t.rowBatch schema row))) := by
  have hrowwise : ∀ expr ∈ exprs, ∀ e, projectionSlotPlan expr = .vectorExpression e →
      EvaluatesRowwise backend b expr e := fun expr hexpr e hplan =>
    evaluatesRowwise_of_inRangeOn hb hlists (htyped expr hexpr) (hrange expr hexpr) hplan
  have houtput : outputRows (projectBatch backend exprs b) = (projectedRows exprs b).toOption := by
    unfold projectBatch
    split
    · next slots hslots => exact outputRows_produceViewProjection hb.toDeliverable hslots
    · split_ifs with hall
      · exact outputRows_produceDenseProjection hb.toDeliverable hall hrowwise
      · exact outputRows_produceSparseProjection hb.toDeliverable hb.filled hrowwise
  have hrows : projectedRows exprs b = rows.mapM fun row => exprs.mapM (projectValue (t.rowBatch schema row)) := by
    refine mapM_congr (hlists.imp fun r row hsame => ?_)
    refine mapM_congr (List.forall₂_same.mpr fun expr _ => ?_)
    rw [hsame.projected expr]
    cases expr <;> rfl
  rw [← hrows]
  refine Alike.of_toOption (Eq.trans ?_ houtput)
  rw [projectNext, if_neg hb.nonempty.ne']
  cases projectBatch backend exprs b <;> rfl

/-! ## One batch in an aggregate -/

/-- The one row of a batch, grouped. -/
theorem consume_rowBatch {spec : AggregateSpec} {s : HashAggregateState} {row : Row}
    (hs : spec.isGlobal = true → s.globalStates.length = spec.aggCalls.length) :
    s.consume spec (t.rowBatch schema row) =
      if spec.isGlobal then do
        let states ← updateStates spec.aggCalls s.globalStates (t.rowBatch schema row) 0
        return { s with globalStates := states }
      else do
        let key ← spec.evalGroupKey (t.rowBatch schema row) 0
        let groups ← s.groups.modify key spec.makeStates fun states =>
          updateStates spec.aggCalls states (t.rowBatch schema row) 0
        return { s with groups := groups } := by
  have hstrong : (t.rowBatch schema row).Strong :=
    { selection := SelectionMask.WF.setAll 1
      counts := fun col hcol => t.count_rowBatch schema hcol
      size := (by decide : 1 = (SelectionMask.setAll 1).count) }
  unfold HashAggregateState.consume
  split_ifs with hglobal
  · rw [HashAggregateState.consumeGlobal_eq (hs hglobal) hstrong, HashAggregateState.consumeGlobalRows,
      activeIndices_rowBatch, List.foldlM_cons]
    simp only [List.foldlM_nil, bind_pure]
  · rw [HashAggregateState.consumeGrouped, activeIndices_rowBatch, List.foldlM_cons]
    simp only [List.foldlM_nil, bind_pure, bind_assoc]

/-- Rows of a batch in a global aggregate. -/
theorem foldlM_updateStates {spec : AggregateSpec} (hglobal : spec.isGlobal = true) {indices : List ℕ}
    (h : List.Forall₂ (fun r row => SameRow b r (t.rowBatch schema row) 0) indices rows)
    {s : HashAggregateState} (hs : s.globalStates.length = spec.aggCalls.length) :
    (do
      let states ← indices.foldlM (fun states r => updateStates spec.aggCalls states b r) s.globalStates
      return { s with globalStates := states }) =
      rows.foldlM (fun (s : HashAggregateState) row => s.consume spec (t.rowBatch schema row)) s := by
  induction h generalizing s with
  | nil => rfl
  | @cons r row indices rows hsame _ ih =>
    rw [List.foldlM_cons, List.foldlM_cons, consume_rowBatch fun _ => hs, if_pos hglobal, hsame.updateStates]
    rcases hstates : updateStates spec.aggCalls s.globalStates (t.rowBatch schema row) 0 with e | states
    · rfl
    · exact ih (s := { s with globalStates := states }) (length_updateStates hs hstates)

/-- Rows of a batch in a grouped one. -/
theorem foldlM_modify {spec : AggregateSpec} (hglobal : ¬ spec.isGlobal = true) {indices : List ℕ}
    (h : List.Forall₂ (fun r row => SameRow b r (t.rowBatch schema row) 0) indices rows)
    {s : HashAggregateState} :
    (do
      let groups ← indices.foldlM (fun (groups : GroupTable) r => do
        let key ← spec.evalGroupKey b r
        groups.modify key spec.makeStates fun states => updateStates spec.aggCalls states b r) s.groups
      return { s with groups := groups }) =
      rows.foldlM (fun (s : HashAggregateState) row => s.consume spec (t.rowBatch schema row)) s := by
  induction h generalizing s with
  | nil => rfl
  | @cons r row indices rows hsame _ ih =>
    rw [List.foldlM_cons, List.foldlM_cons, consume_rowBatch fun hpos => absurd hpos hglobal, if_neg hglobal,
      hsame.evalGroupKey]
    rcases spec.evalGroupKey (t.rowBatch schema row) 0 with e | key
    · rfl
    · have hupdate : (fun states => updateStates spec.aggCalls states b r) =
          fun states => updateStates spec.aggCalls states (t.rowBatch schema row) 0 :=
        funext fun states => hsame.updateStates spec.aggCalls states
      show (do
        let groups ← (s.groups.modify key spec.makeStates fun states =>
          updateStates spec.aggCalls states b r) >>= fun groups => List.foldlM _ groups indices
        return { s with groups := groups }) = _
      rw [hupdate]
      show _ = ((do
        let groups ← s.groups.modify key spec.makeStates fun states =>
          updateStates spec.aggCalls states (t.rowBatch schema row) 0
        return { s with groups := groups }) >>= fun s => List.foldlM _ s rows)
      rcases s.groups.modify key spec.makeStates fun states =>
          updateStates spec.aggCalls states (t.rowBatch schema row) 0 with e | groups
      · rfl
      · exact ih (s := { s with groups := groups })

/-- **Consuming a batch is consuming its rows**, one after the other. -/
theorem consume_spec {spec : AggregateSpec} (hb : b.Strong) (hlists : b.Lists t schema rows)
    {s : HashAggregateState} (hs : spec.isGlobal = true → s.globalStates.length = spec.aggCalls.length) :
    s.consume spec b =
      rows.foldlM (fun (s : HashAggregateState) row => s.consume spec (t.rowBatch schema row)) s := by
  by_cases hglobal : spec.isGlobal = true
  · rw [← foldlM_updateStates hglobal hlists (hs hglobal), HashAggregateState.consume, if_pos hglobal,
      HashAggregateState.consumeGlobal_eq (hs hglobal) hb]
    rfl
  · rw [← foldlM_modify hglobal hlists, HashAggregateState.consume, if_neg hglobal]
    rfl

/-- Consuming rows keeps the number of states. -/
theorem length_globalStates_foldlM {spec : AggregateSpec} {s s' : HashAggregateState}
    (hs : spec.isGlobal = true → s.globalStates.length = spec.aggCalls.length)
    (h : rows.foldlM (fun (s : HashAggregateState) row => s.consume spec (t.rowBatch schema row)) s = .ok s') :
    spec.isGlobal = true → s'.globalStates.length = spec.aggCalls.length := by
  induction rows generalizing s with
  | nil =>
    cases h
    exact hs
  | cons row rows ih =>
    rw [List.foldlM_cons] at h
    obtain ⟨s₁, hs₁, h⟩ := bind_eq_ok h
    refine ih (fun hglobal => ?_) h
    rw [consume_rowBatch hs, if_pos hglobal] at hs₁
    obtain ⟨states, hstates, hs₁⟩ := bind_eq_ok hs₁
    cases hs₁
    exact length_updateStates (hs hglobal) hstates

/-- **An aggregate over batches is one over their rows.** -/
theorem foldlM_consume_eq {spec : AggregateSpec} {batches : List VectorBatch} {parts : List (List Row)}
    (h : List.Forall₂ (fun b rows => VectorBatch.Strong b ∧ b.Lists t schema rows) batches parts)
    {s : HashAggregateState} (hs : spec.isGlobal = true → s.globalStates.length = spec.aggCalls.length) :
    batches.foldlM (fun (s : HashAggregateState) b => s.consume spec b) s =
      parts.flatten.foldlM (fun (s : HashAggregateState) row => s.consume spec (t.rowBatch schema row)) s := by
  rw [foldlM_flatten]
  induction h generalizing s with
  | nil => rfl
  | @cons b rows batches parts hb _ ih =>
    rw [List.foldlM_cons, List.foldlM_cons, consume_spec hb.1 hb.2 hs]
    rcases hrows : rows.foldlM (fun (s : HashAggregateState) row => s.consume spec (t.rowBatch schema row)) s
      with e | s'
    · rfl
    · exact ih (length_globalStates_foldlM hs hrows)

/-! ## Streams of batches -/

/-- The batches list the rows of a table, one part of them each. -/
def Streamed (t : TableContent) (schema : ExecSchema) (batches : List VectorBatch) (rows : List Row) : Prop :=
  ∃ parts : List (List Row), parts.flatten = rows ∧
    List.Forall₂ (fun b part => b.Content (slotTypes schema) (t.Shown schema) ∧ b.Lists t schema part) batches parts

/-- The rows of the batches, as their consumer reads them. Source: `query_result.h` Append. -/
def readBatches (batches : List VectorBatch) : Except String (List (List ExecValue)) :=
  List.flatten <$> batches.mapM VectorBatch.activeValues

variable {batches : List VectorBatch}

/-- Batches by the cells of their active rows. -/
theorem streamed_of_activeRows (hall : ∀ b ∈ batches, b.Content (slotTypes schema) (t.Shown schema))
    (h : batches.flatMap VectorBatch.activeRows = rows.map (t.slotRow schema)) : Streamed t schema batches rows := by
  obtain ⟨parts, hparts, heach⟩ := exists_parts h
  refine ⟨parts, hparts, ?_⟩
  have hboth := (List.forall₂_and_left _ _).mpr ⟨hall, heach⟩
  exact hboth.imp fun b part hb => ⟨hb.1, lists_of_activeRows hb.1 hb.2⟩

/-- Parts that are there make a stream. -/
theorem streamed_of_parts {outs : List (Option VectorBatch)} {parts : List (List Row)}
    (h : List.Forall₂ (Part t schema (t.Shown schema)) outs parts) :
    Streamed t schema outs.reduceOption parts.flatten := by
  induction h with
  | nil => exact ⟨[], rfl, .nil⟩
  | @cons out part outs parts hpart _ ih =>
    obtain ⟨parts', hparts', hall⟩ := ih
    rcases out with _ | b
    · obtain rfl : part = [] := hpart
      rw [List.reduceOption_cons_of_none]
      exact ⟨parts', hparts', hall⟩
    · rw [List.reduceOption_cons_of_some, List.flatten_cons]
      exact ⟨part :: parts', by rw [List.flatten_cons, hparts'], .cons hpart hall⟩

/-- **A filter on a stream is the test of its rows.** -/
theorem Streamed.filter {expr : ExecExpression} (h : Streamed t schema batches rows)
    (hfits : ∀ b : VectorBatch, b.Content (slotTypes schema) (t.Shown schema) → expr.Fits b) :
    Alike (fun outs kept => Streamed t schema outs.reduceOption kept)
      (batches.mapM (filterNext (compileVectorPredicate expr)))
      (keepM (fun row => expr.rowHolds (t.rowBatch schema row) 0) rows) := by
  obtain ⟨parts, rfl, hall⟩ := h
  rw [keepM_flatten, ← id_map (batches.mapM _)]
  refine (Alike.mapM (S := Part t schema (t.Shown schema)) (hall.imp fun b part hb => ?_)).map
    fun outs kept hparts => streamed_of_parts hparts
  exact filterNext_spec hb.1 (hfits b hb.1) hb.2

/-- Outputs that are not there have no rows. -/
theorem readBatches_reduceOption (outs : List (Option VectorBatch)) :
    readBatches outs.reduceOption = List.flatten <$> outs.mapM readOutput := by
  unfold readBatches
  induction outs with
  | nil => rfl
  | cons out outs ih =>
    rcases out with _ | b
    · rw [List.reduceOption_cons_of_none, List.mapM_cons, ih, readOutput]
      rcases outs.mapM readOutput with e | values <;> rfl
    · rw [List.reduceOption_cons_of_some, List.mapM_cons, List.mapM_cons, readOutput]
      simp only [map_bind, map_pure, List.flatten_cons]
      refine bind_congr fun values => ?_
      have hrest := congrArg (fun x => (values ++ ·) <$> x) ih
      simpa only [← comp_map, map_eq_pure_bind, bind_assoc, pure_bind] using hrest

/-- **A projection of a stream is that of its rows.** -/
theorem Streamed.project {backend : Backend} {exprs : List ExecExpression} (h : Streamed t schema batches rows)
    (htyped : ∀ expr ∈ exprs, expr.Typed schema) (hrange : ∀ expr ∈ exprs, expr.InRangeOn t schema rows) :
    Alike Eq (batches.mapM (projectNext backend exprs) >>= fun outs => readBatches outs.reduceOption)
      (rows.mapM fun row => exprs.mapM (projectValue (t.rowBatch schema row))) := by
  obtain ⟨parts, rfl, hall⟩ := h
  have hsome : ∀ part ∈ parts, ∀ expr ∈ exprs, expr.InRangeOn t schema part := by
    intro part hpart expr hexpr e he
    obtain ⟨htype, hrows⟩ := hrange expr hexpr e he
    exact ⟨htype, fun row hrow => hrows row (List.mem_flatten_of_mem hpart hrow)⟩
  have hsteps : Alike (List.Forall₂ Eq) (batches.mapM fun b => projectNext backend exprs b >>= readOutput)
      (parts.mapM fun part => part.mapM fun row => exprs.mapM (projectValue (t.rowBatch schema row))) := by
    have hboth := ((List.forall₂_and_left _ _).mpr ⟨hsome, hall.flip⟩).flip
    exact Alike.mapM (hboth.imp fun b part hb => projectNext_spec hb.2.1 hb.2.2 htyped hb.1)
  have hpass := Alike.mapM_bind (projectNext backend exprs) readOutput batches
  rw [mapM_flatten]
  simp only [readBatches_reduceOption]
  rw [← map_bind]
  refine Alike.map (R := List.Forall₂ Eq) ?_ fun values parts h => ?_
  · exact hpass.trans hsteps fun a b c hab hbc => hab ▸ hbc
  · rw [List.forall₂_eq_eq_eq] at h
    rw [h]

end

end SimpleOlap
