import SimpleOlap.Planner.LogicalPlan
import SimpleOlap.Storage.Metadata

/-!
# From plans to executors

* `compileExecExpr`: an expression over an input schema, with columns as slots.
* `buildScanSpec`, `buildAggregateSpec`: what a scan and an aggregate are made with.

Source: `schema.h`, `exec_expression.cpp` CompileExecExpr, `executor_builder.cpp`. The schemas that
projections and aggregates give to a parent, and the names of slots, are left out: no plan of a SELECT has
a node above one.
-/

namespace SimpleOlap

open Lib

/-! ## Schemas -/

/-- Source: `schema.h` ColumnBinding. -/
structure ColumnBinding where
  tableOid : TableId
  columnIdx : ColumnId
  deriving DecidableEq, Repr

/-- Source: `schema.h` ExecSlot. -/
structure ExecSlot where
  type : DataType
  source : Option ColumnBinding
  deriving DecidableEq, Repr

/-- Source: `schema.h` ExecSchema. -/
abbrev ExecSchema := List ExecSlot

/-- Source: `schema.h` FindInputSlot. -/
def findInputSlot (schema : ExecSchema) (binding : ColumnBinding) : Option ℕ :=
  schema.findIdx? fun slot => slot.source == some binding

/-! ## Expressions -/

/-- Source: `exec_expression.cpp` PlanLiteralToExec. -/
def planLiteralToExec : PlanLiteralValue → ExecValue
  | .int32 v => .int32 v
  | .double v => .double v
  | .string v => .string v

/-- Source: `exec_expression.cpp` CompileExecExpr. -/
def compileExecExpr (inputSchema : ExecSchema) : PlanExpr → Except String ExecExpression
  | .columnRef tableOid colIdx type =>
    match findInputSlot inputSchema ⟨tableOid, colIdx⟩ with
    | none => .error ("execution: column " ++ nameText (PlanExpr.columnRef tableOid colIdx type).toString ++
        " not found in child output schema")
    | some slot => .ok (.columnRef slot type)
  | .literal value type => .ok (.literal (planLiteralToExec value) type)
  | .binary op left right type => do
    return .binary op (← compileExecExpr inputSchema left) (← compileExecExpr inputSchema right) type
  | .agg _ _ _ | .aggStar _ _ =>
    .error "execution: aggregate expressions are compiled by HashAggregateOperator"

/-! ## Scans -/

/-- The literal of a condition. Source: `executor_builder.cpp` BuildScanSpec, the visitor. -/
def PlanLiteralValue.toLiteral : PlanLiteralValue → Literal
  | .int32 v => .int32 v
  | .double v => .double v
  | .string v => .string v

/-- Source: `executor_builder.cpp` BuildScanSpec, the loop over the predicates. -/
def SimplePredicate.toCondition (p : SimplePredicate) : Condition :=
  ⟨p.columnIndex, p.op, p.value.toLiteral⟩

/-- Source: `executor_builder.h` BuiltScanSpec. -/
structure BuiltScanSpec where
  tableId : TableId
  options : ScanOptions
  outputSchema : ExecSchema

/-- The columns to scan: the first column stands in where none is asked for. Source:
`executor_builder.cpp` BuildScanSpec. -/
def driverColumns (tableSchema : TableSchema) (columns : List ℕ) : Except String (List ColumnId) :=
  match columns with
  | [] =>
    match tableSchema.columns with
    | [] => .error "ExecutorBuilder: table has no columns"
    | column :: _ => .ok [column.columnId]
  | _ => .ok columns

/-- The slot of a scanned column. -/
def scanSlot (tableOid : TableId) (tableSchema : TableSchema) (columnId : ColumnId) :
    Except String ExecSlot :=
  match findColumnSchema tableSchema columnId with
  | none => .error "ExecutorBuilder: scan column not found in table schema"
  | some column => .ok ⟨column.type, some ⟨tableOid, columnId⟩⟩

/-- Source: `executor_builder.cpp` BuildScanSpec; `entry` is the schema that the catalog has for the
table. -/
def buildScanSpec (entry : Option TableSchema) (tableOid : TableId) (columns : List ℕ)
    (predicates : List SimplePredicate) : Except String BuiltScanSpec :=
  match entry with
  | none => .error "ExecutorBuilder: scan table not found"
  | some tableSchema => do
    let scanColumns ← driverColumns tableSchema columns
    let outputSchema ← scanColumns.mapM (scanSlot tableOid tableSchema)
    return ⟨tableOid, ⟨scanColumns, predicates.map SimplePredicate.toCondition⟩, outputSchema⟩

/-! ## Aggregates -/

/-- Source: `executor_builder.cpp` PlanExprEquivalent. -/
def planExprEquivalent (lhs rhs : PlanExpr) : Bool :=
  lhs.returnType = rhs.returnType && lhs.toString = rhs.toString

/-- Source: `executor_builder.cpp` FindGroupIndex. -/
def findGroupIndex (expr : PlanExpr) (groups : List PlanExpr) : Option ℕ :=
  groups.findIdx? fun group => planExprEquivalent expr group

/-- An output that is not an aggregate call, with the calls so far. Source: `executor_builder.cpp`
BuildAggregateSpec, the else branch. -/
def addGroupKeyOutput (groupBy : List PlanExpr) (calls : List AggCallSpec) (expr : PlanExpr) :
    Except String (List AggCallSpec × AggregateOutputSpec) :=
  match findGroupIndex expr groupBy with
  | none => .error "ExecutorBuilder: non-aggregate output must match a GROUP BY expression"
  | some index => .ok (calls, ⟨true, index, expr.returnType⟩)

/-- One output of an aggregate, with the calls so far. Source: `executor_builder.cpp`
BuildAggregateSpec, the loop. -/
def addAggregateOutput (groupBy : List PlanExpr) (childSchema : ExecSchema) (calls : List AggCallSpec) :
    PlanExpr → Except String (List AggCallSpec × AggregateOutputSpec)
  | .agg aggType arg type => do
    let call : AggCallSpec := ⟨aggType, some (← compileExecExpr childSchema arg), type⟩
    return (calls ++ [call], ⟨false, calls.length, type⟩)
  | .aggStar aggType type => .ok (calls ++ [⟨aggType, none, type⟩], ⟨false, calls.length, type⟩)
  | expr => addGroupKeyOutput groupBy calls expr

/-- The outputs that are left, with the calls so far. -/
def addAggregateOutputs (groupBy : List PlanExpr) (childSchema : ExecSchema) :
    List AggCallSpec → List NamedPlanExpr → Except String (List AggCallSpec × List AggregateOutputSpec)
  | calls, [] => .ok (calls, [])
  | calls, output :: outputs => do
    let (calls, spec) ← addAggregateOutput groupBy childSchema calls output.expr
    let (calls, specs) ← addAggregateOutputs groupBy childSchema calls outputs
    return (calls, spec :: specs)

/-- Source: `executor_builder.cpp` BuildAggregateSpec. -/
def buildAggregateSpec (groupBy : List PlanExpr) (outputs : List NamedPlanExpr)
    (childSchema : ExecSchema) : Except String AggregateSpec := do
  let groupExprs ← groupBy.mapM (compileExecExpr childSchema)
  let (aggCalls, outputs) ← addAggregateOutputs groupBy childSchema [] outputs
  return ⟨groupExprs, aggCalls, outputs⟩

end SimpleOlap
