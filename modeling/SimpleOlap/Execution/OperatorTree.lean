import SimpleOlap.Execution.PlanSlots
import SimpleOlap.Planner.PhysicalPlan

/-!
# Operator trees

* `Operator`: the operators of a query, as the builder makes them.
* `buildNode`: the operators of a physical plan, with the schema of their output.
* `buildNode_planScan`: a scan of columns of the table can be built, and shows them.

Source: `executor_builder.cpp`. Whether a scan is part of a parallel one, and the names of slots, are left
out.
-/

namespace SimpleOlap

open Lib

/-- Source: `operator.h` and the constructors of the operators. -/
inductive Operator
  | seqScan (tableId : TableId) (options : ScanOptions)
  | indexScan (tableId : TableId) (keyId : KeyId) (lookupValues : List ScalarValue)
      (columns : List ColumnId) (residualPredicates : List Condition)
  | filter (child : Operator) (predicate : ExecExpression)
  | projection (child : Operator) (expressions : List ExecExpression)
  | hashAggregate (child : Operator) (spec : AggregateSpec)

/-- Source: `executor_builder.h` BuiltExecutor. -/
structure BuiltExecutor where
  root : Operator
  outputSchema : ExecSchema

/-! ## Building -/

/-- A literal as a lookup value. Source: `executor_builder.cpp` BuildIndexScan, the visitor. -/
def PlanLiteralValue.toScalar : PlanLiteralValue → ScalarValue
  | .int32 v => .int32 v
  | .double v => .double v
  | .string v => .string v

/-- Source: `executor_builder.cpp` DirectBinding. -/
def directBinding : PlanExpr → Option ColumnBinding
  | .columnRef tableOid colIdx _ => some ⟨tableOid, colIdx⟩
  | _ => none

/-- The slot of an output of a projection. Source: `executor_builder.cpp` BuildProject, the loop. -/
def projectSlot (output : NamedPlanExpr) : ExecSlot := ⟨output.expr.returnType, directBinding output.expr⟩

/-- The slot of an output of an aggregate. Source: `executor_builder.cpp` BuildAggregateSpec, the loop. -/
def aggregateSlot (output : NamedPlanExpr) : ExecSlot :=
  match output.expr with
  | .agg _ _ type | .aggStar _ type => ⟨type, none⟩
  | expr => ⟨expr.returnType, directBinding expr⟩

/-- Source: `executor_builder.cpp` BuildSeqScan. -/
def buildSeqScan (entry : Option TableSchema) (tableOid : TableId) (columns : List ℕ)
    (predicates : List SimplePredicate) : Except String BuiltExecutor := do
  let spec ← buildScanSpec entry tableOid columns predicates
  return ⟨.seqScan spec.tableId spec.options, spec.outputSchema⟩

/-- The slot of a column that an index scan reads. -/
def indexScanSlot (tableOid : TableId) (tableSchema : TableSchema) (columnId : ColumnId) :
    Except String ExecSlot :=
  match findColumnSchema tableSchema columnId with
  | none => .error "ExecutorBuilder: index scan column not found in table schema"
  | some column => .ok ⟨column.type, some ⟨tableOid, columnId⟩⟩

/-- Source: `executor_builder.cpp` BuildIndexScan. -/
def buildIndexScan (entry : Option TableSchema) (tableOid : TableId) (keyId : KeyId)
    (lookupValues : List PlanLiteralValue) (columns : List ℕ) (residual : List SimplePredicate) :
    Except String BuiltExecutor :=
  match entry with
  | none => .error "ExecutorBuilder: index scan table not found"
  | some tableSchema => do
    let scanColumns ← driverColumns tableSchema columns
    let outputSchema ← scanColumns.mapM (indexScanSlot tableOid tableSchema)
    return ⟨.indexScan tableOid keyId (lookupValues.map PlanLiteralValue.toScalar) scanColumns
      (residual.map SimplePredicate.toCondition), outputSchema⟩

/-- Source: `executor_builder.cpp` BuildFilter. -/
def buildFilter (predicate : PlanExpr) (child : BuiltExecutor) : Except String BuiltExecutor := do
  let predicate ← compileExecExpr child.outputSchema predicate
  return ⟨.filter child.root predicate, child.outputSchema⟩

/-- Source: `executor_builder.cpp` BuildProject. -/
def buildProject (outputs : List NamedPlanExpr) (child : BuiltExecutor) : Except String BuiltExecutor := do
  let expressions ← outputs.mapM fun output => compileExecExpr child.outputSchema output.expr
  return ⟨.projection child.root expressions, outputs.map projectSlot⟩

/-- Source: `executor_builder.cpp` BuildHashAggregate. -/
def buildHashAggregate (groupBy : List PlanExpr) (outputs : List NamedPlanExpr) (child : BuiltExecutor) :
    Except String BuiltExecutor := do
  let spec ← buildAggregateSpec groupBy outputs child.outputSchema
  return ⟨.hashAggregate child.root spec, outputs.map aggregateSlot⟩

/-- Source: `executor_builder.cpp` BuildNode; `catalog` has the schemas of the tables. -/
def buildNode (catalog : TableId → Option TableSchema) : PhysicalPlan → Except String BuiltExecutor
  | .seqScan tableOid columns predicates => buildSeqScan (catalog tableOid) tableOid columns predicates
  | .indexScan tableOid keyId lookupValues columns residual =>
    buildIndexScan (catalog tableOid) tableOid keyId lookupValues columns residual
  | .filter predicate child => do buildFilter predicate (← buildNode catalog child)
  | .project outputs child => do buildProject outputs (← buildNode catalog child)
  | .hashAggregate groupBy outputs child => do
    buildHashAggregate groupBy outputs (← buildNode catalog child)
  | .insert _ _ _ | .createTable _ _ =>
    .error "ExecutorBuilder: command plan is not a streaming operator tree"

/-! ## Scans can be built -/

section

variable {catalog : TableId → Option TableSchema} {schema : TableSchema} {tableOid : TableId}
  {columns : List ℕ}

/-- What an index scan shows is what a scan shows. -/
theorem indexScanSlot_of_scanSlot {slot : ExecSlot} {c : ColumnId}
    (h : scanSlot tableOid schema c = .ok slot) : indexScanSlot tableOid schema c = .ok slot := by
  unfold scanSlot at h
  unfold indexScanSlot
  rcases hfind : findColumnSchema schema c with _ | column
  · rw [hfind] at h
    cases h
  · rw [hfind] at h
    exact h

/-- **A scan of columns of the table can be built**, by a key or through all rows, and shows the columns. -/
theorem buildNode_planScan (hentry : catalog tableOid = some schema) (hne : schema.columns ≠ [])
    (hcolumns : ∀ c ∈ columns, findColumnSchema schema c ≠ none) (pushed : List SimplePredicate) :
    ∃ built, buildNode catalog (planScan (catalog tableOid) tableOid columns pushed) = .ok built ∧
      ∀ c ∈ columns, findInputSlot built.outputSchema ⟨tableOid, c⟩ ≠ none := by
  let t : TableContent := ⟨tableOid, schema, []⟩
  have hcatalog : catalog tableOid = t.entry t.tableOid := by
    rw [hentry, TableContent.entry, if_pos rfl]
  obtain ⟨spec, hspec, -, scanned, hschema, hsub⟩ := exists_buildScanSpec (t := t) hne hcolumns pushed
  have hslots : ∀ c ∈ columns, findInputSlot spec.outputSchema ⟨tableOid, c⟩ ≠ none := fun c hc =>
    findInputSlot_mapM_scanSlot hschema (hsub c hc)
  rcases planScan_cases (catalog tableOid) tableOid columns pushed with
    hplan | ⟨schema', key, found, hschema', -, -, hplan⟩
  · refine ⟨⟨.seqScan spec.tableId spec.options, spec.outputSchema⟩, ?_, hslots⟩
    rw [hplan, buildNode, buildSeqScan, hcatalog, hspec]
    rfl
  · rw [hentry] at hschema'
    cases hschema'
    obtain ⟨-, -, driver, hdriver, hdriverSchema⟩ := buildScanSpec_eq_ok hspec
    have hindex : driver.mapM (indexScanSlot tableOid schema) = .ok spec.outputSchema := by
      have hmap := mapM_eq_ok_iff.mp hdriverSchema
      refine mapM_eq_ok_iff.mpr (Eq.trans (List.map_congr_left fun c hc => ?_) hmap)
      obtain ⟨slot, -, hslot⟩ := exists_of_mem_mapM hdriverSchema hc
      exact (indexScanSlot_of_scanSlot hslot).trans hslot.symm
    refine ⟨⟨.indexScan tableOid key.keyId (found.values.map PlanLiteralValue.toScalar) driver
      ((residualPredicates found pushed).map SimplePredicate.toCondition), spec.outputSchema⟩, ?_, hslots⟩
    rw [hplan, buildNode, hentry, buildIndexScan, hdriver]
    show (driver.mapM (indexScanSlot tableOid schema)).bind _ = _
    rw [hindex]
    rfl

end

end SimpleOlap
