import SimpleOlap.Planner.PlanExpression

/-!
# Logical plans

* `LogicalPlan`: what a statement does, without how.
* `LogicalPlan.Mentions`: the columns that a plan needs for its expressions and pushed predicates.
* `planSelect`: the plan of a bound SELECT. `planSelect_ofTable` shows that planning a statement over a
  table gives a plan over it.

Source: `logical_plan.h`, `planner.cpp`.
-/

namespace SimpleOlap

open Lib

/-- Source: `logical_plan.h` SimplePredicate. -/
structure SimplePredicate where
  columnIndex : ℕ
  op : CmpOp
  value : PlanLiteralValue

/-- Source: `logical_plan.h` LogicalPlan. -/
inductive LogicalPlan
  | scan (tableOid : ℕ) (requiredColumns : List ℕ) (pushedPredicates : List SimplePredicate)
  | filter (predicate : PlanExpr) (child : LogicalPlan)
  | project (outputs : List NamedPlanExpr) (child : LogicalPlan)
  | aggregate (groupBy : List PlanExpr) (outputs : List NamedPlanExpr) (child : LogicalPlan)
  | insert (tableOid : ℕ) (targetColumns : List ℕ) (rows : List (List PlanExpr))
  | createTable (tableName : Bytes) (schema : TableSchema)

namespace LogicalPlan

/-- A filter, projection, aggregate, group-by expression or pushed predicate of the plan refers to the
column. -/
inductive Mentions (colIdx : ℕ) : LogicalPlan → Prop
  | pushed {tableOid : ℕ} {required : List ℕ} {pushed : List SimplePredicate} {p : SimplePredicate}
      (hp : p ∈ pushed) (h : p.columnIndex = colIdx) : Mentions colIdx (.scan tableOid required pushed)
  | predicate {predicate : PlanExpr} {child : LogicalPlan} (h : predicate.Mentions colIdx) :
      Mentions colIdx (.filter predicate child)
  | filterChild {predicate : PlanExpr} {child : LogicalPlan} (h : Mentions colIdx child) :
      Mentions colIdx (.filter predicate child)
  | projectOutput {outputs : List NamedPlanExpr} {child : LogicalPlan} {output : NamedPlanExpr}
      (ho : output ∈ outputs) (h : output.expr.Mentions colIdx) :
      Mentions colIdx (.project outputs child)
  | projectChild {outputs : List NamedPlanExpr} {child : LogicalPlan} (h : Mentions colIdx child) :
      Mentions colIdx (.project outputs child)
  | group {groupBy : List PlanExpr} {outputs : List NamedPlanExpr} {child : LogicalPlan} {expr : PlanExpr}
      (he : expr ∈ groupBy) (h : expr.Mentions colIdx) :
      Mentions colIdx (.aggregate groupBy outputs child)
  | aggregateOutput {groupBy : List PlanExpr} {outputs : List NamedPlanExpr} {child : LogicalPlan}
      {output : NamedPlanExpr} (ho : output ∈ outputs) (h : output.expr.Mentions colIdx) :
      Mentions colIdx (.aggregate groupBy outputs child)
  | aggregateChild {groupBy : List PlanExpr} {outputs : List NamedPlanExpr} {child : LogicalPlan}
      (h : Mentions colIdx child) : Mentions colIdx (.aggregate groupBy outputs child)

/-- The required columns of the plan's scan, where it has one. -/
def requiredColumns : LogicalPlan → Option (List ℕ)
  | .scan _ required _ => some required
  | .filter _ child | .project _ child | .aggregate _ _ child => child.requiredColumns
  | .insert _ _ _ | .createTable _ _ => none

/-- The plan has a scan, and every column that the plan mentions is required of it. -/
def Covered (plan : LogicalPlan) : Prop :=
  ∃ required, plan.requiredColumns = some required ∧ ∀ c, plan.Mentions c → c ∈ required

/-- The expressions of the plan are over the table, and no literal of a filter is NaN. -/
def OfTable (table : BoundTable) : LogicalPlan → Prop
  | .scan tableOid _ pushed =>
    tableOid = table.oid ∧ ∀ p ∈ pushed, p.columnIndex < table.columns.length
  | .filter predicate child => (predicate.OfTable table ∧ predicate.NoNan) ∧ child.OfTable table
  | .project outputs child => (∀ output ∈ outputs, output.expr.OfTable table) ∧ child.OfTable table
  | .aggregate groupBy outputs child =>
    ((∀ expr ∈ groupBy, expr.OfTable table) ∧ ∀ output ∈ outputs, output.expr.OfTable table) ∧
      child.OfTable table
  | .insert _ _ _ | .createTable _ _ => True

end LogicalPlan

/-! ## Planning a SELECT -/

/-- Source: `planner.cpp` BuildOutputs. -/
def buildOutputs (items : List BoundSelectItem) : Except String (List NamedPlanExpr) :=
  items.mapM fun item => do return ⟨← buildPlanExpr item.expr, item.aliasName⟩

/-- Source: `planner.cpp` HasAggregate. -/
def hasAggregate (outputs : List NamedPlanExpr) : Bool :=
  outputs.any fun output => output.expr.containsAggregate

/-- The scan of a statement, under the filter of its WHERE clause where there is one. Source:
`planner.cpp` PlanSelect. -/
def planSource (statement : BoundSelectStatement) : Except String LogicalPlan :=
  match statement.whereClause with
  | none => .ok (.scan statement.tableOid [] [])
  | some clause => do return .filter (← buildPlanExpr clause) (.scan statement.tableOid [] [])

/-- Source: `planner.cpp` PlanSelect. -/
def planSelect (statement : BoundSelectStatement) : Except String LogicalPlan := do
  let root ← planSource statement
  let outputs ← buildOutputs statement.selectList
  if !statement.groupBy.isEmpty || hasAggregate outputs then
    return .aggregate (← statement.groupBy.mapM buildPlanExpr) outputs root
  else return .project outputs root

section

variable {table : BoundTable} {statement : BoundSelectStatement} {plan : LogicalPlan}

theorem ofTable_buildPlanExpr {bound : BoundExpr} {expr : PlanExpr} (hbound : bound.OfTable table)
    (h : buildPlanExpr bound = .ok expr) : expr.OfTable table ∧ (bound.NoNan → expr.NoNan) := by
  obtain ⟨built, hbuilt, hspec⟩ := buildPlanExpr_spec hbound
  rw [hbuilt] at h
  cases h
  exact hspec

theorem ofTable_planSource (hstmt : statement.OfTable table)
    (hno : ∀ e ∈ statement.whereClause, e.NoNan) (h : planSource statement = .ok plan) :
    plan.OfTable table := by
  have hscan : (LogicalPlan.scan statement.tableOid [] []).OfTable table :=
    ⟨hstmt.tableOid, by simp⟩
  unfold planSource at h
  rcases hwhere : statement.whereClause with _ | clause
  · rw [hwhere] at h
    cases h
    exact hscan
  · rw [hwhere] at h
    obtain ⟨predicate, hpredicate, h⟩ := bind_eq_ok h
    cases h
    obtain ⟨hof, hnan⟩ := ofTable_buildPlanExpr (hstmt.whereClause clause hwhere) hpredicate
    exact ⟨⟨hof, hnan (hno clause hwhere)⟩, hscan⟩

/-- **Planning a statement over a table gives a plan over the table.** -/
theorem ofTable_planSelect (hstmt : statement.OfTable table)
    (hno : ∀ e ∈ statement.whereClause, e.NoNan) (h : planSelect statement = .ok plan) :
    plan.OfTable table := by
  obtain ⟨root, hroot, h⟩ := bind_eq_ok h
  obtain ⟨outputs, houtputs, h⟩ := bind_eq_ok h
  have hsource := ofTable_planSource hstmt hno hroot
  have houts : ∀ output ∈ outputs, output.expr.OfTable table := by
    intro output houtput
    obtain ⟨item, hitem, hbuilt⟩ := mem_of_mapM_eq_ok houtputs houtput
    obtain ⟨expr, hexpr, hnamed⟩ := bind_eq_ok hbuilt
    cases hnamed
    exact (ofTable_buildPlanExpr (hstmt.selectList item hitem) hexpr).1
  split at h
  · obtain ⟨groupBy, hgroup, h⟩ := bind_eq_ok h
    cases h
    refine ⟨⟨fun expr hexpr => ?_, houts⟩, hsource⟩
    obtain ⟨bound, hbound, hbuilt⟩ := mem_of_mapM_eq_ok hgroup hexpr
    exact (ofTable_buildPlanExpr (hstmt.groupBy bound hbound) hbuilt).1
  · cases h
    exact ⟨houts, hsource⟩

end

end SimpleOlap
