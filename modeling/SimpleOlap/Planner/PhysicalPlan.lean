import SimpleOlap.Planner.Optimizer
import SimpleOlap.Storage.Index.KeyEncoder

/-!
# Physical plans

* `PhysicalPlan`: how a statement is executed.
* `matchKeyLookup`: the pushed predicates give every column of a key one value.
* `planScan`: a scan goes through the first key whose columns all have a value, otherwise through all rows.
* `createPhysicalPlan`: the physical plan of a logical one.

Source: `physical_plan.h`, `physical_planner.cpp`.
-/

namespace SimpleOlap

open Lib

/-- Source: `physical_plan.h` PhysicalPlan. -/
inductive PhysicalPlan
  | seqScan (tableOid : ℕ) (columns : List ℕ) (predicates : List SimplePredicate)
  | indexScan (tableOid : ℕ) (keyId : KeyId) (lookupValues : List PlanLiteralValue) (columns : List ℕ)
      (residualPredicates : List SimplePredicate)
  | filter (predicate : PlanExpr) (child : PhysicalPlan)
  | project (outputs : List NamedPlanExpr) (child : PhysicalPlan)
  | hashAggregate (groupBy : List PlanExpr) (outputs : List NamedPlanExpr) (child : PhysicalPlan)
  | insert (tableOid : ℕ) (targetColumns : List ℕ) (rows : List (List PlanExpr))
  | createTable (tableName : Bytes) (schema : TableSchema)

/-! ## Key lookups -/

/-- Source: `physical_planner.cpp` KeyLookupMatch. -/
structure KeyLookupMatch where
  values : List PlanLiteralValue
  consumedPredicates : List ℕ

/-- Source: `physical_planner.cpp` LiteralUsableForKey. -/
def literalUsableForKey (schema : TableSchema) (columnId : ColumnId) (value : PlanLiteralValue) : Bool :=
  match findColumnSchema schema columnId with
  | none => false
  | some column =>
    match column.type, value with
    | .int32, .int32 _ | .int64, .int32 _ => true
    | .float, .int32 _ | .float, .double _ | .double, .int32 _ | .double, .double _ => true
    | .varchar, .string _ => true
    | _, _ => false

/-- The place of the equality on a key column, from place `i` on; `matched` is the one before. None where
there is no equality, or a second one. Source: `physical_planner.cpp` MatchKeyLookup, the inner loop. -/
def matchKeyColumn (keyColumn : ColumnId) : ℕ → Option ℕ → List SimplePredicate → Option ℕ
  | _, matched, [] => matched
  | i, matched, predicate :: predicates =>
    if predicate.columnIndex ≠ keyColumn ∨ predicate.op ≠ .eq then
      matchKeyColumn keyColumn (i + 1) matched predicates
    else if matched.isSome then none
    else matchKeyColumn keyColumn (i + 1) (some i) predicates

/-- The key columns that are left, with what is matched. -/
def matchKeyColumns (schema : TableSchema) (predicates : List SimplePredicate) :
    KeyLookupMatch → List ColumnId → Option KeyLookupMatch
  | result, [] => some result
  | result, keyColumn :: keyColumns => do
    let i ← matchKeyColumn keyColumn 0 none predicates
    let predicate ← predicates[i]?
    if literalUsableForKey schema keyColumn predicate.value then
      matchKeyColumns schema predicates
        ⟨result.values ++ [predicate.value], result.consumedPredicates ++ [i]⟩ keyColumns
    else none

/-- Source: `physical_planner.cpp` MatchKeyLookup. -/
def matchKeyLookup (schema : TableSchema) (key : KeySchema) (predicates : List SimplePredicate) :
    Option KeyLookupMatch :=
  matchKeyColumns schema predicates ⟨[], []⟩ key.columns

/-! ## Planning -/

/-- The predicates that the lookup does not answer. Source: `physical_planner.cpp` BuildIndexScan. -/
def residualPredicates (found : KeyLookupMatch) (predicates : List SimplePredicate) :
    List SimplePredicate :=
  (predicates.zipIdx.filter fun p => p.2 ∉ found.consumedPredicates).map Prod.fst

/-- A lookup by a key, where the predicates give one. -/
def planKeyLookup (schema : TableSchema) (tableOid : ℕ) (columns : List ℕ)
    (predicates : List SimplePredicate) (key : KeySchema) : Option PhysicalPlan := do
  let found ← matchKeyLookup schema key predicates
  return .indexScan tableOid key.keyId found.values columns (residualPredicates found predicates)

/-- Source: `physical_planner.cpp` PlanScan; `entry` is the schema that the catalog has for the table. -/
def planScan (entry : Option TableSchema) (tableOid : ℕ) (columns : List ℕ)
    (predicates : List SimplePredicate) : PhysicalPlan :=
  match entry with
  | none => .seqScan tableOid columns predicates
  | some schema =>
    (schema.keys.findSome? (planKeyLookup schema tableOid columns predicates)).getD
      (.seqScan tableOid columns predicates)

/-- Source: `physical_planner.cpp` CreatePhysicalPlan; `catalog` has the schemas of the tables. -/
def createPhysicalPlan (catalog : TableId → Option TableSchema) : LogicalPlan → PhysicalPlan
  | .scan tableOid requiredColumns pushedPredicates =>
    planScan (catalog tableOid) tableOid requiredColumns pushedPredicates
  | .filter predicate child => .filter predicate (createPhysicalPlan catalog child)
  | .project outputs child => .project outputs (createPhysicalPlan catalog child)
  | .aggregate groupBy outputs child => .hashAggregate groupBy outputs (createPhysicalPlan catalog child)
  | .insert tableOid targetColumns rows => .insert tableOid targetColumns rows
  | .createTable tableName schema => .createTable tableName schema

/-! ## Scans -/

/-- **A scan stays one of its table and columns**, by a key or through all rows. -/
theorem planScan_cases (entry : Option TableSchema) (tableOid : ℕ) (columns : List ℕ)
    (predicates : List SimplePredicate) :
    planScan entry tableOid columns predicates = .seqScan tableOid columns predicates ∨
      ∃ schema key found, entry = some schema ∧ key ∈ schema.keys ∧
        matchKeyLookup schema key predicates = some found ∧
        planScan entry tableOid columns predicates =
          .indexScan tableOid key.keyId found.values columns (residualPredicates found predicates) := by
  rcases entry with _ | schema
  · exact .inl rfl
  · rw [planScan]
    rcases hfind : schema.keys.findSome? (planKeyLookup schema tableOid columns predicates) with _ | plan
    · exact .inl rfl
    · obtain ⟨key, hkey, hplan⟩ := List.exists_of_findSome?_eq_some hfind
      obtain ⟨found, hfound, hplan⟩ := Option.bind_eq_some_iff.mp hplan
      cases hplan
      exact .inr ⟨schema, key, found, rfl, hkey, hfound, rfl⟩

end SimpleOlap
