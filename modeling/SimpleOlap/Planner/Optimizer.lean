import SimpleOlap.Planner.LogicalPlan
import Mathlib.Data.List.Sort

/-!
# The optimizer

* `pushPredicate`: a filter right above the scan gives its simple conjuncts to the scan.
* `columnPruning`: the scan's required columns become those that the plan mentions.
* `optimize`: both rules in turn, for eight passes at most, until neither changes the plan.

Source: `optimizer.cpp`. Each rule returns the plan and whether it changed it.
-/

namespace SimpleOlap

open Lib

/-! ## Conjuncts -/

/-- Source: `optimizer.cpp` IsNumericType. -/
def isNumericType : DataType → Bool
  | .int32 | .int64 | .float | .double => true
  | _ => false

/-- Source: `optimizer.cpp` IsNumericLiteral. -/
def isNumericLiteral : PlanLiteralValue → Bool
  | .int32 _ | .double _ => true
  | .string _ => false

/-- The operators that are pushed down. Source: `optimizer.cpp` ExtractSimplePredicate, with ToCmpOp. -/
def pushableOp? : PlanBinaryOp → Option CmpOp
  | .eq => some .eq
  | .gt => some .gt
  | .lt => some .lt
  | _ => none

/-- Source: `optimizer.cpp` ExtractSimplePredicate. -/
def extractSimplePredicate : PlanExpr → Option SimplePredicate
  | .binary op (.columnRef _ colIdx columnType) (.literal value _) _ =>
    match pushableOp? op with
    | none => none
    | some cmp =>
      if !isNumericType columnType then none
      else if !isNumericLiteral value then none
      else some ⟨colIdx, cmp, value⟩
  | _ => none

/-- A conjunct that stays in the filter. -/
def isResidual (expr : PlanExpr) : Bool := (extractSimplePredicate expr).isNone

/-- Source: `optimizer.cpp` FlattenConjuncts. -/
def flattenConjuncts : PlanExpr → List PlanExpr
  | .binary .and left right _ => flattenConjuncts left ++ flattenConjuncts right
  | expr => [expr]

/-- Source: `optimizer.cpp` BuildConjunction; `none` is the null pointer. -/
def buildConjunction : List PlanExpr → Option PlanExpr
  | [] => none
  | expr :: exprs => some (exprs.foldl (fun result e => .binary .and result e .int32) expr)

/-! ## Predicate pushdown -/

/-- A filter above a child that the rule has already been applied to. Source: `optimizer.cpp`
PushPredicate, the FILTER case. -/
def pushFilter (predicate : PlanExpr) (child : LogicalPlan) (changed : Bool) : LogicalPlan × Bool :=
  match child with
  | .scan tableOid required pushedPredicates =>
    let conjuncts := flattenConjuncts predicate
    let pushed := conjuncts.filterMap extractSimplePredicate
    let residual := conjuncts.filter isResidual
    if pushed.isEmpty then (.filter predicate child, changed)
    else
      let scan := LogicalPlan.scan tableOid required (pushedPredicates ++ pushed)
      match buildConjunction residual with
      | none => (scan, true)
      | some rest => (.filter rest scan, true)
  | _ => (.filter predicate child, changed)

/-- Source: `optimizer.cpp` PushPredicate. -/
def pushPredicate : LogicalPlan → LogicalPlan × Bool
  | .filter predicate child =>
    let (child, changed) := pushPredicate child
    pushFilter predicate child changed
  | .project outputs child =>
    let (child, changed) := pushPredicate child
    (.project outputs child, changed)
  | .aggregate groupBy outputs child =>
    let (child, changed) := pushPredicate child
    (.aggregate groupBy outputs child, changed)
  | plan => (plan, false)

/-! ## Column pruning -/

/-- Source: `optimizer.cpp` CollectRequiredColumns. -/
def collectRequiredColumns : LogicalPlan → List ℕ
  | .filter predicate child => predicate.collectColumnRefs ++ collectRequiredColumns child
  | .project outputs child =>
    (outputs.flatMap fun output => output.expr.collectColumnRefs) ++ collectRequiredColumns child
  | .aggregate groupBy outputs child =>
    groupBy.flatMap PlanExpr.collectColumnRefs ++
      (outputs.flatMap fun output => output.expr.collectColumnRefs) ++ collectRequiredColumns child
  | .scan _ _ pushed => pushed.map SimplePredicate.columnIndex
  | .insert _ _ _ | .createTable _ _ => []

/-- `std::unique`. -/
def unique : List ℕ → List ℕ
  | a :: b :: rest => if a = b then unique (b :: rest) else a :: unique (b :: rest)
  | columns => columns

/-- `std::sort`, then `std::unique`. -/
def sortUnique (columns : List ℕ) : List ℕ := unique (columns.insertionSort (· ≤ ·))

/-- Source: `logical_plan.h` SetRequiredColumns, on the scan that `optimizer.cpp` FindScan finds. -/
def LogicalPlan.setRequiredColumns (columns : List ℕ) : LogicalPlan → LogicalPlan
  | .scan tableOid _ pushed => .scan tableOid columns pushed
  | .filter predicate child => .filter predicate (child.setRequiredColumns columns)
  | .project outputs child => .project outputs (child.setRequiredColumns columns)
  | .aggregate groupBy outputs child => .aggregate groupBy outputs (child.setRequiredColumns columns)
  | plan => plan

/-- Source: `optimizer.cpp` ColumnPruningRule::Apply. -/
def columnPruning (root : LogicalPlan) : LogicalPlan × Bool :=
  let columns := sortUnique (collectRequiredColumns root)
  match root.requiredColumns with
  | none => (root, false)
  | some required =>
    if required = columns then (root, false) else (root.setRequiredColumns columns, true)

/-! ## The passes -/

/-- Both rules, in the order of the constructor. -/
def optimizePass (root : LogicalPlan) : LogicalPlan × Bool :=
  let (pushed, changedPush) := pushPredicate root
  let (pruned, changedPrune) := columnPruning pushed
  (pruned, changedPush || changedPrune)

/-- The passes that are left. -/
def optimizeLoop : ℕ → LogicalPlan → LogicalPlan
  | 0, root => root
  | passes + 1, root =>
    let (root, changed) := optimizePass root
    if changed then optimizeLoop passes root else root

/-- Source: `optimizer.cpp` Optimizer::Optimize. -/
def optimize (root : LogicalPlan) : LogicalPlan := optimizeLoop 8 root

/-! ## The required columns -/

section

variable {c : ℕ} {plan : LogicalPlan} {columns : List ℕ}

/-- The same columns. -/
theorem mem_unique : c ∈ unique columns ↔ c ∈ columns := by
  induction columns using unique.induct with
  | case1 a rest ih =>
    rw [unique, if_pos rfl, ih]
    simp
  | case2 a b rest hab ih =>
    rw [unique, if_neg hab, List.mem_cons, ih, List.mem_cons (b := a)]
  | case3 columns h =>
    rw [unique]
    exact h

/-- The same columns. -/
theorem mem_sortUnique : c ∈ sortUnique columns ↔ c ∈ columns := by
  rw [sortUnique, mem_unique, List.mem_insertionSort]

/-- The collected columns are the columns of the plan. -/
theorem mem_collectRequiredColumns : c ∈ collectRequiredColumns plan ↔ plan.Mentions c := by
  induction plan with
  | scan tableOid required pushed =>
    constructor
    · intro h
      obtain ⟨p, hp, hc⟩ := List.mem_map.mp h
      exact .pushed hp hc
    · rintro ⟨⟩
      exact List.mem_map.mpr ⟨_, ‹_›, ‹_›⟩
  | filter predicate child ih =>
    rw [collectRequiredColumns, List.mem_append, ih, PlanExpr.mem_collectColumnRefs]
    constructor
    · rintro (h | h)
      · exact .predicate h
      · exact .filterChild h
    · rintro (_ | h | h)
      · exact .inl h
      · exact .inr h
  | project outputs child ih =>
    simp only [collectRequiredColumns, List.mem_append, ih, List.mem_flatMap,
      PlanExpr.mem_collectColumnRefs]
    constructor
    · rintro (⟨output, ho, h⟩ | h)
      · exact .projectOutput ho h
      · exact .projectChild h
    · rintro (_ | _ | _ | ⟨ho, h⟩ | h)
      · exact .inl ⟨_, ho, h⟩
      · exact .inr h
  | aggregate groupBy outputs child ih =>
    simp only [collectRequiredColumns, List.mem_append, ih, List.mem_flatMap,
      PlanExpr.mem_collectColumnRefs]
    constructor
    · rintro ((⟨expr, he, h⟩ | ⟨output, ho, h⟩) | h)
      · exact .group he h
      · exact .aggregateOutput ho h
      · exact .aggregateChild h
    · intro h
      cases h with
      | group he h => exact .inl (.inl ⟨_, he, h⟩)
      | aggregateOutput ho h => exact .inl (.inr ⟨_, ho, h⟩)
      | aggregateChild h => exact .inr h
  | insert tableOid targetColumns rows => exact iff_of_false (by simp [collectRequiredColumns]) nofun
  | createTable tableName schema => exact iff_of_false (by simp [collectRequiredColumns]) nofun

/-- Required columns are no mention of a column. -/
theorem collectRequiredColumns_setRequiredColumns :
    collectRequiredColumns (plan.setRequiredColumns columns) = collectRequiredColumns plan := by
  induction plan with
  | scan tableOid required pushed => rfl
  | filter predicate child ih => simp only [LogicalPlan.setRequiredColumns, collectRequiredColumns, ih]
  | project outputs child ih => simp only [LogicalPlan.setRequiredColumns, collectRequiredColumns, ih]
  | aggregate groupBy outputs child ih =>
    simp only [LogicalPlan.setRequiredColumns, collectRequiredColumns, ih]
  | insert tableOid targetColumns rows => rfl
  | createTable tableName schema => rfl

/-- The required columns, replaced. -/
theorem requiredColumns_setRequiredColumns :
    (plan.setRequiredColumns columns).requiredColumns = plan.requiredColumns.map fun _ => columns := by
  induction plan with
  | scan tableOid required pushed => rfl
  | filter predicate child ih => exact ih
  | project outputs child ih => exact ih
  | aggregate groupBy outputs child ih => exact ih
  | insert tableOid targetColumns rows => rfl
  | createTable tableName schema => rfl

/-- The required columns, replaced by themselves. -/
theorem setRequiredColumns_self {required : List ℕ} (h : plan.requiredColumns = some required) :
    plan.setRequiredColumns required = plan := by
  induction plan with
  | scan tableOid columns pushed =>
    cases h
    rfl
  | filter predicate child ih => rw [LogicalPlan.setRequiredColumns, ih h]
  | project outputs child ih => rw [LogicalPlan.setRequiredColumns, ih h]
  | aggregate groupBy outputs child ih => rw [LogicalPlan.setRequiredColumns, ih h]
  | insert tableOid targetColumns rows => rfl
  | createTable tableName schema => rfl

/-- Pruning sets the required columns to those that the plan mentions. -/
theorem columnPruning_fst {required : List ℕ} (h : plan.requiredColumns = some required) :
    (columnPruning plan).1 =
      plan.setRequiredColumns (sortUnique (collectRequiredColumns plan)) := by
  unfold columnPruning
  rw [h]
  by_cases heq : required = sortUnique (collectRequiredColumns plan)
  · simp only [heq, if_true]
    rw [← heq, setRequiredColumns_self h]
  · simp only [heq, if_false]

/-- Pushing a filter down keeps the required columns. -/
theorem requiredColumns_pushFilter (predicate : PlanExpr) (changed : Bool) :
    (pushFilter predicate plan changed).1.requiredColumns = plan.requiredColumns := by
  unfold pushFilter
  split
  · dsimp only
    split_ifs
    · rfl
    · split <;> rfl
  · rfl

/-- Pushing down keeps the required columns. -/
theorem requiredColumns_pushPredicate :
    (pushPredicate plan).1.requiredColumns = plan.requiredColumns := by
  induction plan with
  | scan tableOid required pushed => rfl
  | filter predicate child ih => exact (requiredColumns_pushFilter predicate _).trans ih
  | project outputs child ih => exact ih
  | aggregate groupBy outputs child ih => exact ih
  | insert tableOid targetColumns rows => rfl
  | createTable tableName schema => rfl

/-- After a pass the required columns are those that the plan mentions, in order. -/
theorem requiredColumns_optimizePass (h : plan.requiredColumns ≠ none) :
    (optimizePass plan).1.requiredColumns =
      some (sortUnique (collectRequiredColumns (optimizePass plan).1)) := by
  obtain ⟨required, hrequired⟩ := Option.ne_none_iff_exists'.mp h
  rw [← requiredColumns_pushPredicate] at hrequired
  rw [optimizePass, columnPruning_fst hrequired, requiredColumns_setRequiredColumns, hrequired,
    collectRequiredColumns_setRequiredColumns]
  rfl

/-- What both rules keep, a pass keeps. -/
theorem optimizePass_induction {P : LogicalPlan → Prop} (hpush : P (pushPredicate plan).1)
    (hset : ∀ plan columns, P plan → P (plan.setRequiredColumns columns)) : P (optimizePass plan).1 := by
  show P (columnPruning (pushPredicate plan).1).1
  unfold columnPruning
  dsimp only
  split
  · exact hpush
  · split_ifs
    · exact hpush
    · exact hset _ _ hpush

/-- What each pass keeps, the passes keep. -/
theorem optimizeLoop_induction {P : LogicalPlan → Prop}
    (hpass : ∀ plan, P plan → P (optimizePass plan).1) (passes : ℕ) (h : P plan) :
    P (optimizeLoop passes plan) := by
  induction passes generalizing plan with
  | zero => exact h
  | succ passes ih =>
    rw [optimizeLoop]
    dsimp only
    split_ifs
    · exact ih (hpass plan h)
    · exact hpass plan h

/-- One pass, then any number of others. -/
theorem optimize_eq (plan : LogicalPlan) :
    ∃ passes, optimize plan = optimizeLoop passes (optimizePass plan).1 := by
  rw [optimize, optimizeLoop]
  dsimp only
  split_ifs
  · exact ⟨7, rfl⟩
  · exact ⟨0, rfl⟩

/-- The required columns of an optimized plan are those that it mentions, in order. -/
theorem requiredColumns_optimize (h : plan.requiredColumns ≠ none) :
    (optimize plan).requiredColumns = some (sortUnique (collectRequiredColumns (optimize plan))) := by
  obtain ⟨passes, hpasses⟩ := optimize_eq plan
  rw [hpasses]
  refine optimizeLoop_induction
    (P := fun p => p.requiredColumns = some (sortUnique (collectRequiredColumns p)))
    (fun p hp => ?_) passes (requiredColumns_optimizePass h)
  exact requiredColumns_optimizePass (by simp [hp])

/-- **The optimizer leaves every column that the plan mentions required.** -/
theorem covered_optimize (h : plan.requiredColumns ≠ none) : (optimize plan).Covered :=
  ⟨_, requiredColumns_optimize h, fun _ hc => mem_sortUnique.mpr (mem_collectRequiredColumns.mpr hc)⟩

end

/-! ## The table of a plan -/

namespace LogicalPlan

/-- The table that the plan scans. -/
def scanOid : LogicalPlan → Option TableId
  | .scan tableOid _ _ => some tableOid
  | .filter _ child | .project _ child | .aggregate _ _ child => child.scanOid
  | .insert _ _ _ | .createTable _ _ => none

end LogicalPlan

section

variable {plan : LogicalPlan} {statement : BoundSelectStatement}

/-- The table of a planned statement. -/
theorem scanOid_planSelect (h : planSelect statement = .ok plan) :
    plan.scanOid = some statement.tableOid := by
  obtain ⟨root, hroot, h⟩ := bind_eq_ok h
  obtain ⟨outputs, -, h⟩ := bind_eq_ok h
  have hscan : root.scanOid = some statement.tableOid := by
    unfold planSource at hroot
    split at hroot
    · cases hroot
      rfl
    · obtain ⟨predicate, -, hroot⟩ := bind_eq_ok hroot
      cases hroot
      rfl
  split at h
  · obtain ⟨groupBy, -, h⟩ := bind_eq_ok h
    cases h
    exact hscan
  · cases h
    exact hscan

/-- Pushing a filter down keeps the table. -/
theorem scanOid_pushFilter (predicate : PlanExpr) (changed : Bool) :
    (pushFilter predicate plan changed).1.scanOid = plan.scanOid := by
  unfold pushFilter
  split
  · dsimp only
    split_ifs
    · rfl
    · split <;> rfl
  · rfl

/-- Pushing down keeps the table. -/
theorem scanOid_pushPredicate : (pushPredicate plan).1.scanOid = plan.scanOid := by
  induction plan with
  | scan tableOid required pushed => rfl
  | filter predicate child ih => exact (scanOid_pushFilter predicate _).trans ih
  | project outputs child ih => exact ih
  | aggregate groupBy outputs child ih => exact ih
  | insert tableOid targetColumns rows => rfl
  | createTable tableName schema => rfl

/-- Required columns keep the table. -/
theorem scanOid_setRequiredColumns (columns : List ℕ) :
    (plan.setRequiredColumns columns).scanOid = plan.scanOid := by
  induction plan with
  | scan tableOid required pushed => rfl
  | filter predicate child ih => exact ih
  | project outputs child ih => exact ih
  | aggregate groupBy outputs child ih => exact ih
  | insert tableOid targetColumns rows => rfl
  | createTable tableName schema => rfl

/-- **The optimizer keeps the table of a plan.** -/
theorem scanOid_optimize (plan : LogicalPlan) : (optimize plan).scanOid = plan.scanOid := by
  refine optimizeLoop_induction (P := fun p => p.scanOid = plan.scanOid) (fun p hp => ?_) 8 rfl
  refine optimizePass_induction (P := fun p => p.scanOid = plan.scanOid) ?_ fun p columns hp => ?_
  · exact scanOid_pushPredicate.trans hp
  · exact (scanOid_setRequiredColumns columns).trans hp

end

end SimpleOlap
