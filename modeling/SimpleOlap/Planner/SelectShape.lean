import SimpleOlap.Planner.OptimizerRows

/-!
# The shape of optimized plans

* `LogicalPlan.IsSource`: a scan of a table under filters, whose pushed predicates compare numbers.
* `LogicalPlan.IsSelectOf`: a projection or an aggregate over such a plan.
* `isSelectOf_optimize`: what the planner makes out of a SELECT, and the optimizer out of that, is one.
* `LogicalPlan.CallsKnown`: it calls nothing but known aggregates (`callsKnown_planSelect`, `callsKnown_optimize`).
-/

namespace SimpleOlap

open Lib

/-- A pushed predicate compares a numeric column with a number. -/
structure SimplePredicate.Numeric (t : TableContent) (p : SimplePredicate) : Prop where
  type : (t.schema.typeOf p.columnIndex).IsNumeric
  value : isNumericLiteral p.value = true
  literal : ¬ p.value.IsNan

namespace LogicalPlan

/-- A scan of the table under filters. -/
def IsSource (t : TableContent) : LogicalPlan → Prop
  | .scan tableOid _ pushed => tableOid = t.tableOid ∧ ∀ p ∈ pushed, p.Numeric t
  | .filter predicate child => (predicate.OfTable t.boundTable ∧ predicate.NoNan) ∧ child.IsSource t
  | _ => False

/-- A projection or an aggregate over a scan of the table under filters. -/
def IsSelectOf (t : TableContent) : LogicalPlan → Prop
  | .project outputs child => (∀ output ∈ outputs, output.expr.OfTable t.boundTable) ∧ child.IsSource t
  | .aggregate _ _ child => child.IsSource t
  | _ => False

/-- The predicates that the scan of a plan evaluates. -/
def pushed : LogicalPlan → List SimplePredicate
  | .scan _ _ pushed => pushed
  | .filter _ child | .project _ child | .aggregate _ _ child => child.pushed
  | .insert _ _ _ | .createTable _ _ => []

end LogicalPlan

section

variable {t : TableContent} {plan : LogicalPlan} {predicate : PlanExpr}

/-- A simple conjunct of a predicate over the table compares a numeric column with a number. -/
theorem numeric_of_extractSimplePredicate (hids : t.schema.IdsArePositions) {e : PlanExpr} {p : SimplePredicate}
    (hof : e.OfTable t.boundTable) (hno : e.NoNan) (h : extractSimplePredicate e = some p) : p.Numeric t := by
  obtain ⟨op, oid, columnType, value, literalType, type, rfl, -, htype, hvalue, hpvalue⟩ :=
    extractSimplePredicate_eq_some h
  have hcolumn : columnType = t.schema.typeOf p.columnIndex :=
    hof.1.2.2.trans (columnType_boundTable hids hof.1.2.1)
  exact ⟨hcolumn ▸ isNumeric_of_isNumericType htype, hpvalue ▸ hvalue, hpvalue ▸ hno.2⟩

/-- Pushing a filter down keeps the source. -/
theorem isSource_pushFilter (hids : t.schema.IdsArePositions)
    (h : (LogicalPlan.filter predicate plan).IsSource t) (changed : Bool) :
    (pushFilter predicate plan changed).1.IsSource t := by
  unfold pushFilter
  split
  · rename_i tableOid required pushed
    obtain ⟨⟨hof, hno⟩, hoid, hpushed⟩ := h
    have hofs := forall_flattenConjuncts (P := fun e => e.OfTable t.boundTable) (fun _ _ _ h => h) hof
    have hnos := forall_flattenConjuncts (P := PlanExpr.NoNan) (fun _ _ _ h => h) hno
    have hscan : (LogicalPlan.scan tableOid required
        (pushed ++ (flattenConjuncts predicate).filterMap extractSimplePredicate)).IsSource t := by
      refine ⟨hoid, fun p hp => ?_⟩
      rcases List.mem_append.mp hp with hp | hp
      · exact hpushed p hp
      · obtain ⟨e, he, hextract⟩ := List.mem_filterMap.mp hp
        exact numeric_of_extractSimplePredicate hids (hofs e he) (hnos e he) hextract
    dsimp only
    split_ifs
    · exact ⟨⟨hof, hno⟩, hoid, hpushed⟩
    · split
      · exact hscan
      · rename_i rest hrest
        have hrestOf := of_buildConjunction (P := fun e => e.OfTable t.boundTable) (fun _ _ hl hr => ⟨hl, hr⟩)
          (fun e he => hofs e (List.mem_filter.mp he).1) hrest
        have hrestNo := of_buildConjunction (P := PlanExpr.NoNan) (fun _ _ hl hr => ⟨hl, hr⟩)
          (fun e he => hnos e (List.mem_filter.mp he).1) hrest
        exact ⟨⟨hrestOf, hrestNo⟩, hscan⟩
  · exact h

/-- Pushing down keeps the source. -/
theorem isSource_pushPredicate (hids : t.schema.IdsArePositions) (h : plan.IsSource t) :
    (pushPredicate plan).1.IsSource t := by
  induction plan with
  | scan tableOid required pushed => exact h
  | filter predicate child ih =>
    have hfilter : (LogicalPlan.filter predicate (pushPredicate child).1).IsSource t := ⟨h.1, ih h.2⟩
    exact isSource_pushFilter hids hfilter _
  | project outputs child ih => exact h.elim
  | aggregate groupBy outputs child ih => exact h.elim
  | insert tableOid targetColumns rows => exact h.elim
  | createTable tableName schema => exact h.elim

/-- Required columns keep the source. -/
theorem isSource_setRequiredColumns (h : plan.IsSource t) (columns : List ℕ) :
    (plan.setRequiredColumns columns).IsSource t := by
  induction plan with
  | scan tableOid required pushed => exact h
  | filter predicate child ih => exact ⟨h.1, ih h.2⟩
  | project outputs child ih => exact h.elim
  | aggregate groupBy outputs child ih => exact h.elim
  | insert tableOid targetColumns rows => exact h.elim
  | createTable tableName schema => exact h.elim

/-- **The optimizer keeps the shape.** -/
theorem isSelectOf_optimize (hids : t.schema.IdsArePositions) (h : plan.IsSelectOf t) :
    (optimize plan).IsSelectOf t := by
  refine optimizeLoop_induction (P := LogicalPlan.IsSelectOf t) (fun plan hplan => ?_) 8 h
  refine optimizePass_induction (P := LogicalPlan.IsSelectOf t) ?_ fun plan columns hplan => ?_
  · cases plan with
    | project outputs child => exact ⟨hplan.1, isSource_pushPredicate hids hplan.2⟩
    | aggregate groupBy outputs child =>
      have hchild : (pushPredicate child).1.IsSource t := isSource_pushPredicate hids hplan
      exact hchild
    | _ => exact hplan.elim
  · cases plan with
    | project outputs child => exact ⟨hplan.1, isSource_setRequiredColumns hplan.2 columns⟩
    | aggregate groupBy outputs child =>
      have hchild : (child.setRequiredColumns columns).IsSource t := isSource_setRequiredColumns hplan columns
      exact hchild
    | _ => exact hplan.elim

/-- **A planned statement has the shape.** -/
theorem isSelectOf_planSelect {statement : BoundSelectStatement} (hof : statement.OfTable t.boundTable)
    (hno : ∀ expr ∈ statement.whereClause, expr.NoNan) (h : planSelect statement = .ok plan) : plan.IsSelectOf t := by
  have hplan := ofTable_planSelect hof hno h
  obtain ⟨root, hroot, h⟩ := bind_eq_ok h
  obtain ⟨outputs, -, h⟩ := bind_eq_ok h
  have hsource : root.OfTable t.boundTable → root.IsSource t := by
    intro hofRoot
    unfold planSource at hroot
    split at hroot
    · cases hroot
      exact ⟨hofRoot.1, fun p hp => absurd hp List.not_mem_nil⟩
    · obtain ⟨predicate, -, hroot⟩ := bind_eq_ok hroot
      cases hroot
      exact ⟨hofRoot.1, hofRoot.2.1, fun p hp => absurd hp List.not_mem_nil⟩
  split at h
  · obtain ⟨groupBy, -, h⟩ := bind_eq_ok h
    cases h
    exact hsource hplan.2
  · cases h
    exact ⟨hplan.1, hsource hplan.2⟩

/-! ## The predicates of the scan -/

/-- What is pushed to a source is numeric. -/
theorem pushed_numeric_of_isSource (h : plan.IsSource t) : ∀ p ∈ plan.pushed, p.Numeric t := by
  induction plan with
  | scan tableOid required pushed => exact h.2
  | filter predicate child ih => exact ih h.2
  | project outputs child ih => exact h.elim
  | aggregate groupBy outputs child ih => exact h.elim
  | insert tableOid targetColumns rows => exact h.elim
  | createTable tableName schema => exact h.elim

/-- What is pushed to a scan is numeric. -/
theorem pushed_numeric_of_isSelectOf (h : plan.IsSelectOf t) : ∀ p ∈ plan.pushed, p.Numeric t := by
  cases plan with
  | project outputs child =>
    have hchild := pushed_numeric_of_isSource h.2
    exact hchild
  | aggregate groupBy outputs child =>
    have hsource : child.IsSource t := h
    have hchild := pushed_numeric_of_isSource hsource
    exact hchild
  | _ => exact h.elim

/-- The columns of pushed predicates are mentioned. -/
theorem LogicalPlan.mentions_pushed {p : SimplePredicate} (hp : p ∈ plan.pushed) :
    plan.Mentions p.columnIndex := by
  induction plan with
  | scan tableOid required pushed => exact .pushed hp rfl
  | filter predicate child ih => exact .filterChild (ih hp)
  | project outputs child ih => exact .projectChild (ih hp)
  | aggregate groupBy outputs child ih => exact .aggregateChild (ih hp)
  | insert tableOid targetColumns rows => exact absurd hp List.not_mem_nil
  | createTable tableName schema => exact absurd hp List.not_mem_nil

end

/-! ## The calls of aggregates -/

/-- The aggregate that an expression calls, if it calls one. -/
def BoundExpr.call? : BoundExpr → Option AggType
  | .aggFunc aggType _ _ | .aggStar aggType _ => some aggType
  | _ => none

/-- So it is for planned expressions. -/
def PlanExpr.call? : PlanExpr → Option AggType
  | .agg aggType _ _ | .aggStar aggType _ => some aggType
  | _ => none

/-- The outputs of an aggregate call nothing but known aggregates. -/
def LogicalPlan.CallsKnown : LogicalPlan → Prop
  | .aggregate _ outputs _ => ∀ output ∈ outputs, output.expr.call? ≠ some .invalid
  | _ => True

section Calls

variable {table : BoundTable} {statement : BoundSelectStatement} {plan : LogicalPlan}

/-- A bound call is known. -/
theorem Binder.call?_bindExpr {e : Expr} {bound : BoundExpr} (h : bindExpr table e = .ok bound) :
    bound.call? ≠ some .invalid := by
  cases e with
  | columnRef columnName =>
    unfold bindExpr at h
    split at h
    · cases h
    · cases h
      exact Option.some_ne_none _ ∘ Eq.symm
  | literal value =>
    cases h
    exact Option.some_ne_none _ ∘ Eq.symm
  | binaryOp op left right =>
    obtain ⟨l, -, h⟩ := bind_eq_ok h
    obtain ⟨r, -, h⟩ := bind_eq_ok h
    cases h
    exact Option.some_ne_none _ ∘ Eq.symm
  | aggStar aggType =>
    unfold bindExpr at h
    by_cases hcount : aggType = .count
    · rw [if_pos hcount] at h
      cases h
      exact fun hcall => by cases hcall
    · rw [if_neg hcount] at h
      cases h
  | aggFunc aggType arg =>
    obtain ⟨a, -, h⟩ := bind_eq_ok h
    obtain ⟨type, rfl⟩ := bindAggFunc_eq h
    intro hcall
    cases hcall
    unfold bindAggFunc at h
    split at h <;> cases h

/-- All bound calls are known. -/
theorem call?_bindSelect {entry : Option BoundTable} {stmt : SelectStatement}
    (h : Binder.bindSelect entry stmt = .ok statement) :
    ∀ item ∈ statement.selectList, item.expr.call? ≠ some .invalid := by
  rcases entry with _ | table
  · cases h
  · obtain ⟨selectList, hselect, h⟩ := bind_eq_ok h
    obtain ⟨whereClause, -, h⟩ := bind_eq_ok h
    obtain ⟨groupBy, -, h⟩ := bind_eq_ok h
    obtain ⟨_, -, h⟩ := bind_eq_ok h
    cases h
    intro item hitem
    unfold Binder.bindSelectList at hselect
    split at hselect
    · cases hselect
      obtain ⟨i, -, rfl⟩ := List.mem_map.mp hitem
      exact fun hcall => by cases hcall
    · obtain ⟨parsed, -, hparsed⟩ := mem_of_mapM_eq_ok hselect hitem
      obtain ⟨expr, hexpr, hitem⟩ := bind_eq_ok hparsed
      cases hitem
      exact Binder.call?_bindExpr hexpr

/-- Planning keeps the call. -/
theorem call?_buildPlanExpr {bound : BoundExpr} {expr : PlanExpr} (h : buildPlanExpr bound = .ok expr) :
    expr.call? = bound.call? := by
  cases bound with
  | columnRef | literal | aggStar =>
    cases h
    rfl
  | binaryOp op left right type =>
    obtain ⟨l, -, h⟩ := bind_eq_ok h
    obtain ⟨r, -, h⟩ := bind_eq_ok h
    cases h
    rfl
  | aggFunc aggType arg type =>
    obtain ⟨a, -, h⟩ := bind_eq_ok h
    cases h
    rfl
  | cast type => cases h

/-- All planned calls are known. -/
theorem callsKnown_planSelect (hcalls : ∀ item ∈ statement.selectList, item.expr.call? ≠ some .invalid)
    (h : planSelect statement = .ok plan) : plan.CallsKnown := by
  obtain ⟨root, -, h⟩ := bind_eq_ok h
  obtain ⟨outputs, houtputs, h⟩ := bind_eq_ok h
  split at h
  · obtain ⟨groupBy, -, h⟩ := bind_eq_ok h
    cases h
    intro output houtput
    obtain ⟨item, hitem, hbuilt⟩ := mem_of_mapM_eq_ok houtputs houtput
    obtain ⟨expr, hexpr, hbuilt⟩ := bind_eq_ok hbuilt
    cases hbuilt
    show expr.call? ≠ some .invalid
    rw [call?_buildPlanExpr hexpr]
    exact hcalls item hitem
  · cases h
    exact True.intro

/-- What comes out of a filter calls no aggregate. -/
theorem callsKnown_pushFilter (predicate : PlanExpr) (child : LogicalPlan) (changed : Bool) :
    (pushFilter predicate child changed).1.CallsKnown := by
  unfold pushFilter
  split
  · dsimp only
    split_ifs
    · exact True.intro
    · split <;> exact True.intro
  · exact True.intro

/-- The optimizer keeps the outputs. -/
theorem callsKnown_optimize (h : plan.CallsKnown) : (optimize plan).CallsKnown := by
  refine optimizeLoop_induction (P := LogicalPlan.CallsKnown) (fun plan hplan => ?_) 8 h
  refine optimizePass_induction (P := LogicalPlan.CallsKnown) ?_ fun plan columns hplan => ?_
  · cases plan with
    | aggregate groupBy outputs child => exact hplan
    | filter predicate child => exact callsKnown_pushFilter ..
    | _ => exact True.intro
  · cases plan with
    | aggregate groupBy outputs child => exact hplan
    | _ => exact True.intro

end Calls

end SimpleOlap
