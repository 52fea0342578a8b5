import SimpleOlap.Planner.Pushdown

/-!
# The optimizer keeps the rows

* `runPlan_pushPredicate`, `runPlan_optimizePass`: one rule, and one pass of both.
* `optimize_select`: for every SELECT that the binder accepts, the optimized plan has the rows of the plan,
  and the scan is asked for every column that the optimized plan mentions.
-/

namespace SimpleOlap

open Lib

section

variable {t : TableContent} {schema : ExecSchema} {rows : List Row} {plan child : LogicalPlan}
  {predicate : PlanExpr} {unset columns : List ℕ} {table : BoundTable}

/-! ## Plans over the table stay so -/

theorem PlanExpr.lt_of_mentions {expr : PlanExpr} (hof : expr.OfTable table) {c : ℕ}
    (h : expr.Mentions c) : c < table.columns.length := by
  induction h with
  | columnRef tableOid type => exact hof.2.1
  | left op right type _ ih => exact ih hof.1
  | right op left type _ ih => exact ih hof.2
  | arg aggType type _ ih => exact ih hof

theorem LogicalPlan.lt_of_mentions (hof : plan.OfTable table) {c : ℕ} (h : plan.Mentions c) :
    c < table.columns.length := by
  induction h with
  | pushed hp h => exact h ▸ hof.2 _ hp
  | predicate h => exact PlanExpr.lt_of_mentions hof.1.1 h
  | filterChild _ ih => exact ih hof.2
  | projectOutput ho h => exact PlanExpr.lt_of_mentions (hof.1 _ ho) h
  | projectChild _ ih => exact ih hof.2
  | group he h => exact PlanExpr.lt_of_mentions (hof.1.1 _ he) h
  | aggregateOutput ho h => exact PlanExpr.lt_of_mentions (hof.1.2 _ ho) h
  | aggregateChild _ ih => exact ih hof.2

theorem ofTable_setRequiredColumns (hof : plan.OfTable table) :
    (plan.setRequiredColumns columns).OfTable table := by
  induction plan with
  | scan tableOid required pushed => exact hof
  | filter predicate child ih => exact ⟨hof.1, ih hof.2⟩
  | project outputs child ih => exact ⟨hof.1, ih hof.2⟩
  | aggregate groupBy outputs child ih => exact ⟨hof.1, ih hof.2⟩
  | insert tableOid targetColumns rows => exact hof
  | createTable tableName schema => exact hof

/-- The column of a simple conjunct is one of the table. -/
theorem lt_of_extractSimplePredicate {e : PlanExpr} {p : SimplePredicate} (hof : e.OfTable table)
    (h : extractSimplePredicate e = some p) : p.columnIndex < table.columns.length := by
  obtain ⟨op, oid, columnType, value, literalType, type, rfl, -⟩ := extractSimplePredicate_eq_some h
  exact hof.1.2.1

theorem ofTable_pushFilter (hof : (LogicalPlan.filter predicate child).OfTable table) (changed : Bool) :
    (pushFilter predicate child changed).1.OfTable table := by
  unfold pushFilter
  split
  · rename_i tableOid required pushed
    obtain ⟨⟨hpred, hno⟩, hoid, hpushed⟩ := hof
    have hofs := forall_flattenConjuncts (P := fun e => e.OfTable table) (fun _ _ _ h => h) hpred
    have hnos := forall_flattenConjuncts (P := PlanExpr.NoNan) (fun _ _ _ h => h) hno
    have hscan : (LogicalPlan.scan tableOid required
        (pushed ++ (flattenConjuncts predicate).filterMap extractSimplePredicate)).OfTable table := by
      refine ⟨hoid, fun p hp => ?_⟩
      rcases List.mem_append.mp hp with hp | hp
      · exact hpushed p hp
      · obtain ⟨e, he, hextract⟩ := List.mem_filterMap.mp hp
        exact lt_of_extractSimplePredicate (hofs e he) hextract
    dsimp only
    split_ifs
    · exact ⟨⟨hpred, hno⟩, hoid, hpushed⟩
    · split
      · exact hscan
      · rename_i rest hrest
        have hrestOf := of_buildConjunction (P := fun e => e.OfTable table) (fun _ _ hl hr => ⟨hl, hr⟩)
          (fun e he => hofs e (List.mem_filter.mp he).1) hrest
        have hrestNo := of_buildConjunction (P := PlanExpr.NoNan) (fun _ _ hl hr => ⟨hl, hr⟩)
          (fun e he => hnos e (List.mem_filter.mp he).1) hrest
        exact ⟨⟨hrestOf, hrestNo⟩, hscan⟩
  · exact hof

theorem ofTable_pushPredicate (hof : plan.OfTable table) : (pushPredicate plan).1.OfTable table := by
  induction plan with
  | scan tableOid required pushed => exact hof
  | filter predicate child ih =>
    have hfilter : (LogicalPlan.filter predicate (pushPredicate child).1).OfTable table :=
      ⟨hof.1, ih hof.2⟩
    exact ofTable_pushFilter hfilter _
  | project outputs child ih => exact ⟨hof.1, ih hof.2⟩
  | aggregate groupBy outputs child ih => exact ⟨hof.1, ih hof.2⟩
  | insert tableOid targetColumns rows => exact hof
  | createTable tableName schema => exact hof

/-! ## One rule, one pass, all passes -/

/-- Pushdown keeps the rows below a projection or an aggregate. -/
theorem sourceRows_pushPredicate (hids : t.schema.IdsArePositions) (hnoNan : t.NoNan)
    (hof : plan.OfTable t.boundTable) (h : sourceRows t unset plan = .ok (schema, rows)) :
    sourceRows t unset (pushPredicate plan).1 = .ok (schema, rows) := by
  induction plan generalizing schema rows with
  | scan tableOid required pushed => exact h
  | filter predicate child ih =>
    have hfilter : sourceRows t unset (.filter predicate (pushPredicate child).1) =
        .ok (schema, rows) := by
      obtain ⟨⟨schema₀, rows₀⟩, hchild, h⟩ := bind_eq_ok h
      rw [sourceRows, ih hof.2 hchild]
      exact h
    exact sourceRows_pushFilter hids hnoNan ⟨hof.1, ofTable_pushPredicate hof.2⟩ hfilter _
  | project outputs child ih => cases h
  | aggregate groupBy outputs child ih => cases h
  | insert tableOid targetColumns rows' => cases h
  | createTable tableName tableSchema => cases h

variable {order : GroupTable → GroupTable} {out : List (List ExecValue)}

/-- **Pushdown keeps the rows of a plan.** -/
theorem runPlan_pushPredicate (hids : t.schema.IdsArePositions) (hnoNan : t.NoNan)
    (hof : plan.OfTable t.boundTable) (h : runPlan t order unset plan = .ok out) :
    runPlan t order unset (pushPredicate plan).1 = .ok out := by
  cases plan with
  | scan tableOid required pushed => cases h
  | filter predicate child => cases h
  | project outputs child =>
    obtain ⟨⟨schema, rows⟩, hchild, h⟩ := bind_eq_ok h
    have hpushed := sourceRows_pushPredicate hids hnoNan hof.2 hchild
    show runPlan t order unset (.project outputs (pushPredicate child).1) = .ok out
    rw [runPlan, hpushed]
    exact h
  | aggregate groupBy outputs child =>
    obtain ⟨⟨schema, rows⟩, hchild, h⟩ := bind_eq_ok h
    have hpushed := sourceRows_pushPredicate hids hnoNan hof.2 hchild
    show runPlan t order unset (.aggregate groupBy outputs (pushPredicate child).1) = .ok out
    rw [runPlan, hpushed]
    exact h
  | insert tableOid targetColumns rows => cases h
  | createTable tableName schema => cases h

theorem requiredColumns_of_sourceRows (h : sourceRows t unset plan = .ok (schema, rows)) :
    plan.requiredColumns ≠ none := by
  induction plan generalizing rows with
  | scan tableOid required pushed => exact Option.some_ne_none required
  | filter predicate child ih =>
    obtain ⟨⟨schema₀, rows₀⟩, hchild, h⟩ := bind_eq_ok h
    obtain ⟨compiled, -, h⟩ := bind_eq_ok h
    obtain ⟨kept, -, h⟩ := bind_eq_ok h
    cases h
    exact ih hchild
  | project outputs child ih => cases h
  | aggregate groupBy outputs child ih => cases h
  | insert tableOid targetColumns rows' => cases h
  | createTable tableName tableSchema => cases h

/-- A plan that yields rows has a scan. -/
theorem requiredColumns_of_runPlan (h : runPlan t order unset plan = .ok out) :
    plan.requiredColumns ≠ none := by
  cases plan with
  | scan tableOid required pushed => cases h
  | filter predicate child => cases h
  | project outputs child =>
    obtain ⟨⟨schema, rows⟩, hchild, -⟩ := bind_eq_ok h
    have hscan := requiredColumns_of_sourceRows hchild
    exact hscan
  | aggregate groupBy outputs child =>
    obtain ⟨⟨schema, rows⟩, hchild, -⟩ := bind_eq_ok h
    have hscan := requiredColumns_of_sourceRows hchild
    exact hscan
  | insert tableOid targetColumns rows => cases h
  | createTable tableName schema => cases h

/-- **One pass keeps the rows.** -/
theorem runPlan_optimizePass (hids : t.schema.IdsArePositions) (hnoNan : t.NoNan)
    (hof : plan.OfTable t.boundTable) (h : runPlan t order unset plan = .ok out) :
    (optimizePass plan).1.OfTable t.boundTable ∧
      runPlan t order [] (optimizePass plan).1 = .ok out := by
  have hpushed := runPlan_pushPredicate hids hnoNan hof h
  have hofPushed := ofTable_pushPredicate hof
  obtain ⟨required, hrequired⟩ :=
    Option.ne_none_iff_exists'.mp (requiredColumns_of_runPlan hpushed)
  have hpass : (optimizePass plan).1 = (pushPredicate plan).1.setRequiredColumns
      (sortUnique (collectRequiredColumns (pushPredicate plan).1)) := columnPruning_fst hrequired
  rw [hpass]
  refine ⟨ofTable_setRequiredColumns hofPushed, runPlan_setRequiredColumns hpushed hofPushed ?_ ?_⟩
  · intro c hc
    have hmentions := mem_collectRequiredColumns.mp (mem_sortUnique.mp hc)
    have hlt := LogicalPlan.lt_of_mentions hofPushed hmentions
    rw [findColumnSchema_of_lt hids hlt]
    exact Option.some_ne_none _
  · intro c hc
    exact mem_sortUnique.mpr (mem_collectRequiredColumns.mpr hc)

/-- **The optimizer keeps the rows of a plan over the table.** -/
theorem runPlan_optimize (hids : t.schema.IdsArePositions) (hnoNan : t.NoNan)
    (hof : plan.OfTable t.boundTable) (h : runPlan t order unset plan = .ok out) :
    runPlan t order [] (optimize plan) = .ok out := by
  obtain ⟨passes, hpasses⟩ := optimize_eq plan
  rw [hpasses]
  have hfirst := runPlan_optimizePass hids hnoNan hof h
  exact (optimizeLoop_induction
    (P := fun plan => plan.OfTable t.boundTable ∧ runPlan t order [] plan = .ok out)
    (fun _ h => runPlan_optimizePass hids hnoNan h.1 h.2) passes hfirst).2

end

/-! ## Plans of statements -/

theorem requiredColumns_planSelect {statement : BoundSelectStatement} {plan : LogicalPlan}
    (h : planSelect statement = .ok plan) : plan.requiredColumns ≠ none := by
  obtain ⟨root, hroot, h⟩ := bind_eq_ok h
  obtain ⟨outputs, -, h⟩ := bind_eq_ok h
  have hscan : root.requiredColumns ≠ none := by
    unfold planSource at hroot
    split at hroot
    · cases hroot
      exact Option.some_ne_none []
    · obtain ⟨predicate, -, hroot⟩ := bind_eq_ok hroot
      cases hroot
      exact Option.some_ne_none []
  split at h
  · obtain ⟨groupBy, -, h⟩ := bind_eq_ok h
    cases h
    exact hscan
  · cases h
    exact hscan

/-- **The optimizer preserves the meaning of queries.** Every SELECT that the binder accepts over the table
and the planner plans: where the plan, with any columns shown for its scan (all of them, or the first as
the executor has it), yields rows, the optimized plan yields the same; and the scan of the optimized plan
is asked for every column that the plan mentions. -/
theorem optimize_select (t : TableContent) (hids : t.schema.IdsArePositions) (hnoNan : t.NoNan)
    (stmt : SelectStatement) (hliterals : ∀ e ∈ stmt.whereClause, e.NoNan) (bound : BoundSelectStatement)
    (hbind : Binder.bindSelect (some t.boundTable) stmt = .ok bound) (plan : LogicalPlan)
    (hplan : planSelect bound = .ok plan) :
    (∀ (order : GroupTable → GroupTable) (unset : List ℕ) (out : List (List ExecValue)),
      runPlan t order unset plan = .ok out → runPlan t order [] (optimize plan) = .ok out) ∧
    (optimize plan).Covered := by
  obtain ⟨table, htable, hof, hno⟩ := Binder.bindSelect_spec hbind
  cases htable
  have hofPlan := ofTable_planSelect hof (hno hliterals) hplan
  refine ⟨fun order unset out h => runPlan_optimize hids hnoNan hofPlan h, ?_⟩
  exact covered_optimize (requiredColumns_planSelect hplan)

/-! ### A query with a conjunct that is pushed and one that is not -/

/-- Two integer columns, `a` and `b`. -/
def pairTable : TableContent where
  tableOid := 7
  schema := ⟨[⟨0, ascii ['a'], .int32⟩, ⟨1, ascii ['b'], .int32⟩], none, []⟩
  rows := [[leBytes 4 1, leBytes 4 0], [leBytes 4 3, leBytes 4 1], [leBytes 4 2, leBytes 4 5]]

/-- `SELECT b FROM t WHERE a > 1 AND b < a`. -/
def selectPairs : SelectStatement where
  tableName := ascii ['t']
  selectList := [⟨.columnRef (ascii ['b']), []⟩]
  whereClause := some (.binaryOp .and
    (.binaryOp .gt (.columnRef (ascii ['a'])) (.literal (.int32 1)))
    (.binaryOp .lt (.columnRef (ascii ['b'])) (.columnRef (ascii ['a']))))
  groupBy := []

/-- The statement, bound. -/
def boundPairs : BoundSelectStatement where
  tableOid := 7
  selectList := [⟨.columnRef 7 1 .int32, []⟩]
  whereClause := some (.binaryOp .and
    (.binaryOp .gt (.columnRef 7 0 .int32) (.literal (.int32 1) .int32) .int32)
    (.binaryOp .lt (.columnRef 7 1 .int32) (.columnRef 7 0 .int32) .int32) .int32)
  groupBy := []

/-- Its plan. -/
def pairsPlan : LogicalPlan :=
  .project [⟨.columnRef 7 1 .int32, []⟩] (.filter (.binary .and
    (.binary .gt (.columnRef 7 0 .int32) (.literal (.int32 1) .int32) .int32)
    (.binary .lt (.columnRef 7 1 .int32) (.columnRef 7 0 .int32) .int32) .int32) (.scan 7 [] []))

theorem noNan_pairTable : pairTable.NoNan := by
  intro row hrow c
  have htype : pairTable.schema.typeOf c = .int32 ∨ pairTable.schema.typeOf c = .invalid := by
    rcases c with _ | _ | c
    · exact .inl rfl
    · exact .inl rfl
    · exact .inr rfl
  rcases htype with htype | htype <;>
    simp only [ColumnData.numberAt, TableContent.columnData, htype] <;>
    exact Fp.ofInt_ne_nan _

theorem optimize_select_pairs :
    runPlan pairTable id [0, 1] pairsPlan = .ok [[.int32 1]] ∧
    runPlan pairTable id [] (optimize pairsPlan) = .ok [[.int32 1]] ∧ (optimize pairsPlan).Covered := by
  have hids : pairTable.schema.IdsArePositions := by
    intro i hi
    rcases i with _ | _ | i
    · rfl
    · rfl
    · exact absurd (show i + 2 < 2 from hi) (by omega)
  have hrun : runPlan pairTable id [0, 1] pairsPlan = .ok [[.int32 1]] := by decide +kernel
  have hselect := optimize_select pairTable hids noNan_pairTable selectPairs
    (by rintro e ⟨rfl⟩; exact ⟨⟨trivial, id⟩, trivial, trivial⟩) boundPairs rfl pairsPlan rfl
  exact ⟨hrun, hselect.1 id [0, 1] _ hrun, hselect.2⟩

end SimpleOlap
