import SimpleOlap.Execution.Compilable
import SimpleOlap.Planner.OptimizerRows
import SimpleOlap.Sql.ParserSteps

/-!
# Which SELECTs are built

The binder looks at the aggregates of a statement, the planner chooses a node by them, and the builder maps
and compiles them.

* `BoundSelectStatement.Executable`: the aggregates of a bound statement stand where they are computed, and
  nothing else stands beside them but group-by expressions. `built_iff_executable`: exactly then it is built.
* `SelectStatement.Executable`: the same of a parsed statement. `bindSelect_built_iff`: of the statements
  that the binder accepts, exactly these are built.

Source: `binder.cpp` ValidateAggregations, `planner.cpp` PlanSelect, `executor_builder.cpp`.
-/

namespace SimpleOlap

open Lib

variable {table : BoundTable} {catalog : TableId → Option TableSchema} {schema : TableSchema}

/-! ## Aggregates through the stages -/

namespace Expr

/-- The expression contains an aggregate. -/
def containsAggregate : Expr → Bool
  | .aggFunc _ _ | .aggStar _ => true
  | .binaryOp _ left right => left.containsAggregate || right.containsAggregate
  | _ => false

/-- The expression is the call of an aggregate. -/
def isCall : Expr → Bool
  | .aggFunc _ _ | .aggStar _ => true
  | _ => false

end Expr

namespace BoundExpr

/-- The expression is the call of an aggregate. -/
def isCall : BoundExpr → Bool
  | .aggFunc _ _ _ | .aggStar _ _ => true
  | _ => false

/-- The argument of an aggregate contains none. -/
def PlainArgument : BoundExpr → Prop
  | .aggFunc _ arg _ => Binder.containsAggregate arg = false
  | _ => True

/-- The builder takes the expressions as the same. -/
def SameText (expr group : BoundExpr) : Prop :=
  ∃ p q, buildPlanExpr expr = .ok p ∧ buildPlanExpr group = .ok q ∧ planExprEquivalent p q = true

end BoundExpr

/-- What the binder does to aggregates. -/
theorem Binder.bindExpr_aggregates {e : Expr} {bound : BoundExpr} (h : bindExpr table e = .ok bound) :
    containsAggregate bound = e.containsAggregate ∧ bound.isCall = e.isCall ∧ bound.PlainArgument := by
  induction e generalizing bound with
  | columnRef columnName =>
    rw [bindExpr] at h
    split at h
    · cases h
    · cases h
      exact ⟨rfl, rfl, trivial⟩
  | literal value =>
    cases h
    exact ⟨rfl, rfl, trivial⟩
  | binaryOp op left right ihl ihr =>
    obtain ⟨l, hl, h⟩ := bind_eq_ok h
    obtain ⟨r, hr, h⟩ := bind_eq_ok h
    cases h
    refine ⟨?_, rfl, trivial⟩
    rw [containsAggregate, (ihl hl).1, (ihr hr).1, Expr.containsAggregate]
  | aggFunc aggType arg _ =>
    obtain ⟨a, -, h⟩ := bind_eq_ok h
    obtain ⟨type, rfl⟩ := bindAggFunc_eq h
    refine ⟨rfl, rfl, ?_⟩
    unfold bindAggFunc at h
    split at h
    · cases h
    · exact Bool.eq_false_iff.mpr ‹_›
  | aggStar aggType =>
    rw [bindExpr] at h
    split at h
    · cases h
      exact ⟨rfl, rfl, trivial⟩
    · cases h

/-- Planning keeps the aggregates. -/
theorem containsAggregate_buildPlanExpr {bound : BoundExpr} {expr : PlanExpr}
    (h : buildPlanExpr bound = .ok expr) : expr.containsAggregate = Binder.containsAggregate bound := by
  induction bound generalizing expr with
  | columnRef oid colIdx type =>
    cases h
    rfl
  | literal value type =>
    cases h
    rfl
  | binaryOp op left right type ihl ihr =>
    obtain ⟨l, hl, h⟩ := bind_eq_ok h
    obtain ⟨r, hr, h⟩ := bind_eq_ok h
    cases h
    rw [PlanExpr.containsAggregate, ihl hl, ihr hr, Binder.containsAggregate]
  | aggFunc aggType arg type _ =>
    obtain ⟨a, -, h⟩ := bind_eq_ok h
    cases h
    rfl
  | aggStar aggType type =>
    cases h
    rfl
  | cast type => cases h

/-- What an output of an aggregate is built from. -/
theorem aggregated_iff {bound : BoundExpr} {expr : PlanExpr} {groups : List PlanExpr}
    (h : buildPlanExpr bound = .ok expr) (harg : bound.PlainArgument) :
    expr.Aggregated PlanExpr.Plain groups ↔
      bound.isCall = true ∨ ∃ group ∈ groups, planExprEquivalent expr group = true := by
  have hgroup : bound.isCall = false → (findGroupIndex expr groups ≠ none ↔
      bound.isCall = true ∨ ∃ group ∈ groups, planExprEquivalent expr group = true) := by
    intro hcall
    rw [hcall, findGroupIndex, ne_eq, List.findIdx?_eq_none_iff]
    simp
  cases bound with
  | columnRef oid colIdx type =>
    cases h
    exact hgroup rfl
  | literal value type =>
    cases h
    exact hgroup rfl
  | binaryOp op left right type =>
    obtain ⟨l, -, h⟩ := bind_eq_ok h
    obtain ⟨r, -, h⟩ := bind_eq_ok h
    cases h
    exact hgroup rfl
  | aggFunc aggType arg type =>
    obtain ⟨a, ha, h⟩ := bind_eq_ok h
    cases h
    exact iff_of_true ((containsAggregate_buildPlanExpr ha).trans harg) (.inl rfl)
  | aggStar aggType type =>
    cases h
    exact iff_of_true trivial (.inl rfl)
  | cast type => cases h

/-! ## Bound statements -/

/-- No filter on aggregates; and either neither GROUP BY nor aggregates, or no aggregates in GROUP BY and
only calls and group-by expressions as outputs. -/
structure BoundSelectStatement.Executable (statement : BoundSelectStatement) : Prop where
  whereClause : ∀ e ∈ statement.whereClause, Binder.containsAggregate e = false
  groupBy : ∀ e ∈ statement.groupBy, Binder.containsAggregate e = false
  selectList : (statement.groupBy = [] ∧
      ∀ item ∈ statement.selectList, Binder.containsAggregate item.expr = false) ∨
    ∀ item ∈ statement.selectList, item.expr.isCall = true ∨
      ∃ group ∈ statement.groupBy, item.expr.SameText group

section

variable {statement : BoundSelectStatement} {plan root : LogicalPlan} {outputs : List NamedPlanExpr}

/-- The source is plain where WHERE has no aggregate. -/
theorem source_planSource_iff (h : planSource statement = .ok root) :
    root.Source PlanExpr.Plain ↔ ∀ e ∈ statement.whereClause, Binder.containsAggregate e = false := by
  unfold planSource at h
  split at h
  · rename_i hwhere
    cases h
    rw [hwhere]
    exact iff_of_true trivial (by simp)
  · rename_i clause hwhere
    obtain ⟨predicate, hpredicate, h⟩ := bind_eq_ok h
    cases h
    rw [hwhere]
    show (predicate.containsAggregate = false ∧ True) ↔ _
    rw [containsAggregate_buildPlanExpr hpredicate]
    simp

/-- An output is built from its item. -/
theorem exists_buildOutputs (h : buildOutputs statement.selectList = .ok outputs) :
    (∀ item ∈ statement.selectList, ∃ output ∈ outputs, buildPlanExpr item.expr = .ok output.expr) ∧
      ∀ output ∈ outputs, ∃ item ∈ statement.selectList, buildPlanExpr item.expr = .ok output.expr := by
  constructor
  · intro item hitem
    obtain ⟨output, houtput, hbuilt⟩ := exists_of_mem_mapM h hitem
    obtain ⟨expr, hexpr, hbuilt⟩ := bind_eq_ok hbuilt
    cases hbuilt
    exact ⟨_, houtput, hexpr⟩
  · intro output houtput
    obtain ⟨item, hitem, hbuilt⟩ := mem_of_mapM_eq_ok h houtput
    obtain ⟨expr, hexpr, hbuilt⟩ := bind_eq_ok hbuilt
    cases hbuilt
    exact ⟨item, hitem, hexpr⟩

/-- The planner's outputs contain no aggregate exactly when the items do not. -/
theorem plain_outputs_iff (h : buildOutputs statement.selectList = .ok outputs) :
    (∀ output ∈ outputs, output.expr.Plain) ↔
      ∀ item ∈ statement.selectList, Binder.containsAggregate item.expr = false := by
  obtain ⟨hforth, hback⟩ := exists_buildOutputs h
  constructor
  · intro hplain item hitem
    obtain ⟨output, houtput, hbuilt⟩ := hforth item hitem
    exact (containsAggregate_buildPlanExpr hbuilt).symm.trans (hplain output houtput)
  · intro hplain output houtput
    obtain ⟨item, hitem, hbuilt⟩ := hback output houtput
    exact (containsAggregate_buildPlanExpr hbuilt).trans (hplain item hitem)

/-- The plan of a SELECT is one, over its scan. -/
theorem planSelect_cases (h : planSelect statement = .ok plan) :
    ∃ root outputs, planSource statement = .ok root ∧
      buildOutputs statement.selectList = .ok outputs ∧
      ((statement.groupBy = [] ∧ (∀ output ∈ outputs, output.expr.Plain) ∧ plan = .project outputs root) ∨
        ((statement.groupBy ≠ [] ∨ ¬ ∀ output ∈ outputs, output.expr.Plain) ∧
          ∃ groups, statement.groupBy.mapM buildPlanExpr = .ok groups ∧
            plan = .aggregate groups outputs root)) := by
  obtain ⟨root, hroot, h⟩ := bind_eq_ok h
  obtain ⟨outputs, houtputs, h⟩ := bind_eq_ok h
  refine ⟨root, outputs, hroot, houtputs, ?_⟩
  split at h
  · rename_i haggregate
    obtain ⟨groups, hgroups, h⟩ := bind_eq_ok h
    cases h
    refine .inr ⟨?_, groups, hgroups, rfl⟩
    rcases Bool.or_eq_true_iff.mp haggregate with hne | hany
    · exact .inl (by simpa using hne)
    · obtain ⟨output, houtput, hcontains⟩ := List.any_eq_true.mp hany
      refine .inr fun hall => ?_
      rw [hall output houtput] at hcontains
      cases hcontains
  · rename_i haggregate
    cases h
    obtain ⟨hnil, hany⟩ := Bool.or_eq_false_iff.mp (Bool.eq_false_iff.mpr haggregate)
    refine .inl ⟨by simpa using hnil, fun output houtput => ?_, rfl⟩
    exact Bool.eq_false_iff.mpr (List.any_eq_false.mp hany output houtput)

/-- A planned statement has the shape. -/
theorem isSelect_planSelect (h : planSelect statement = .ok plan) : plan.IsSelect := by
  obtain ⟨root, outputs, hroot, -, hcases⟩ := planSelect_cases h
  have hsource : root.Source fun _ => True := by
    unfold planSource at hroot
    split at hroot
    · cases hroot
      trivial
    · obtain ⟨predicate, -, hroot⟩ := bind_eq_ok hroot
      cases hroot
      exact ⟨trivial, trivial⟩
  rcases hcases with ⟨-, -, rfl⟩ | ⟨-, groups, -, rfl⟩
  · exact hsource
  · exact hsource

/-- **The plan of a statement is compilable exactly when the statement is executable.** -/
theorem compilable_planSelect_iff (hargs : ∀ item ∈ statement.selectList, item.expr.PlainArgument)
    (h : planSelect statement = .ok plan) :
    plan.Compilable PlanExpr.Plain ↔ statement.Executable := by
  obtain ⟨root, outputs, hroot, houtputs, hcases⟩ := planSelect_cases h
  have hsource := source_planSource_iff hroot
  have hplain := plain_outputs_iff houtputs
  obtain ⟨hforth, hback⟩ := exists_buildOutputs houtputs
  rcases hcases with ⟨hnil, hall, rfl⟩ | ⟨haggregate, groups, hgroups, rfl⟩
  · constructor
    · exact fun hc => ⟨hsource.mp hc.2, by simp [hnil], .inl ⟨hnil, hplain.mp hall⟩⟩
    · exact fun he => ⟨hall, hsource.mpr he.whereClause⟩
  · have hgroup : (∀ e ∈ groups, e.Plain) ↔
        ∀ e ∈ statement.groupBy, Binder.containsAggregate e = false := by
      constructor
      · intro hplains e he
        obtain ⟨g, hg, hbuilt⟩ := exists_of_mem_mapM hgroups he
        exact (containsAggregate_buildPlanExpr hbuilt).symm.trans (hplains g hg)
      · intro hplains g hg
        obtain ⟨e, he, hbuilt⟩ := mem_of_mapM_eq_ok hgroups hg
        exact (containsAggregate_buildPlanExpr hbuilt).trans (hplains e he)
    -- a text is that of a group of the plan exactly when it is that of one of the statement
    have htext : ∀ {bound : BoundExpr} {expr : PlanExpr}, buildPlanExpr bound = .ok expr →
        ((∃ g ∈ groups, planExprEquivalent expr g = true) ↔ ∃ e ∈ statement.groupBy, bound.SameText e) := by
      intro bound expr hbuilt
      constructor
      · rintro ⟨g, hg, hequiv⟩
        obtain ⟨e, he, hbuiltE⟩ := mem_of_mapM_eq_ok hgroups hg
        exact ⟨e, he, expr, g, hbuilt, hbuiltE, hequiv⟩
      · rintro ⟨e, he, p, q, hp, hq, hequiv⟩
        obtain ⟨g, hg, hbuiltE⟩ := exists_of_mem_mapM hgroups he
        rw [hbuilt] at hp
        rw [hbuiltE] at hq
        cases hp
        cases hq
        exact ⟨_, hg, hequiv⟩
    have hitems : (∀ output ∈ outputs, output.expr.Aggregated PlanExpr.Plain groups) ↔
        ∀ item ∈ statement.selectList, item.expr.isCall = true ∨
          ∃ group ∈ statement.groupBy, item.expr.SameText group := by
      constructor
      · intro hall item hitem
        obtain ⟨output, houtput, hbuilt⟩ := hforth item hitem
        rw [← htext hbuilt]
        exact (aggregated_iff hbuilt (hargs item hitem)).mp (hall output houtput)
      · intro hall output houtput
        obtain ⟨item, hitem, hbuilt⟩ := hback output houtput
        refine (aggregated_iff hbuilt (hargs item hitem)).mpr ?_
        rw [htext hbuilt]
        exact hall item hitem
    constructor
    · rintro ⟨⟨hg, ho⟩, hs⟩
      exact ⟨hsource.mp hs, hgroup.mp hg, .inr (hitems.mp ho)⟩
    · intro he
      refine ⟨⟨hgroup.mpr he.groupBy, hitems.mpr ?_⟩, hsource.mpr he.whereClause⟩
      rcases he.selectList with ⟨hnil, hall⟩ | hall
      · exact absurd (hplain.mpr hall) (haggregate.resolve_left (not_not.mpr hnil))
      · exact hall

/-- The columns of the plan are columns of the table. -/
theorem lt_of_mentions_planSelect (hstmt : statement.OfTable table) (h : planSelect statement = .ok plan)
    {c : ℕ} (hc : plan.Mentions c) : c < table.columns.length := by
  obtain ⟨root, outputs, hroot, houtputs, hcases⟩ := planSelect_cases h
  have hsource : root.Mentions c → c < table.columns.length := by
    intro hc
    unfold planSource at hroot
    split at hroot
    · cases hroot
      rcases hc with ⟨hp, -⟩
      exact absurd hp List.not_mem_nil
    · rename_i clause hwhere
      obtain ⟨predicate, hpredicate, hroot⟩ := bind_eq_ok hroot
      cases hroot
      cases hc with
      | predicate hc =>
        have hof := (ofTable_buildPlanExpr (hstmt.whereClause clause hwhere) hpredicate).1
        exact PlanExpr.lt_of_mentions hof hc
      | filterChild hc =>
        rcases hc with ⟨hp, -⟩
        exact absurd hp List.not_mem_nil
  have houtput : ∀ output ∈ outputs, output.expr.Mentions c → c < table.columns.length := by
    intro output ho hc
    obtain ⟨item, hitem, hbuilt⟩ := (exists_buildOutputs houtputs).2 output ho
    exact PlanExpr.lt_of_mentions (ofTable_buildPlanExpr (hstmt.selectList item hitem) hbuilt).1 hc
  rcases hcases with ⟨-, -, rfl⟩ | ⟨-, groups, hgroups, rfl⟩
  · cases hc with
    | projectOutput ho hc => exact houtput _ ho hc
    | projectChild hc => exact hsource hc
  · cases hc with
    | group he hc =>
      obtain ⟨e, hmem, hbuilt⟩ := mem_of_mapM_eq_ok hgroups he
      exact PlanExpr.lt_of_mentions (ofTable_buildPlanExpr (hstmt.groupBy e hmem) hbuilt).1 hc
    | aggregateOutput ho hc => exact houtput _ ho hc
    | aggregateChild hc => exact hsource hc

/-- A compilable plan of a bound statement is one over its table. -/
theorem compilable_plainOf (hstmt : statement.OfTable table) (h : planSelect statement = .ok plan)
    (hcompilable : plan.Compilable PlanExpr.Plain) : plan.Compilable (PlanExpr.PlainOf table) := by
  obtain ⟨root, outputs, hroot, houtputs, hcases⟩ := planSelect_cases h
  have hsource : root.Source PlanExpr.Plain → root.Source (PlanExpr.PlainOf table) := by
    intro hs
    unfold planSource at hroot
    split at hroot
    · cases hroot
      trivial
    · rename_i clause hwhere
      obtain ⟨predicate, hpredicate, hroot⟩ := bind_eq_ok hroot
      cases hroot
      exact ⟨⟨hs.1, (ofTable_buildPlanExpr (hstmt.whereClause clause hwhere) hpredicate).1⟩, trivial⟩
  have houtput : ∀ output ∈ outputs, output.expr.OfTable table := by
    intro output ho
    obtain ⟨item, hitem, hbuilt⟩ := (exists_buildOutputs houtputs).2 output ho
    exact (ofTable_buildPlanExpr (hstmt.selectList item hitem) hbuilt).1
  rcases hcases with ⟨-, -, rfl⟩ | ⟨-, groups, hgroups, rfl⟩
  · exact ⟨fun output ho => ⟨hcompilable.1 output ho, houtput output ho⟩, hsource hcompilable.2⟩
  · obtain ⟨⟨hgroup, haggregated⟩, hs⟩ := hcompilable
    refine ⟨⟨fun e he => ?_, fun output ho => ?_⟩, hsource hs⟩
    · obtain ⟨bound, hbound, hbuilt⟩ := mem_of_mapM_eq_ok hgroups he
      exact ⟨hgroup e he, (ofTable_buildPlanExpr (hstmt.groupBy bound hbound) hbuilt).1⟩
    · have hof := houtput output ho
      have hagg := haggregated output ho
      cases hexpr : output.expr with
      | agg aggType arg type =>
        rw [hexpr] at hof hagg
        exact ⟨hagg, hof⟩
      | aggStar aggType type => trivial
      | columnRef tableOid colIdx type =>
        rw [hexpr] at hagg
        exact hagg
      | literal value type =>
        rw [hexpr] at hagg
        exact hagg
      | binary op left right type =>
        rw [hexpr] at hagg
        exact hagg

/-- A bound statement has a plan. -/
theorem exists_planSelect (hstmt : statement.OfTable table) : ∃ plan, planSelect statement = .ok plan := by
  obtain ⟨root, hroot⟩ : ∃ root, planSource statement = .ok root := by
    unfold planSource
    split
    · exact ⟨_, rfl⟩
    · rename_i clause hwhere
      obtain ⟨predicate, hpredicate, -⟩ := buildPlanExpr_spec (hstmt.whereClause clause hwhere)
      rw [hpredicate]
      exact ⟨_, rfl⟩
  obtain ⟨outputs, houtputs⟩ : ∃ outputs, buildOutputs statement.selectList = .ok outputs := by
    refine mapM_isOk fun item hitem => ?_
    obtain ⟨expr, hexpr, -⟩ := buildPlanExpr_spec (hstmt.selectList item hitem)
    rw [hexpr]
    exact ⟨_, rfl⟩
  obtain ⟨groups, hgroups⟩ : ∃ groups, statement.groupBy.mapM buildPlanExpr = .ok groups :=
    mapM_isOk fun e he => (buildPlanExpr_spec (hstmt.groupBy e he)).imp fun _ h => h.1
  show ∃ plan, (planSource statement).bind _ = .ok plan
  rw [hroot]
  show ∃ plan, (buildOutputs statement.selectList).bind _ = .ok plan
  rw [houtputs]
  dsimp only [Except.bind]
  split
  · rw [hgroups]
    exact ⟨_, rfl⟩
  · exact ⟨_, rfl⟩

/-- What comes behind the binder. Source: `connection.cpp` PlanQuery, `execution_engine.cpp`
ExecuteSerialQuery. -/
def buildSelect (catalog : TableId → Option TableSchema) (statement : BoundSelectStatement) :
    Except String BuiltExecutor := do
  let plan ← planSelect statement
  buildNode catalog (createPhysicalPlan catalog (optimize plan))

/-- **A statement over a table is built exactly when it is executable.** -/
theorem built_iff_executable (hentry : catalog table.oid = some schema)
    (htable : table.columns = schema.columns) (hids : schema.IdsArePositions) (hne : schema.columns ≠ [])
    (hstmt : statement.OfTable table) (hargs : ∀ item ∈ statement.selectList, item.expr.PlainArgument) :
    (∃ built, buildSelect catalog statement = .ok built) ↔ statement.Executable := by
  obtain ⟨plan, hplan⟩ := exists_planSelect hstmt
  have hrun : buildSelect catalog statement =
      buildNode catalog (createPhysicalPlan catalog (optimize plan)) := by
    rw [buildSelect, hplan]
    rfl
  rw [hrun, ← compilable_planSelect_iff hargs hplan]
  obtain ⟨hselect, hback⟩ := compilable_of_optimize (isSelect_planSelect hplan)
  constructor
  · rintro ⟨built, hbuilt⟩
    exact hback (compilable_of_buildNode hselect hbuilt)
  · intro hcompilable
    have hand : ∀ (left right : PlanExpr) (type : DataType),
        (PlanExpr.binary .and left right type).PlainOf table ↔ left.PlainOf table ∧ right.PlainOf table :=
      fun _ _ _ => (and_congr_left' plain_binary_iff).trans and_and_and_comm
    have hrequired := requiredColumns_optimize (requiredColumns_planSelect hplan)
    have hoid : (optimize plan).scanOid = some table.oid := by
      rw [scanOid_optimize, scanOid_planSelect hplan, hstmt.tableOid]
    refine exists_buildNode hentry hne (fun c hc => ?_)
      (compilable_optimize hand (compilable_plainOf hstmt hplan hcompilable)) hoid hrequired fun c hc => ?_
    · have hmentions := mem_collectRequiredColumns.mp (mem_sortUnique.mp hc)
      have hlt := lt_of_mentions_planSelect hstmt hplan (mentions_optimize hmentions)
      rw [htable] at hlt
      rw [findColumnSchema_of_lt hids hlt]
      exact Option.some_ne_none _
    · exact mem_sortUnique.mpr (mem_collectRequiredColumns.mpr hc)

end

/-! ## Parsed statements -/

/-- The builder takes the expressions as the same, once they are bound. -/
def Expr.SameText (table : BoundTable) (e group : Expr) : Prop :=
  ∃ bound boundGroup, Binder.bindExpr table e = .ok bound ∧ Binder.bindExpr table group = .ok boundGroup ∧
    bound.SameText boundGroup

/-- Neither WHERE nor GROUP BY contains an aggregate; and either there is no GROUP BY and no aggregate, or
every item is the call of an aggregate or has the text of an expression of GROUP BY. The columns of `*` are
in GROUP BY where the binder accepts them. -/
structure SelectStatement.Executable (table : BoundTable) (stmt : SelectStatement) : Prop where
  whereClause : ∀ e ∈ stmt.whereClause, e.containsAggregate = false
  groupBy : ∀ e ∈ stmt.groupBy, e.containsAggregate = false
  selectList : (stmt.groupBy = [] ∧ ∀ item ∈ stmt.selectList, item.expr.containsAggregate = false) ∨
    Binder.isStar stmt.selectList = true ∨
    ∀ item ∈ stmt.selectList, item.expr.isCall = true ∨ ∃ e ∈ stmt.groupBy, item.expr.SameText table e

section

variable {stmt : SelectStatement} {bound : BoundSelectStatement}

/-- What the binder does with the parts of a statement. -/
theorem Binder.bindSelect_eq_ok (h : bindSelect (some table) stmt = .ok bound) :
    bindSelectList table stmt.selectList = .ok bound.selectList ∧
      bindWhere table stmt.whereClause = .ok bound.whereClause ∧
      stmt.groupBy.mapM (bindExpr table) = .ok bound.groupBy ∧
      ∀ item ∈ bound.selectList, containsAggregate item.expr = false → bound.groupBy ≠ [] →
        isInGroupBy item.expr bound.groupBy = true := by
  obtain ⟨selectList, hselect, h⟩ := bind_eq_ok h
  obtain ⟨whereClause, hwhere, h⟩ := bind_eq_ok h
  obtain ⟨groupBy, hgroup, h⟩ := bind_eq_ok h
  obtain ⟨_, hvalid, h⟩ := bind_eq_ok h
  cases h
  refine ⟨hselect, hwhere, hgroup, fun item hitem hplain hne => ?_⟩
  unfold validateAggregations at hvalid
  split at hvalid
  · cases hvalid
  · rename_i hany
    by_contra hnot
    refine hany (List.any_eq_true.mpr ⟨item, hitem, ?_⟩)
    have hempty : groupBy.isEmpty = false := by simpa using hne
    simp only [hplain, hempty, Bool.eq_false_iff.mpr hnot, Bool.not_false, Bool.and_true]

/-- WHERE, bound. -/
theorem Binder.whereClause_plain_iff (h : bindWhere table stmt.whereClause = .ok bound.whereClause) :
    (∀ e ∈ bound.whereClause, containsAggregate e = false) ↔
      ∀ e ∈ stmt.whereClause, e.containsAggregate = false := by
  rcases hclause : stmt.whereClause with _ | clause
  · rw [hclause] at h
    have hnone : bound.whereClause = none := (Except.ok.inj h).symm
    rw [hnone]
    simp
  · rw [hclause] at h
    obtain ⟨expr, hexpr, h⟩ := bind_eq_ok h
    have hsome : bound.whereClause = some expr := (Except.ok.inj h).symm
    rw [hsome]
    simp [(bindExpr_aggregates hexpr).1]

/-- GROUP BY, bound. -/
theorem Binder.groupBy_plain_iff (h : stmt.groupBy.mapM (bindExpr table) = .ok bound.groupBy) :
    (∀ e ∈ bound.groupBy, containsAggregate e = false) ↔
      ∀ e ∈ stmt.groupBy, e.containsAggregate = false := by
  constructor
  · intro hall e he
    obtain ⟨b, hb, hbind⟩ := exists_of_mem_mapM h he
    exact (bindExpr_aggregates hbind).1.symm.trans (hall b hb)
  · intro hall b hb
    obtain ⟨e, he, hbind⟩ := mem_of_mapM_eq_ok h hb
    exact (bindExpr_aggregates hbind).1.trans (hall e he)

/-- A column in GROUP BY has the text of its group. -/
theorem BoundExpr.sameText_of_columnRef {oid colIdx : ℕ} {type : DataType} {group : BoundExpr}
    (hcolumn : (BoundExpr.columnRef oid colIdx type).OfTable table) (hgroup : group.OfTable table)
    (h : (BoundExpr.columnRef oid colIdx type).isExprEqual group = true) :
    (BoundExpr.columnRef oid colIdx type).SameText group := by
  cases group with
  | columnRef oid' colIdx' type' =>
    obtain ⟨hoid, hidx⟩ := Bool.and_eq_true_iff.mp h
    obtain rfl : oid = oid' := of_decide_eq_true hoid
    obtain rfl : colIdx = colIdx' := of_decide_eq_true hidx
    obtain rfl : type = type' := hcolumn.2.2.trans hgroup.2.2.symm
    refine ⟨_, _, rfl, rfl, ?_⟩
    simp [planExprEquivalent]
  | _ => cases h

/-- A star has no aggregate. -/
theorem Binder.isStar_eq_true {selectList : List SelectItem} (h : isStar selectList = true) :
    ∃ item, selectList = [item] ∧ item.expr.containsAggregate = false := by
  unfold isStar at h
  split at h
  · rename_i item
    split at h
    · rename_i columnName hexpr
      refine ⟨item, rfl, ?_⟩
      rw [hexpr]
      rfl
    · cases h
  · cases h

/-- Of `SELECT *` only WHERE and GROUP BY can contain aggregates, and its columns are in GROUP BY. -/
theorem selectList_of_isStar (hbind : Binder.bindSelect (some table) stmt = .ok bound)
    (hstar : Binder.isStar stmt.selectList = true) :
    (bound.groupBy = [] ∧ ∀ item ∈ bound.selectList, Binder.containsAggregate item.expr = false) ∨
      ∀ item ∈ bound.selectList, item.expr.isCall = true ∨
        ∃ group ∈ bound.groupBy, item.expr.SameText group := by
  obtain ⟨hselect, -, -, hvalid⟩ := Binder.bindSelect_eq_ok hbind
  obtain ⟨table', htable, hof, -⟩ := Binder.bindSelect_spec hbind
  cases htable
  have hlist : bound.selectList = Binder.expandStar table := by
    rw [Binder.bindSelectList, if_pos hstar] at hselect
    exact (Except.ok.inj hselect).symm
  by_cases hnil : bound.groupBy = []
  · refine .inl ⟨hnil, fun item hitem => ?_⟩
    rw [hlist] at hitem
    obtain ⟨i, -, rfl⟩ := List.mem_map.mp hitem
    rfl
  · refine .inr fun item hitem => .inr ?_
    have hcolumn := hof.selectList item hitem
    have hin := hvalid item hitem
    rw [hlist] at hitem
    obtain ⟨i, -, rfl⟩ := List.mem_map.mp hitem
    obtain ⟨group, hgroup, hequal⟩ := List.any_eq_true.mp (hin rfl hnil)
    exact ⟨group, hgroup, BoundExpr.sameText_of_columnRef hcolumn (hof.groupBy group hgroup) hequal⟩

/-- An item of a list that is not `*` is bound by itself. -/
theorem Binder.mem_bindSelectList (hstar : isStar stmt.selectList = false)
    (h : bindSelectList table stmt.selectList = .ok bound.selectList) :
    (∀ item ∈ stmt.selectList, ∃ b ∈ bound.selectList, bindExpr table item.expr = .ok b.expr) ∧
      ∀ b ∈ bound.selectList, ∃ item ∈ stmt.selectList, bindExpr table item.expr = .ok b.expr := by
  rw [bindSelectList, if_neg (by simp [hstar])] at h
  constructor
  · intro item hitem
    obtain ⟨b, hb, hbind⟩ := exists_of_mem_mapM h hitem
    obtain ⟨expr, hexpr, hbind⟩ := bind_eq_ok hbind
    cases hbind
    exact ⟨_, hb, hexpr⟩
  · intro b hb
    obtain ⟨item, hitem, hbind⟩ := mem_of_mapM_eq_ok h hb
    obtain ⟨expr, hexpr, hbind⟩ := bind_eq_ok hbind
    cases hbind
    exact ⟨item, hitem, hexpr⟩

/-- Items that are not `*`, bound and parsed. -/
theorem selectList_iff_of_not_isStar (hbind : Binder.bindSelect (some table) stmt = .ok bound)
    (hstar : Binder.isStar stmt.selectList = false) :
    ((bound.groupBy = [] ∧ ∀ b ∈ bound.selectList, Binder.containsAggregate b.expr = false) ∨
        ∀ b ∈ bound.selectList, b.expr.isCall = true ∨ ∃ group ∈ bound.groupBy, b.expr.SameText group) ↔
      (stmt.groupBy = [] ∧ ∀ item ∈ stmt.selectList, item.expr.containsAggregate = false) ∨
        ∀ item ∈ stmt.selectList, item.expr.isCall = true ∨
          ∃ e ∈ stmt.groupBy, item.expr.SameText table e := by
  obtain ⟨hselect, -, hgroup, -⟩ := Binder.bindSelect_eq_ok hbind
  obtain ⟨hforth, hback⟩ := Binder.mem_bindSelectList hstar hselect
  have hnil : bound.groupBy = [] ↔ stmt.groupBy = [] := by
    rw [← List.length_eq_zero_iff, ← List.length_eq_zero_iff, length_of_mapM_eq_ok hgroup]
  have htext : ∀ {e : Expr} {b : BoundExpr}, Binder.bindExpr table e = .ok b →
      ((∃ group ∈ bound.groupBy, b.SameText group) ↔ ∃ g ∈ stmt.groupBy, e.SameText table g) := by
    intro e b hb
    constructor
    · rintro ⟨group, hmem, htext⟩
      obtain ⟨g, hg, hbindG⟩ := mem_of_mapM_eq_ok hgroup hmem
      exact ⟨g, hg, b, group, hb, hbindG, htext⟩
    · rintro ⟨g, hg, b', group, hb', hbindG, htext⟩
      obtain ⟨group', hmem, hbindG'⟩ := exists_of_mem_mapM hgroup hg
      rw [hb] at hb'
      rw [hbindG'] at hbindG
      cases hb'
      cases hbindG
      exact ⟨_, hmem, htext⟩
  refine or_congr (and_congr hnil ?_) ?_
  · constructor
    · intro hall item hitem
      obtain ⟨b, hb, hexpr⟩ := hforth item hitem
      exact (Binder.bindExpr_aggregates hexpr).1.symm.trans (hall b hb)
    · intro hall b hb
      obtain ⟨item, hitem, hexpr⟩ := hback b hb
      exact (Binder.bindExpr_aggregates hexpr).1.trans (hall item hitem)
  · constructor
    · intro hall item hitem
      obtain ⟨b, hb, hexpr⟩ := hforth item hitem
      rw [← (Binder.bindExpr_aggregates hexpr).2.1, ← htext hexpr]
      exact hall b hb
    · intro hall b hb
      obtain ⟨item, hitem, hexpr⟩ := hback b hb
      rw [(Binder.bindExpr_aggregates hexpr).2.1, htext hexpr]
      exact hall item hitem

/-- The binder keeps what makes a statement executable. -/
theorem executable_iff (hbind : Binder.bindSelect (some table) stmt = .ok bound) :
    bound.Executable ↔ stmt.Executable table := by
  obtain ⟨-, hwhere, hgroup, -⟩ := Binder.bindSelect_eq_ok hbind
  have hwhereIff := Binder.whereClause_plain_iff hwhere
  have hgroupIff := Binder.groupBy_plain_iff hgroup
  constructor
  · intro h
    refine ⟨hwhereIff.mp h.whereClause, hgroupIff.mp h.groupBy, ?_⟩
    cases hstar : Binder.isStar stmt.selectList with
    | true => exact .inr (.inl rfl)
    | false => exact ((selectList_iff_of_not_isStar hbind hstar).mp h.selectList).imp id .inr
  · intro h
    refine ⟨hwhereIff.mpr h.whereClause, hgroupIff.mpr h.groupBy, ?_⟩
    cases hstar : Binder.isStar stmt.selectList with
    | true => exact selectList_of_isStar hbind hstar
    | false =>
      refine (selectList_iff_of_not_isStar hbind hstar).mpr (h.selectList.imp id fun hitems => ?_)
      exact hitems.resolve_left (by simp [hstar])

end

/-! ## Existing tables -/

/-- The schema is that of a CREATE TABLE. -/
def TableSchema.Created (schema : TableSchema) : Prop :=
  ∃ n ts stmt rest found, Parser.parseCreateTable n ts = .ok (stmt, rest) ∧
    Binder.bindCreateTable found stmt = .ok schema

/-- **A table that was created has a column.** -/
theorem TableSchema.Created.columns_ne_nil (h : schema.Created) : schema.columns ≠ [] := by
  obtain ⟨n, ts, stmt, rest, found, hparse, hbind⟩ := h
  exact Binder.columns_ne_nil_bindCreateTable (Parser.parseCreateTable_items hparse) hbind

/-- A table that was created has its columns at their places. -/
theorem TableSchema.Created.idsArePositions (h : schema.Created) : schema.IdsArePositions := by
  obtain ⟨n, ts, stmt, rest, found, -, hbind⟩ := h
  exact Binder.idsArePositions_bindCreateTable hbind

/-- **Of the SELECTs that the binder accepts over an existing table, exactly the executable ones are built.**
-/
theorem bindSelect_built_iff {tableOid : TableId} {stmt : SelectStatement} {bound : BoundSelectStatement}
    (hcreated : schema.Created) (hentry : catalog tableOid = some schema)
    (hbind : Binder.bindSelect (some ⟨tableOid, schema.columns⟩) stmt = .ok bound) :
    (∃ built, buildSelect catalog bound = .ok built) ↔ stmt.Executable ⟨tableOid, schema.columns⟩ := by
  obtain ⟨table, htable, hof, -⟩ := Binder.bindSelect_spec hbind
  cases htable
  rw [← executable_iff hbind]
  refine built_iff_executable hentry rfl hcreated.idsArePositions hcreated.columns_ne_nil hof ?_
  obtain ⟨hselect, -, -, -⟩ := Binder.bindSelect_eq_ok hbind
  cases hstar : Binder.isStar stmt.selectList with
  | true =>
    rw [Binder.bindSelectList, if_pos hstar] at hselect
    intro item hitem
    rw [← Except.ok.inj hselect] at hitem
    obtain ⟨i, -, rfl⟩ := List.mem_map.mp hitem
    trivial
  | false =>
    intro item hitem
    obtain ⟨parsed, -, hparsed⟩ := (Binder.mem_bindSelectList hstar hselect).2 item hitem
    exact (Binder.bindExpr_aggregates hparsed).2.2

/-! ## The types of bound expressions -/

/-- The types are those that the binder derives. -/
def BoundExpr.Typed (table : BoundTable) : BoundExpr → Prop
  | .columnRef _ colIdx type => type = table.columnType colIdx
  | .literal value type => type = Binder.literalType value
  | .binaryOp op left right type =>
    (left.Typed table ∧ right.Typed table) ∧ type = Binder.binaryType op left.returnType right.returnType
  | .aggFunc aggType arg type =>
    arg.Typed table ∧ Binder.bindAggFunc aggType arg = .ok (.aggFunc aggType arg type)
  | .aggStar _ type => type = .int64
  | .cast _ => True

/-- A bound expression has its types. -/
theorem Binder.typed_bindExpr {e : Expr} {bound : BoundExpr} (h : bindExpr table e = .ok bound) :
    bound.Typed table := by
  induction e generalizing bound with
  | columnRef columnName =>
    rw [bindExpr] at h
    split at h
    · cases h
    · cases h
      rfl
  | literal value =>
    cases h
    rfl
  | binaryOp op left right ihl ihr =>
    obtain ⟨l, hl, h⟩ := bind_eq_ok h
    obtain ⟨r, hr, h⟩ := bind_eq_ok h
    cases h
    exact ⟨⟨ihl hl, ihr hr⟩, rfl⟩
  | aggFunc aggType arg ih =>
    obtain ⟨a, ha, h⟩ := bind_eq_ok h
    obtain ⟨type, rfl⟩ := bindAggFunc_eq h
    exact ⟨ih ha, h⟩
  | aggStar aggType =>
    rw [bindExpr] at h
    split at h
    · cases h
      rfl
    · cases h

/-! ## A column beside an aggregate -/

/-- One integer column `a`. -/
def columnA : TableSchema := ⟨[⟨0, ascii ['a'], .int32⟩], none, []⟩

/-- `TABLE t (a INT)`. -/
def createColumnA : List Token :=
  [⟨.table, []⟩, ⟨.identifier, ascii ['t']⟩, ⟨.lparen, []⟩, ⟨.identifier, ascii ['a']⟩,
    ⟨.identifier, ascii ['I', 'N', 'T']⟩, ⟨.rparen, []⟩, endToken]

/-- The table was created. -/
theorem created_columnA : columnA.Created :=
  ⟨8, createColumnA, ⟨ascii ['t'], [⟨0, ascii ['a'], .int32⟩], []⟩, [endToken], false, rfl, rfl⟩

/-- `SELECT a, COUNT(*) FROM t`, with a GROUP BY or without. -/
def selectCount (groupBy : List Expr) : SelectStatement where
  tableName := ascii ['t']
  selectList := [⟨.columnRef (ascii ['a']), []⟩, ⟨.aggStar .count, []⟩]
  whereClause := none
  groupBy := groupBy

/-- The statement, bound. -/
def boundCount (groupBy : List BoundExpr) : BoundSelectStatement where
  tableOid := 7
  selectList := [⟨.columnRef 7 0 .int32, []⟩, ⟨.aggStar .count .int64, []⟩]
  whereClause := none
  groupBy := groupBy

/-- With `GROUP BY a` it is built. -/
theorem bindSelect_built_iff_count :
    ((∃ built, buildSelect (fun _ => some columnA) (boundCount [.columnRef 7 0 .int32]) = .ok built) ↔
      (selectCount [.columnRef (ascii ['a'])]).Executable ⟨7, columnA.columns⟩) :=
  bindSelect_built_iff created_columnA rfl rfl

/-- **Without GROUP BY the binder accepts the column, and the builder does not.** -/
theorem bindSelect_count_not_built :
    Binder.bindSelect (some ⟨7, columnA.columns⟩) (selectCount []) = .ok (boundCount []) ∧
      buildSelect (fun _ => some columnA) (boundCount []) =
        .error "ExecutorBuilder: non-aggregate output must match a GROUP BY expression" :=
  ⟨rfl, rfl⟩

end SimpleOlap
