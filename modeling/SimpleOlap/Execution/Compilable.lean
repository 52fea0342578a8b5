import SimpleOlap.Execution.OperatorTree
import SimpleOlap.Planner.Pushdown

/-!
# Plans that can be built

* `LogicalPlan.Compilable`: no filter, no group-by expression and no output of a projection contains an
  aggregate; an output of an aggregate is a call or has the text of a group-by expression.
* `exists_buildNode`: such a plan is built; `compilable_of_buildNode`: no other is.
* `compilable_optimize`, `compilable_of_optimize`: the optimizer neither makes nor breaks such a plan.
* `mentions_optimize`: the optimized plan mentions no other columns.

Source: `optimizer.cpp`, `executor_builder.cpp`.
-/

namespace SimpleOlap

open Lib

variable {P Q : PlanExpr → Prop} {catalog : TableId → Option TableSchema} {expr : PlanExpr}
  {inputSchema : ExecSchema} {table : BoundTable}

/-! ## Expressions -/

/-- The expression contains no aggregate. -/
def PlanExpr.Plain (expr : PlanExpr) : Prop := expr.containsAggregate = false

/-- The expression is plain, and over a table. -/
def PlanExpr.PlainOf (table : BoundTable) (expr : PlanExpr) : Prop := expr.Plain ∧ expr.OfTable table

/-- An operation has no aggregate where its operands have none. -/
theorem plain_binary_iff {op : PlanBinaryOp} {left right : PlanExpr} {type : DataType} :
    (PlanExpr.binary op left right type).Plain ↔ left.Plain ∧ right.Plain :=
  Bool.or_eq_false_iff

/-- What is compiled contains no aggregate. -/
theorem plain_of_compileExecExpr {compiled : ExecExpression}
    (h : compileExecExpr inputSchema expr = .ok compiled) : expr.Plain := by
  induction expr generalizing compiled with
  | columnRef tableOid colIdx type => rfl
  | literal value type => rfl
  | binary op left right type ihl ihr =>
    obtain ⟨l, hl, h⟩ := bind_eq_ok h
    obtain ⟨r, hr, -⟩ := bind_eq_ok h
    exact plain_binary_iff.mpr ⟨ihl hl, ihr hr⟩
  | agg aggType arg type => cases h
  | aggStar aggType type => cases h

/-- **A plain expression is compiled** where the schema has its columns. -/
theorem exists_compileExecExpr (h : expr.PlainOf table)
    (hslots : ∀ c, expr.Mentions c → findInputSlot inputSchema ⟨table.oid, c⟩ ≠ none) :
    ∃ compiled, compileExecExpr inputSchema expr = .ok compiled := by
  induction expr with
  | columnRef tableOid colIdx type =>
    obtain ⟨slot, hslot⟩ := Option.ne_none_iff_exists'.mp (hslots colIdx (.columnRef tableOid type))
    obtain rfl : tableOid = table.oid := h.2.1
    exact ⟨.columnRef slot type, by rw [compileExecExpr, hslot]⟩
  | literal value type => exact ⟨_, rfl⟩
  | binary op left right type ihl ihr =>
    obtain ⟨hplain, hof⟩ := h
    obtain ⟨hpl, hpr⟩ := plain_binary_iff.mp hplain
    obtain ⟨l, hl⟩ := ihl ⟨hpl, hof.1⟩ fun c hc => hslots c (.left op right type hc)
    obtain ⟨r, hr⟩ := ihr ⟨hpr, hof.2⟩ fun c hc => hslots c (.right op left type hc)
    refine ⟨.binary op l r type, ?_⟩
    rw [compileExecExpr, hl, hr]
    rfl
  | agg aggType arg type => exact absurd h.1 Bool.noConfusion
  | aggStar aggType type => exact absurd h.1 Bool.noConfusion

/-! ## Plans -/

/-- The output of an aggregate can be computed: a call of an argument that satisfies `P`, or the text of a
group-by expression. -/
def PlanExpr.Aggregated (P : PlanExpr → Prop) (groupBy : List PlanExpr) : PlanExpr → Prop
  | .agg _ arg _ => P arg
  | .aggStar _ _ => True
  | expr => findGroupIndex expr groupBy ≠ none

namespace LogicalPlan

/-- A scan under filters, whose predicates satisfy `P`. -/
def Source (P : PlanExpr → Prop) : LogicalPlan → Prop
  | .scan _ _ _ => True
  | .filter predicate child => P predicate ∧ child.Source P
  | _ => False

/-- The plan of a SELECT whose compiled expressions satisfy `P`, and whose aggregates have the outputs they
need. -/
def Compilable (P : PlanExpr → Prop) : LogicalPlan → Prop
  | .project outputs child => (∀ output ∈ outputs, P output.expr) ∧ child.Source P
  | .aggregate groupBy outputs child =>
    ((∀ e ∈ groupBy, P e) ∧ ∀ output ∈ outputs, output.expr.Aggregated P groupBy) ∧ child.Source P
  | _ => False

/-- The plan of a SELECT: a projection or an aggregate, over a scan under filters. -/
def IsSelect : LogicalPlan → Prop
  | .project _ child | .aggregate _ _ child => child.Source fun _ => True
  | _ => False

end LogicalPlan

/-! ## Building -/

section

variable {schema : TableSchema} {plan child : LogicalPlan} {required : List ℕ} {groupBy : List PlanExpr}
  {outputs : List NamedPlanExpr} {calls : List AggCallSpec}

/-- An output of group expressions and calls is compiled. -/
theorem exists_addAggregateOutput (h : expr.Aggregated (PlanExpr.PlainOf table) groupBy)
    (hslots : ∀ c, expr.Mentions c → findInputSlot inputSchema ⟨table.oid, c⟩ ≠ none) :
    ∃ out, addAggregateOutput groupBy inputSchema calls expr = .ok out := by
  have hgroup : findGroupIndex expr groupBy ≠ none →
      ∃ out, addGroupKeyOutput groupBy calls expr = .ok out := by
    intro hfound
    obtain ⟨index, hindex⟩ := Option.ne_none_iff_exists'.mp hfound
    rw [addGroupKeyOutput, hindex]
    exact ⟨_, rfl⟩
  cases expr with
  | columnRef tableOid colIdx type => exact hgroup h
  | literal value type => exact hgroup h
  | binary op left right type => exact hgroup h
  | agg aggType arg type =>
    obtain ⟨compiled, hcompiled⟩ := exists_compileExecExpr h fun c hc => hslots c (.arg aggType type hc)
    rw [addAggregateOutput, hcompiled]
    exact ⟨_, rfl⟩
  | aggStar aggType type => exact ⟨_, rfl⟩

/-- So are all outputs. -/
theorem exists_addAggregateOutputs
    (h : ∀ output ∈ outputs, output.expr.Aggregated (PlanExpr.PlainOf table) groupBy)
    (hslots : ∀ output ∈ outputs, ∀ c, output.expr.Mentions c →
      findInputSlot inputSchema ⟨table.oid, c⟩ ≠ none) :
    ∃ out, addAggregateOutputs groupBy inputSchema calls outputs = .ok out := by
  induction outputs generalizing calls with
  | nil => exact ⟨_, rfl⟩
  | cons output outputs ih =>
    have hfirst : ∃ out, addAggregateOutput groupBy inputSchema calls output.expr = .ok out :=
      exists_addAggregateOutput (h output List.mem_cons_self) (hslots output List.mem_cons_self)
    obtain ⟨⟨calls', spec⟩, hspec⟩ := hfirst
    have hrest : ∃ out, addAggregateOutputs groupBy inputSchema calls' outputs = .ok out :=
      ih (fun o ho => h o (List.mem_cons_of_mem output ho))
        (fun o ho => hslots o (List.mem_cons_of_mem output ho))
    obtain ⟨⟨calls'', specs⟩, hspecs⟩ := hrest
    rw [addAggregateOutputs, hspec]
    show ∃ out, (addAggregateOutputs groupBy inputSchema calls' outputs).bind _ = .ok out
    rw [hspecs]
    exact ⟨_, rfl⟩

/-- A compiled output is of group expressions and calls. -/
theorem aggregated_of_addAggregateOutput {out : List AggCallSpec × AggregateOutputSpec}
    (h : addAggregateOutput groupBy inputSchema calls expr = .ok out) :
    expr.Aggregated PlanExpr.Plain groupBy := by
  have hgroup : addGroupKeyOutput groupBy calls expr = .ok out → findGroupIndex expr groupBy ≠ none := by
    intro hout hnone
    rw [addGroupKeyOutput, hnone] at hout
    cases hout
  cases expr with
  | columnRef tableOid colIdx type => exact hgroup h
  | literal value type => exact hgroup h
  | binary op left right type => exact hgroup h
  | agg aggType arg type =>
    obtain ⟨compiled, hcompiled, -⟩ := bind_eq_ok h
    exact plain_of_compileExecExpr hcompiled
  | aggStar aggType type => trivial

/-- So are all compiled outputs. -/
theorem aggregated_of_addAggregateOutputs {out : List AggCallSpec × List AggregateOutputSpec}
    (h : addAggregateOutputs groupBy inputSchema calls outputs = .ok out) :
    ∀ output ∈ outputs, output.expr.Aggregated PlanExpr.Plain groupBy := by
  induction outputs generalizing calls out with
  | nil => exact fun _ ho => absurd ho List.not_mem_nil
  | cons output outputs ih =>
    obtain ⟨⟨calls', spec⟩, hspec, h⟩ := bind_eq_ok h
    obtain ⟨⟨calls'', specs⟩, hspecs, -⟩ := bind_eq_ok h
    intro o ho
    rcases List.mem_cons.mp ho with rfl | ho
    · exact aggregated_of_addAggregateOutput hspec
    · exact ih hspecs o ho

/-- Compiled expressions have no aggregates. -/
theorem plain_of_mapM_compileExecExpr {α : Type} {f : α → PlanExpr} {xs : List α}
    {compiled : List ExecExpression}
    (h : xs.mapM (fun x => compileExecExpr inputSchema (f x)) = .ok compiled) : ∀ x ∈ xs, (f x).Plain := by
  intro x hx
  obtain ⟨e, -, he⟩ := exists_of_mem_mapM h hx
  exact plain_of_compileExecExpr he

/-- What is built below a projection or an aggregate has plain filters. -/
theorem source_of_buildNode (hsource : plan.Source fun _ => True) {built : BuiltExecutor}
    (h : buildNode catalog (createPhysicalPlan catalog plan) = .ok built) :
    plan.Source PlanExpr.Plain := by
  induction plan generalizing built with
  | scan tableOid required pushed => trivial
  | filter predicate child ih =>
    obtain ⟨below, hbelow, h⟩ := bind_eq_ok h
    obtain ⟨compiled, hcompiled, -⟩ := bind_eq_ok h
    exact ⟨plain_of_compileExecExpr hcompiled, ih hsource.2 hbelow⟩
  | project outputs child _ => exact hsource
  | aggregate groupBy outputs child _ => exact hsource
  | insert tableOid targetColumns rows => exact hsource
  | createTable tableName schema => exact hsource

/-- **The plan of a SELECT that is built is compilable.** -/
theorem compilable_of_buildNode (hselect : plan.IsSelect) {built : BuiltExecutor}
    (h : buildNode catalog (createPhysicalPlan catalog plan) = .ok built) :
    plan.Compilable PlanExpr.Plain := by
  cases plan with
  | project outputs child =>
    obtain ⟨below, hbelow, h⟩ := bind_eq_ok h
    obtain ⟨compiled, hcompiled, -⟩ := bind_eq_ok h
    exact ⟨plain_of_mapM_compileExecExpr hcompiled, source_of_buildNode hselect hbelow⟩
  | aggregate groupBy outputs child =>
    obtain ⟨below, hbelow, h⟩ := bind_eq_ok h
    obtain ⟨spec, hspec, -⟩ := bind_eq_ok h
    obtain ⟨groups, hgroups, hspec⟩ := bind_eq_ok hspec
    obtain ⟨out, hout, -⟩ := bind_eq_ok hspec
    exact ⟨⟨plain_of_mapM_compileExecExpr (f := id) hgroups, aggregated_of_addAggregateOutputs hout⟩,
      source_of_buildNode hselect hbelow⟩
  | scan tableOid required pushed => exact hselect.elim
  | filter predicate child => exact hselect.elim
  | insert tableOid targetColumns rows => exact hselect.elim
  | createTable tableName schema => exact hselect.elim

/-- A scan under plain filters is built, and shows the required columns. -/
theorem exists_buildNode_source (hentry : catalog table.oid = some schema) (hne : schema.columns ≠ [])
    (hcolumns : ∀ c ∈ required, findColumnSchema schema c ≠ none)
    (hsource : plan.Source (PlanExpr.PlainOf table)) (hoid : plan.scanOid = some table.oid)
    (hrequired : plan.requiredColumns = some required) (hcovered : ∀ c, plan.Mentions c → c ∈ required) :
    ∃ built, buildNode catalog (createPhysicalPlan catalog plan) = .ok built ∧
      ∀ c ∈ required, findInputSlot built.outputSchema ⟨table.oid, c⟩ ≠ none := by
  induction plan with
  | scan tableOid columns pushed =>
    cases hoid
    cases hrequired
    exact buildNode_planScan hentry hne hcolumns pushed
  | filter predicate child ih =>
    obtain ⟨below, hbelow, hslots⟩ := ih hsource.2 hoid hrequired fun c hc => hcovered c (.filterChild hc)
    obtain ⟨compiled, hcompiled⟩ := exists_compileExecExpr hsource.1 fun c hc =>
      hslots c (hcovered c (.predicate hc))
    refine ⟨⟨.filter below.root compiled, below.outputSchema⟩, ?_, hslots⟩
    rw [createPhysicalPlan, buildNode, hbelow]
    show (compileExecExpr below.outputSchema predicate).bind _ = _
    rw [hcompiled]
    rfl
  | project outputs child _ => exact hsource.elim
  | aggregate groupBy outputs child _ => exact hsource.elim
  | insert tableOid targetColumns rows => exact hsource.elim
  | createTable tableName schema => exact hsource.elim

/-- **A compilable plan over a table is built**, when every column it mentions is required and the table has
it. -/
theorem exists_buildNode (hentry : catalog table.oid = some schema) (hne : schema.columns ≠ [])
    (hcolumns : ∀ c ∈ required, findColumnSchema schema c ≠ none)
    (hcompilable : plan.Compilable (PlanExpr.PlainOf table)) (hoid : plan.scanOid = some table.oid)
    (hrequired : plan.requiredColumns = some required) (hcovered : ∀ c, plan.Mentions c → c ∈ required) :
    ∃ built, buildNode catalog (createPhysicalPlan catalog plan) = .ok built := by
  cases plan with
  | project outputs child =>
    obtain ⟨houtputs, hsource⟩ := hcompilable
    obtain ⟨below, hbelow, hslots⟩ := exists_buildNode_source hentry hne hcolumns hsource hoid hrequired
      fun c hc => hcovered c (.projectChild hc)
    have hexprs : ∃ compiled, outputs.mapM (fun output : NamedPlanExpr =>
        compileExecExpr below.outputSchema output.expr) = .ok compiled :=
      mapM_isOk fun output ho => exists_compileExecExpr (houtputs output ho) fun c hc =>
        hslots c (hcovered c (.projectOutput ho hc))
    obtain ⟨compiled, hcompiled⟩ := hexprs
    refine ⟨⟨.projection below.root compiled, outputs.map projectSlot⟩, ?_⟩
    rw [createPhysicalPlan, buildNode, hbelow]
    show (outputs.mapM fun output => compileExecExpr below.outputSchema output.expr).bind _ = _
    rw [hcompiled]
    rfl
  | aggregate groupBy outputs child =>
    obtain ⟨⟨hgroup, houtputs⟩, hsource⟩ := hcompilable
    obtain ⟨below, hbelow, hslots⟩ := exists_buildNode_source hentry hne hcolumns hsource hoid hrequired
      fun c hc => hcovered c (.aggregateChild hc)
    have hkeys : ∃ groups, groupBy.mapM (compileExecExpr below.outputSchema) = .ok groups :=
      mapM_isOk fun e he => exists_compileExecExpr (hgroup e he) fun c hc =>
        hslots c (hcovered c (.group he hc))
    have hcalls : ∃ out, addAggregateOutputs groupBy below.outputSchema [] outputs = .ok out :=
      exists_addAggregateOutputs houtputs fun output ho c hc =>
        hslots c (hcovered c (.aggregateOutput ho hc))
    obtain ⟨groups, hgroups⟩ := hkeys
    obtain ⟨⟨aggCalls, specs⟩, hspecs⟩ := hcalls
    refine ⟨⟨.hashAggregate below.root ⟨groups, aggCalls, specs⟩, outputs.map aggregateSlot⟩, ?_⟩
    have hspec : buildAggregateSpec groupBy outputs below.outputSchema = .ok ⟨groups, aggCalls, specs⟩ := by
      show (groupBy.mapM (compileExecExpr below.outputSchema)).bind _ = _
      rw [hgroups]
      show (addAggregateOutputs groupBy below.outputSchema [] outputs).bind _ = _
      rw [hspecs]
      rfl
    rw [createPhysicalPlan, buildNode, hbelow]
    show (buildAggregateSpec groupBy outputs below.outputSchema).bind _ = _
    rw [hspec]
    rfl
  | scan tableOid columns pushed => exact hcompilable.elim
  | filter predicate child => exact hcompilable.elim
  | insert tableOid targetColumns rows => exact hcompilable.elim
  | createTable tableName schema => exact hcompilable.elim

end

/-! ## The optimizer -/

section

variable {plan child : LogicalPlan} {predicate : PlanExpr}

/-- A conjunct that is pushed down contains no aggregate. -/
theorem plain_of_extractSimplePredicate {p : SimplePredicate} (h : extractSimplePredicate expr = some p) :
    expr.Plain := by
  obtain ⟨op, oid, columnType, value, literalType, type, rfl, -⟩ := extractSimplePredicate_eq_some h
  rfl

/-- What the conjuncts satisfy, the conjunction does. -/
theorem of_flattenConjuncts (hand : ∀ left right type, P left → P right → P (.binary .and left right type))
    (h : ∀ e ∈ flattenConjuncts expr, P e) : P expr := by
  induction expr using flattenConjuncts.induct with
  | case1 left right type ihl ihr =>
    rw [flattenConjuncts] at h
    exact hand left right type (ihl fun e he => h e (List.mem_append_left _ he))
      (ihr fun e he => h e (List.mem_append_right _ he))
  | case2 e hne =>
    rw [flattenConjuncts.eq_2 e hne] at h
    exact h e List.mem_cons_self

/-- A conjunction of what has a property. -/
theorem forall_of_buildConjunction
    (hand : ∀ left right type, P (.binary .and left right type) → P left ∧ P right) {es : List PlanExpr}
    {rest : PlanExpr} (hrest : buildConjunction es = some rest) (h : P rest) : ∀ e ∈ es, P e := by
  rcases es with _ | ⟨e, es⟩
  · cases hrest
  · cases hrest
    have hfold : ∀ (es : List PlanExpr) (first : PlanExpr),
        P (es.foldl (fun result e => .binary .and result e .int32) first) → ∀ e ∈ first :: es, P e := by
      intro es
      induction es with
      | nil =>
        intro first hfirst e he
        rwa [List.mem_singleton.mp he]
      | cons e' es ih =>
        intro first hfirst e he
        have hall := ih _ hfirst
        obtain ⟨hl, hr⟩ := hand first e' .int32 (hall _ List.mem_cons_self)
        rcases List.mem_cons.mp he with rfl | he
        · exact hl
        · rcases List.mem_cons.mp he with rfl | he
          · exact hr
          · exact hall e (List.mem_cons_of_mem _ he)
    exact hfold es e h

/-- Pushing down keeps what a conjunction and its parts share. -/
theorem source_pushFilter (hand : ∀ left right type, P (.binary .and left right type) ↔ P left ∧ P right)
    (h : (LogicalPlan.filter predicate child).Source P) (changed : Bool) :
    (pushFilter predicate child changed).1.Source P := by
  have hconjuncts := forall_flattenConjuncts (fun l r type => (hand l r type).mp) h.1
  unfold pushFilter
  split
  · dsimp only
    split_ifs
    · exact h
    · split
      · trivial
      · rename_i rest hrest
        refine ⟨of_buildConjunction (fun l r hl hr => (hand l r .int32).mpr ⟨hl, hr⟩) (fun e he => ?_) hrest,
          trivial⟩
        exact hconjuncts e (List.mem_filter.mp he).1
  · exact h

/-- Pushing down keeps what holds of the source. -/
theorem source_pushPredicate (hand : ∀ left right type, P (.binary .and left right type) ↔ P left ∧ P right)
    (h : plan.Source P) : (pushPredicate plan).1.Source P := by
  induction plan with
  | scan tableOid required pushed => trivial
  | filter predicate child ih =>
    have hfilter : (LogicalPlan.filter predicate (pushPredicate child).1).Source P := ⟨h.1, ih h.2⟩
    exact source_pushFilter hand hfilter _
  | project outputs child _ => exact h.elim
  | aggregate groupBy outputs child _ => exact h.elim
  | insert tableOid targetColumns rows => exact h.elim
  | createTable tableName schema => exact h.elim

/-- What is pushed down contains no aggregate, so what remains tells of the whole filter. -/
theorem source_of_pushFilter {changed : Bool}
    (h : (pushFilter predicate child changed).1.Source PlanExpr.Plain) :
    (LogicalPlan.filter predicate child).Source PlanExpr.Plain := by
  have hpredicate : (∀ e ∈ (flattenConjuncts predicate).filter isResidual, e.Plain) → predicate.Plain := by
    intro hresidual
    refine of_flattenConjuncts (fun _ _ _ hl hr => plain_binary_iff.mpr ⟨hl, hr⟩) fun e he => ?_
    by_cases hres : isResidual e = true
    · exact hresidual e (List.mem_filter.mpr ⟨he, hres⟩)
    · rw [isResidual, Bool.not_eq_true, Option.isNone_eq_false_iff, Option.isSome_iff_exists] at hres
      obtain ⟨p, hp⟩ := hres
      exact plain_of_extractSimplePredicate hp
  unfold pushFilter at h
  split at h
  · dsimp only at h
    split_ifs at h
    · exact h
    · split at h
      · rename_i hnone
        refine ⟨hpredicate fun e he => ?_, trivial⟩
        rcases hes : (flattenConjuncts predicate).filter isResidual with _ | ⟨e', es⟩
        · rw [hes] at he
          exact absurd he List.not_mem_nil
        · rw [hes] at hnone
          cases hnone
      · rename_i rest hrest
        exact ⟨hpredicate (forall_of_buildConjunction (fun _ _ _ => plain_binary_iff.mp) hrest h.1), trivial⟩
  · exact h

/-- Where the source is plain behind the rule, it was before. -/
theorem source_of_pushPredicate (h : (pushPredicate plan).1.Source PlanExpr.Plain) :
    plan.Source PlanExpr.Plain := by
  induction plan with
  | scan tableOid required pushed => trivial
  | filter predicate child ih =>
    have hfilter := source_of_pushFilter h
    exact ⟨hfilter.1, ih hfilter.2⟩
  | project outputs child _ => exact h.elim
  | aggregate groupBy outputs child _ => exact h.elim
  | insert tableOid targetColumns rows => exact h.elim
  | createTable tableName schema => exact h.elim

/-- Required columns do not matter to the source. -/
theorem source_setRequiredColumns_iff {columns : List ℕ} :
    (plan.setRequiredColumns columns).Source P ↔ plan.Source P := by
  induction plan with
  | filter predicate child ih => exact and_congr_right fun _ => ih
  | _ => exact Iff.rfl

/-- Pushing down keeps plans compilable. -/
theorem compilable_pushPredicate
    (hand : ∀ left right type, P (.binary .and left right type) ↔ P left ∧ P right)
    (h : plan.Compilable P) : (pushPredicate plan).1.Compilable P := by
  cases plan with
  | project outputs child => exact ⟨h.1, source_pushPredicate hand h.2⟩
  | aggregate groupBy outputs child => exact ⟨h.1, source_pushPredicate hand h.2⟩
  | _ => exact h.elim

/-- Where a plan is compilable behind the rule, it was before. -/
theorem compilable_of_pushPredicate (hselect : plan.IsSelect)
    (h : (pushPredicate plan).1.Compilable PlanExpr.Plain) : plan.Compilable PlanExpr.Plain := by
  cases plan with
  | project outputs child => exact ⟨h.1, source_of_pushPredicate h.2⟩
  | aggregate groupBy outputs child => exact ⟨h.1, source_of_pushPredicate h.2⟩
  | _ => exact hselect.elim

/-- Required columns do not matter to compiling. -/
theorem compilable_setRequiredColumns_iff {columns : List ℕ} :
    (plan.setRequiredColumns columns).Compilable P ↔ plan.Compilable P := by
  cases plan with
  | project outputs child => exact and_congr_right fun _ => source_setRequiredColumns_iff
  | aggregate groupBy outputs child => exact and_congr_right fun _ => source_setRequiredColumns_iff
  | _ => exact Iff.rfl

/-- Pushing down keeps the shape. -/
theorem isSelect_pushPredicate (h : plan.IsSelect) : (pushPredicate plan).1.IsSelect := by
  have htrue : ∀ (left right : PlanExpr) (type : DataType), True ↔ True ∧ True := fun _ _ _ => by simp
  cases plan with
  | project outputs child => exact source_pushPredicate htrue h
  | aggregate groupBy outputs child => exact source_pushPredicate htrue h
  | _ => exact h.elim

/-- Required columns do not matter to the shape. -/
theorem isSelect_setRequiredColumns {columns : List ℕ} (h : plan.IsSelect) :
    (plan.setRequiredColumns columns).IsSelect := by
  cases plan with
  | project outputs child => exact source_setRequiredColumns_iff.mpr h
  | aggregate groupBy outputs child => exact source_setRequiredColumns_iff.mpr h
  | _ => exact h.elim

/-- **The optimizer makes no plan of a SELECT compilable**, and it stays the plan of one. -/
theorem compilable_of_optimize (hselect : plan.IsSelect) :
    (optimize plan).IsSelect ∧
      ((optimize plan).Compilable PlanExpr.Plain → plan.Compilable PlanExpr.Plain) := by
  refine optimizeLoop_induction (P := fun p => p.IsSelect ∧
    (p.Compilable PlanExpr.Plain → plan.Compilable PlanExpr.Plain)) (fun p hp => ?_) 8 ⟨hselect, id⟩
  refine optimizePass_induction (P := fun p => p.IsSelect ∧
    (p.Compilable PlanExpr.Plain → plan.Compilable PlanExpr.Plain)) ?_ fun q columns hq => ?_
  · exact ⟨isSelect_pushPredicate hp.1, fun h => hp.2 (compilable_of_pushPredicate hp.1 h)⟩
  · exact ⟨isSelect_setRequiredColumns hq.1, fun h => hq.2 (compilable_setRequiredColumns_iff.mp h)⟩

/-- **The optimizer keeps a plan compilable.** -/
theorem compilable_optimize
    (hand : ∀ left right type, P (.binary .and left right type) ↔ P left ∧ P right)
    (h : plan.Compilable P) : (optimize plan).Compilable P := by
  refine optimizeLoop_induction (P := LogicalPlan.Compilable P) (fun p hp => ?_) 8 h
  exact optimizePass_induction (compilable_pushPredicate hand hp) fun _ _ hq =>
    compilable_setRequiredColumns_iff.mpr hq

/-! ## Columns of the optimized plan -/

/-- Pushing a filter down brings no new column. -/
theorem mentions_pushFilter {c : ℕ} {changed : Bool} (h : (pushFilter predicate child changed).1.Mentions c) :
    (LogicalPlan.filter predicate child).Mentions c := by
  have hconjuncts : ∀ e ∈ flattenConjuncts predicate, e.Mentions c → predicate.Mentions c := by
    have hall := forall_flattenConjuncts (P := fun e => e.Mentions c → predicate.Mentions c) (e := predicate)
      (fun l r type hand => ⟨fun hl => hand (.left .and r type hl), fun hr => hand (.right .and l type hr)⟩) id
    exact hall
  unfold pushFilter at h
  split at h
  · rename_i tableOid required pushed
    dsimp only at h
    have hscan : (LogicalPlan.scan tableOid required
        (pushed ++ (flattenConjuncts predicate).filterMap extractSimplePredicate)).Mentions c →
        (LogicalPlan.filter predicate (.scan tableOid required pushed)).Mentions c := by
      rintro ⟨hp, hc⟩
      rcases List.mem_append.mp hp with hp | hp
      · exact .filterChild (.pushed hp hc)
      · obtain ⟨e, he, hextract⟩ := List.mem_filterMap.mp hp
        obtain ⟨op, oid, columnType, value, literalType, type, rfl, -⟩ :=
          extractSimplePredicate_eq_some hextract
        exact .predicate (hconjuncts _ he (.left op _ type (hc ▸ .columnRef oid columnType)))
    split_ifs at h
    · exact h
    · split at h
      · exact hscan h
      · rename_i rest hrest
        cases h with
        | predicate h =>
          have hrestAll := of_buildConjunction (P := fun e => e.Mentions c → predicate.Mentions c)
            (fun l r hl hr hand => (PlanExpr.mentions_binary_iff.mp hand).elim hl hr)
            (fun e he => hconjuncts e (List.mem_filter.mp he).1) hrest
          exact .predicate (hrestAll h)
        | filterChild h => exact hscan h
  · exact h

/-- Pushing down brings no new column. -/
theorem mentions_pushPredicate {c : ℕ} (h : (pushPredicate plan).1.Mentions c) : plan.Mentions c := by
  induction plan with
  | scan tableOid required pushed => exact h
  | filter predicate child ih =>
    cases mentions_pushFilter h with
    | predicate h => exact .predicate h
    | filterChild h => exact .filterChild (ih h)
  | project outputs child ih =>
    cases h with
    | projectOutput ho h => exact .projectOutput ho h
    | projectChild h => exact .projectChild (ih h)
  | aggregate groupBy outputs child ih =>
    cases h with
    | group he h => exact .group he h
    | aggregateOutput ho h => exact .aggregateOutput ho h
    | aggregateChild h => exact .aggregateChild (ih h)
  | insert tableOid targetColumns rows => exact h
  | createTable tableName schema => exact h

/-- **The optimized plan mentions no other columns.** -/
theorem mentions_optimize {c : ℕ} (h : (optimize plan).Mentions c) : plan.Mentions c := by
  refine optimizeLoop_induction (P := fun p => p.Mentions c → plan.Mentions c) (fun p hp => ?_) 8 id h
  refine optimizePass_induction (P := fun p => p.Mentions c → plan.Mentions c) ?_ fun q columns hq hc => ?_
  · exact fun hc => hp (mentions_pushPredicate hc)
  · rw [← mem_collectRequiredColumns, collectRequiredColumns_setRequiredColumns,
      mem_collectRequiredColumns] at hc
    exact hq hc

end

end SimpleOlap
