import SimpleOlap.Execution.PlanRun
import SimpleOlap.Planner.Optimizer

/-!
# Rows and slots

The rows of a plan do not depend on which columns its scan shows, as long as those of its expressions are
among them.

* `AggregateSpec.Alike`: two specifications of one aggregate over different schemas. They go through the
  same states (`consume_alike`) and give the same output (`outputRow_alike`).
* `runPlan_setRequiredColumns`: the statement for plans.
-/

namespace SimpleOlap

open Lib

/-! ## Aggregates -/

/-- The expressions have the same value in every row. -/
def ExecExpression.SameValue (t : TableContent) (schema schema' : ExecSchema)
    (expr expr' : ExecExpression) : Prop :=
  ∀ row, expr.eval (t.rowBatch schema row) 0 = expr'.eval (t.rowBatch schema' row) 0

/-- The calls are of the same kind, on arguments with the same value. -/
structure AggCallSpec.Alike (t : TableContent) (schema schema' : ExecSchema) (call call' : AggCallSpec) :
    Prop where
  type : call'.type = call.type
  resultType : call'.resultType = call.resultType
  arg : Option.Rel (ExecExpression.SameValue t schema schema') call.arg call'.arg

/-- The specifications have the same outputs, over group expressions and calls that are alike. -/
structure AggregateSpec.Alike (t : TableContent) (schema schema' : ExecSchema)
    (spec spec' : AggregateSpec) : Prop where
  groupExprs : List.Forall₂ (ExecExpression.SameValue t schema schema') spec.groupExprs spec'.groupExprs
  aggCalls : List.Forall₂ (AggCallSpec.Alike t schema schema') spec.aggCalls spec'.aggCalls
  outputs : spec'.outputs = spec.outputs

section

variable {t : TableContent} {schema schema' : ExecSchema} {call call' : AggCallSpec}
  {calls calls' : List AggCallSpec} {spec spec' : AggregateSpec}

/-- Updating an aggregate. -/
theorem updateAggregate_alike (h : call.Alike t schema schema' call') (state : AggState) (row : Row) :
    updateAggregate call' state (t.rowBatch schema' row) 0 =
      updateAggregate call state (t.rowBatch schema row) 0 := by
  obtain ⟨type, arg, resultType⟩ := call
  obtain ⟨type', arg', resultType'⟩ := call'
  obtain ⟨htype, -, harg⟩ := h
  obtain rfl : type' = type := htype
  unfold updateAggregate
  cases harg with
  | none => rfl
  | some hsame => simp only [hsame row]

/-- COUNT(*) is not changed. -/
theorem isCountStar_alike (h : call.Alike t schema schema' call') :
    call'.isCountStar = call.isCountStar := by
  obtain ⟨type, arg, resultType⟩ := call
  obtain ⟨type', arg', resultType'⟩ := call'
  obtain ⟨htype, -, harg⟩ := h
  obtain rfl : type' = type := htype
  cases harg <;> rfl

/-- Updating all aggregates. -/
theorem updateStates_alike (h : List.Forall₂ (AggCallSpec.Alike t schema schema') calls calls')
    (states : List AggState) (row : Row) :
    updateStates calls' states (t.rowBatch schema' row) 0 =
      updateStates calls states (t.rowBatch schema row) 0 := by
  unfold updateStates
  induction h generalizing states with
  | nil => rfl
  | cons hcall _ ih =>
    cases states with
    | nil => rfl
    | cons state states =>
      rw [List.zip_cons_cons, List.zip_cons_cons, List.mapM_cons, List.mapM_cons, ih,
        updateAggregate_alike hcall]

/-- Updating the aggregates that read a row. -/
theorem updateRowCalls_alike (h : List.Forall₂ (AggCallSpec.Alike t schema schema') calls calls')
    (states : List AggState) (row : Row) :
    updateRowCalls calls' states (t.rowBatch schema' row) 0 =
      updateRowCalls calls states (t.rowBatch schema row) 0 := by
  unfold updateRowCalls
  induction h generalizing states with
  | nil => rfl
  | cons hcall _ ih =>
    cases states with
    | nil => rfl
    | cons state states =>
      rw [List.zip_cons_cons, List.zip_cons_cons, List.mapM_cons, List.mapM_cons, ih]
      simp only [isCountStar_alike hcall, updateAggregate_alike hcall]

/-- Counting the rows of a batch. -/
theorem countStar_alike (h : List.Forall₂ (AggCallSpec.Alike t schema schema') calls calls')
    (states : List AggState) (n : ℕ) :
    ((calls'.zip states).map fun c =>
        if c.1.isCountStar then { c.2 with count := c.2.count + n } else c.2) =
      (calls.zip states).map fun c =>
        if c.1.isCountStar then { c.2 with count := c.2.count + n } else c.2 := by
  induction h generalizing states with
  | nil => rfl
  | cons hcall _ ih =>
    cases states with
    | nil => rfl
    | cons state states =>
      simp only [List.zip_cons_cons, List.map_cons, ih, isCountStar_alike hcall]

/-- A query with COUNT(*) only. -/
theorem all_isCountStar_alike (h : List.Forall₂ (AggCallSpec.Alike t schema schema') calls calls') :
    calls'.all AggCallSpec.isCountStar = calls.all AggCallSpec.isCountStar := by
  induction h with
  | nil => rfl
  | cons hcall _ ih => rw [List.all_cons, List.all_cons, ih, isCountStar_alike hcall]

/-- The key of a group. -/
theorem evalGroupKey_alike (h : spec.Alike t schema schema' spec') (row : Row) :
    spec'.evalGroupKey (t.rowBatch schema' row) 0 = spec.evalGroupKey (t.rowBatch schema row) 0 := by
  obtain ⟨hgroup, -, -⟩ := h
  unfold AggregateSpec.evalGroupKey
  generalize spec.groupExprs = exprs, spec'.groupExprs = exprs' at hgroup
  induction hgroup with
  | nil => rfl
  | cons hexpr _ ih => rw [List.mapM_cons, List.mapM_cons, ih, hexpr row]

/-- Whether there are group expressions. -/
theorem isGlobal_alike (h : spec.Alike t schema schema' spec') : spec'.isGlobal = spec.isGlobal := by
  obtain ⟨hgroup, -, -⟩ := h
  unfold AggregateSpec.isGlobal
  generalize spec.groupExprs = exprs, spec'.groupExprs = exprs' at hgroup
  cases hgroup <;> rfl

/-- The states before any row. -/
theorem makeStates_alike (h : spec.Alike t schema schema' spec') :
    spec'.makeStates = spec.makeStates := by
  have hlength := h.aggCalls.length_eq
  rw [AggregateSpec.makeStates, AggregateSpec.makeStates, List.map_const', List.map_const', hlength]

/-- The one row of a batch is visited. -/
theorem activeIndices_rowBatch (schema : ExecSchema) (row : Row) :
    (t.rowBatch schema row).activeIndices = [0] := by
  have hall : (SelectionMask.setAll 1).isAll = true := by decide
  exact if_pos hall

/-- **Alike specifications go through the same states.** -/
theorem consume_alike (h : spec.Alike t schema schema' spec') (state : HashAggregateState) (row : Row) :
    state.consume spec' (t.rowBatch schema' row) = state.consume spec (t.rowBatch schema row) := by
  unfold HashAggregateState.consume HashAggregateState.consumeGlobal HashAggregateState.consumeGrouped
  simp only [isGlobal_alike h, countStar_alike h.aggCalls, all_isCountStar_alike h.aggCalls,
    activeIndices_rowBatch, List.foldlM_cons, List.foldlM_nil, updateRowCalls_alike h.aggCalls,
    updateStates_alike h.aggCalls, evalGroupKey_alike h, makeStates_alike h]
  rfl

/-- The state before any batch. -/
theorem initial_alike (h : spec.Alike t schema schema' spec') : spec'.initial = spec.initial := by
  rw [AggregateSpec.initial, isGlobal_alike h, makeStates_alike h, AggregateSpec.initial]

/-- The result of an aggregate. -/
theorem finalizeAggregate_alike (h : call.Alike t schema schema' call') (state : AggState) :
    finalizeAggregate call' state = finalizeAggregate call state := by
  rw [finalizeAggregate, h.type, h.resultType, finalizeAggregate]

/-- **Alike specifications give the same output.** -/
theorem outputRow_alike (h : spec.Alike t schema schema' spec') (group : GroupKey × List AggState) :
    spec'.outputRow group = spec.outputRow group := by
  have hvalue : spec'.outputValue group = spec.outputValue group := by
    funext output
    have hcalls := List.forall₂_iff_get.mp h.aggCalls
    unfold AggregateSpec.outputValue
    rw [isGlobal_alike h]
    rcases hcall : spec.aggCalls[output.index]? with _ | call
    · have hcall' : spec'.aggCalls[output.index]? = none := by
        rw [List.getElem?_eq_none_iff] at hcall ⊢
        exact hcalls.1 ▸ hcall
      rw [hcall']
    · obtain ⟨hlt, rfl⟩ := List.getElem?_eq_some_iff.mp hcall
      have hlt' : output.index < spec'.aggCalls.length := hcalls.1 ▸ hlt
      rw [List.getElem?_eq_getElem hlt']
      rcases group.2[output.index]? with _ | state
      · rfl
      · have hfinal := finalizeAggregate_alike (hcalls.2 output.index hlt hlt') state
        simp only [List.get_eq_getElem] at hfinal
        simp only [hfinal]
  rw [AggregateSpec.outputRow, AggregateSpec.outputRow, h.outputs, hvalue]

/-! ## Specifications of one aggregate -/

variable {groupBy : List PlanExpr} {outputs : List NamedPlanExpr} {expr : PlanExpr}

/-- The schema has the columns of the expression. -/
def PlanExpr.SlotsIn (t : TableContent) (schema : ExecSchema) (expr : PlanExpr) : Prop :=
  ∀ c, expr.Mentions c → findInputSlot schema ⟨t.tableOid, c⟩ ≠ none

/-- An expression compiles with both schemas, to the same values. -/
theorem compileExecExpr_alike (hshows : t.Shows schema) (hshows' : t.Shows schema')
    (hof : expr.OfTable t.boundTable) (hslots : expr.SlotsIn t schema') {compiled : ExecExpression}
    (h : compileExecExpr schema expr = .ok compiled) :
    ∃ compiled', compileExecExpr schema' expr = .ok compiled' ∧
      compiled.SameValue t schema schema' compiled' := by
  obtain ⟨compiled', hcompiled'⟩ := compileExecExpr_of_slots h hof hslots
  refine ⟨compiled', hcompiled', fun row => ?_⟩
  rw [compileExecExpr_value hshows h, compileExecExpr_value hshows' hcompiled']

/-- Compiled expressions. -/
theorem mapM_compileExecExpr_alike (hshows : t.Shows schema) (hshows' : t.Shows schema')
    {exprs : List PlanExpr} (hof : ∀ e ∈ exprs, e.OfTable t.boundTable)
    (hslots : ∀ e ∈ exprs, e.SlotsIn t schema') {compiled : List ExecExpression}
    (h : exprs.mapM (compileExecExpr schema) = .ok compiled) :
    ∃ compiled', exprs.mapM (compileExecExpr schema') = .ok compiled' ∧
      List.Forall₂ (ExecExpression.SameValue t schema schema') compiled compiled' := by
  induction exprs generalizing compiled with
  | nil =>
    cases h
    exact ⟨[], rfl, .nil⟩
  | cons e exprs ih =>
    rw [List.mapM_cons] at h
    obtain ⟨x, hx, h⟩ := bind_eq_ok h
    obtain ⟨xs, hxs, h⟩ := bind_eq_ok h
    cases h
    obtain ⟨x', hx', hsame⟩ := compileExecExpr_alike hshows hshows' (hof e List.mem_cons_self)
      (hslots e List.mem_cons_self) hx
    obtain ⟨xs', hxs', hsames⟩ := ih (fun e' he' => hof e' (List.mem_cons_of_mem e he'))
      (fun e' he' => hslots e' (List.mem_cons_of_mem e he')) hxs
    refine ⟨x' :: xs', ?_, .cons hsame hsames⟩
    rw [List.mapM_cons, hx', hxs']
    rfl

/-- The output of a group expression. -/
theorem addGroupKeyOutput_alike
    (hcalls : List.Forall₂ (AggCallSpec.Alike t schema schema') calls calls')
    {result : List AggCallSpec × AggregateOutputSpec}
    (h : addGroupKeyOutput groupBy calls expr = .ok result) :
    ∃ next, addGroupKeyOutput groupBy calls' expr = .ok (next, result.2) ∧
      List.Forall₂ (AggCallSpec.Alike t schema schema') result.1 next := by
  unfold addGroupKeyOutput at h ⊢
  rcases hfind : findGroupIndex expr groupBy with _ | index
  · rw [hfind] at h
    cases h
  · rw [hfind] at h
    cases h
    exact ⟨calls', rfl, hcalls⟩

/-- One more output, over both schemas. -/
theorem addAggregateOutput_alike (hshows : t.Shows schema) (hshows' : t.Shows schema')
    (hof : expr.OfTable t.boundTable) (hslots : expr.SlotsIn t schema')
    (hcalls : List.Forall₂ (AggCallSpec.Alike t schema schema') calls calls')
    {result : List AggCallSpec × AggregateOutputSpec}
    (h : addAggregateOutput groupBy schema calls expr = .ok result) :
    ∃ next, addAggregateOutput groupBy schema' calls' expr = .ok (next, result.2) ∧
      List.Forall₂ (AggCallSpec.Alike t schema schema') result.1 next := by
  have hlength := hcalls.length_eq
  cases expr with
  | columnRef tableOid colIdx type => exact addGroupKeyOutput_alike hcalls h
  | literal value type => exact addGroupKeyOutput_alike hcalls h
  | binary op left right type => exact addGroupKeyOutput_alike hcalls h
  | agg aggType arg type =>
    have hofArg : arg.OfTable t.boundTable := hof
    have hslotsArg : arg.SlotsIn t schema' := fun c hc => hslots c (.arg aggType type hc)
    obtain ⟨x, hx, h⟩ := bind_eq_ok h
    cases h
    obtain ⟨x', hx', hsame⟩ := compileExecExpr_alike hshows hshows' hofArg hslotsArg hx
    refine ⟨calls' ++ [⟨aggType, some x', type⟩], ?_, ?_⟩
    · rw [addAggregateOutput, hx', hlength]
      rfl
    · exact List.rel_append hcalls (.cons ⟨rfl, rfl, .some hsame⟩ .nil)
  | aggStar aggType type =>
    cases h
    refine ⟨calls' ++ [⟨aggType, none, type⟩], ?_, ?_⟩
    · rw [addAggregateOutput, hlength]
    · exact List.rel_append hcalls (.cons ⟨rfl, rfl, .none⟩ .nil)

/-- All outputs. -/
theorem addAggregateOutputs_alike (hshows : t.Shows schema) (hshows' : t.Shows schema')
    (hof : ∀ output ∈ outputs, output.expr.OfTable t.boundTable)
    (hslots : ∀ output ∈ outputs, output.expr.SlotsIn t schema')
    (hcalls : List.Forall₂ (AggCallSpec.Alike t schema schema') calls calls')
    {result : List AggCallSpec × List AggregateOutputSpec}
    (h : addAggregateOutputs groupBy schema calls outputs = .ok result) :
    ∃ next, addAggregateOutputs groupBy schema' calls' outputs = .ok (next, result.2) ∧
      List.Forall₂ (AggCallSpec.Alike t schema schema') result.1 next := by
  induction outputs generalizing calls calls' result with
  | nil =>
    cases h
    exact ⟨calls', rfl, hcalls⟩
  | cons output outputs ih =>
    obtain ⟨⟨calls₁, spec⟩, hfirst, h⟩ := bind_eq_ok h
    obtain ⟨⟨calls₂, specs⟩, hrest, h⟩ := bind_eq_ok h
    cases h
    obtain ⟨calls₁', hfirst', hcalls₁⟩ := addAggregateOutput_alike hshows hshows'
      (hof output List.mem_cons_self) (hslots output List.mem_cons_self) hcalls hfirst
    obtain ⟨calls₂', hrest', hcalls₂⟩ := ih (fun o ho => hof o (List.mem_cons_of_mem output ho))
      (fun o ho => hslots o (List.mem_cons_of_mem output ho)) hcalls₁ hrest
    refine ⟨calls₂', ?_, hcalls₂⟩
    rw [addAggregateOutputs, hfirst']
    simp only [bind, Except.bind, hrest']
    rfl

/-- **An aggregate is built alike over both schemas.** -/
theorem buildAggregateSpec_alike (hshows : t.Shows schema) (hshows' : t.Shows schema')
    (hgroup : ∀ e ∈ groupBy, e.OfTable t.boundTable ∧ e.SlotsIn t schema')
    (houtputs : ∀ o ∈ outputs, o.expr.OfTable t.boundTable ∧ o.expr.SlotsIn t schema')
    (h : buildAggregateSpec groupBy outputs schema = .ok spec) :
    ∃ spec', buildAggregateSpec groupBy outputs schema' = .ok spec' ∧
      spec.Alike t schema schema' spec' := by
  obtain ⟨groupExprs, hexprs, h⟩ := bind_eq_ok h
  obtain ⟨⟨aggCalls, specs⟩, hspecs, h⟩ := bind_eq_ok h
  cases h
  obtain ⟨groupExprs', hexprs', hsame⟩ := mapM_compileExecExpr_alike hshows hshows'
    (fun e he => (hgroup e he).1) (fun e he => (hgroup e he).2) hexprs
  obtain ⟨aggCalls', hspecs', halike⟩ := addAggregateOutputs_alike hshows hshows'
    (fun o ho => (houtputs o ho).1) (fun o ho => (houtputs o ho).2) .nil hspecs
  refine ⟨⟨groupExprs', aggCalls', specs⟩, ?_, hsame, halike, rfl⟩
  rw [buildAggregateSpec, hexprs']
  simp only [bind, Except.bind, hspecs']
  rfl

/-! ## Projections -/

/-- An output column has the same value over both schemas. -/
theorem projectValue_alike (hshows : t.Shows schema) (hshows' : t.Shows schema')
    {compiled compiled' : ExecExpression} (h : compileExecExpr schema expr = .ok compiled)
    (h' : compileExecExpr schema' expr = .ok compiled') (row : Row) :
    projectValue (t.rowBatch schema' row) compiled' = projectValue (t.rowBatch schema row) compiled := by
  have heval : compiled'.eval (t.rowBatch schema' row) 0 = compiled.eval (t.rowBatch schema row) 0 := by
    rw [compileExecExpr_value hshows' h', compileExecExpr_value hshows h]
  cases expr with
  | columnRef tableOid colIdx type =>
    unfold compileExecExpr at h h'
    split at h
    · cases h
    · split at h'
      · cases h'
      · cases h
        cases h'
        exact heval
  | literal value type =>
    cases h
    cases h'
    rfl
  | binary op left right type =>
    obtain ⟨l, -, h⟩ := bind_eq_ok h
    obtain ⟨r, -, h⟩ := bind_eq_ok h
    obtain ⟨l', -, h'⟩ := bind_eq_ok h'
    obtain ⟨r', -, h'⟩ := bind_eq_ok h'
    cases h
    cases h'
    simp only [projectValue, heval, ExecExpression.returnType]
  | agg aggType arg type => cases h
  | aggStar aggType type => cases h

/-- The outputs of a projection have the same values over both schemas. -/
theorem mapM_projectValue_alike (hshows : t.Shows schema) (hshows' : t.Shows schema')
    (houtputs : ∀ o ∈ outputs, o.expr.OfTable t.boundTable ∧ o.expr.SlotsIn t schema')
    {compiled : List ExecExpression}
    (h : (outputs.mapM fun output => compileExecExpr schema output.expr) = .ok compiled) :
    ∃ compiled', (outputs.mapM fun output => compileExecExpr schema' output.expr) = .ok compiled' ∧
      ∀ row, compiled'.mapM (projectValue (t.rowBatch schema' row)) =
        compiled.mapM (projectValue (t.rowBatch schema row)) := by
  induction outputs generalizing compiled with
  | nil =>
    cases h
    exact ⟨[], rfl, fun row => rfl⟩
  | cons output outputs ih =>
    rw [List.mapM_cons] at h
    obtain ⟨x, hx, h⟩ := bind_eq_ok h
    obtain ⟨xs, hxs, h⟩ := bind_eq_ok h
    cases h
    obtain ⟨hof, hslots⟩ := houtputs output List.mem_cons_self
    obtain ⟨x', hx'⟩ := compileExecExpr_of_slots hx hof hslots
    obtain ⟨xs', hxs', hrows⟩ := ih (fun o ho => houtputs o (List.mem_cons_of_mem output ho)) hxs
    refine ⟨x' :: xs', ?_, fun row => ?_⟩
    · rw [List.mapM_cons, hx', hxs']
      rfl
    · rw [List.mapM_cons, List.mapM_cons, projectValue_alike hshows hshows' hx hx', hrows]

end

/-! ## Scans -/

section

variable {t : TableContent} {schema : ExecSchema} {rows : List Row} {plan : LogicalPlan}
  {unset columns : List ℕ} {tableOid : TableId}

/-- The slot of a column. -/
theorem scanSlot_eq_ok {slot : ExecSlot} {c : ColumnId} (h : scanSlot tableOid t.schema c = .ok slot) :
    slot = ⟨t.schema.typeOf c, some ⟨tableOid, c⟩⟩ := by
  unfold scanSlot at h
  rcases hfind : findColumnSchema t.schema c with _ | column
  · rw [hfind] at h
    cases h
  · rw [hfind] at h
    cases h
    rw [TableSchema.typeOf, hfind]

/-- The slots of a scan show the columns of the table. -/
theorem shows_mapM_scanSlot (h : columns.mapM (scanSlot tableOid t.schema) = .ok schema) :
    t.Shows schema := by
  intro slot hslot
  obtain ⟨c, -, hc⟩ := mem_of_mapM_eq_ok h hslot
  obtain rfl := scanSlot_eq_ok hc
  exact ⟨⟨tableOid, c⟩, rfl, rfl⟩

/-- A column that is scanned has a slot. -/
theorem findInputSlot_mapM_scanSlot (h : columns.mapM (scanSlot tableOid t.schema) = .ok schema)
    {c : ColumnId} (hc : c ∈ columns) : findInputSlot schema ⟨tableOid, c⟩ ≠ none := by
  obtain ⟨slot, hslot, hok⟩ := exists_of_mem_mapM h hc
  obtain rfl := scanSlot_eq_ok hok
  intro hnone
  have hfalse := List.findIdx?_eq_none_iff.mp hnone _ hslot
  simp at hfalse

/-- What a scan is built from. -/
theorem buildScanSpec_eq_ok {pushed : List SimplePredicate} {spec : BuiltScanSpec}
    (h : buildScanSpec (t.entry tableOid) tableOid columns pushed = .ok spec) :
    tableOid = t.tableOid ∧ spec.options.predicates = pushed.map SimplePredicate.toCondition ∧
      ∃ scanned, driverColumns t.schema columns = .ok scanned ∧
        scanned.mapM (scanSlot tableOid t.schema) = .ok spec.outputSchema := by
  unfold TableContent.entry at h
  by_cases hoid : tableOid = t.tableOid
  · rw [if_pos hoid] at h
    obtain ⟨scanned, hscanned, h⟩ := bind_eq_ok h
    obtain ⟨outputSchema, hschema, h⟩ := bind_eq_ok h
    cases h
    exact ⟨hoid, rfl, scanned, hscanned, hschema⟩
  · rw [if_neg hoid] at h
    cases h

/-- A scan that was built shows a column, so the table has one. -/
theorem columns_ne_nil_of_driverColumns {scanned : List ColumnId}
    (h : driverColumns t.schema columns = .ok scanned)
    (hschema : scanned.mapM (scanSlot tableOid t.schema) = .ok schema) : t.schema.columns ≠ [] := by
  intro hnil
  rcases columns with _ | ⟨c, columns⟩
  · rw [driverColumns, hnil] at h
    cases h
  · cases h
    have hnone : findColumnSchema t.schema c = none := by rw [findColumnSchema, hnil]; rfl
    rw [List.mapM_cons, scanSlot, hnone] at hschema
    cases hschema

/-- A scan can be built for columns that the table has; where there are none, for the first one. -/
theorem exists_buildScanSpec (hne : t.schema.columns ≠ [])
    (hcolumns : ∀ c ∈ columns, findColumnSchema t.schema c ≠ none) (pushed : List SimplePredicate) :
    ∃ spec, buildScanSpec (t.entry t.tableOid) t.tableOid columns pushed = .ok spec ∧
      spec.options.predicates = pushed.map SimplePredicate.toCondition ∧
      ∃ scanned : List ColumnId, scanned.mapM (scanSlot t.tableOid t.schema) = .ok spec.outputSchema ∧
        ∀ c ∈ columns, c ∈ scanned := by
  have hscanned : ∃ scanned, driverColumns t.schema columns = .ok scanned ∧
      (∀ c ∈ scanned, findColumnSchema t.schema c ≠ none) ∧ ∀ c ∈ columns, c ∈ scanned := by
    rcases columns with _ | ⟨c, columns⟩
    · obtain ⟨column, rest, hcons⟩ := List.exists_cons_of_ne_nil hne
      refine ⟨[column.columnId], by rw [driverColumns, hcons], fun c hc => ?_, by simp⟩
      obtain rfl := List.mem_singleton.mp hc
      simp [findColumnSchema, hcons]
    · exact ⟨_, rfl, hcolumns, fun c hc => hc⟩
  obtain ⟨scanned, hdriver, hexist, hsub⟩ := hscanned
  have hslots : scanned.mapM (scanSlot t.tableOid t.schema) =
      .ok (scanned.map fun c => ⟨t.schema.typeOf c, some ⟨t.tableOid, c⟩⟩) := by
    apply mapM_eq_ok
    intro c hc
    obtain ⟨column, hcolumn⟩ := Option.ne_none_iff_exists'.mp (hexist c hc)
    rw [scanSlot, hcolumn, TableSchema.typeOf, hcolumn]
  refine ⟨⟨t.tableOid, ⟨scanned, pushed.map SimplePredicate.toCondition⟩, _⟩, ?_, rfl, scanned,
    hslots, hsub⟩
  rw [TableContent.entry, if_pos rfl, buildScanSpec, hdriver]
  simp only [bind, Except.bind, hslots]
  rfl

/-! ## Plans -/

/-- The schema of the rows below a projection or an aggregate shows columns of the table. -/
theorem shows_sourceRows (h : sourceRows t unset plan = .ok (schema, rows)) : t.Shows schema := by
  induction plan generalizing rows with
  | scan tableOid required pushed =>
    obtain ⟨spec, hspec, h⟩ := bind_eq_ok h
    cases h
    obtain ⟨-, -, scanned, -, hschema⟩ := buildScanSpec_eq_ok hspec
    exact shows_mapM_scanSlot hschema
  | filter predicate child ih =>
    obtain ⟨⟨schema', rows'⟩, hchild, h⟩ := bind_eq_ok h
    obtain ⟨compiled, -, h⟩ := bind_eq_ok h
    obtain ⟨kept, -, h⟩ := bind_eq_ok h
    cases h
    exact ih hchild
  | project outputs child ih => cases h
  | aggregate groupBy outputs child ih => cases h
  | insert tableOid targetColumns rows' => cases h
  | createTable tableName tableSchema => cases h

/-- **The rows below a projection or an aggregate do not depend on the required columns**, as long as
those of the filters are among them. -/
theorem sourceRows_setRequiredColumns (h : sourceRows t unset plan = .ok (schema, rows))
    (hof : plan.OfTable t.boundTable) (hcolumns : ∀ c ∈ columns, findColumnSchema t.schema c ≠ none)
    (hmentions : ∀ c, plan.Mentions c → c ∈ columns) :
    ∃ schema', sourceRows t [] (plan.setRequiredColumns columns) = .ok (schema', rows) ∧
      ∀ c ∈ columns, findInputSlot schema' ⟨t.tableOid, c⟩ ≠ none := by
  induction plan generalizing rows with
  | scan tableOid required pushed =>
    obtain ⟨spec, hspec, h⟩ := bind_eq_ok h
    cases h
    obtain ⟨rfl, hpredicates, scanned, hscanned, hschema⟩ := buildScanSpec_eq_ok hspec
    obtain ⟨spec', hspec', hpredicates', scanned', hschema', hsub⟩ :=
      exists_buildScanSpec (columns_ne_nil_of_driverColumns hscanned hschema) hcolumns pushed
    refine ⟨spec'.outputSchema, ?_, fun c hc => findInputSlot_mapM_scanSlot hschema' (hsub c hc)⟩
    have hself : (if columns = [] then [] else columns) = columns := by
      split_ifs with hnil
      · exact hnil.symm
      · rfl
    rw [LogicalPlan.setRequiredColumns, sourceRows]
    simp only [bind, Except.bind, hself, hspec', hpredicates, hpredicates']
    rfl
  | filter predicate child ih =>
    obtain ⟨⟨schema₀, rows₀⟩, hchild, h⟩ := bind_eq_ok h
    obtain ⟨compiled, hcompiled, h⟩ := bind_eq_ok h
    obtain ⟨kept, hkept, h⟩ := bind_eq_ok h
    cases h
    obtain ⟨schema', hchild', hslots⟩ := ih hchild hof.2 fun c hc => hmentions c (.filterChild hc)
    have hslotsIn : predicate.SlotsIn t schema' := fun c hc => hslots c (hmentions c (.predicate hc))
    obtain ⟨compiled', hcompiled', -⟩ := compileExecExpr_alike (shows_sourceRows hchild)
      (shows_sourceRows hchild') hof.1.1 hslotsIn hcompiled
    refine ⟨schema', ?_, hslots⟩
    have htest : (fun row => compiled'.rowHolds (t.rowBatch schema' row) 0) =
        fun row => compiled.rowHolds (t.rowBatch schema row) 0 := by
      funext row
      rw [compileExecExpr_rowHolds (shows_sourceRows hchild') hcompiled',
        compileExecExpr_rowHolds (shows_sourceRows hchild) hcompiled]
    rw [LogicalPlan.setRequiredColumns, sourceRows, hchild']
    simp only [bind, Except.bind, hcompiled', htest, hkept]
    rfl
  | project outputs child ih => cases h
  | aggregate groupBy outputs child ih => cases h
  | insert tableOid targetColumns rows' => cases h
  | createTable tableName tableSchema => cases h

/-- **The rows of a plan do not depend on the required columns**, as long as those that the plan mentions
are among them. -/
theorem runPlan_setRequiredColumns {order : GroupTable → GroupTable} {out : List (List ExecValue)}
    (h : runPlan t order unset plan = .ok out) (hof : plan.OfTable t.boundTable)
    (hcolumns : ∀ c ∈ columns, findColumnSchema t.schema c ≠ none)
    (hmentions : ∀ c, plan.Mentions c → c ∈ columns) :
    runPlan t order [] (plan.setRequiredColumns columns) = .ok out := by
  cases plan with
  | scan tableOid required pushed => cases h
  | filter predicate child => cases h
  | project outputs child =>
    obtain ⟨⟨schema, rows⟩, hchild, h⟩ := bind_eq_ok h
    obtain ⟨compiled, hcompiled, h⟩ := bind_eq_ok h
    obtain ⟨schema', hchild', hslots⟩ := sourceRows_setRequiredColumns hchild hof.2 hcolumns
      fun c hc => hmentions c (.projectChild hc)
    obtain ⟨compiled', hcompiled', hrows⟩ := mapM_projectValue_alike (shows_sourceRows hchild)
      (shows_sourceRows hchild') (fun o ho => ⟨hof.1 o ho, fun c hc =>
        hslots c (hmentions c (.projectOutput ho hc))⟩) hcompiled
    rw [LogicalPlan.setRequiredColumns, runPlan, hchild']
    simp only [bind, Except.bind, hcompiled', hrows]
    exact h
  | aggregate groupBy outputs child =>
    obtain ⟨⟨schema, rows⟩, hchild, h⟩ := bind_eq_ok h
    obtain ⟨spec, hspec, h⟩ := bind_eq_ok h
    obtain ⟨schema', hchild', hslots⟩ := sourceRows_setRequiredColumns hchild hof.2 hcolumns
      fun c hc => hmentions c (.aggregateChild hc)
    obtain ⟨spec', hspec', halike⟩ := buildAggregateSpec_alike (shows_sourceRows hchild)
      (shows_sourceRows hchild') (fun e he => ⟨hof.1.1 e he, fun c hc =>
        hslots c (hmentions c (.group he hc))⟩) (fun o ho => ⟨hof.1.2 o ho, fun c hc =>
        hslots c (hmentions c (.aggregateOutput ho hc))⟩) hspec
    rw [LogicalPlan.setRequiredColumns, runPlan, hchild']
    simp only [bind, Except.bind, hspec', consume_alike halike, initial_alike halike,
      HashAggregateState.outputGroups, isGlobal_alike halike]
    have houtput : spec'.outputRow = spec.outputRow := funext (outputRow_alike halike)
    rw [houtput]
    exact h
  | insert tableOid targetColumns rows => cases h
  | createTable tableName schema => cases h

end

end SimpleOlap
