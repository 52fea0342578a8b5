import SimpleOlap.Execution.Aggregate.ParallelAggregate
import SimpleOlap.Execution.Pipeline
import SimpleOlap.Execution.ScanContent

/-!
# A plan, executed by one thread

* `startPlan`: the operators of a plan, built and initialised, and `Returns`: the rows that pulling them gives.
* `Pulling`: a way to get batches out of operators, such as to call them until their end.
* `ServesBy`, `Serves`: what the operators below a projection or an aggregate hand out is what the plan says.
* `serves_seqScan`: a scan of all segments serves the rows of the table that satisfy the pushed predicates.
* `servesBy_source`: a scan under any filters serves them, if the scan does.
* `returns_iff`: then the rows of the whole plan are those of `runPlan`.

Source: `execution_engine.cpp` ExecuteSerialQuery, `connection.cpp` PlanQuery and Query.
-/

namespace SimpleOlap

open Lib

/-! ## Expressions on the batches of a scan -/

section Expressions

variable {t : TableContent} {schema : ExecSchema} {expr : PlanExpr} {compiled : ExecExpression} {b : VectorBatch}

/-- A compiled column is a slot of the column's type. -/
theorem slot_of_compileExecExpr (hshows : t.Shows schema) (hids : t.schema.IdsArePositions)
    {tableOid : TableId} {colIdx : ℕ} {type : DataType}
    (hof : (PlanExpr.columnRef tableOid colIdx type).OfTable t.boundTable) {slot : ℕ}
    (hfind : findInputSlot schema ⟨tableOid, colIdx⟩ = some slot) :
    ∃ s, schema[slot]? = some s ∧ s.source = some ⟨tableOid, colIdx⟩ ∧ s.type = t.schema.typeOf colIdx ∧
      type = t.schema.typeOf colIdx := by
  obtain ⟨s, hs, hslot, hsource⟩ := findInputSlot_eq_some hfind
  obtain ⟨binding, hbinding, htype⟩ := hshows s hs
  obtain rfl : binding = ⟨tableOid, colIdx⟩ := Option.some.inj (hbinding.symm.trans hsource)
  exact ⟨s, hslot, hsource, htype, hof.2.2.trans (columnType_boundTable hids hof.2.1)⟩

/-- A compiled expression refers to slots by their types. -/
theorem typed_of_compileExecExpr (hshows : t.Shows schema) (hids : t.schema.IdsArePositions)
    (hof : expr.OfTable t.boundTable) (h : compileExecExpr schema expr = .ok compiled) : compiled.Typed schema := by
  induction expr generalizing compiled with
  | columnRef tableOid colIdx type =>
    unfold compileExecExpr at h
    rcases hfind : findInputSlot schema ⟨tableOid, colIdx⟩ with _ | slot
    · rw [hfind] at h
      cases h
    · rw [hfind] at h
      cases h
      obtain ⟨s, hslot, -, hstype, htype⟩ := slot_of_compileExecExpr hshows hids hof hfind
      show (slotTypes schema)[slot]? = some type
      rw [slotTypes, List.getElem?_map, hslot, htype, ← hstype]
      rfl
  | literal value type =>
    cases h
    trivial
  | binary op left right type ihl ihr =>
    obtain ⟨l, hl, h⟩ := bind_eq_ok h
    obtain ⟨r, hr, h⟩ := bind_eq_ok h
    cases h
    exact ⟨ihl hof.1 hl, ihr hof.2 hr⟩
  | agg aggType arg type => cases h
  | aggStar aggType type => cases h

/-- **A compiled expression fits the batches of a scan** over a table without NaN. -/
theorem fits_of_compileExecExpr (hshows : t.Shows schema) (hids : t.schema.IdsArePositions) (hnoNan : t.NoNan)
    (hof : expr.OfTable t.boundTable) (hno : expr.NoNan) (h : compileExecExpr schema expr = .ok compiled)
    (hb : b.Content (slotTypes schema) (t.Shown schema)) : compiled.Fits b := by
  induction expr generalizing compiled with
  | columnRef tableOid colIdx type =>
    unfold compileExecExpr at h
    rcases hfind : findInputSlot schema ⟨tableOid, colIdx⟩ with _ | slot
    · rw [hfind] at h
      cases h
    · rw [hfind] at h
      cases h
      obtain ⟨s, hslot, hsource, hstype, htype⟩ := slot_of_compileExecExpr hshows hids hof hfind
      have hcolumn := congrArg (·[slot]?) hb.types
      simp only [slotTypes, List.getElem?_map, hslot, Option.map_some, Option.map_eq_some_iff] at hcolumn
      obtain ⟨col, hcol, hcoltype⟩ := hcolumn
      refine ⟨col, hcol, hcoltype.trans (hstype.trans htype.symm), fun r hr => ?_⟩
      -- a physical row shows a row of the table
      obtain ⟨row, hrow, hcells⟩ := hb.rows r (hb.counts col (List.mem_of_getElem? hcol) ▸ hr)
      have hcell := congrArg (·[slot]?) hcells
      simp only [VectorBatch.physicalRow, TableContent.slotRow, TableContent.rowBatch, List.getElem?_map, hcol,
        hslot, Option.map_some, Option.some.injEq] at hcell
      have hdata : t.slotData row s = t.columnData row colIdx := by
        rw [TableContent.slotData, hsource]
        simp only [hstype, TableContent.columnData]
      rw [hdata] at hcell
      have hnumber : col.numberAt r = (t.columnData row colIdx).numberAt 0 := by
        rw [ColumnData.numberAt, hcell, hcoltype, hstype]
        rfl
      exact hnumber ▸ hnoNan row hrow colIdx
  | literal value type =>
    cases h
    show (planLiteralToExec value).asNumber ≠ .ok .nan
    rcases value with v | s | d
    · intro hnan
      exact Fp.ofInt_ne_nan v.toInt (Except.ok.inj hnan)
    · exact fun hnan => by cases hnan
    · intro hnan
      exact hno (Except.ok.inj hnan)
  | binary op left right type ihl ihr =>
    obtain ⟨l, hl, h⟩ := bind_eq_ok h
    obtain ⟨r, hr, h⟩ := bind_eq_ok h
    cases h
    exact ⟨ihl hof.1 hno.1 hl, ihr hof.2 hno.2 hr⟩
  | agg aggType arg type => cases h
  | aggStar aggType type => cases h

end Expressions

/-! ## The batches of an aggregate -/

section Results

variable {spec : AggregateSpec}

/-- Values that were written for the output columns. -/
def Written (outputs : List AggregateOutputSpec) (row : List ExecValue) : Prop :=
  List.Forall₂ (fun output value => ∃ v, writeExecValue output.type v = .ok value) outputs row

theorem written_of_outputRow {group : GroupKey × List AggState} {row : List ExecValue}
    (h : spec.outputRow group = .ok row) : Written spec.outputs row := by
  refine (forall₂_of_mapM h).imp fun output value hvalue => ?_
  unfold AggregateSpec.outputValue at hvalue
  dsimp only at hvalue
  split_ifs at hvalue
  · cases hvalue
  · split at hvalue
    · cases hvalue
    · exact ⟨_, hvalue⟩
  · split at hvalue
    · obtain ⟨v, -, hwrite⟩ := bind_eq_ok hvalue
      exact ⟨v, hwrite⟩
    · cases hvalue

/-- **Rows that were written are read back.** -/
theorem activeValues_resultBatch {outputs : List AggregateOutputSpec} {rows : List (List ExecValue)}
    (h : ∀ row ∈ rows, Written outputs row) : (resultBatch outputs rows).activeValues = .ok rows := by
  have hindices : (resultBatch outputs rows).activeIndices = List.range rows.length :=
    VectorBatch.activeIndices_setIdentitySelection _ rows.length
  rw [VectorBatch.activeValues, hindices, mapM_eq_ok_iff]
  refine List.ext_getElem (by simp) fun r hr hr' => ?_
  have hlt : r < rows.length := by simpa using hr'
  have hrow := h rows[r] (List.getElem_mem hlt)
  simp only [List.getElem_map, List.getElem_range]
  rw [mapM_eq_ok_iff]
  have hlength : outputs.length = rows[r].length := hrow.length_eq
  refine List.ext_getElem (by simp [resultBatch, VectorBatch.setIdentitySelection, hlength]) fun i hi hi' => ?_
  have hi₁ : i < rows[r].length := by simpa using hi'
  have hi₀ : i < outputs.length := hlength ▸ hi₁
  obtain ⟨v, hwrite⟩ := hrow.get hi₀ hi₁
  obtain ⟨-, hread⟩ := readExecValue_of_write hwrite
  simp only [resultBatch, VectorBatch.setIdentitySelection, List.getElem_map, List.getElem_zipIdx,
    Nat.zero_add]
  refine hread _ r rfl hlt ?_
  have hcells : ∀ row ∈ rows, ((row[i]?.map ExecValue.cell).getD []).length = typeElemSize outputs[i].type := by
    intro row hmem
    have hrow' := h row hmem
    have hi₂ : i < row.length := hrow'.length_eq ▸ hi₀
    obtain ⟨v', hwrite'⟩ := hrow'.get hi₀ hi₂
    rw [List.getElem?_eq_getElem hi₂]
    exact (readExecValue_of_write hwrite').1
  refine (cell_flatMap _ rows hcells hlt).trans ?_
  rw [List.getElem?_eq_getElem hi₁]
  rfl

/-- The batches of an aggregate have the rows of its groups. -/
theorem readBatches_drain {groups : GroupTable} {pages : List (List (List ExecValue))}
    (h : spec.drain groups = .ok pages) :
    groups.mapM spec.outputRow = .ok pages.flatten ∧
      readBatches (pages.map (resultBatch spec.outputs)) = .ok pages.flatten := by
  have hflat := spec.drain_flatten groups
  rw [h] at hflat
  have hrows : groups.mapM spec.outputRow = .ok pages.flatten := hflat.symm
  refine ⟨hrows, ?_⟩
  have hpages : (pages.map (resultBatch spec.outputs)).mapM VectorBatch.activeValues = .ok pages := by
    rw [mapM_eq_ok_iff, List.map_map]
    refine List.map_congr_left fun page hpage => activeValues_resultBatch fun row hrow => ?_
    obtain ⟨group, -, hgroup⟩ := mem_of_mapM_eq_ok hrows (List.mem_flatten_of_mem hpage hrow)
    exact written_of_outputRow hgroup
  rw [readBatches, hpages]
  rfl

end Results

/-! ## Plans that are started -/

/-- The operators of a plan, built and initialised, with the slots they show. Source: `execution_engine.cpp`
ExecuteSerialQuery, steps 1 and 2. -/
def startPlan (ctx : ExecutionContext) (plan : PhysicalPlan) : Except String (ExecSchema × RunningOperator) := do
  let built ← buildNode ctx.catalog plan
  return (built.outputSchema, ← built.root.init ctx)

/-- The rows that a plan gives when its operators are pulled until their end. Source: `execution_engine.cpp`
ExecuteSerialQuery, and `connection.cpp` Query. -/
def Returns (ctx : ExecutionContext) (plan : PhysicalPlan) (rows : List (List ExecValue)) : Prop :=
  ∃ schema op bs, startPlan ctx plan = .ok (schema, op) ∧ op.Runs ctx bs ∧ readBatches bs = .ok rows

/-- The rows that a plan gives when batches are got out of its operators in some way. -/
def ReturnsBy (pulls : RunningOperator → List VectorBatch → Prop) (ctx : ExecutionContext) (plan : PhysicalPlan)
    (rows : List (List ExecValue)) : Prop :=
  ∃ schema op bs, startPlan ctx plan = .ok (schema, op) ∧ pulls op bs ∧ readBatches bs = .ok rows

section Start

variable {ctx : ExecutionContext} {child : PhysicalPlan} {schema : ExecSchema} {op : RunningOperator}

theorem startPlan_filter_iff {predicate : PlanExpr} :
    startPlan ctx (.filter predicate child) = .ok (schema, op) ↔
      ∃ below expr, startPlan ctx child = .ok (schema, below) ∧ compileExecExpr schema predicate = .ok expr ∧
        op = .filter below (compileVectorPredicate expr) := by
  constructor
  · intro h
    obtain ⟨built, hbuilt, h⟩ := bind_eq_ok h
    obtain ⟨op', hinit, h⟩ := bind_eq_ok h
    obtain ⟨built₀, hbuilt₀, hfilter⟩ := bind_eq_ok hbuilt
    obtain ⟨expr, hexpr, hfilter⟩ := bind_eq_ok hfilter
    cases hfilter
    obtain ⟨below, hbelow, hinit⟩ := bind_eq_ok hinit
    cases hinit
    cases h
    refine ⟨below, expr, ?_, hexpr, rfl⟩
    rw [startPlan, hbuilt₀]
    simp only [bind, Except.bind, hbelow]
    rfl
  · rintro ⟨below, expr, hstart, hexpr, rfl⟩
    obtain ⟨built, hbuilt, hstart⟩ := bind_eq_ok hstart
    obtain ⟨op', hinit, hstart⟩ := bind_eq_ok hstart
    cases hstart
    simp only [startPlan, buildNode, hbuilt, bind, Except.bind, buildFilter, hexpr, pure, Except.pure,
      Operator.init, hinit]

theorem startPlan_project_iff {outputs : List NamedPlanExpr} :
    startPlan ctx (.project outputs child) = .ok (schema, op) ↔
      ∃ inner below exprs, startPlan ctx child = .ok (inner, below) ∧
        (outputs.mapM fun output => compileExecExpr inner output.expr) = .ok exprs ∧
        schema = outputs.map projectSlot ∧ op = .projection below exprs := by
  constructor
  · intro h
    obtain ⟨built, hbuilt, h⟩ := bind_eq_ok h
    obtain ⟨op', hinit, h⟩ := bind_eq_ok h
    obtain ⟨built₀, hbuilt₀, hproject⟩ := bind_eq_ok hbuilt
    obtain ⟨exprs, hexprs, hproject⟩ := bind_eq_ok hproject
    cases hproject
    obtain ⟨below, hbelow, hinit⟩ := bind_eq_ok hinit
    cases hinit
    cases h
    refine ⟨built₀.outputSchema, below, exprs, ?_, hexprs, rfl, rfl⟩
    rw [startPlan, hbuilt₀]
    simp only [bind, Except.bind, hbelow]
    rfl
  · rintro ⟨inner, below, exprs, hstart, hexprs, rfl, rfl⟩
    obtain ⟨built, hbuilt, hstart⟩ := bind_eq_ok hstart
    obtain ⟨op', hinit, hstart⟩ := bind_eq_ok hstart
    cases hstart
    simp only [startPlan, buildNode, hbuilt, bind, Except.bind, buildProject, hexprs, pure, Except.pure,
      Operator.init, hinit]

theorem startPlan_hashAggregate_iff {groupBy : List PlanExpr} {outputs : List NamedPlanExpr} :
    startPlan ctx (.hashAggregate groupBy outputs child) = .ok (schema, op) ↔
      ∃ inner below spec, startPlan ctx child = .ok (inner, below) ∧
        buildAggregateSpec groupBy outputs inner = .ok spec ∧
        schema = outputs.map aggregateSlot ∧ op = .hashAggregate below spec spec.initial none := by
  constructor
  · intro h
    obtain ⟨built, hbuilt, h⟩ := bind_eq_ok h
    obtain ⟨op', hinit, h⟩ := bind_eq_ok h
    obtain ⟨built₀, hbuilt₀, haggregate⟩ := bind_eq_ok hbuilt
    obtain ⟨spec, hspec, haggregate⟩ := bind_eq_ok haggregate
    cases haggregate
    obtain ⟨below, hbelow, hinit⟩ := bind_eq_ok hinit
    cases hinit
    cases h
    refine ⟨built₀.outputSchema, below, spec, ?_, hspec, rfl, rfl⟩
    rw [startPlan, hbuilt₀]
    simp only [bind, Except.bind, hbelow]
    rfl
  · rintro ⟨inner, below, spec, hstart, hspec, rfl, rfl⟩
    obtain ⟨built, hbuilt, hstart⟩ := bind_eq_ok hstart
    obtain ⟨op', hinit, hstart⟩ := bind_eq_ok hstart
    cases hstart
    simp only [startPlan, buildNode, hbuilt, bind, Except.bind, buildHashAggregate, hspec, pure, Except.pure,
      Operator.init, hinit]

end Start

/-! ## Plans that serve rows -/

section Serve

variable {ctx : ExecutionContext} {t : TableContent} {child : PhysicalPlan} {plan : LogicalPlan}

/-- A way to get batches out of operators that finds the same ones each time, and goes through filters and
projections. -/
structure Pulling (ctx : ExecutionContext) (pulls : RunningOperator → List VectorBatch → Prop) : Prop where
  unique : ∀ {op : RunningOperator} {bs bs' : List VectorBatch}, pulls op bs → pulls op bs' → bs = bs'
  filter_iff : ∀ {child : RunningOperator} {predicate : VectorPredicate} {bs : List VectorBatch},
    pulls (.filter child predicate) bs ↔ ∃ inputs outs, pulls child inputs ∧
      inputs.mapM (filterNext predicate) = .ok outs ∧ bs = outs.reduceOption
  projection_iff : ∀ {child : RunningOperator} {expressions : List ExecExpression} {bs : List VectorBatch},
    pulls (.projection child expressions) bs ↔ ∃ inputs outs, pulls child inputs ∧
      inputs.mapM (projectNext ctx.backend expressions) = .ok outs ∧ bs = outs.reduceOption

/-- Operators are called until their end. -/
theorem pulling_runs (ctx : ExecutionContext) : Pulling ctx (RunningOperator.Runs ctx) :=
  ⟨fun h h' => h.unique steady_next h', runs_filter_iff, runs_projection_iff⟩

/-- Operators are given the batches of their scan. -/
theorem pulling_makes (ctx : ExecutionContext) (inputs : List VectorBatch) : Pulling ctx (Makes ctx inputs) :=
  ⟨Makes.unique, makes_filter_iff, makes_projection_iff⟩

variable {pulls : RunningOperator → List VectorBatch → Prop}

/-- What the operators of a plan hand out is what the nodes of the logical plan give: where these give rows, the
operators can be started and list the rows; and the operators come to their end only there. -/
structure ServesBy (pulls : RunningOperator → List VectorBatch → Prop) (ctx : ExecutionContext) (t : TableContent)
    (physical : PhysicalPlan) (plan : LogicalPlan) : Prop where
  rows : ∀ schema rows, sourceRows t [] plan = .ok (schema, rows) →
    ∃ op bs, startPlan ctx physical = .ok (schema, op) ∧ pulls op bs ∧ Streamed t schema bs rows
  ends : ∀ schema op bs, startPlan ctx physical = .ok (schema, op) → pulls op bs →
    ∃ rows, sourceRows t [] plan = .ok (schema, rows)

/-- So it is when the operators are called until their end. -/
abbrev Serves (ctx : ExecutionContext) : TableContent → PhysicalPlan → LogicalPlan → Prop :=
  ServesBy (RunningOperator.Runs ctx) ctx

/-- The operators of a plan that serves, at their end. -/
theorem ServesBy.streamed (h : ServesBy pulls ctx t child plan) (hpulls : Pulling ctx pulls) {schema : ExecSchema}
    {op : RunningOperator} {bs : List VectorBatch} (hstart : startPlan ctx child = .ok (schema, op))
    (hruns : pulls op bs) : ∃ rows, sourceRows t [] plan = .ok (schema, rows) ∧ Streamed t schema bs rows := by
  obtain ⟨rows, hrows⟩ := h.ends schema op bs hstart hruns
  obtain ⟨op', bs', hstart', hruns', hstream⟩ := h.rows schema rows hrows
  cases hstart.symm.trans hstart'
  exact ⟨rows, hrows, hpulls.unique hruns hruns' ▸ hstream⟩

/-- **A filter serves the rows that pass.** -/
theorem ServesBy.filter (h : ServesBy pulls ctx t child plan) (hpulls : Pulling ctx pulls)
    (hids : t.schema.IdsArePositions) (hnoNan : t.NoNan) {predicate : PlanExpr}
    (hof : predicate.OfTable t.boundTable) (hno : predicate.NoNan) :
    ServesBy pulls ctx t (.filter predicate child) (.filter predicate plan) := by
  have hpass : ∀ {schema : ExecSchema} {rows : List Row} {bs : List VectorBatch} {expr : ExecExpression},
      sourceRows t [] plan = .ok (schema, rows) → Streamed t schema bs rows →
      compileExecExpr schema predicate = .ok expr →
      Alike (fun outs kept => Streamed t schema outs.reduceOption kept)
        (bs.mapM (filterNext (compileVectorPredicate expr)))
        (keepM (fun row => expr.rowHolds (t.rowBatch schema row) 0) rows) := fun hrows hstream hexpr =>
    hstream.filter fun b hb => fits_of_compileExecExpr (shows_sourceRows hrows) hids hnoNan hof hno hexpr hb
  constructor
  · intro schema kept hsource
    obtain ⟨⟨schema', rows⟩, hrows, hsource⟩ := bind_eq_ok hsource
    obtain ⟨expr, hexpr, hsource⟩ := bind_eq_ok hsource
    obtain ⟨kept', hkept, hsource⟩ := bind_eq_ok hsource
    cases hsource
    obtain ⟨op, bs, hstart, hruns, hstream⟩ := h.rows schema rows hrows
    have halike := hpass hrows hstream hexpr
    rw [hkept] at halike
    rcases houts : bs.mapM (filterNext (compileVectorPredicate expr)) with e | outs
    · rw [houts] at halike
      exact halike.elim
    · rw [houts] at halike
      exact ⟨_, outs.reduceOption, startPlan_filter_iff.mpr ⟨op, expr, hstart, hexpr, rfl⟩,
        hpulls.filter_iff.mpr ⟨bs, outs, hruns, houts, rfl⟩, halike⟩
  · intro schema op bs hstart hruns
    obtain ⟨below, expr, hchild, hexpr, rfl⟩ := startPlan_filter_iff.mp hstart
    obtain ⟨inputs, outs, hbelow, houts, rfl⟩ := hpulls.filter_iff.mp hruns
    obtain ⟨rows, hrows, hstream⟩ := h.streamed hpulls hchild hbelow
    have halike := hpass hrows hstream hexpr
    rw [houts] at halike
    rcases hkept : keepM (fun row => expr.rowHolds (t.rowBatch schema row) 0) rows with e | kept
    · rw [hkept] at halike
      exact halike.elim
    · refine ⟨kept, ?_⟩
      rw [sourceRows, hrows]
      simp only [bind, Except.bind, hexpr, hkept]
      rfl

/-- The sums and differences that are computed on whole columns are integers of their types. -/
def LogicalPlan.SumsInRange (t : TableContent) : LogicalPlan → Prop
  | .project outputs child => ∀ schema rows, sourceRows t [] child = .ok (schema, rows) →
    ∀ output ∈ outputs, ∀ expr, compileExecExpr schema output.expr = .ok expr → expr.InRangeOn t schema rows
  | _ => True

/-- **A projection returns the values of its outputs**, row by row. -/
theorem ServesBy.returns_project_iff (h : ServesBy pulls ctx t child plan) (hpulls : Pulling ctx pulls)
    (hids : t.schema.IdsArePositions) {outputs : List NamedPlanExpr}
    (hof : ∀ output ∈ outputs, output.expr.OfTable t.boundTable)
    (hrange : (LogicalPlan.project outputs plan).SumsInRange t) {order : GroupTable → GroupTable}
    {out : List (List ExecValue)} : ReturnsBy pulls ctx (.project outputs child) out ↔
      runPlan t order [] (.project outputs plan) = .ok out := by
  have hpass : ∀ {schema : ExecSchema} {rows : List Row} {bs : List VectorBatch} {exprs : List ExecExpression},
      sourceRows t [] plan = .ok (schema, rows) → Streamed t schema bs rows →
      (outputs.mapM fun output => compileExecExpr schema output.expr) = .ok exprs →
      Alike Eq (bs.mapM (projectNext ctx.backend exprs) >>= fun outs => readBatches outs.reduceOption)
        (rows.mapM fun row => exprs.mapM (projectValue (t.rowBatch schema row))) := by
    intro schema rows bs exprs hrows hstream hexprs
    refine hstream.project (fun expr hexpr => ?_) fun expr hexpr => ?_
    · obtain ⟨output, houtput, hcompile⟩ := mem_of_mapM_eq_ok hexprs hexpr
      exact typed_of_compileExecExpr (shows_sourceRows hrows) hids (hof output houtput) hcompile
    · obtain ⟨output, houtput, hcompile⟩ := mem_of_mapM_eq_ok hexprs hexpr
      exact hrange schema rows hrows output houtput expr hcompile
  constructor
  · rintro ⟨schema, op, bs, hstart, hruns, hread⟩
    obtain ⟨inner, below, exprs, hchild, hexprs, rfl, rfl⟩ := startPlan_project_iff.mp hstart
    obtain ⟨inputs, outs, hbelow, houts, rfl⟩ := hpulls.projection_iff.mp hruns
    obtain ⟨rows, hrows, hstream⟩ := h.streamed hpulls hchild hbelow
    have halike := hpass hrows hstream hexprs
    rw [houts] at halike
    change Alike Eq (readBatches outs.reduceOption) _ at halike
    rw [hread] at halike
    rcases hvalues : (rows.mapM fun row => exprs.mapM (projectValue (t.rowBatch inner row))) with e | values
    · rw [hvalues] at halike
      exact halike.elim
    · rw [hvalues] at halike
      obtain rfl : out = values := halike
      rw [runPlan, hrows]
      simp only [bind, Except.bind, hexprs, hvalues]
  · intro hrun
    obtain ⟨⟨schema, rows⟩, hrows, hrun⟩ := bind_eq_ok hrun
    obtain ⟨exprs, hexprs, hrun⟩ := bind_eq_ok hrun
    obtain ⟨op, bs, hstart, hruns, hstream⟩ := h.rows schema rows hrows
    have halike := hpass hrows hstream hexprs
    rw [hrun] at halike
    rcases houts : bs.mapM (projectNext ctx.backend exprs) with e | outs
    · rw [houts] at halike
      exact halike.elim
    · rw [houts] at halike
      change Alike Eq (readBatches outs.reduceOption) _ at halike
      rcases hread : readBatches outs.reduceOption with e | values
      · rw [hread] at halike
        exact halike.elim
      · rw [hread] at halike
        obtain rfl : values = out := halike
        exact ⟨_, _, outs.reduceOption, startPlan_project_iff.mpr ⟨schema, op, exprs, hstart, hexprs, rfl, rfl⟩,
          hpulls.projection_iff.mpr ⟨bs, outs, hruns, houts, rfl⟩, hread⟩

/-- The groups of an aggregate, with the one group of a global one. -/
theorem emitted_eq {order : GroupTable → GroupTable} (horder : ∀ groups, (order groups).Perm groups)
    (spec : AggregateSpec) (s : HashAggregateState) : s.emitted order spec = order (s.outputGroups spec) := by
  unfold HashAggregateState.emitted
  split_ifs with hglobal
  · have hsingle : s.outputGroups spec = [([], s.globalStates)] := if_pos hglobal
    have hperm := horder [([], s.globalStates)]
    rw [hsingle]
    exact (List.perm_singleton.mp hperm).symm
  · rfl

theorem length_globalStates_initial (spec : AggregateSpec) :
    spec.isGlobal = true → spec.initial.globalStates.length = spec.aggCalls.length := by
  intro hglobal
  rw [AggregateSpec.initial, hglobal]
  exact List.length_map _

/-- The states of an aggregate over a stream are those over its rows. -/
theorem Streamed.foldlM_consume {schema : ExecSchema} {bs : List VectorBatch} {rows : List Row}
    (h : Streamed t schema bs rows) (spec : AggregateSpec) :
    bs.foldlM (fun (s : HashAggregateState) b => s.consume spec b) spec.initial =
      rows.foldlM (fun (s : HashAggregateState) row => s.consume spec (t.rowBatch schema row)) spec.initial := by
  obtain ⟨parts, rfl, hall⟩ := h
  exact foldlM_consume_eq (hall.imp fun b part hb => ⟨hb.1.toStrong, hb.2⟩) (length_globalStates_initial spec)

/-- **An aggregate returns the rows of its groups.** -/
theorem ServesBy.returns_hashAggregate_iff (h : Serves ctx t child plan)
    (horder : ∀ groups, (ctx.order groups).Perm groups) {groupBy : List PlanExpr} {outputs : List NamedPlanExpr}
    {out : List (List ExecValue)} : Returns ctx (.hashAggregate groupBy outputs child) out ↔
      runPlan t ctx.order [] (.aggregate groupBy outputs plan) = .ok out := by
  constructor
  · rintro ⟨schema, op, bs, hstart, hruns, hread⟩
    obtain ⟨inner, below, spec, hchild, hspec, rfl, rfl⟩ := startPlan_hashAggregate_iff.mp hstart
    obtain ⟨inputs, state, hbelow, hfold, pages, hpages, rfl⟩ := runs_hashAggregate_iff.mp hruns
    obtain ⟨rows, hrows, hstream⟩ := h.streamed (pulling_runs ctx) hchild hbelow
    rw [hstream.foldlM_consume] at hfold
    obtain ⟨hmap, hread'⟩ := readBatches_drain hpages
    obtain rfl : out = pages.flatten := Except.ok.inj (hread.symm.trans hread')
    rw [emitted_eq horder] at hmap
    rw [runPlan, hrows]
    simp only [bind, Except.bind, hspec, hfold, hmap]
  · intro hrun
    obtain ⟨⟨schema, rows⟩, hrows, hrun⟩ := bind_eq_ok hrun
    obtain ⟨spec, hspec, hrun⟩ := bind_eq_ok hrun
    obtain ⟨state, hfold, hrun⟩ := bind_eq_ok hrun
    obtain ⟨op, bs, hstart, hruns, hstream⟩ := h.rows schema rows hrows
    rw [← hstream.foldlM_consume] at hfold
    rw [← emitted_eq horder] at hrun
    have hflat := spec.drain_flatten (state.emitted ctx.order spec)
    rcases hpages : spec.drain (state.emitted ctx.order spec) with e | pages
    · rw [hpages, hrun] at hflat
      cases hflat
    · obtain ⟨hmap, hread⟩ := readBatches_drain hpages
      obtain rfl : out = pages.flatten := Except.ok.inj (hrun.symm.trans hmap)
      exact ⟨_, _, _, startPlan_hashAggregate_iff.mpr ⟨schema, op, spec, hstart, hspec, rfl, rfl⟩,
        runs_hashAggregate_iff.mpr ⟨bs, state, hruns, hfold, pages, hpages, rfl⟩, hread⟩

end Serve

/-! ## Scans -/

/-- One thread queries a stored table. -/
structure ExecutionContext.RunsOn (ctx : ExecutionContext) (table : OpenTable) (t : TableContent) : Prop where
  catalog : ctx.catalog t.tableOid = some t.schema
  table : ctx.tables t.tableOid = some table
  shared : ctx.shared = none
  order : ∀ groups, (ctx.order groups).Perm groups

section Scan

variable {ctx : ExecutionContext} {table : OpenTable} {t : TableContent} {builders : SegmentId → SegmentBuilder}
  {required : List ℕ} {pushed : List SimplePredicate} {schema : ExecSchema} {op : RunningOperator}

/-- The rows of a scan whose required columns are computed. -/
theorem sourceRows_scan_iff {rows : List Row} :
    sourceRows t [] (.scan t.tableOid required pushed) = .ok (schema, rows) ↔
      ∃ scanned, driverColumns t.schema required = .ok scanned ∧
        scanned.mapM (scanSlot t.tableOid t.schema) = .ok schema ∧
        rows = t.rows.filter fun row => (pushed.map SimplePredicate.toCondition).all (t.holdsExactly row) := by
  have hentry : t.entry t.tableOid = some t.schema := if_pos rfl
  have hcolumns : (if required = [] then ([] : List ℕ) else required) = required := by
    split_ifs with hnil
    · exact hnil.symm
    · rfl
  rw [sourceRows]
  simp only [hcolumns, hentry, buildScanSpec]
  constructor
  · intro h
    obtain ⟨spec, hspec, h⟩ := bind_eq_ok h
    obtain ⟨scanned, hscanned, hspec⟩ := bind_eq_ok hspec
    obtain ⟨slots, hslots, hspec⟩ := bind_eq_ok hspec
    cases hspec
    cases h
    exact ⟨scanned, hscanned, hslots, rfl⟩
  · rintro ⟨scanned, hscanned, hslots, rfl⟩
    simp only [hscanned, hslots, bind, Except.bind, pure, Except.pure]

/-- A scan that is started, whatever scan the context starts. -/
theorem startPlan_seqScan_iff_of_init (scan : ScanOptions → RunningOperator)
    (hcatalog : ctx.catalog t.tableOid = some t.schema)
    (hinit : ∀ options, initSeqScan ctx t.tableOid options = .ok (scan options)) :
    startPlan ctx (.seqScan t.tableOid required pushed) = .ok (schema, op) ↔
      ∃ scanned, driverColumns t.schema required = .ok scanned ∧
        scanned.mapM (scanSlot t.tableOid t.schema) = .ok schema ∧
        op = scan ⟨scanned, pushed.map SimplePredicate.toCondition⟩ := by
  constructor
  · intro h
    obtain ⟨built, hbuilt, h⟩ := bind_eq_ok h
    rw [buildNode, buildSeqScan, hcatalog] at hbuilt
    obtain ⟨spec, hspec, hbuilt⟩ := bind_eq_ok hbuilt
    obtain ⟨scanned, hscanned, hspec⟩ := bind_eq_ok hspec
    obtain ⟨slots, hslots, hspec⟩ := bind_eq_ok hspec
    cases hspec
    cases hbuilt
    obtain ⟨op', hop, h⟩ := bind_eq_ok h
    cases h
    exact ⟨scanned, hscanned, hslots, Except.ok.inj (hop.symm.trans (hinit _))⟩
  · rintro ⟨scanned, hscanned, hslots, rfl⟩
    simp only [startPlan, buildNode, buildSeqScan, buildScanSpec, hcatalog, hscanned, hslots, bind, Except.bind,
      pure, Except.pure, Operator.init, hinit]

theorem startPlan_seqScan_iff (hctx : ctx.RunsOn table t) :
    startPlan ctx (.seqScan t.tableOid required pushed) = .ok (schema, op) ↔
      ∃ scanned, driverColumns t.schema required = .ok scanned ∧
        scanned.mapM (scanSlot t.tableOid t.schema) = .ok schema ∧
        op = .seqScan table ⟨scanned, pushed.map SimplePredicate.toCondition⟩ .fresh :=
  startPlan_seqScan_iff_of_init (fun options => .seqScan table options .fresh) hctx.catalog fun options => by
    simp only [initSeqScan, ExecutionContext.openTable, hctx.catalog, hctx.table, hctx.shared, bind, Except.bind,
      pure, Except.pure]

theorem scanned_of_driverColumns {scanned : List ColumnId} (h : driverColumns t.schema required = .ok scanned) :
    scanned ≠ [] ∧ ∀ c ∈ required, c ∈ scanned := by
  unfold driverColumns at h
  split at h
  · split at h
    · cases h
    · cases h
      exact ⟨List.cons_ne_nil _ _, fun c hc => absurd hc List.not_mem_nil⟩
  · rename_i hne
    cases h
    exact ⟨hne, fun c hc => hc⟩

/-- **A scan through all rows serves the rows that satisfy its predicates.** -/
theorem serves_seqScan (hctx : ctx.RunsOn table t) (hstores : table.Stores t builders) (hnoNan : t.NoNan)
    (hnumeric : ∀ p ∈ pushed, p.Numeric t) (hcolumns : ∀ p ∈ pushed, p.columnIndex ∈ required)
    (hsharp : t.Sharp pushed) :
    Serves ctx t (.seqScan t.tableOid required pushed) (.scan t.tableOid required pushed) := by
  constructor
  · intro schema rows hrows
    obtain ⟨scanned, hscanned, hslots, rfl⟩ := sourceRows_scan_iff.mp hrows
    obtain ⟨hne, hsub⟩ := scanned_of_driverColumns hscanned
    obtain ⟨bs, hcalls, hstream⟩ := hstores.exists_streamed_scan hnoNan hslots hne hnumeric
      (fun p hp => hsub _ (hcolumns p hp)) hsharp
    exact ⟨_, bs, (startPlan_seqScan_iff hctx).mpr ⟨scanned, hscanned, hslots, rfl⟩,
      runs_seqScan_iff.mpr hcalls, hstream⟩
  · intro schema op bs hstart _
    obtain ⟨scanned, hscanned, hslots, -⟩ := (startPlan_seqScan_iff hctx).mp hstart
    exact ⟨_, sourceRows_scan_iff.mpr ⟨scanned, hscanned, hslots, rfl⟩⟩

end Scan

/-! ## Plans of statements -/

section Select

variable {ctx : ExecutionContext} {table : OpenTable} {t : TableContent} {builders : SegmentId → SegmentBuilder}
  {plan : LogicalPlan}

/-- The physical plan of the scan serves the scan of the logical plan. -/
def LogicalPlan.ScanServesBy (pulls : RunningOperator → List VectorBatch → Prop) (ctx : ExecutionContext)
    (t : TableContent) (plan : LogicalPlan) : Prop :=
  ∀ required, plan.requiredColumns = some required →
    ServesBy pulls ctx t (planScan (ctx.catalog t.tableOid) t.tableOid required plan.pushed)
      (.scan t.tableOid required plan.pushed)

/-- So it is when the operators are called until their end. -/
abbrev LogicalPlan.ScanServes (ctx : ExecutionContext) (t : TableContent) (plan : LogicalPlan) : Prop :=
  plan.ScanServesBy (RunningOperator.Runs ctx) ctx t

/-- **A scan under filters serves its rows**, if the scan does. -/
theorem servesBy_source {pulls : RunningOperator → List VectorBatch → Prop} (hpulls : Pulling ctx pulls)
    (hids : t.schema.IdsArePositions) (hnoNan : t.NoNan) (hsource : plan.IsSource t)
    (hscan : plan.ScanServesBy pulls ctx t) : ServesBy pulls ctx t (createPhysicalPlan ctx.catalog plan) plan := by
  induction plan with
  | scan tableOid required pushed =>
    obtain ⟨rfl, -⟩ := hsource
    exact hscan required rfl
  | filter predicate child ih =>
    exact (ih hsource.2 hscan).filter hpulls hids hnoNan hsource.1.1 hsource.1.2
  | project outputs child ih => exact hsource.elim
  | aggregate groupBy outputs child ih => exact hsource.elim
  | insert tableOid targetColumns rows => exact hsource.elim
  | createTable tableName schema => exact hsource.elim

/-- **A plan returns its rows**, if its scan serves. -/
theorem returns_iff (hids : t.schema.IdsArePositions) (hnoNan : t.NoNan)
    (horder : ∀ groups, (ctx.order groups).Perm groups) (hselect : plan.IsSelectOf t) (hscan : plan.ScanServes ctx t)
    (hrange : plan.SumsInRange t) {out : List (List ExecValue)} :
    Returns ctx (createPhysicalPlan ctx.catalog plan) out ↔ runPlan t ctx.order [] plan = .ok out := by
  cases plan with
  | project outputs child =>
    exact (servesBy_source (pulling_runs ctx) hids hnoNan hselect.2 hscan).returns_project_iff (pulling_runs ctx) hids
      hselect.1 hrange
  | aggregate groupBy outputs child =>
    have hsource : child.IsSource t := hselect
    exact (servesBy_source (pulling_runs ctx) hids hnoNan hsource hscan).returns_hashAggregate_iff horder
  | _ => exact hselect.elim

end Select

end SimpleOlap
