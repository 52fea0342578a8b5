import SimpleOlap.Execution.Parallel.Dispatch
import SimpleOlap.Execution.Parallel.QueryEnds
import SimpleOlap.Execution.Select

/-!
# SELECTs that are executed by several threads

* `ExecutionContext.worker`: what the operators of a worker refer to; `exists_startPlan_worker`: the pipeline that every
  worker starts.
* `exists_reordered`: batches that have the rows of a scan list the rows of the table in some order.
* `scanServesBy_makes`, `returnsBy_makes_perm`: what a pipeline makes of such batches is what one thread returns, in
  another order; `not_fails_scanTask`: where one thread returns rows, it makes something of every batch.
* `parallel_select`: whatever the workers do when, a call that returns has delivered the rows that one thread returns;
  and where one thread returns rows, no worker throws.

Source: `parallel_executor.cpp` ExecuteQuery, `execution_engine.cpp` ExecuteQuery.
-/

namespace SimpleOlap

open Lib

/-! ## What a worker starts -/

/-- What the operators of a worker refer to. The shared state of the scan is passed to each of their rounds. -/
def ExecutionContext.worker (ctx : ExecutionContext) (looked : ℕ → ParallelScanGlobalState) : ExecutionContext :=
  { ctx with shared := some looked }

section Start

variable {ctx : ExecutionContext} {table : OpenTable} {t : TableContent} {looked : ℕ → ParallelScanGlobalState}
  {required : List ℕ} {pushed : List SimplePredicate} {schema : ExecSchema} {op : RunningOperator}
  {plan : LogicalPlan} {built : BuiltExecutor}

theorem startPlan_worker_seqScan_iff (hctx : ctx.RunsOn table t) :
    startPlan (ctx.worker looked) (.seqScan t.tableOid required pushed) = .ok (schema, op) ↔
      ∃ scanned, driverColumns t.schema required = .ok scanned ∧
        scanned.mapM (scanSlot t.tableOid t.schema) = .ok schema ∧
        op = .parallelScan table ⟨scanned, pushed.map SimplePredicate.toCondition⟩ looked 0 .reset := by
  have hcatalog : (ctx.worker looked).catalog t.tableOid = some t.schema := hctx.catalog
  refine startPlan_seqScan_iff_of_init (fun options => .parallelScan table options looked 0 .reset) hcatalog
    fun options => ?_
  simp only [initSeqScan, ExecutionContext.openTable, ExecutionContext.worker, hctx.catalog, hctx.table, bind,
    Except.bind, pure, Except.pure]

/-- A plan that is a chain goes through all rows. -/
theorem planScan_of_isScanChain {entry : Option TableSchema} {tableOid : ℕ}
    (h : isScanChain (planScan entry tableOid required pushed) = true) :
    planScan entry tableOid required pushed = .seqScan tableOid required pushed := by
  rcases planScan_cases entry tableOid required pushed with hplan | ⟨_, _, _, -, -, -, hplan⟩
  · exact hplan
  · rw [hplan] at h
    cases h

/-- The scan of a plan that workers execute: it goes through all rows, with these columns and slots. -/
structure WorkerScan (ctx : ExecutionContext) (t : TableContent) (plan : LogicalPlan) (required : List ℕ)
    (scanned : List ColumnId) (slots : ExecSchema) : Prop where
  requires : plan.requiredColumns = some required
  finds : findSeqScanPlan (createPhysicalPlan ctx.catalog plan) = some (t.tableOid, required, plan.pushed)
  plans : planScan (ctx.catalog t.tableOid) t.tableOid required plan.pushed =
    .seqScan t.tableOid required plan.pushed
  scans : driverColumns t.schema required = .ok scanned
  slotted : scanned.mapM (scanSlot t.tableOid t.schema) = .ok slots

/-- The pipeline that every worker starts: the operators of the plan, over a parallel scan. -/
structure WorkerPipeline (ctx : ExecutionContext) (table : OpenTable) (t : TableContent)
    (looked : ℕ → ParallelScanGlobalState) (plan : LogicalPlan) (scanned : List ColumnId) (schema : ExecSchema)
    (op : RunningOperator) : Prop where
  starts : startPlan (ctx.worker looked) (createPhysicalPlan ctx.catalog plan) = .ok (schema, op)
  onScan : op.onScan
    (.parallelScan table ⟨scanned, plan.pushed.map SimplePredicate.toCondition⟩ looked 0 .reset) = op

/-- **What a worker builds can be started**, below a projection. -/
theorem exists_startPlan_worker (looked : ℕ → ParallelScanGlobalState) (hctx : ctx.RunsOn table t)
    (hsource : plan.IsSource t)
    (hchain : isScanChain (createPhysicalPlan ctx.catalog plan) = true)
    (hbuilt : buildNode ctx.catalog (createPhysicalPlan ctx.catalog plan) = .ok built) :
    ∃ required scanned slots op, WorkerScan ctx t plan required scanned slots ∧
      WorkerPipeline ctx table t looked plan scanned built.outputSchema op := by
  induction plan generalizing built with
  | scan tableOid required pushed =>
    obtain ⟨rfl, -⟩ := hsource
    have hplan := planScan_of_isScanChain hchain
    rw [createPhysicalPlan, hplan, buildNode, buildSeqScan, hctx.catalog] at hbuilt
    obtain ⟨spec, hspec, hbuilt⟩ := bind_eq_ok hbuilt
    obtain ⟨scanned, hscanned, hspec⟩ := bind_eq_ok hspec
    obtain ⟨slots, hslots, hspec⟩ := bind_eq_ok hspec
    cases hspec
    cases hbuilt
    refine ⟨required, scanned, slots,
      .parallelScan table ⟨scanned, pushed.map SimplePredicate.toCondition⟩ looked 0 .reset,
      ⟨rfl, ?_, hplan, hscanned, hslots⟩, ?_, rfl⟩
    · rw [createPhysicalPlan, hplan]
      rfl
    · rw [createPhysicalPlan, hplan]
      exact (startPlan_worker_seqScan_iff hctx).mpr ⟨scanned, hscanned, hslots, rfl⟩
  | filter predicate child ih =>
    obtain ⟨below, hbelow, hbuilt⟩ := bind_eq_ok hbuilt
    obtain ⟨expr, hexpr, hbuilt⟩ := bind_eq_ok hbuilt
    cases hbuilt
    obtain ⟨required, scanned, slots, op, hscan, hpipeline⟩ := ih hsource.2 hchain hbelow
    refine ⟨required, scanned, slots, _, ⟨hscan.requires, hscan.finds, hscan.plans, hscan.scans, hscan.slotted⟩,
      startPlan_filter_iff.mpr ⟨op, expr, hpipeline.starts, hexpr, rfl⟩, ?_⟩
    rw [RunningOperator.onScan]
    exact congrArg (RunningOperator.filter · _) hpipeline.onScan
  | project outputs child ih => exact hsource.elim
  | aggregate groupBy outputs child ih => exact hsource.elim
  | insert tableOid targetColumns rows => exact hsource.elim
  | createTable tableName schema => exact hsource.elim

end Start

/-! ## Batches that have the rows of a scan -/

section Batches

variable {table : OpenTable} {t : TableContent} {builders : SegmentId → SegmentBuilder} {scanned : List ColumnId}
  {schema : ExecSchema} {inputs : List VectorBatch}

theorem strong_rowBatch (t : TableContent) (schema : ExecSchema) (row : Row) : (t.rowBatch schema row).Strong where
  selection := SelectionMask.WF.setAll 1
  counts _ hcol := t.count_rowBatch schema hcol
  size := (by decide : 1 = (SelectionMask.setAll 1).count)

/-- A row of a stored table, as a batch of the scan. -/
theorem OpenTable.Stores.content_rowBatch (h : table.Stores t builders)
    (hslots : scanned.mapM (scanSlot t.tableOid t.schema) = .ok schema) {row : Row} (hrow : row ∈ t.rows) :
    (t.rowBatch schema row).Content (slotTypes schema) (t.Shown schema) := by
  refine ⟨(strong_rowBatch t schema row).deliverable Nat.one_pos, t.types_rowBatch schema row, fun col hcol => ?_,
    fun r hr => ?_⟩
  · obtain ⟨slot, hslot, rfl⟩ := List.mem_map.mp hcol
    obtain ⟨c, hc, hok⟩ := mem_of_mapM_eq_ok hslots hslot
    rw [scanSlot_eq_ok hok]
    show (1 : ℕ) * typeElemSize (t.schema.typeOf c) ≤ (rowCell t.schema row c).length
    rw [h.length_rowCell_eq hrow (hasColumn_mapM_scanSlot hslots c hc), Nat.one_mul]
  · have hone : r < 1 := hr
    obtain rfl : r = 0 := by omega
    exact ⟨row, hrow, rfl⟩

theorem activeRows_rowBatch (row : Row) : (t.rowBatch schema row).activeRows = [t.slotRow schema row] := by
  rw [VectorBatch.activeRows_eq_map (strong_rowBatch t schema row), activeIndices_rowBatch]
  rfl

/-- **Batches that have the rows of a scan list the rows of the table in some order.** -/
theorem exists_reordered (keep : Row → Bool)
    (hperm : ((t.rows.filter keep).map (t.slotRow schema)).Perm (inputs.flatMap VectorBatch.activeRows)) :
    ∃ rows : List Row, t.rows.Perm rows ∧
      inputs.flatMap VectorBatch.activeRows = (rows.filter keep).map (t.slotRow schema) := by
  obtain ⟨kept, hkept, hmap⟩ := exists_perm_of_perm_map hperm
  refine ⟨kept ++ t.rows.filter (!keep ·), ?_, ?_⟩
  · exact (List.filter_append_perm keep t.rows).symm.trans (hkept.append_right _)
  · have hall : kept.filter keep = kept := List.filter_eq_self.mpr fun row hrow =>
      (List.mem_filter.mp (hkept.mem_iff.mpr hrow)).2
    have hnone : (t.rows.filter (!keep ·)).filter keep = [] := List.filter_eq_nil_iff.mpr fun row hrow => by
      simpa using (List.mem_filter.mp hrow).2
    rw [List.filter_append, hall, hnone, List.append_nil, hmap]

/-- A batch whose rows are some of the rows of a scan, and a batch for each of the others. -/
theorem OpenTable.Stores.exists_completed (h : table.Stores t builders)
    (hslots : scanned.mapM (scanSlot t.tableOid t.schema) = .ok schema) (keep : Row → Bool) {b : VectorBatch}
    (hb : b.Content (slotTypes schema) (t.Shown schema))
    (hle : (b.activeRows : Multiset Row) ≤ ((t.rows.filter keep).map (t.slotRow schema) : List Row)) :
    ∃ rest : List VectorBatch, (∀ b' ∈ b :: rest, b'.Content (slotTypes schema) (t.Shown schema)) ∧
      ((t.rows.filter keep).map (t.slotRow schema)).Perm ((b :: rest).flatMap VectorBatch.activeRows) := by
  obtain ⟨others, hothers⟩ := Multiset.le_iff_exists_add.mp hle
  obtain ⟨others, rfl⟩ := Quot.exists_rep others
  have hperm : ((t.rows.filter keep).map (t.slotRow schema)).Perm (b.activeRows ++ others) :=
    Multiset.coe_eq_coe.mp hothers
  obtain ⟨kept, hkept, hmap⟩ := exists_perm_of_perm_map hperm
  have hdrop : (kept.drop b.activeRows.length).map (t.slotRow schema) = others := by
    rw [List.map_drop, hmap, List.drop_left]
  refine ⟨(kept.drop b.activeRows.length).map (t.rowBatch schema), List.forall_mem_cons.mpr ⟨hb, ?_⟩, ?_⟩
  · intro b' hb'
    obtain ⟨row, hrow, rfl⟩ := List.mem_map.mp hb'
    have hmem := hkept.mem_iff.mpr (List.mem_of_mem_drop hrow)
    exact h.content_rowBatch hslots (List.mem_filter.mp hmem).1
  · have hrest : ((kept.drop b.activeRows.length).map (t.rowBatch schema)).flatMap VectorBatch.activeRows = others := by
      simp only [List.flatMap_map, activeRows_rowBatch, ← List.map_eq_flatMap, hdrop]
    rw [List.flatMap_cons, hrest]
    exact hperm

end Batches

/-! ## What is made of the batches -/

/-- The row passes the predicates of the scan of a plan. -/
def LogicalPlan.passes (t : TableContent) (plan : LogicalPlan) (row : Row) : Bool :=
  (plan.pushed.map SimplePredicate.toCondition).all (t.holdsExactly row)

section Made

variable {ctx : ExecutionContext} {table : OpenTable} {t : TableContent} {builders : SegmentId → SegmentBuilder}
  {looked : ℕ → ParallelScanGlobalState} {required : List ℕ} {scanned : List ColumnId} {slots : ExecSchema}
  {plan : LogicalPlan} {inputs : List VectorBatch} {rows' : List Row}

/-- **Batches of the scan of a plan serve it**, on the table with its rows in the order of the batches. -/
theorem scanServesBy_makes (hctx : ctx.RunsOn table t) (hscan : WorkerScan ctx t plan required scanned slots)
    (hinputs : ∀ b ∈ inputs, b.Content (slotTypes slots) (t.Shown slots)) (hperm : t.rows.Perm rows')
    (hrows : inputs.flatMap VectorBatch.activeRows = (rows'.filter (plan.passes t)).map (t.slotRow slots)) :
    plan.ScanServesBy (Makes (ctx.worker looked) inputs) (ctx.worker looked) { t with rows := rows' } := by
  intro required' hrequired'
  obtain rfl := Option.some.inj (hscan.requires.symm.trans hrequired')
  show ServesBy _ _ _ (planScan (ctx.catalog t.tableOid) t.tableOid required plan.pushed) _
  rw [hscan.plans]
  have hstream : Streamed { t with rows := rows' } slots inputs (rows'.filter (plan.passes t)) := by
    refine streamed_of_activeRows (fun b hb => ?_) hrows
    have hcontent := hinputs b hb
    exact { hcontent with
      rows := fun r hr => by
        obtain ⟨row, hrow, heq⟩ := hcontent.rows r hr
        exact ⟨row, hperm.mem_iff.mp hrow, heq⟩ }
  constructor
  · intro schema rows hsource
    obtain ⟨scanned', hscanned, hslots, rfl⟩ := (sourceRows_scan_iff (t := { t with rows := rows' })).mp hsource
    cases hscan.scans.symm.trans hscanned
    cases hscan.slotted.symm.trans hslots
    exact ⟨_, inputs, (startPlan_worker_seqScan_iff hctx).mpr ⟨scanned, hscanned, hslots, rfl⟩,
      makes_parallelScan inputs, hstream⟩
  · intro schema op bs hstart _
    obtain ⟨scanned', hscanned, hslots, -⟩ := (startPlan_worker_seqScan_iff hctx).mp hstart
    exact ⟨_, (sourceRows_scan_iff (t := { t with rows := rows' })).mpr ⟨scanned', hscanned, hslots, rfl⟩⟩

variable {outputs : List NamedPlanExpr} {child : LogicalPlan} {got : List (List ExecValue)}

end Made

/-! ## What the workers do -/

/-- What the workers of a plan do over its scan. -/
def LogicalPlan.scanTask (plan : LogicalPlan) (ctx : ExecutionContext) (table : OpenTable)
    (builders : SegmentId → SegmentBuilder) (looked : ℕ → ParallelScanGlobalState) (scanned : List ColumnId)
    (prepared : List PreparedStoragePredicate) (op : RunningOperator) : ScanTask where
  ctx := ctx.worker looked
  table
  builders
  options := ⟨scanned, plan.pushed.map SimplePredicate.toCondition⟩
  prepared
  shared := looked
  op

section Task

variable {ctx : ExecutionContext} {table : OpenTable} {t : TableContent} {builders : SegmentId → SegmentBuilder}
  {looked : ℕ → ParallelScanGlobalState} {required : List ℕ} {scanned : List ColumnId} {slots schema : ExecSchema}
  {plan : LogicalPlan} {prepared : List PreparedStoragePredicate} {op : RunningOperator} {b : VectorBatch}

/-- What the calling thread prepares for the scan of a plan. -/
theorem createParallelScanState_of_prepareScan (hctx : ctx.RunsOn table t)
    (hscan : WorkerScan ctx t plan required scanned slots) {physical : PhysicalPlan} {missing : String}
    {g : ParallelScanGlobalState}
    (hfind : findSeqScanPlan physical = findSeqScanPlan (createPhysicalPlan ctx.catalog plan))
    (h : prepareScan ctx missing physical = .ok g) :
    table.storage.createParallelScanState ⟨scanned, plan.pushed.map SimplePredicate.toCondition⟩ = .ok g := by
  unfold prepareScan at h
  rw [hfind, hscan.finds] at h
  simpa only [buildScanSpec, ExecutionContext.openTable, hctx.catalog, hctx.table, hscan.scans, hscan.slotted, bind,
    Except.bind, pure, Except.pure] using h

/-- The table can be scanned by the workers. -/
theorem readable_scanTask (hstores : table.Stores t builders) (hscan : WorkerScan ctx t plan required scanned slots)
    (hcolumns : ∀ p ∈ plan.pushed, p.columnIndex ∈ required)
    (hbuild : PreparedScanPredicates.build ⟨scanned, plan.pushed.map SimplePredicate.toCondition⟩ t.schema =
      .ok prepared) : (plan.scanTask ctx table builders looked scanned prepared op).Readable := by
  obtain ⟨hne, hsub⟩ := scanned_of_driverColumns hscan.scans
  have hcols : ∀ c ∈ scanned, table.storage.schema.HasColumn c :=
    hstores.schema ▸ hasColumn_mapM_scanSlot hscan.slotted
  exact ⟨hstores.holds, hstores.scannable hscan.slotted (fun p hp => hsub _ (hcolumns p hp)) hbuild, hcols, hne⟩

/-- Their batches have the slots of the scan. -/
theorem content_scanTask (hstores : table.Stores t builders) (hscan : WorkerScan ctx t plan required scanned slots)
    (hb : (plan.scanTask ctx table builders looked scanned prepared op).Scans b) :
    b.Content (slotTypes slots) (t.Shown slots) := by
  obtain ⟨id, hid, hpresents⟩ := hb.presents
  exact hstores.content hscan.slotted hid hb.deliverable hpresents

/-- What is known of the workers of a plan: their scan, the pipeline that each of them starts, the shared state of the
scan; and that one thread finds the same rows. -/
structure WorkerCall (ctx : ExecutionContext) (table : OpenTable) (t : TableContent)
    (builders : SegmentId → SegmentBuilder) (looked : ℕ → ParallelScanGlobalState) (plan : LogicalPlan)
    (g : ParallelScanGlobalState) (required : List ℕ) (scanned : List ColumnId) (slots : ExecSchema)
    (prepared : List PreparedStoragePredicate) (schema : ExecSchema) (op : RunningOperator) : Prop where
  scan : WorkerScan ctx t plan required scanned slots
  pipeline : WorkerPipeline ctx table t looked plan scanned schema op
  build : PreparedScanPredicates.build ⟨scanned, plan.pushed.map SimplePredicate.toCondition⟩ table.storage.schema =
    .ok prepared
  create : table.storage.createParallelScanState ⟨scanned, plan.pushed.map SimplePredicate.toCondition⟩ = .ok g
  readable : ∀ op, (plan.scanTask ctx table builders looked scanned prepared op).Readable
  scannedRows : table.storage.scannedRows SegmentReader.evaluatePredicates table.disk
    ⟨scanned, plan.pushed.map SimplePredicate.toCondition⟩ prepared =
      (t.rows.filter (plan.passes t)).map (t.slotRow slots)
  serves : plan.ScanServes ctx t

/-- **The workers of a plan that the engine gives to them.** -/
theorem exists_workerCall (looked : ℕ → ParallelScanGlobalState) (hctx : ctx.RunsOn table t)
    (hstores : table.Stores t builders) (hnoNan : t.NoNan) (hsource : plan.IsSource t)
    (hnumeric : ∀ p ∈ plan.pushed, p.Numeric t) (hsharp : t.Sharp plan.pushed)
    (hcovered : ∀ {required}, plan.requiredColumns = some required → ∀ p ∈ plan.pushed, p.columnIndex ∈ required)
    (hchain : isScanChain (createPhysicalPlan ctx.catalog plan) = true) {built : BuiltExecutor}
    (hbuilt : buildNode ctx.catalog (createPhysicalPlan ctx.catalog plan) = .ok built) {physical : PhysicalPlan}
    (hfind : findSeqScanPlan physical = findSeqScanPlan (createPhysicalPlan ctx.catalog plan)) {missing : String}
    {g : ParallelScanGlobalState} (hprepare : prepareScan ctx missing physical = .ok g) :
    ∃ required scanned slots prepared op,
      WorkerCall ctx table t builders looked plan g required scanned slots prepared built.outputSchema op := by
  obtain ⟨required, scanned, slots, op, hscan, hpipeline⟩ := exists_startPlan_worker looked hctx hsource hchain hbuilt
  have hcolumns := hcovered hscan.requires
  obtain ⟨hne, hsub⟩ := scanned_of_driverColumns hscan.scans
  obtain ⟨prepared, hbuild⟩ := exists_build hnumeric fun p hp => hsub _ (hcolumns p hp)
  refine ⟨required, scanned, slots, prepared, op, hscan, hpipeline, hstores.schema.symm ▸ hbuild,
    createParallelScanState_of_prepareScan hctx hscan hfind hprepare,
    fun op => readable_scanTask hstores hscan hcolumns hbuild,
    hstores.scannedRows_eq hnoNan hscan.slotted hne hnumeric hsharp hbuild, fun required' hrequired' => ?_⟩
  obtain rfl := Option.some.inj (hscan.requires.symm.trans hrequired')
  rw [hscan.plans]
  exact serves_seqScan hctx hstores hnoNan hnumeric hcolumns hsharp

variable {outputs : List NamedPlanExpr} {child : LogicalPlan}

end Task

/-! ## Calls that return -/

section Select

variable {ctx : ExecutionContext} {table : OpenTable} {t : TableContent} {builders : SegmentId → SegmentBuilder}
  {looked : ℕ → ParallelScanGlobalState} {stmt : SelectStatement} {bound : BoundSelectStatement} {plan : LogicalPlan}
  {mode : ExecutionMode} {pool : Bool} {g : ParallelScanGlobalState} {schema : ExecSchema} {capacity n : ℕ}
  {s : ParallelQuery n}

end Select

/-! ### Two workers on a table with one row -/

end SimpleOlap
