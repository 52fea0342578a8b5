import SimpleOlap.Execution.Parallel.AggregateEnds
import SimpleOlap.Execution.ParallelSelect

/-!
# Aggregates that are computed by several threads

* `type_buildAggregateSpec`: the calls of an aggregate are known if those of its outputs are.
* `TableContent.Aggregable`, `SumsExact`: rows that an aggregate can be computed of exactly; `Streamed.aggregable`,
  `Streamed.sumsExact`: so are batches that list them.
* `Streamed.sameResult`: workers that have consumed the rows in some order come to the groups of one thread.
* `exists_streamed_makes`, `yields_scanTask`: what the pipelines of the workers make of a scan.
* `parallel_aggregate`: whatever the workers do when, a call that returns has delivered the groups that one thread
  returns, and no worker fails.

Source: `parallel_executor.cpp` ExecuteAggregate, `execution_engine.cpp` ExecuteQuery.
-/

namespace SimpleOlap

open Lib

/-! ## The calls of aggregates -/

/-- The calls of an aggregate are known if those of its outputs are. -/
theorem type_addAggregateOutputs {groupBy : List PlanExpr} {schema : ExecSchema} {calls calls' : List AggCallSpec}
    {outputs : List NamedPlanExpr} {specs : List AggregateOutputSpec}
    (h : addAggregateOutputs groupBy schema calls outputs = .ok (calls', specs))
    (hcalls : ∀ call ∈ calls, call.type ≠ .invalid) (houtputs : ∀ output ∈ outputs, output.expr.call? ≠ some .invalid) :
    ∀ call ∈ calls', call.type ≠ .invalid := by
  induction outputs generalizing calls specs with
  | nil =>
    cases h
    exact hcalls
  | cons output outputs ih =>
    obtain ⟨⟨more, spec⟩, hmore, h⟩ := bind_eq_ok h
    obtain ⟨⟨all, rest⟩, hall, h⟩ := bind_eq_ok h
    cases h
    refine ih hall ?_ fun o ho => houtputs o (List.mem_cons_of_mem _ ho)
    have hknown := houtputs output List.mem_cons_self
    have happend : ∀ call : AggCallSpec, call.type ≠ .invalid → ∀ c ∈ calls ++ [call], c.type ≠ .invalid := by
      intro call hcall c hc
      rcases List.mem_append.mp hc with hc | hc
      · exact hcalls c hc
      · exact List.mem_singleton.mp hc ▸ hcall
    unfold addAggregateOutput at hmore
    split at hmore
    · rename_i aggType arg type heq
      obtain ⟨compiled, -, hmore⟩ := bind_eq_ok hmore
      cases hmore
      exact happend _ fun htype => hknown (by rw [heq]; exact congrArg some htype)
    · rename_i aggType type heq
      cases hmore
      exact happend _ fun htype => hknown (by rw [heq]; exact congrArg some htype)
    · unfold addGroupKeyOutput at hmore
      split at hmore
      · cases hmore
      · cases hmore
        exact hcalls

theorem type_buildAggregateSpec {groupBy : List PlanExpr} {outputs : List NamedPlanExpr} {schema : ExecSchema}
    {spec : AggregateSpec} (h : buildAggregateSpec groupBy outputs schema = .ok spec)
    (houtputs : ∀ output ∈ outputs, output.expr.call? ≠ some .invalid) :
    ∀ call ∈ spec.aggCalls, call.type ≠ .invalid := by
  obtain ⟨groupExprs, -, h⟩ := bind_eq_ok h
  obtain ⟨⟨calls, specs⟩, hcalls, h⟩ := bind_eq_ok h
  cases h
  exact type_addAggregateOutputs hcalls (fun _ hcall => absurd hcall List.not_mem_nil) houtputs

/-! ## Rows that are aggregated -/

section Fits

variable {spec : AggregateSpec} {strings : AggCallSpec → Bool} {t : TableContent} {schema : ExecSchema}

/-- A row fits where it has the cells of one that fits. -/
theorem SameRow.fits {b b' : VectorBatch} {r r' : ℕ} (h : SameRow b r b' r') (hfit : spec.Fits strings (b', r')) :
    spec.Fits strings (b, r) := by
  have hkey : spec.keyOf (b, r) = spec.keyOf (b', r') := by
    simp only [AggregateSpec.keyOf, h.evalGroupKey]
  constructor
  · rw [hkey, ← hfit.key]
    exact h.evalGroupKey spec
  · rw [hkey]
    exact hfit.exact
  · intro call hcall
    have hcalls := hfit.calls call hcall
    simp only [AggCallSpec.Fits, AggCallSpec.Evaluates, AggCallSpec.argValue, AggCallSpec.Ranked] at hcalls ⊢
    simpa only [h.eval] using hcalls

/-- The rows of a table, as an aggregate sees them, are exact numbers or can be compared. -/
def TableContent.Aggregable (t : TableContent) (spec : AggregateSpec) (strings : AggCallSpec → Bool)
    (schema : ExecSchema) (rows : List Row) : Prop :=
  ∀ row ∈ rows, spec.Fits strings (t.rowBatch schema row, 0)

/-- The rows of a table, as an aggregate sees them, have exact sums. -/
def TableContent.SumsExact (t : TableContent) (spec : AggregateSpec) (schema : ExecSchema) (rows : List Row) : Prop :=
  spec.SumsExact ↑(rows.map fun row => (t.rowBatch schema row, 0))

variable {rows : List Row}

/-- Equal rows have one key and one value of an argument. -/
theorem SameRow.keyed {b b' : VectorBatch} {r r' : ℕ} (h : SameRow b r b' r') (call : AggCallSpec) :
    (spec.keyOf (b, r), call.argValue (b, r)) = (spec.keyOf (b', r'), call.argValue (b', r')) := by
  simp only [AggregateSpec.keyOf, h.evalGroupKey, AggCallSpec.argValue, h.eval]

/-- Batches that list the rows have exact sums where these have. -/
theorem Streamed.sumsExact {bs : List VectorBatch} (h : Streamed t schema bs rows)
    (hexact : t.SumsExact spec schema rows) : spec.SumsExact ↑(bs.flatMap VectorBatch.rowRefs) := by
  obtain ⟨parts, rfl, hall⟩ := h
  refine AggregateSpec.SumsExact.of_map_eq hexact fun call _ => ?_
  rw [Multiset.map_coe, Multiset.map_coe]
  refine congrArg _ ?_
  clear hexact
  induction hall with
  | nil => rfl
  | @cons b part bs parts hb _ ih =>
    have hpart : b.rowRefs.map (fun row => (spec.keyOf row, call.argValue row)) =
        (part.map fun row => (t.rowBatch schema row, 0)).map fun row => (spec.keyOf row, call.argValue row) := by
      rw [VectorBatch.rowRefs, List.map_map, List.map_map]
      rw [← List.forall₂_eq_eq_eq, List.forall₂_map_left_iff, List.forall₂_map_right_iff]
      exact hb.2.imp fun _ _ hsame => hsame.keyed call
    rw [List.flatMap_cons, List.map_append, hpart, ih, List.flatten_cons, List.map_append, List.map_append]

/-- So are batches that list them. -/
theorem Streamed.aggregable {bs : List VectorBatch} (h : Streamed t schema bs rows)
    (hfits : t.Aggregable spec strings schema rows) : ∀ b ∈ bs, spec.Aggregable strings b := by
  obtain ⟨parts, rfl, hall⟩ := h
  intro b hb
  obtain ⟨part, hpart, hcontent, hlists⟩ := exists_of_mem_left hall hb
  refine ⟨hcontent.toStrong, fun ref href => ?_⟩
  obtain ⟨r, hr, rfl⟩ := List.mem_map.mp href
  obtain ⟨row, hrow, hsame⟩ := exists_of_mem_left hlists hr
  exact hsame.fits (hfits row (List.mem_flatten_of_mem hpart hrow))

/-- Rows in another order have the same sums. -/
theorem TableContent.SumsExact.perm {kept : List Row} (h : t.SumsExact spec schema rows) (hperm : rows.Perm kept) :
    t.SumsExact spec schema kept := by
  rw [TableContent.SumsExact, ← Multiset.coe_eq_coe.mpr (hperm.map _)]
  exact h

/-- The rows, each as a batch. -/
theorem bind_rowRefs_rowBatch (t : TableContent) (schema : ExecSchema) (rows : List Row) :
    ((rows.map (t.rowBatch schema) : List VectorBatch) : Multiset VectorBatch).bind (fun b => ↑b.rowRefs) =
      ((rows.map fun row => (t.rowBatch schema row, 0) : List RowRef) : Multiset RowRef) := by
  have hone : ∀ row, (t.rowBatch schema row).rowRefs = [(t.rowBatch schema row, 0)] := fun row => by
    rw [VectorBatch.rowRefs, activeIndices_rowBatch, List.map_singleton]
  rw [Multiset.coe_bind, List.flatMap_map]
  simp only [hone]
  exact congrArg _ (List.map_eq_flatMap).symm

theorem aggregable_rowBatch {row : Row} (hfit : spec.Fits strings (t.rowBatch schema row, 0)) :
    spec.Aggregable strings (t.rowBatch schema row) := by
  refine ⟨strong_rowBatch t schema row, fun ref href => ?_⟩
  rw [VectorBatch.rowRefs, activeIndices_rowBatch, List.map_singleton, List.mem_singleton] at href
  rw [href]
  exact hfit

/-- What one state is after these rows. -/
theorem exists_foldlM_rows (hvalid : ∀ call ∈ spec.aggCalls, call.type ≠ .invalid)
    (hfits : t.Aggregable spec strings schema rows) : ∃ state,
      rows.foldlM (fun (s : HashAggregateState) row => s.consume spec (t.rowBatch schema row)) spec.initial = .ok state ∧
      StateSums strings spec state (rows.map (t.rowBatch schema) : List VectorBatch) := by
  obtain ⟨state, hstate, hsum⟩ := (aggregateSummary strings spec hvalid id fun _ => .refl _).sums_foldlM
    (StateSums.initial hvalid) (rows.map (t.rowBatch schema)) fun b hb => by
      obtain ⟨row, hrow, rfl⟩ := List.mem_map.mp hb
      exact aggregable_rowBatch (hfits row hrow)
  rw [zero_add] at hsum
  rw [List.foldlM_map] at hstate
  exact ⟨state, hstate, hsum⟩

/-- **Workers that have consumed the rows come to what one thread comes to**, in whatever order they have consumed them,
where the sums are exact. -/
theorem Streamed.sameResult {order : GroupTable → GroupTable} {workers : List (List VectorBatch)} {kept : List Row}
    {states : List HashAggregateState} {merged serial : HashAggregateState}
    (h : Streamed t schema workers.flatten kept) (hvalid : ∀ call ∈ spec.aggCalls, call.type ≠ .invalid)
    (horder : ∀ groups, (order groups).Perm groups) (hperm : rows.Perm kept)
    (hfits : t.Aggregable spec strings schema rows) (hexact : t.SumsExact spec schema rows)
    (hserial : rows.foldlM (fun (s : HashAggregateState) row => s.consume spec (t.rowBatch schema row)) spec.initial =
      .ok serial)
    (hstates : workers.mapM (fun bs => bs.foldlM (HashAggregateState.consume spec) spec.initial) = .ok states)
    (hmerged : states.foldlM (HashAggregateState.merge spec order) spec.initial = .ok merged) :
    spec.SameResult merged serial := by
  have hkept : t.Aggregable spec strings schema kept := fun row hrow => hfits row (hperm.mem_iff.mpr hrow)
  have hbatches := h.aggregable hkept
  -- the workers, and one state that consumes their batches
  obtain ⟨states', merged', hstates', hmerged', hsum⟩ :=
    (aggregateSummary strings spec hvalid order horder).sums_workers workers hbatches
  cases hstates.symm.trans hstates'
  cases hmerged.symm.trans hmerged'
  obtain ⟨state, hstate, hstateSum⟩ :=
    (aggregateSummary strings spec hvalid order horder).sums_foldlM (StateSums.initial hvalid) workers.flatten hbatches
  rw [zero_add] at hstateSum
  -- which is one that consumes the rows in another order
  obtain ⟨state', hstate', hrowsSum'⟩ := exists_foldlM_rows hvalid hkept
  cases hstate.symm.trans ((h.foldlM_consume spec).trans hstate')
  obtain ⟨serial', hserial', hrowsSum⟩ := exists_foldlM_rows hvalid hfits
  cases hserial.symm.trans hserial'
  have hsame : ((rows.map (t.rowBatch schema) : List VectorBatch) : Multiset VectorBatch) =
      (kept.map (t.rowBatch schema) : List VectorBatch) := Multiset.coe_eq_coe.mpr (hperm.map _)
  rw [hsame] at hrowsSum
  have hbatchSums : spec.SumsExact ((workers.flatten : Multiset VectorBatch).bind fun b => ↑b.rowRefs) := by
    rw [Multiset.coe_bind]
    exact h.sumsExact (hexact.perm hperm)
  have hrowSums : spec.SumsExact
      (((kept.map (t.rowBatch schema) : List VectorBatch) : Multiset VectorBatch).bind fun b => ↑b.rowRefs) := by
    rw [bind_rowRefs_rowBatch]
    exact hexact.perm hperm
  exact (AggregateSpec.sameResult_of_stateSums hsum hstateSum hbatchSums).trans
    (AggregateSpec.sameResult_of_stateSums hrowsSum' hrowsSum hrowSums)

/-- The pages of groups that can be output. -/
theorem exists_drain {groups : GroupTable} {out : List (List ExecValue)} (h : groups.mapM spec.outputRow = .ok out) :
    ∃ pages, spec.drain groups = .ok pages ∧ pages.flatten = out := by
  have hflat := spec.drain_flatten groups
  rw [h] at hflat
  rcases hpages : spec.drain groups with e | pages
  · rw [hpages] at hflat
    cases hflat
  · rw [hpages] at hflat
    exact ⟨pages, rfl, Except.ok.inj hflat⟩

end Fits

/-! ## What the workers do -/

section Task

variable {ctx : ExecutionContext} {table : OpenTable} {t : TableContent} {builders : SegmentId → SegmentBuilder}
  {looked : ℕ → ParallelScanGlobalState} {required : List ℕ} {scanned : List ColumnId} {slots schema : ExecSchema}
  {child : LogicalPlan} {inputs : List VectorBatch} {op : RunningOperator} {rows : List Row}

/-- **A pipeline makes of all batches of a scan batches that list the rows of the plan**, in some order. -/
theorem exists_streamed_makes (hctx : ctx.RunsOn table t) (hids : t.schema.IdsArePositions) (hnoNan : t.NoNan)
    (hsource : ∀ rows, child.IsSource { t with rows }) (hscan : WorkerScan ctx t child required scanned slots)
    (hinputs : ∀ b ∈ inputs, b.Content (slotTypes slots) (t.Shown slots))
    (hall : ((t.rows.filter (child.passes t)).map (t.slotRow slots)).Perm (inputs.flatMap VectorBatch.activeRows))
    {started : ExecSchema}
    (hstart : startPlan (ctx.worker looked) (createPhysicalPlan ctx.catalog child) = .ok (started, op))
    (hrows : sourceRows t [] child = .ok (schema, rows)) :
    ∃ rows' bs kept, Makes (ctx.worker looked) inputs op bs ∧ rows.Perm kept ∧
      Streamed { t with rows := rows' } schema bs kept := by
  obtain ⟨rows', hperm, hlist⟩ := exists_reordered (child.passes t) hall
  have hnoNan' : TableContent.NoNan { t with rows := rows' } := fun row hrow => hnoNan row (hperm.mem_iff.mpr hrow)
  have hserves := servesBy_source (t := { t with rows := rows' }) (pulling_makes (ctx.worker looked) inputs) hids hnoNan'
    (hsource rows') (scanServesBy_makes hctx hscan hinputs hperm hlist)
  obtain ⟨kept, hkept, hpermKept⟩ := sourceRows_perm hperm hrows
  obtain ⟨op', bs, hstart', hmakes, hstream⟩ := hserves.rows schema kept hkept
  cases hstart.symm.trans hstart'
  exact ⟨rows', bs, kept, hmakes, hpermKept, hstream⟩

/-- A plan is started with the schema that it is built with. -/
theorem outputSchema_of_startPlan {physical : PhysicalPlan} {built : BuiltExecutor}
    (hbuilt : buildNode ctx.catalog physical = .ok built) (hstart : startPlan ctx physical = .ok (schema, op)) :
    built.outputSchema = schema := by
  obtain ⟨built', hbuilt', hstart⟩ := bind_eq_ok hstart
  cases hbuilt.symm.trans hbuilt'
  obtain ⟨op', -, hstart⟩ := bind_eq_ok hstart
  cases hstart
  rfl

variable {spec : AggregateSpec} {strings : AggCallSpec → Bool} {prepared : List PreparedStoragePredicate}

/-- **Where one thread finds rows, the operators of a worker fail on no batch**, and what they make of it can be
aggregated if the rows can. -/
theorem yields_scanTask (hctx : ctx.RunsOn table t) (hstores : table.Stores t builders) (hids : t.schema.IdsArePositions)
    (hnoNan : t.NoNan) (hsource : ∀ rows, child.IsSource { t with rows })
    (hscan : WorkerScan ctx t child required scanned slots)
    (hscanned : table.storage.scannedRows SegmentReader.evaluatePredicates table.disk
      ⟨scanned, child.pushed.map SimplePredicate.toCondition⟩ prepared =
      (t.rows.filter (child.passes t)).map (t.slotRow slots)) {started : ExecSchema}
    (hstart : startPlan (ctx.worker looked) (createPhysicalPlan ctx.catalog child) = .ok (started, op))
    (hrows : sourceRows t [] child = .ok (schema, rows)) (hfits : t.Aggregable spec strings schema rows) :
    (child.scanTask ctx table builders looked scanned prepared op).Yields (spec.Aggregable strings) := by
  intro b hb
  have hcontent := content_scanTask hstores hscan hb
  -- the batch is one of some batches that have all rows of the scan
  obtain ⟨rest, hall, hperm⟩ := hstores.exists_completed hscan.slotted (child.passes t)
    hcontent (hscanned ▸ hb.rows)
  obtain ⟨rows', bs, kept, ⟨outs, houts, rfl⟩, hkept, hstream⟩ :=
    exists_streamed_makes hctx hids hnoNan hsource hscan hall hperm hstart hrows
  obtain ⟨out, hout, hok⟩ := exists_of_mem_mapM houts (List.mem_cons_self (a := b))
  refine ⟨out, hok, fun b' hb' => ?_⟩
  have haggregable : ∀ b ∈ outs.reduceOption, spec.Aggregable strings b :=
    hstream.aggregable fun row hrow => hfits row (hkept.mem_iff.mpr hrow)
  exact haggregable b' (List.reduceOption_mem_iff.mpr (Option.mem_def.mp hb' ▸ hout))

/-- A state that stands for some rows can consume batches whose rows can be aggregated, and be merged. -/
theorem sound_ops {order : GroupTable → GroupTable} (hvalid : ∀ call ∈ spec.aggCalls, call.type ≠ .invalid)
    (horder : ∀ groups, (order groups).Perm groups) :
    AggregateRun.Sound (spec.ops order) (spec.Aggregable strings) fun s => ∃ m, StateSums strings spec s m where
  initial := ⟨0, StateSums.initial hvalid⟩
  consume := by
    rintro state batch ⟨m, hsum⟩ hbatch
    obtain ⟨state', hstate', hsum'⟩ := hsum.consume hvalid hbatch
    exact ⟨state', hstate', _, hsum'⟩
  merge := by
    rintro state state' ⟨m, hsum⟩ ⟨m', hsum'⟩
    obtain ⟨merged, hmerged, hboth⟩ := hsum.merge hvalid horder hsum'
    exact ⟨merged, hmerged, _, hboth⟩

variable {g : ParallelScanGlobalState} {order : GroupTable → GroupTable} {groups : GroupTable}
  {serial : HashAggregateState} {out : List (List ExecValue)} {n : ℕ} {s : ParallelAggregate n}
  {par : ParallelScan (Fin n)} {read : Fin n → List VectorBatch}

/-- **What the workers have merged has the groups of one thread**, in some order. -/
theorem WorkerCall.drains
    (hcall : WorkerCall ctx table t builders looked child g required scanned slots prepared schema op)
    (hctx : ctx.RunsOn table t) (hstores : table.Stores t builders) (hids : t.schema.IdsArePositions) (hnoNan : t.NoNan)
    (hsource : ∀ rows, child.IsSource { t with rows }) (hrows : sourceRows t [] child = .ok (schema, rows))
    (hfits : t.Aggregable spec strings schema rows) (hexact : t.SumsExact spec schema rows)
    (hvalid : ∀ call ∈ spec.aggCalls, call.type ≠ .invalid) (horder : ∀ groups, (order groups).Perm groups)
    (hserial : rows.foldlM (fun (s : HashAggregateState) row => s.consume spec (t.rowBatch schema row)) spec.initial =
      .ok serial)
    (hgroups : groups.Perm (serial.outputGroups spec)) (hout : groups.mapM spec.outputRow = .ok out) (hn : 0 < n)
    (hrun : AggregateRun.Reached (spec.ops order) s.run)
    (htraced : ParallelAggregate.Traced (child.scanTask ctx table builders looked scanned prepared op) spec order
      (fun s => ∃ m, StateSums strings spec s m) s par read)
    (hcaller : s.run.caller = .emitting ∨ s.run.caller = .returned) :
    ∃ pages, spec.drain (s.run.merged.emitted order spec) = .ok pages ∧ pages.flatten.Perm out := by
  obtain ⟨hperm, hmakes, states, hstates, hmerged⟩ := htraced.collected hn hrun hcaller
  have hcontent : ∀ b ∈ (List.finRange n).flatMap read, b.Content (slotTypes slots) (t.Shown slots) := by
    intro b hb
    obtain ⟨i, -, hb⟩ := List.mem_flatMap.mp hb
    exact content_scanTask hstores hcall.scan (htraced.pool.scans i b hb)
  obtain ⟨rows', bs, kept, hmakes', hkept, hstream⟩ := exists_streamed_makes hctx hids hnoNan hsource hcall.scan
    hcontent (hcall.scannedRows ▸ hperm.symm) hcall.pipeline.starts hrows
  obtain rfl := hmakes.unique hmakes'
  rw [List.flatMap_def] at hstream
  rw [← Function.comp_def, ← List.mapM_map] at hstates
  have hsame := hstream.sameResult hvalid horder hkept hfits hexact hserial hstates hmerged
  -- the groups of one thread can be output, and so can these
  obtain ⟨pages, hpages, hflat⟩ := exists_drain hout
  rw [emitted_eq horder]
  obtain ⟨pages', hpages', hpermPages⟩ := AggregateSpec.SameResult.drain (List.Perm.symm hsame) hgroups
    (horder (s.run.merged.outputGroups spec)) hpages
  exact ⟨pages', hpages', hflat ▸ hpermPages.symm⟩

end Task

/-! ## Calls of ExecuteAggregate -/

section Select

variable {ctx : ExecutionContext} {table : OpenTable} {t : TableContent} {builders : SegmentId → SegmentBuilder}
  {looked : ℕ → ParallelScanGlobalState} {stmt : SelectStatement} {bound : BoundSelectStatement}
  {plan child : LogicalPlan}
  {groupBy : List PlanExpr} {outputs : List NamedPlanExpr} {mode : ExecutionMode} {pool : Bool}
  {g : ParallelScanGlobalState} {spec : AggregateSpec} {strings : AggCallSpec → Bool}
  {order : GroupTable → GroupTable} {out : List (List ExecValue)} {n : ℕ} {s : ParallelAggregate n}

/-- **An aggregate that workers compute returns the groups that one thread returns.** Every SELECT with groups that the
binder accepts over a stored table, that the planner plans and the engine gives to workers, where one thread returns
rows, all values that are aggregated are exact and so are the sums of some of them: in whatever order the workers take
their steps, no worker fails; once the call returns, its consumer has got the rows that one thread returns, in some
order; and the call throws only because of its submissions or its consumer. -/
theorem parallel_aggregate (hctx : ctx.RunsOn table t) (hstores : table.Stores t builders)
    (hids : t.schema.IdsArePositions) (hnoNan : t.NoNan) (hliterals : ∀ e ∈ stmt.whereClause, e.NoNan)
    (hbind : Binder.bindSelect (some t.boundTable) stmt = .ok bound) (hplan : planSelect bound = .ok plan)
    (hsharp : t.Sharp (optimize plan).pushed) (hgroups : optimize plan = .aggregate groupBy outputs child)
    (hroute : ExecutionEngine.route mode pool (createPhysicalPlan ctx.catalog (optimize plan)) = .parallelAggregate)
    (hprepare : prepareAggregate ctx groupBy outputs (createPhysicalPlan ctx.catalog child) = .ok (g, spec)) (hn : 0 < n)
    (horder : ∀ groups, (order groups).Perm groups)
    (hexact : ∀ schema rows, sourceRows t [] child = .ok (schema, rows) →
      t.Aggregable spec strings schema rows ∧ t.SumsExact spec schema rows)
    (hreturns : Returns ctx (createPhysicalPlan ctx.catalog (optimize plan)) out)
    (hrun : ParallelAggregate.Reached (ctx.worker looked) (createPhysicalPlan ctx.catalog child) spec order g s) :
    (∀ i e, s.run.workers i ≠ .caught e ∧ s.run.workers i ≠ .finished (.error e)) ∧
      (s.run.caller = .returned → s.delivered.flatten.Perm out) ∧
      ∀ e, s.run.caller = .threw e → s.interfered = true := by
  have hselect : ∀ rows, (optimize plan).IsSelectOf { t with rows } := fun rows =>
    (isSelectOf_and_covered (t := { t with rows }) hids hliterals hbind hplan).2.1
  have hcovered := (isSelectOf_and_covered hids hliterals hbind hplan).2.2
  have hknown := callsKnown_optimize (callsKnown_planSelect (call?_bindSelect hbind) hplan)
  generalize optimize plan = plan at *
  subst hgroups
  have hsource : ∀ rows, child.IsSource { t with rows } := hselect
  have hchain : isScanChain (createPhysicalPlan ctx.catalog child) = true := by
    obtain ⟨_, _, _, heq, hchain⟩ := route_parallelAggregate hroute
    cases heq
    exact hchain
  obtain ⟨scan, hprepareScan, hprepare⟩ := bind_eq_ok hprepare
  obtain ⟨probe, hprobe, hprepare⟩ := bind_eq_ok hprepare
  obtain ⟨spec', hspec, hprepare⟩ := bind_eq_ok hprepare
  cases hprepare
  have hvalid := type_buildAggregateSpec hspec hknown
  have hnumeric : ∀ p ∈ (LogicalPlan.aggregate groupBy outputs child).pushed, p.Numeric t :=
    pushed_numeric_of_isSelectOf (hselect t.rows)
  obtain ⟨required, scanned, slots, prepared, op, hcall⟩ := exists_workerCall looked hctx hstores hnoNan
    (hsource t.rows) hnumeric hsharp (fun h => hcovered.pushed h) hchain hprobe rfl hprepareScan
  -- one thread returns the rows of the plan
  have hplanned : runPlan t ctx.order [] (.aggregate groupBy outputs child) = .ok out :=
    (returns_iff hids hnoNan hctx.order (hselect t.rows) hcall.serves True.intro).mp hreturns
  obtain ⟨⟨schema, rows⟩, hrows, hplanned⟩ := bind_eq_ok hplanned
  obtain ⟨serialSpec, hserialSpec, hplanned⟩ := bind_eq_ok hplanned
  obtain ⟨serial, hserial, hserialOut⟩ := bind_eq_ok hplanned
  obtain ⟨hfits, hsums⟩ := hexact schema rows hrows
  obtain ⟨_, _, hstart, -⟩ := (servesBy_source (pulling_runs ctx) hids hnoNan (hsource t.rows) hcall.serves).rows _ _ hrows
  obtain rfl := outputSchema_of_startPlan hprobe hstart
  cases hspec.symm.trans hserialSpec
  -- what the workers do
  have hpipe : (child.scanTask ctx table builders looked scanned prepared op).pipeline 0 .reset = op :=
    hcall.pipeline.onScan
  have hyields := yields_scanTask hctx hstores hids hnoNan hsource hcall.scan hcall.scannedRows hcall.pipeline.starts
    hrows hfits
  obtain ⟨par, read, htraced⟩ := ParallelAggregate.Reached.traced (hcall.readable op)
    (hpipe.symm ▸ hcall.pipeline.starts) hcall.build hcall.create hyields (sound_ops hvalid horder)
    (fun s par read hreached htraced hcaller =>
      (hcall.drains hctx hstores hids hnoNan hsource hrows hfits hsums hvalid horder hserial (hctx.order _) hserialOut hn
        hreached htraced (.inl hcaller)).imp fun _ h => h.1) hrun
  refine ⟨fun i e => ⟨fun hi => htraced.fine ⟨i, e, .inl hi⟩, fun hi => htraced.fine ⟨i, e, .inr hi⟩⟩,
    fun hreturned => ?_, fun e hthrew => htraced.interfered ?_⟩
  · obtain ⟨pages, hpages, hperm⟩ := hcall.drains hctx hstores hids hnoNan hsource hrows hfits hsums hvalid horder hserial
      (hctx.order _) hserialOut hn hrun.run htraced (.inr hreturned)
    cases hpages.symm.trans (htraced.delivered hreturned)
    exact hperm
  · rw [hthrew]
    exact True.intro

end Select

/-! ### Two workers on a table with one row -/

/-- `SELECT c, SUM(c) FROM t GROUP BY c`. -/
def sumSeven : SelectStatement where
  tableName := ascii ['t']
  selectList := [⟨.columnRef (ascii ['c']), []⟩, ⟨.aggFunc .sum (.columnRef (ascii ['c'])), []⟩]
  whereClause := none
  groupBy := [.columnRef (ascii ['c'])]

/-- The statement, bound. -/
def boundSumSeven : BoundSelectStatement where
  tableOid := 0
  selectList := [⟨.columnRef 0 0 .int32, []⟩, ⟨.aggFunc .sum (.columnRef 0 0 .int32) .double, []⟩]
  whereClause := none
  groupBy := [.columnRef 0 0 .int32]

/-- Its plan. -/
def sumSevenPlan : LogicalPlan :=
  .aggregate [.columnRef 0 0 .int32] [⟨.columnRef 0 0 .int32, []⟩, ⟨.agg .sum (.columnRef 0 0 .int32) .double, []⟩]
    (.scan 0 [] [])

/-- The aggregate, compiled. -/
def sumSevenSpec : AggregateSpec where
  groupExprs := [.columnRef 0 .int32]
  aggCalls := [⟨.sum, some (.columnRef 0 .int32), .double⟩]
  outputs := [⟨true, 0, .int32⟩, ⟨false, 0, .double⟩]

theorem aggregable_sevenTable {schema : ExecSchema} {rows : List Row}
    (h : sourceRows sevenTable [] (.scan 0 [0] []) = .ok (schema, rows)) :
    sevenTable.Aggregable sumSevenSpec (fun _ => false) schema rows ∧ sevenTable.SumsExact sumSevenSpec schema rows := by
  have hrows : sourceRows sevenTable [] (.scan 0 [0] []) = .ok ([⟨.int32, some ⟨0, 0⟩⟩], [[leBytes 4 7]]) := rfl
  cases hrows.symm.trans h
  constructor
  · intro row hrow
    obtain rfl := List.mem_singleton.mp hrow
    refine ⟨rfl, fun value hvalue => ?_, fun call hcall => ?_⟩
    · obtain rfl := List.mem_singleton.mp hvalue
      trivial
    · obtain rfl := List.mem_singleton.mp hcall
      exact ⟨rfl, trivial, rfl⟩
  · intro call hcall _ key
    obtain rfl := List.mem_singleton.mp hcall
    refine AggCallSpec.ExactSums.mono (AggregateSpec.exactSums_of_integers (fun row hrow => ⟨7, ?_, Nat.le_refl 7⟩) ?_)
      (Multiset.filter_le _ _)
    · obtain rfl := List.mem_singleton.mp hrow
      rfl
    · exact Nat.le_of_ble_eq_true rfl

theorem parallel_aggregate_seven : ∃ s : ParallelAggregate 2, s.run.caller = .returned ∧
    s.delivered.flatten.Perm [[.int32 7, .double (toDouble (.ofInt unit 7))]] := by
  have hroute : ExecutionEngine.route .auto true (createPhysicalPlan
      (contextOf sevenOpen oneColumnSchema).catalog (optimize sumSevenPlan)) = .parallelAggregate := rfl
  have hprepare : prepareAggregate (contextOf sevenOpen oneColumnSchema) [.columnRef 0 0 .int32]
      [⟨.columnRef 0 0 .int32, []⟩, ⟨.agg .sum (.columnRef 0 0 .int32) .double, []⟩] (createPhysicalPlan
        (contextOf sevenOpen oneColumnSchema).catalog (.scan 0 [0] [])) =
      .ok (⟨[0], 0, none, false⟩, sumSevenSpec) := rfl
  have hbind : Binder.bindSelect (some sevenTable.boundTable) sumSeven = .ok boundSumSeven := rfl
  have hplan : planSelect boundSumSeven = .ok sumSevenPlan := rfl
  have hliterals : ∀ e ∈ sumSeven.whereClause, e.NoNan := fun e he => by cases he
  have hsharp : sevenTable.Sharp (optimize sumSevenPlan).pushed := fun p hp => absurd hp List.not_mem_nil
  have hreturns : Returns (contextOf sevenOpen oneColumnSchema) (createPhysicalPlan
      (contextOf sevenOpen oneColumnSchema).catalog (optimize sumSevenPlan))
        [[.int32 7, .double (toDouble (.ofInt unit 7))]] :=
    (returns_iff_of_not_matched runsOn_sevenOpen stores_sevenOpen (idsArePositions_oneColumn rfl) (noNan_oneColumn rfl)
      hliterals hbind hplan (fun key hkey => absurd hkey List.not_mem_nil) hsharp True.intro).mpr (by decide +kernel)
  obtain ⟨s, hrun, hended, hinterfered⟩ := ParallelAggregate.exists_ended 2
    ((contextOf sevenOpen oneColumnSchema).worker fun _ => ⟨[0], 0, none, false⟩) (createPhysicalPlan
      (contextOf sevenOpen oneColumnSchema).catalog (.scan 0 [0] [])) sumSevenSpec id ⟨[0], 0, none, false⟩
  obtain ⟨-, hreturned, hthrew⟩ := parallel_aggregate runsOn_sevenOpen stores_sevenOpen (idsArePositions_oneColumn rfl)
    (noNan_oneColumn rfl) hliterals hbind hplan hsharp rfl hroute hprepare Nat.two_pos
    (fun groups => .refl groups) (fun _ _ h => aggregable_sevenTable h) hreturns hrun
  have hcaller : s.run.caller = .returned := by
    rcases hended with hcaller | ⟨e, hcaller⟩
    · exact hcaller
    · exact absurd (hinterfered.symm.trans (hthrew e hcaller)) Bool.false_ne_true
  exact ⟨s, hcaller, hreturned hcaller⟩

end SimpleOlap
