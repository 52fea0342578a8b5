import SimpleOlap.Execution.Pipeline
import SimpleOlap.Execution.ScanContent
import Mathlib.Algebra.BigOperators.Fin

/-!
# The pipelines of parallel workers on one scan

* `ScanPool`: the shared state of the scan and the pipelines of the workers; `ScanPool.afterRound`.
* `exists_look`: one look of one worker at the shared state is steps of the parallel scan.
* `ScanPool.Traced`: what the scans of the workers have handed out, as part of the rows of the table, and what the
  pipelines have made of it; `Traced.round`: a round keeps it, or some batch makes the operators above the scan fail.
* `Traced.complete`: when all scans are at their end, they have handed out the rows of the table.

Source: `parallel_executor.cpp` ExecuteQuery and ExecuteAggregate, the loop of a worker.
-/

namespace SimpleOlap

open Lib SegmentBuilder

variable {n : ℕ}

/-- The shared state of a scan after a look of a worker: the counter moves where a segment is claimed. Source:
`table_storage.cpp` ScanParallel. -/
def ParallelScanGlobalState.afterLook (g : ParallelScanGlobalState) (localState : ParallelScanLocalState) :
    ParallelScanGlobalState :=
  if localState.hasSegment then g else g.claimSegment.1

/-- So it is for the scan of a pipeline. -/
def RunningOperator.sharedAfter (g : ParallelScanGlobalState) : RunningOperator → ParallelScanGlobalState
  | .parallelScan _ _ _ _ localState => g.afterLook localState
  | .filter child _ | .projection child _ => child.sharedAfter g
  | _ => g

theorem sharedAfter_onScan (g : ParallelScanGlobalState) (op scan : RunningOperator) :
    (op.onScan scan).sharedAfter g = scan.sharedAfter g := by
  induction op with
  | filter child predicate ih | projection child expressions ih => exact ih
  | _ => rfl

/-- The shared state of the scan, and the pipelines that are built. The flag that cancels the scan belongs to the
call. Source: `parallel_executor.cpp` ExecuteQuery and ExecuteAggregate. -/
structure ScanPool (n : ℕ) where
  scan : ParallelScanGlobalState
  pipelines : Fin n → Option RunningOperator

namespace ScanPool

/-- What a worker finds. -/
def found (p : ScanPool n) (cancelled : Bool) : ParallelScanGlobalState := { p.scan with cancelled }

/-- A worker has built its pipeline. -/
def build (p : ScanPool n) (i : Fin n) (op : RunningOperator) : ScanPool n :=
  { p with pipelines := Function.update p.pipelines i (some op) }

/-- A worker that has the pipeline `op` has made a round. -/
def afterRound (p : ScanPool n) (cancelled : Bool) (i : Fin n) (op : RunningOperator)
    (r : Except String PipelineRound) : ScanPool n where
  scan := { p.scan with nextSegment := (op.sharedAfter (p.found cancelled)).nextSegment }
  pipelines := match r with
    | .ok round => Function.update p.pipelines i (some round.op)
    | .error _ => p.pipelines

end ScanPool

/-! ## One look -/

/-- The worker after a look that came to this round. -/
def ScanRound.worker (received : List Row) : ScanRound → Worker
  | .continues localState => ⟨localState, .loopHead, received⟩
  | .returns localState (some b) => ⟨localState, .outside, received ++ b.activeRows⟩
  | .returns localState none => ⟨localState, .finished, received⟩

/-- The batch that a look hands out. -/
def ScanRound.output : ScanRound → Option VectorBatch
  | .continues _ => none
  | .returns _ output => output

/-- A batch of a scan: it presents a registered segment, and its active rows are rows of the scan. -/
structure OpenTable.Scans (table : OpenTable) (builders : SegmentId → SegmentBuilder) (options : ScanOptions)
    (prepared : List PreparedStoragePredicate) (b : VectorBatch) : Prop where
  deliverable : b.Deliverable
  presents : ∃ id ∈ table.storage.metadata.segmentIds, (fileReader (builders id) id).Presents options.columns b
  rows : (b.activeRows : Multiset Row) ≤
    (table.storage.scannedRows SegmentReader.evaluatePredicates table.disk options prepared : Multiset Row)

section Look

variable {table : OpenTable} {builders : SegmentId → SegmentBuilder} {options : ScanOptions}
  {prepared : List PreparedStoragePredicate} {par : ParallelScan (Fin n)}

/-- The table can be scanned with these options. -/
structure OpenTable.Readable (table : OpenTable) (builders : SegmentId → SegmentBuilder) (options : ScanOptions)
    (prepared : List PreparedStoragePredicate) : Prop where
  holds : table.storage.Holds table.disk builders
  scannable : table.storage.Scannable SegmentReader.evaluatePredicates table.disk options prepared
  columns : ∀ c ∈ options.columns, table.storage.schema.HasColumn c
  nonempty : options.columns ≠ []

/-- The invariant of the parallel scan, on this table. -/
abbrev OpenTable.ScanInv (table : OpenTable) (options : ScanOptions) (prepared : List PreparedStoragePredicate)
    (par : ParallelScan (Fin n)) : Prop :=
  par.Inv SegmentReader.evaluatePredicates table.storage table.disk options prepared

/-- What a worker has received is part of the rows of the scan. -/
theorem received_le (hinv : table.ScanInv options prepared par) (i : Fin n) :
    ((par.workers i).received : Multiset Row) ≤
      (table.storage.scannedRows SegmentReader.evaluatePredicates table.disk options prepared : Multiset Row) := by
  rw [← hinv.rows]
  have haccount : ((par.workers i).received : Multiset Row) ≤
      (par.workers i).account SegmentReader.evaluatePredicates options prepared := Multiset.le_add_right _ _
  rw [← Finset.add_sum_erase Finset.univ (fun w =>
    (par.workers w).account SegmentReader.evaluatePredicates options prepared) (Finset.mem_univ i), add_assoc]
  exact haccount.trans (Multiset.le_add_right _ _)

/-- Reading on in the segment that a worker holds is a step of the scan. -/
theorem exists_held (h : table.Readable builders options prepared) (hinv : table.ScanInv options prepared par)
    {i : Fin n} (hphase : (par.workers i).phase = .scanning) : ∃ round par',
      scanHeldSegment options (par.workers i).state = .ok round ∧ table.ScanInv options prepared par' ∧
      par'.workers = Function.update par.workers i (round.worker (par.workers i).received) ∧
      par'.global = par.global ∧ ∀ b, round.output = some b → table.Scans builders options prepared b := by
  have hok := hinv.workers i
  obtain ⟨id, hid, reader, hget, hreader, hcok⟩ := hok.holds (hok.scanning hphase)
  obtain ⟨r, hr, hcols, hfits⟩ := h.scannable id hid
  obtain rfl : reader = r := Option.some.inj (hget.symm.trans hr)
  obtain ⟨c, out, hscan, -⟩ := scanSegment_spec hcols hfits hcok
  rcases out with _ | b
  · refine ⟨.continues .reset, _, ?_, hinv.step h.scannable (.ended hphase hreader hscan), rfl, rfl, nofun⟩
    simp only [scanHeldSegment, hreader, hscan]
  · by_cases hzero : b.size = 0
    · refine ⟨.continues { (par.workers i).state with cursor := c }, _, ?_,
        hinv.step h.scannable (.filtered hphase hreader hscan hzero), rfl, rfl, nofun⟩
      simp only [scanHeldSegment, hreader, hscan, if_pos hzero]
    · have hround : scanHeldSegment options (par.workers i).state =
          .ok (.returns { (par.workers i).state with cursor := c } (some b)) := by
        simp only [scanHeldSegment, hreader, hscan, if_neg hzero]
      have hinv' := hinv.step h.scannable (.batch hphase hreader hscan hzero)
      refine ⟨_, _, hround, hinv', rfl, rfl, fun b' hb' => ?_⟩
      obtain rfl := Option.some.inj hb'
      refine ⟨deliverable_scanHeldSegment hround, ⟨id, hid, ?_⟩, ?_⟩
      swap
      · have hle := received_le hinv' i
        simp only [ParallelScan.set, Function.update_self, ← Multiset.coe_add] at hle
        exact (Multiset.le_add_left _ _).trans hle
      obtain rfl := Option.some.inj ((h.holds.readable id hid).symm.trans hget)
      have hout : (fileReader (builders id) id).outColumns options.columns = options.columns :=
        if_neg h.nonempty
      have hpresents := presents_scanSegment (fun c hc =>
        covers_fileReader (h.holds.wf id hid) (h.columns c (hout ▸ hc))) hscan
      rwa [hout] at hpresents

/-- **A look of a worker at the shared state is steps of the parallel scan.** -/
theorem exists_look (h : table.Readable builders options prepared) (hinv : table.ScanInv options prepared par)
    (i : Fin n) : ∃ round par',
      scanParallelRound table.disk options par.global (par.workers i).state = .ok round ∧
      table.ScanInv options prepared par' ∧
      par'.workers = Function.update par.workers i (round.worker (par.workers i).received) ∧
      par'.global = par.global.afterLook (par.workers i).state ∧
      ∀ b, round.output = some b → table.Scans builders options prepared b := by
  have hok := hinv.workers i
  -- the worker is at the head of its loop
  have hhead : table.ScanInv options prepared (par.set i { par.workers i with phase := .loopHead }) :=
    hinv.set ⟨hok.holds, nofun, nofun⟩ rfl
  have hself : ((par.set i { par.workers i with phase := .loopHead }).workers i) =
      { par.workers i with phase := .loopHead } := Function.update_self ..
  have hrunning : ¬ par.global.cancelled = true := Bool.eq_false_iff.mp hinv.running
  unfold scanParallelRound ParallelScanGlobalState.afterLook
  rw [if_neg hrunning]
  rcases hhas : (par.workers i).state.hasSegment
  · rw [if_neg Bool.false_ne_true, if_neg Bool.false_ne_true]
    rcases hclaim : par.global.claimSegment with ⟨g, _ | id⟩
    · refine ⟨_, _, rfl, hhead.step h.scannable (.exhausted (w := i) (by rw [hself]) hinv.running
        (by rw [hself]; exact hhas) hclaim), ?_, rfl, nofun⟩
      simp only [ParallelScan.set, Function.update_idem, Function.update_self, ScanRound.worker]
    · obtain ⟨rfl, hid⟩ := claimSegment_eq hinv.running hclaim
      rw [hinv.snapshot] at hid
      obtain ⟨reader, hreader, -⟩ := h.scannable id (List.mem_of_getElem? hid)
      have hclaimed := hhead.step h.scannable (.claim (w := i) (by rw [hself]) hinv.running
        (by rw [hself]; exact hhas) hclaim hreader)
      obtain ⟨round, par', hround, hinv', hworkers, hglobal, hgood⟩ := exists_held h hclaimed (i := i)
        (by simp only [Function.update_self])
      simp only [Function.update_self] at hround
      refine ⟨round, par', ?_, hinv', ?_, hglobal, hgood⟩
      · simp only [hreader]
        exact hround
      · rw [hworkers]
        simp only [ParallelScan.set, Function.update_idem, Function.update_self]
  · rw [if_pos rfl, if_pos rfl]
    have hkept := hhead.step h.scannable (.keep (w := i) (by rw [hself]) hinv.running (by rw [hself]; exact hhas))
    obtain ⟨round, par', hround, hinv', hworkers, hglobal, hgood⟩ := exists_held h hkept (i := i)
      (by simp only [ParallelScan.set, Function.update_self])
    simp only [ParallelScan.set, Function.update_self] at hround
    refine ⟨round, par', hround, hinv', ?_, hglobal, hgood⟩
    rw [hworkers]
    simp only [ParallelScan.set, Function.update_idem, Function.update_self]

end Look

/-! ## The pipelines of all workers -/

/-- What the workers of a call do: the operators of `op`, over a scan of a table. -/
structure ScanTask where
  ctx : ExecutionContext
  table : OpenTable
  builders : SegmentId → SegmentBuilder
  options : ScanOptions
  prepared : List PreparedStoragePredicate
  shared : ℕ → ParallelScanGlobalState
  op : RunningOperator

namespace ScanTask

variable (task : ScanTask)

/-- The pipeline of a worker whose scan is in this state. -/
def pipeline (looks : ℕ) (localState : ParallelScanLocalState) : RunningOperator :=
  task.op.onScan (.parallelScan task.table task.options task.shared looks localState)

/-- What the operators make of a look of the scan. -/
def after (looks : ℕ) : ScanRound → Except String PipelineRound
  | .continues localState => .ok (.continues (task.pipeline looks localState))
  | .returns localState none => .ok (.returns (task.pipeline looks localState) none)
  | .returns localState (some b) => do
    match ← task.op.through task.ctx b with
    | none => return .continues (task.pipeline looks localState)
    | some output => return .returns (task.pipeline looks localState) (some output)

/-- The table can be scanned. -/
abbrev Readable : Prop := task.table.Readable task.builders task.options task.prepared

/-- A batch of the scan. -/
abbrev Scans (b : VectorBatch) : Prop := task.table.Scans task.builders task.options task.prepared b

/-- The operators above the scan fail on a batch of it. -/
def Fails : Prop := ∃ b e, task.Scans b ∧ task.op.through task.ctx b = .error e

end ScanTask

namespace ScanPool

variable {task : ScanTask} {p : ScanPool n} {par : ParallelScan (Fin n)} {inputs handed : Fin n → List VectorBatch}

/-- What has happened so far: the scans of the workers are those of `par`, have handed out `inputs`, and the pipelines
have made `handed` of it. -/
structure Traced (task : ScanTask) (p : ScanPool n) (par : ParallelScan (Fin n))
    (inputs handed : Fin n → List VectorBatch) : Prop where
  scan : task.table.ScanInv task.options task.prepared par
  global : par.global = p.scan
  unbuilt : ∀ i, p.pipelines i = none → (par.workers i).state = .reset
  built : ∀ i op, p.pipelines i = some op → ∃ looks, op = task.pipeline looks (par.workers i).state
  received : ∀ i, (par.workers i).received = (inputs i).flatMap VectorBatch.activeRows
  scans : ∀ i, ∀ b ∈ inputs i, task.Scans b
  makes : ∀ i, Makes task.ctx (inputs i) task.op (handed i)

/-- Nothing has happened yet. -/
theorem traced_start {g : ParallelScanGlobalState}
    (hbuild : PreparedScanPredicates.build task.options task.table.storage.schema = .ok task.prepared)
    (hcreate : task.table.storage.createParallelScanState task.options = .ok g) :
    Traced (n := n) task ⟨g, fun _ => none⟩ (.start g) (fun _ => []) fun _ => [] where
  scan := .start hbuild hcreate
  global := rfl
  unbuilt _ _ := rfl
  built _ _ h := by cases h
  received _ := rfl
  scans _ b h := absurd h List.not_mem_nil
  makes _ := ⟨[], rfl, rfl⟩

/-- A worker builds its pipeline. -/
theorem Traced.build (h : Traced task p par inputs handed) {i : Fin n} (hnone : p.pipelines i = none) {looks : ℕ} :
    Traced task (p.build i (task.pipeline looks .reset)) par inputs handed := by
  refine ⟨h.scan, h.global, fun j hj => ?_, fun j op hop => ?_, h.received, h.scans, h.makes⟩
  · by_cases hji : j = i
    · subst hji
      exact absurd ((Function.update_self ..).symm.trans hj) (Option.some_ne_none _)
    · exact h.unbuilt j ((Function.update_of_ne hji ..).symm.trans hj)
  · by_cases hji : j = i
    · subst hji
      refine ⟨looks, ?_⟩
      rw [h.unbuilt j hnone]
      exact Option.some.inj (hop.symm.trans (Function.update_self ..))
    · exact h.built j op ((Function.update_of_ne hji ..).symm.trans hop)

/-- What a round of a pipeline hands over. -/
def outputOf : PipelineRound → List VectorBatch
  | .returns _ (some b) => [b]
  | _ => []

/-- A round comes to what the operators make of the look of the scan. -/
theorem round_pipeline (looks : ℕ) {localState : ParallelScanLocalState} {g : ParallelScanGlobalState}
    {round : ScanRound} (hround : scanParallelRound task.table.disk task.options g localState = .ok round) :
    (task.pipeline looks localState).round task.ctx g = task.after (looks + 1) round := by
  rw [ScanTask.pipeline, round_onScan]
  rcases round with ⟨localState', _ | b⟩ | localState'
  · rw [round_parallelScan_returns hround]
    rfl
  · rw [round_parallelScan_returns hround]
    rfl
  · rw [round_parallelScan_continues hround]
    rfl

/-- A look that hands nothing to the operators, or a batch of which they make something. -/
theorem Traced.looked (h : Traced task p par inputs handed) {i : Fin n} {round : ScanRound}
    {par' : ParallelScan (Fin n)} (hinv : task.table.ScanInv task.options task.prepared par')
    (hworkers : par'.workers = Function.update par.workers i (round.worker (par.workers i).received))
    (hscans : ∀ b, round.output = some b → task.Scans b) {localState : ParallelScanLocalState}
    (hstate : ∀ received, (round.worker received).state = localState) (looks : ℕ)
    {scan : ParallelScanGlobalState} (hglobal : par'.global = scan) (out : Option VectorBatch)
    (hout : ∀ b, round.output = some b → task.op.through task.ctx b = .ok out)
    (hnone : round.output = none → out = none) :
    ∃ inputs', Traced task ⟨scan, Function.update p.pipelines i (some (task.pipeline looks localState))⟩ par' inputs'
      (Function.update handed i (handed i ++ out.toList)) := by
  refine ⟨Function.update inputs i (inputs i ++ round.output.toList), hinv, hglobal, fun j hj => ?_,
    fun j op hop => ?_, fun j => ?_, fun j b hb => ?_, fun j => ?_⟩
  · by_cases hji : j = i
    · subst hji
      exact absurd ((Function.update_self ..).symm.trans hj) (Option.some_ne_none _)
    · rw [hworkers, Function.update_of_ne hji]
      exact h.unbuilt j ((Function.update_of_ne hji ..).symm.trans hj)
  · by_cases hji : j = i
    · subst hji
      refine ⟨looks, ?_⟩
      rw [hworkers, Function.update_self, hstate]
      exact Option.some.inj (hop.symm.trans (Function.update_self ..))
    · rw [hworkers, Function.update_of_ne hji]
      exact h.built j op ((Function.update_of_ne hji ..).symm.trans hop)
  · by_cases hji : j = i
    · subst hji
      rw [hworkers, Function.update_self, Function.update_self, List.flatMap_append, ← h.received j]
      rcases round with ⟨localState', _ | b⟩ | localState' <;> simp [ScanRound.worker, ScanRound.output]
    · rw [hworkers, Function.update_of_ne hji, Function.update_of_ne hji]
      exact h.received j
  · by_cases hji : j = i
    · subst hji
      rw [Function.update_self] at hb
      rcases List.mem_append.mp hb with hold | hnew
      · exact h.scans j b hold
      · exact hscans b (Option.mem_toList.mp hnew)
    · rw [Function.update_of_ne hji] at hb
      exact h.scans j b hb
  · by_cases hji : j = i
    · subst hji
      rw [Function.update_self, Function.update_self]
      obtain ⟨outs, houts, heq⟩ := h.makes j
      rcases hb : round.output with _ | b
      · rw [hnone hb]
        refine ⟨outs, ?_, ?_⟩
        · simpa using houts
        · simpa using heq
      · refine ⟨outs ++ [out], ?_, ?_⟩
        · rw [Option.toList_some, List.mapM_append, houts, List.mapM_cons, hout b hb]
          rfl
        · rw [List.reduceOption_append, ← heq]
          rcases out with _ | c <;> rfl
    · rw [Function.update_of_ne hji, Function.update_of_ne hji]
      exact h.makes j

/-- The shared state after a round of a pipeline. -/
theorem nextSegment_pipeline (g : ParallelScanGlobalState) (looks : ℕ) (localState : ParallelScanLocalState) :
    (task.pipeline looks localState).sharedAfter g = g.afterLook localState :=
  sharedAfter_onScan ..

/-- A look moves nothing but the counter. -/
theorem afterLook_eq (g : ParallelScanGlobalState) (localState : ParallelScanLocalState) :
    g.afterLook localState = { g with nextSegment := (g.afterLook localState).nextSegment } := by
  unfold ParallelScanGlobalState.afterLook ParallelScanGlobalState.claimSegment
  split_ifs <;> rfl

/-- A round of a cancelled scan. -/
theorem Traced.cancelled (h : Traced task p par inputs handed) {i : Fin n} {looks : ℕ}
    (hop : p.pipelines i = some (task.pipeline looks (par.workers i).state)) : ∃ r op',
      (task.pipeline looks (par.workers i).state).round task.ctx (p.found true) = .ok r ∧ r = .returns op' none ∧
      Traced task (p.afterRound true i (task.pipeline looks (par.workers i).state) (.ok r)) par inputs handed := by
  have hround : scanParallelRound task.table.disk task.options (p.found true) (par.workers i).state =
      .ok (.returns (par.workers i).state none) := if_pos rfl
  refine ⟨_, _, round_pipeline looks hround, rfl, h.scan, ?_, fun j hj => ?_, fun j op hj => ?_, h.received, h.scans,
    h.makes⟩
  · have hsame : ((p.found true).afterLook (par.workers i).state).nextSegment = p.scan.nextSegment := by
      unfold ParallelScanGlobalState.afterLook ParallelScanGlobalState.claimSegment
      rw [if_pos (show (p.found true).cancelled = true from rfl)]
      split_ifs <;> rfl
    rw [h.global, ScanPool.afterRound, nextSegment_pipeline, hsame]
  · by_cases hji : j = i
    · subst hji
      exact absurd ((Function.update_self ..).symm.trans hj) (Option.some_ne_none _)
    · exact h.unbuilt j ((Function.update_of_ne hji ..).symm.trans hj)
  · by_cases hji : j = i
    · subst hji
      exact ⟨looks + 1, Option.some.inj (hj.symm.trans (Function.update_self ..))⟩
    · exact h.built j op ((Function.update_of_ne hji ..).symm.trans hj)

/-- **A round of a worker keeps what has happened**, unless some batch of the scan makes its operators fail. -/
theorem Traced.round (hread : task.Readable) (h : Traced task p par inputs handed) {i : Fin n} {op : RunningOperator}
    (hop : p.pipelines i = some op) (cancelled : Bool) :
    (task.Fails ∧ ∃ e, op.round task.ctx (p.found cancelled) = .error e) ∨
    ∃ r par' inputs', op.round task.ctx (p.found cancelled) = .ok r ∧
      Traced task (p.afterRound cancelled i op (.ok r)) par' inputs'
        (Function.update handed i (handed i ++ outputOf r)) ∧
      (∀ j, j ≠ i → par'.workers j = par.workers j) ∧
      ∀ op', r = .returns op' none → cancelled = false → (par'.workers i).phase = .finished := by
  obtain ⟨looks, rfl⟩ := h.built i op hop
  cases cancelled with
  | true =>
    obtain ⟨r, op', hr, rfl, htraced⟩ := h.cancelled hop
    refine .inr ⟨_, par, inputs, hr, ?_, fun _ _ => rfl, fun _ _ hfalse => absurd hfalse.symm Bool.false_ne_true⟩
    rwa [show outputOf (.returns op' none) = [] from rfl, List.append_nil, Function.update_eq_self]
  | false =>
    have hfound : p.found false = par.global := by
      rw [h.global, ScanPool.found, ← h.scan.running, h.global]
    obtain ⟨round, par', hround, hinv, hworkers, hglobal, hscans⟩ := exists_look hread h.scan i
    have hothers : ∀ j, j ≠ i → par'.workers j = par.workers j := fun j hji => by
      rw [hworkers, Function.update_of_ne hji]
    have hscan : par'.global = { p.scan with
        nextSegment := ((task.pipeline looks (par.workers i).state).sharedAfter (p.found false)).nextSegment } := by
      rw [hglobal, nextSegment_pipeline, hfound, ← h.global]
      exact afterLook_eq ..
    have hr := round_pipeline looks (hfound ▸ hround)
    rcases round with ⟨localState, _ | b⟩ | localState
    · obtain ⟨inputs', htraced⟩ := h.looked hinv hworkers hscans (fun _ => rfl) (looks + 1) hscan none
        (fun b hb => by cases hb) fun _ => rfl
      refine .inr ⟨_, par', inputs', hr, htraced, hothers, fun _ _ _ => ?_⟩
      rw [hworkers, Function.update_self]
      rfl
    · rcases hthrough : task.op.through task.ctx b with e | out
      · refine .inl ⟨⟨b, e, hscans b rfl, hthrough⟩, e, ?_⟩
        rw [hr, ScanTask.after, hthrough]
        rfl
      · obtain ⟨inputs', htraced⟩ := h.looked hinv hworkers hscans (fun _ => rfl) (looks + 1) hscan out
          (fun b' hb' => Option.some.inj hb' ▸ hthrough) fun hnone => by cases hnone
        simp only [ScanTask.after, hthrough] at hr
        rcases out with _ | output
        · exact .inr ⟨_, par', inputs', hr, htraced, hothers, fun _ hreturns => by cases hreturns⟩
        · exact .inr ⟨_, par', inputs', hr, htraced, hothers, fun _ hreturns => by cases hreturns⟩
    · obtain ⟨inputs', htraced⟩ := h.looked hinv hworkers hscans (fun _ => rfl) (looks + 1) hscan none
        (fun b hb => by cases hb) fun _ => rfl
      exact .inr ⟨_, par', inputs', hr, htraced, hothers, fun _ hreturns => by cases hreturns⟩

/-- The lists of all workers, one after the other. -/
theorem coe_flatMap_finRange {α : Type} (f : Fin n → List α) :
    ((List.finRange n).flatMap f : Multiset α) = ∑ i, (f i : Multiset α) := by
  rw [Fin.sum_univ_def]
  induction List.finRange n with
  | nil => rfl
  | cons i is ih => rw [List.flatMap_cons, List.map_cons, List.sum_cons, ← Multiset.coe_add, ih]

/-- **When all scans are at their end, they have handed out the rows of the table.** -/
theorem Traced.complete (h : Traced task p par inputs handed) (hn : 0 < n)
    (hfinished : ∀ i, (par.workers i).phase = .finished) :
    (((List.finRange n).flatMap inputs).flatMap VectorBatch.activeRows).Perm
      (task.table.storage.scannedRows SegmentReader.evaluatePredicates task.table.disk task.options task.prepared) := by
  have : Nonempty (Fin n) := ⟨⟨0, hn⟩⟩
  obtain ⟨-, hreceived⟩ := h.scan.received_eq hfinished
  rw [← Multiset.coe_eq_coe, ← hreceived, List.flatMap_assoc, coe_flatMap_finRange]
  exact Finset.sum_congr rfl fun i _ => congrArg _ (h.received i).symm

end ScanPool

end SimpleOlap
