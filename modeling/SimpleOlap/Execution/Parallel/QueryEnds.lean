import SimpleOlap.Execution.Parallel.Dispatch
import SimpleOlap.Execution.Parallel.QueryScan
import Mathlib.Data.Prod.Lex

/-!
# Every parallel query ends

* `scanParallelRound_advances`, `round_advances`: a round of a pipeline takes a segment that nobody has claimed, or
  reads on in its own, or is the last one.
* `ScanPool.remaining_afterRound_lt`: so it leaves less to do.
* `ParallelQuery.remaining`: the pipelines that are not built, the segments that are not claimed, and the rows and
  steps that are left; `Step.remaining_lt`: every step lowers it, in this order.
* `exists_step`: until the call has ended some thread can go on, if the pool has a thread for its tasks.
* `ParallelQuery.ends`: no run of a call goes on for ever, and none stops before the call has ended;
  `ParallelQuery.exists_ended`: one that ends.

Source: `parallel_executor.cpp` ExecuteQuery, `table_storage.cpp` ScanParallel.
-/

namespace SimpleOlap

open Lib Finset

variable {n : ℕ}

/-! ## Rounds -/

/-- The segments that nobody has claimed. -/
def ParallelScanGlobalState.unclaimed (g : ParallelScanGlobalState) : ℕ := g.segmentIds.length - g.nextSegment

/-- How far a worker is from the end of the segment that it holds. -/
def ParallelScanLocalState.left (localState : ParallelScanLocalState) : ℕ :=
  match localState.hasSegment, localState.reader with
  | true, some reader => reader.rowCount - localState.cursor.offset + 1
  | _, _ => 0

/-- The state of the scan of a worker after a round. -/
def ScanRound.localState : ScanRound → ParallelScanLocalState
  | .returns localState _ | .continues localState => localState

/-- How far a pipeline is from the end of the segment of its scan. -/
def RunningOperator.left : RunningOperator → ℕ
  | .parallelScan _ _ _ _ localState => localState.left
  | .filter child _ | .projection child _ => child.left
  | _ => 0

section Rounds

variable {options : ScanOptions} {g : ParallelScanGlobalState} {localState : ParallelScanLocalState}

/-- Reading on in a segment brings its end nearer. -/
theorem left_scanHeldSegment {round : ScanRound} (hhas : localState.hasSegment = true)
    (h : scanHeldSegment options localState = .ok round) : round.localState.left < localState.left := by
  obtain ⟨segmentId, reader, cursor, hasSegment⟩ := localState
  obtain rfl : hasSegment = true := hhas
  unfold scanHeldSegment at h
  rcases reader with _ | reader
  · cases h
  dsimp only at h
  rcases hscan : scanSegment SegmentReader.evaluatePredicates reader options cursor with e | ⟨c, _ | output⟩
  · rw [hscan] at h
    cases h
  · rw [hscan] at h
    cases h
    exact Nat.succ_pos _
  · obtain ⟨hlt, hmoved⟩ := scanSegment_offset_lt hscan
    rw [hscan] at h
    have hround : round.localState = ⟨segmentId, some reader, c, true⟩ := by
      dsimp only at h
      split_ifs at h <;> cases h <;> rfl
    rw [hround]
    show reader.rowCount - c.offset + 1 < reader.rowCount - cursor.offset + 1
    omega

theorem unclaimed_afterLook_le : (g.afterLook localState).unclaimed ≤ g.unclaimed := by
  unfold ParallelScanGlobalState.afterLook ParallelScanGlobalState.claimSegment
  split_ifs
  · exact le_rfl
  · exact le_rfl
  · show g.segmentIds.length - (g.nextSegment + 1) ≤ g.segmentIds.length - g.nextSegment
    omega

/-- **A round of a scan is the last one, takes a segment or reads on.** -/
theorem scanParallelRound_advances {disk : Disk} {round : ScanRound}
    (h : scanParallelRound disk options g localState = .ok round) :
    round = .returns localState none ∨ (g.afterLook localState).unclaimed < g.unclaimed ∨
      g.afterLook localState = g ∧ round.localState.left < localState.left := by
  unfold scanParallelRound at h
  by_cases hcancel : g.cancelled = true
  · rw [if_pos hcancel] at h
    cases h
    exact .inl rfl
  rw [if_neg hcancel] at h
  rcases hhas : localState.hasSegment
  · rw [hhas, if_neg Bool.false_ne_true] at h
    have hrunning : g.cancelled = false := Bool.eq_false_iff.mpr hcancel
    rcases hclaim : g.claimSegment with ⟨g', _ | id⟩
    · simp only [hclaim] at h
      cases h
      exact .inl rfl
    · obtain ⟨rfl, hid⟩ := claimSegment_eq hrunning hclaim
      have hlt := (List.getElem?_eq_some_iff.mp hid).1
      refine .inr (.inl ?_)
      unfold ParallelScanGlobalState.afterLook
      rw [hhas, if_neg Bool.false_ne_true, hclaim]
      show g.segmentIds.length - (g.nextSegment + 1) < g.segmentIds.length - g.nextSegment
      omega
  · rw [hhas, if_pos rfl] at h
    refine .inr (.inr ⟨?_, left_scanHeldSegment hhas h⟩)
    unfold ParallelScanGlobalState.afterLook
    rw [hhas, if_pos rfl]

variable {ctx : ExecutionContext} {op : RunningOperator}

theorem unclaimed_sharedAfter_le : (op.sharedAfter g).unclaimed ≤ g.unclaimed := by
  induction op with
  | parallelScan table options shared looks localState => exact unclaimed_afterLook_le
  | filter child predicate ih | projection child expressions ih => exact ih
  | _ => exact le_rfl

/-- The list of segments stays as it is. -/
theorem segmentIds_sharedAfter : (op.sharedAfter g).segmentIds = g.segmentIds := by
  induction op with
  | parallelScan table options shared looks localState =>
    show (g.afterLook localState).segmentIds = _
    unfold ParallelScanGlobalState.afterLook ParallelScanGlobalState.claimSegment
    split_ifs <;> rfl
  | filter child predicate ih | projection child expressions ih => exact ih
  | _ => rfl

/-- An operator above a pipeline advances as the pipeline does. -/
theorem PipelineRound.change_advances (wrap : RunningOperator → RunningOperator)
    {next : VectorBatch → Except String (Option VectorBatch)} {r r' : PipelineRound} {l : ℕ} {P Q : Prop}
    (hwrap : ∀ child, (wrap child).left = child.left) (hr : r.change wrap next = .ok r')
    (h : (∃ child, r = .returns child none ∧ child.left = l) ∨ P ∨ Q ∧ r.op.left < l) :
    (∃ op, r' = .returns op none ∧ op.left = l) ∨ P ∨ Q ∧ r'.op.left < l := by
  rcases h with ⟨child, rfl, hleft⟩ | hP | ⟨hQ, hlt⟩
  · cases hr
    exact .inl ⟨wrap child, rfl, (hwrap child).trans hleft⟩
  · exact .inr (.inl hP)
  · refine .inr (.inr ⟨hQ, ?_⟩)
    rw [PipelineRound.op_change hr, hwrap]
    exact hlt

/-- **A round of a pipeline is the last one, takes a segment or reads on.** -/
theorem round_advances {r : PipelineRound} (h : op.round ctx g = .ok r) :
    (∃ op', r = .returns op' none ∧ op'.left = op.left) ∨ (op.sharedAfter g).unclaimed < g.unclaimed ∨
      op.sharedAfter g = g ∧ r.op.left < op.left := by
  induction op generalizing r with
  | parallelScan table options shared looks localState =>
    obtain ⟨round, hround, h⟩ := bind_eq_ok h
    rcases scanParallelRound_advances hround with rfl | hclaimed | ⟨hsame, hlt⟩
    · cases h
      exact .inl ⟨_, rfl, rfl⟩
    · exact .inr (.inl hclaimed)
    · refine .inr (.inr ⟨hsame, ?_⟩)
      cases round <;> cases h <;> exact hlt
  | filter child predicate ih =>
    obtain ⟨below, hbelow, hchange⟩ := bind_eq_ok h
    exact PipelineRound.change_advances (.filter · predicate) (fun _ => rfl) hchange (ih hbelow)
  | projection child expressions ih =>
    obtain ⟨below, hbelow, hchange⟩ := bind_eq_ok h
    exact PipelineRound.change_advances (.projection · expressions) (fun _ => rfl) hchange (ih hbelow)
  | _ => cases h

end Rounds

/-! ## Steps that are left -/

namespace ScanPool

/-- The pipelines that are not built. -/
def unbuilt (p : ScanPool n) : ℕ := #{i | p.pipelines i = none}

/-- How far the pipelines are from the ends of their segments. -/
def left (p : ScanPool n) : ℕ := ∑ i, (p.pipelines i).elim 0 RunningOperator.left

variable {p : ScanPool n} {i : Fin n} {op op' : RunningOperator}

theorem unbuilt_build (hnone : p.pipelines i = none) : (p.build i op).unbuilt < p.unbuilt := by
  refine card_lt_card ⟨fun j hj => ?_, fun hsub => ?_⟩
  · rw [mem_filter] at hj ⊢
    refine ⟨hj.1, ?_⟩
    by_cases hji : j = i
    · exact hji ▸ hnone
    · exact (Function.update_of_ne hji ..).symm.trans hj.2
  · have hi := (mem_filter.mp (hsub (mem_filter.mpr ⟨mem_univ i, hnone⟩))).2
    have hself : (p.build i op).pipelines i = some op := Function.update_self ..
    exact Option.some_ne_none op (hself.symm.trans hi)

/-- A round of a pipeline builds none. -/
theorem unbuilt_afterRound (hop : p.pipelines i = some op) (cancelled : Bool) (r : Except String PipelineRound) :
    (p.afterRound cancelled i op r).unbuilt = p.unbuilt := by
  rcases r with e | r
  · rfl
  · refine congrArg card (filter_congr fun j _ => ?_)
    show Function.update p.pipelines i (some r.op) j = none ↔ _
    by_cases hji : j = i
    · subst hji
      rw [Function.update_self, hop]
      exact iff_of_false (Option.some_ne_none _) (Option.some_ne_none _)
    · rw [Function.update_of_ne hji]

/-- One pipeline goes on. -/
theorem left_afterRound (hop : p.pipelines i = some op) (cancelled : Bool) (r : PipelineRound) :
    (p.afterRound cancelled i op (.ok r)).left + op.left = p.left + r.op.left := by
  have hsum := sum_comp_update (fun o => o.elim 0 RunningOperator.left) p.pipelines i (some r.op)
  rw [hop] at hsum
  exact hsum

/-- A round claims segments, and gives none back. -/
theorem unclaimed_afterRound (cancelled : Bool) (r : Except String PipelineRound) :
    (p.afterRound cancelled i op r).scan.unclaimed = (op.sharedAfter (p.found cancelled)).unclaimed := by
  show p.scan.segmentIds.length - (op.sharedAfter (p.found cancelled)).nextSegment =
    (op.sharedAfter (p.found cancelled)).segmentIds.length - (op.sharedAfter (p.found cancelled)).nextSegment
  rw [segmentIds_sharedAfter]
  rfl

/-- **A round claims a segment, or leaves less to do**: what is left of the held segments, weighted by more than the
steps that the round can add, and the steps of the call. -/
theorem remaining_afterRound_lt {ctx : ExecutionContext} (hop : p.pipelines i = some op) {cancelled : Bool}
    {r : Except String PipelineRound} (hround : op.round ctx (p.found cancelled) = r) {weight steps steps' : ℕ}
    (hadds : steps' < steps + weight)
    (hlast : (∀ round, r = .ok round → ∃ op', round = .returns op' none) → steps' < steps) :
    (p.afterRound cancelled i op r).scan.unclaimed < p.scan.unclaimed ∨
      (p.afterRound cancelled i op r).scan.unclaimed = p.scan.unclaimed ∧
        weight * (p.afterRound cancelled i op r).left + steps' < weight * p.left + steps := by
  rw [unclaimed_afterRound]
  have hclaimed : (op.sharedAfter (p.found cancelled)).unclaimed ≤ p.scan.unclaimed :=
    unclaimed_sharedAfter_le (g := p.found cancelled)
  refine (Nat.lt_or_eq_of_le hclaimed).imp_right fun hsame => ⟨hsame, ?_⟩
  rcases r with e | r
  · exact Nat.add_lt_add_left (hlast fun round heq => by cases heq) _
  · have hleft := left_afterRound hop cancelled r
    rcases round_advances hround with ⟨op', rfl, hends⟩ | hnew | ⟨-, hread⟩
    · have hop' : (PipelineRound.returns op' none).op.left = op.left := hends
      rw [show (p.afterRound cancelled i op (.ok (.returns op' none))).left = p.left by omega]
      exact Nat.add_lt_add_left (hlast fun round heq => ⟨op', (Except.ok.inj heq).symm⟩) _
    · exact absurd hsame hnew.ne
    · have hless : (p.afterRound cancelled i op (.ok r)).left + 1 ≤ p.left := by omega
      have hweighted := Nat.mul_le_mul_left weight hless
      rw [Nat.mul_succ] at hweighted
      omega

end ScanPool

/-- A round in the loop of a worker, in its call. -/
theorem remaining_afterRound {run : QueryRun VectorBatch String n} {i : Fin n} (hrunning : run.workers i = .running)
    (r : Except String PipelineRound) : (run.afterRound i r).remaining ≤ run.remaining + 4 ∧
      ((∀ round, r = .ok round → ∃ op, round = .returns op none) → (run.afterRound i r).remaining < run.remaining) := by
  have hmoved : ∀ {w : QueryWorker VectorBatch String} {sh : QueryShared VectorBatch String n},
      sh.results = run.shared.results →
      QueryRun.remaining { run with workers := Function.update run.workers i w, shared := sh } + 7 =
        run.remaining + w.remaining := by
    intro w sh hresults
    have hseven : (QueryWorker.running : QueryWorker VectorBatch String).remaining = 7 := rfl
    have hsum := QueryRun.sum_update_remaining run.workers i w
    rw [hrunning, hseven] at hsum
    simp only [QueryRun.remaining, hresults]
    omega
  rcases r with e | ⟨op, _ | batch⟩ | op
  · have h := @hmoved (.caught e) { run.shared with thrown := Function.update run.shared.thrown i (some e) } rfl
    simp only [QueryWorker.remaining] at h
    exact ⟨by simp only [QueryRun.afterRound]; omega, fun _ => by simp only [QueryRun.afterRound]; omega⟩
  · have h := @hmoved .exiting (if run.shared.scanCancelled then
      { run.shared with stopped := Function.update run.shared.stopped i true } else run.shared) (by split_ifs <;> rfl)
    simp only [QueryWorker.remaining] at h
    exact ⟨by simp only [QueryRun.afterRound]; omega, fun _ => by simp only [QueryRun.afterRound]; omega⟩
  · refine ⟨?_, fun hlast => ?_⟩
    · by_cases hsize : batch.size = 0
      · simp only [QueryRun.afterRound, if_pos hsize]
        omega
      · have h := @hmoved (.pushing batch) { run.shared with
          produced := Function.update run.shared.produced i (run.shared.produced i ++ [batch]) } rfl
        simp only [QueryWorker.remaining] at h
        simp only [QueryRun.afterRound, if_neg hsize]
        omega
    · obtain ⟨op', hop'⟩ := hlast _ rfl
      cases hop'
  · refine ⟨Nat.le_add_right _ _, fun hlast => ?_⟩
    obtain ⟨op', hop'⟩ := hlast _ rfl
    cases hop'

/-- A call ends by returning or throwing. -/
theorem QueryCaller.Ended.cases {β ε : Type} {c : QueryCaller β ε} (h : c.Ended) :
    c = .returned ∨ ∃ e, c = .threw e := by
  cases c with
  | returned => exact .inl rfl
  | threw e => exact .inr ⟨e, rfl⟩
  | _ => exact h.elim

namespace ParallelQuery

/-- What is left of a call: first the pipelines that are not built, then the segments that are not claimed, then the
rows of the held segments and the steps of the threads. -/
def remaining (s : ParallelQuery n) : ℕ ×ₗ ℕ ×ₗ ℕ :=
  toLex (s.pool.unbuilt, toLex (s.pool.scan.unclaimed, 5 * s.pool.left + s.run.remaining))

theorem remaining_lt_iff {s s' : ParallelQuery n} : s'.remaining < s.remaining ↔
    s'.pool.unbuilt < s.pool.unbuilt ∨ s'.pool.unbuilt = s.pool.unbuilt ∧
      (s'.pool.scan.unclaimed < s.pool.scan.unclaimed ∨ s'.pool.scan.unclaimed = s.pool.scan.unclaimed ∧
        5 * s'.pool.left + s'.run.remaining < 5 * s.pool.left + s.run.remaining) := by
  simp only [remaining, Prod.Lex.toLex_lt_toLex]

section Run

variable {ctx : ExecutionContext} {plan : PhysicalPlan} {s s' : ParallelQuery n} {f : QueryFailure}

/-- **Every step of every thread leaves less to do.** -/
theorem Step.remaining_lt (hinv : s.run.Inv VectorBatch.size) (h : Step ctx plan s f s') :
    s'.remaining < s.remaining := by
  rw [remaining_lt_iff]
  cases h with
  | outside h hloop hmoves =>
    refine .inr ⟨rfl, .inr ⟨rfl, ?_⟩⟩
    rcases h.remaining_lt hinv with hsame | hproduced | hlt
    · exact absurd hsame hmoves
    · exact absurd (produced_outside h hloop).1 hproduced
    · exact Nat.add_lt_add_left hlt _
  | builds hrunning hnone hstart => exact .inl (ScanPool.unbuilt_build hnone)
  | @buildFails i e hrunning hnone hstart =>
    refine .inr ⟨rfl, .inr ⟨rfl, ?_⟩⟩
    have hlt := (remaining_afterRound hrunning (.error e)).2 nofun
    exact Nat.add_lt_add_left hlt _
  | @rounds i op r hrunning hop hround =>
    obtain ⟨hle, hlt⟩ := remaining_afterRound hrunning r
    exact .inr ⟨ScanPool.unbuilt_afterRound hop _ r,
      ScanPool.remaining_afterRound_lt hop hround (Nat.lt_succ_of_le hle) hlt⟩

/-- A round of a pipeline leaves the other tasks alone. -/
theorem QueryRun.workers_afterRound {run : QueryRun VectorBatch String n} {i j : Fin n} (hji : j ≠ i)
    (r : Except String PipelineRound) : (run.afterRound i r).workers j = run.workers j := by
  rcases r with e | ⟨op, _ | batch⟩ | op
  · exact Function.update_of_ne hji ..
  · exact Function.update_of_ne hji ..
  · simp only [QueryRun.afterRound]
    split_ifs
    · rfl
    · exact Function.update_of_ne hji ..
  · rfl

/-- A round of a pipeline starts no task. -/
theorem QueryRun.serves_afterRound {run : QueryRun VectorBatch String n} {i : Fin n} (hi : run.workers i = .running)
    (r : Except String PipelineRound) {threads : ℕ} : run.Serves threads (run.afterRound i r) := by
  intro j hj hne
  have hji : j ≠ i := by
    rintro rfl
    rw [hi] at hj
    cases hj
  exact absurd ((QueryRun.workers_afterRound hji r).trans hj) hne

/-- **Until the call has ended some thread can go on**, if the pool has a thread for its tasks. -/
theorem exists_step (hinv : s.run.Inv VectorBatch.size) (hlive : s.run.Live) (hended : ¬ s.run.caller.Ended)
    {threads : ℕ} (hthreads : 0 < threads) :
    ∃ s', Step ctx plan s .none s' ∧ s.run.Serves threads s'.run := by
  by_cases hrunning : ∃ i, s.run.workers i = .running
  · obtain ⟨i, hi⟩ := hrunning
    rcases hop : s.pool.pipelines i with _ | op
    · rcases hstart : startPlan ctx plan with e | ⟨schema, op⟩
      · exact ⟨_, .buildFails hi hop hstart, QueryRun.serves_afterRound hi (.error e)⟩
      · exact ⟨_, .builds hi hop hstart, fun j hj hne => absurd hj hne⟩
    · exact ⟨_, .rounds hi hop rfl, QueryRun.serves_afterRound hi _⟩
  · obtain ⟨run, hst, hlt, hserves⟩ := hlive.exists_served_step hinv hended hthreads
    exact ⟨_, .outside hst (fun i hi => absurd ⟨i, hi⟩ hrunning) (fun hsame => Nat.lt_irrefl _ (hsame ▸ hlt)),
      hserves⟩

variable {capacity : ℕ} {g : ParallelScanGlobalState}

theorem Reached.live (hn : 0 < n) (h : Reached ctx plan capacity g s) : s.run.Live := h.run.live hn

/-- A step on a pool of `threads` threads: a task starts only as the next one that a free thread takes. Source:
`thread_pool.h` WorkerLoop. -/
def PooledStep (threads : ℕ) (ctx : ExecutionContext) (plan : PhysicalPlan) (s : ParallelQuery n) (f : QueryFailure)
    (s' : ParallelQuery n) : Prop :=
  Step ctx plan s f s' ∧ s.run.Serves threads s'.run

/-- The states of a call on such a pool. -/
def PooledReached (threads : ℕ) (ctx : ExecutionContext) (plan : PhysicalPlan) (capacity : ℕ)
    (g : ParallelScanGlobalState) : ParallelQuery n → Prop :=
  Reachable (· = start n capacity g) fun s s' => ∃ f, PooledStep threads ctx plan s f s'

theorem PooledReached.reached {threads : ℕ} (h : PooledReached threads ctx plan capacity g s) :
    Reached ctx plan capacity g s :=
  h.mono (fun _ h => h) fun _ _ ⟨f, hst⟩ => ⟨f, hst.1⟩

/-- **Every parallel query ends**, on a pool that has a thread. Whatever the plan, the number of workers that the
configuration allows and the number of the pool's threads, whatever fails and in whatever order the threads take their
steps: no run of a call goes on for ever, and until the call has returned or thrown some thread can take a step. -/
theorem ends (config : ParallelConfig) {poolThreads : ℕ} (hthreads : 0 < poolThreads) (arenas : Option ℕ)
    (ctx : ExecutionContext) (plan : PhysicalPlan) (g : ParallelScanGlobalState) :
    (∀ run : ℕ → ParallelQuery (resolveWorkerCount config poolThreads g arenas),
      run 0 = start _ config.resultQueueCapacity g →
      ∃ k, ∀ f, ¬ PooledStep poolThreads ctx plan (run k) f (run (k + 1))) ∧
    ∀ s : ParallelQuery (resolveWorkerCount config poolThreads g arenas),
      PooledReached poolThreads ctx plan config.resultQueueCapacity g s → ¬ s.run.caller.Ended →
      ∃ s', PooledStep poolThreads ctx plan s .none s' := by
  constructor
  · intro run hstart
    obtain ⟨k, hk⟩ := Reachable.no_endless_run remaining
      (fun s s' (hrun : Reached ctx plan config.resultQueueCapacity g s) ⟨f, hst⟩ => hst.remaining_lt hrun.inv) run hstart
    exact ⟨k, fun f hst => hk ⟨f, hst.1⟩⟩
  · intro s hrun hended
    exact exists_step hrun.reached.inv (hrun.reached.live (resolveWorkerCount_pos config poolThreads g arenas)) hended
      hthreads

/-- One worker that waits in a pool of one thread, and the caller in `Pop`. -/
theorem ends_oneThread : ∃ s : ParallelQuery 1,
    PooledReached 1 ⟨fun _ => none, fun _ => none, .scalar, id, none⟩ (.seqScan 0 [] []) 64 ⟨[0], 0, none, false⟩ s ∧
      s.run.workers 0 = .queued ∧ s.run.caller = .popping ∧
      ∃ s', PooledStep 1 ⟨fun _ => none, fun _ => none, .scalar, id, none⟩ (.seqScan 0 [] []) s .none s' := by
  have hstart : PooledReached (n := 1) 1 ⟨fun _ => none, fun _ => none, .scalar, id, none⟩ (.seqScan 0 [] []) 64
      ⟨[0], 0, none, false⟩ (start 1 64 ⟨[0], 0, none, false⟩) := .start rfl
  have hsubmit := hstart.next ⟨.none, .outside (.submit (k := 0) Nat.one_pos rfl) (fun i hi => by cases hi)
    (fun hsame => by cases congrArg QueryRun.caller hsame), fun i hi => by cases hi⟩
  have hpop := hsubmit.next ⟨.none, .outside (.submitted rfl) (fun i hi => hi)
    (fun hsame => by cases congrArg QueryRun.caller hsame), fun i hi hne => absurd hi hne⟩
  obtain ⟨-, hgoes⟩ := ends {} Nat.one_pos none ⟨fun _ => none, fun _ => none, .scalar, id, none⟩ (.seqScan 0 [] [])
    ⟨[0], 0, none, false⟩
  exact ⟨_, hpop, rfl, rfl, hgoes _ hpop id⟩

/-- A call whose submissions succeed and whose consumer does not throw comes to its end. -/
theorem exists_ended (hn : 0 < n) (ctx : ExecutionContext) (plan : PhysicalPlan) (capacity : ℕ)
    (g : ParallelScanGlobalState) : ∃ s : ParallelQuery n, Reached ctx plan capacity g s ∧ s.run.caller.Ended ∧
      s.run.shared.withdrawn = false ∧ s.run.consumerThrew = false := by
  have hreached : ∀ s : ParallelQuery n, Reachable (· = start n capacity g)
      (fun s s' => ∃ f, Step ctx plan s f s' ∧ f = .none) s → Reached ctx plan capacity g s := fun s h =>
    h.mono (fun _ h => h) fun _ _ ⟨f, hst, _⟩ => ⟨f, hst⟩
  have hstop : ∃ s : ParallelQuery n, Reachable (· = start n capacity g)
      (fun s s' => ∃ f, Step ctx plan s f s' ∧ f = .none) s ∧ s.run.caller.Ended :=
    Reachable.exists_stop remaining (fun s => s.run.caller.Ended)
      (fun s s' hrun ⟨f, hst, _⟩ => hst.remaining_lt (hreached s hrun).inv)
      (fun s hrun hended => (exists_step (hreached s hrun).inv ((hreached s hrun).live hn) hended Nat.one_pos).imp
        fun s' h => ⟨.none, h.1, rfl⟩)
      (.start rfl)
  obtain ⟨s, hrun, hended⟩ := hstop
  exact ⟨s, hreached s hrun, hended, (reached_run (· = .none) hrun).smooth⟩

end Run

end ParallelQuery

end SimpleOlap
