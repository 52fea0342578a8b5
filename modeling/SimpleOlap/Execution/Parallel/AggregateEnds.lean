import SimpleOlap.Execution.Parallel.AggregateScan
import SimpleOlap.Execution.Parallel.QueryEnds

/-!
# Every parallel aggregate ends

* `ParallelAggregate.remaining`: the pipelines that are not built, the segments that are not claimed, and the rows and
  steps that are left; `Step.remaining_lt`: every step lowers it, in this order.
* `exists_step`: until the call has ended some thread can go on, if the pool has a thread for its tasks.
* `ParallelAggregate.always_ends`: no run of a call goes on for ever, and none stops before the call has ended.

Source: `parallel_executor.cpp` ExecuteAggregate.
-/

namespace SimpleOlap

open Lib

variable {n : ℕ}

/-- A round in the loop of a worker, in its call. -/
theorem AggregateRun.remaining_afterRound (spec : AggregateSpec)
    {run : AggregateRun HashAggregateState VectorBatch String n} {i : Fin n} {state : HashAggregateState}
    (hrunning : run.workers i = .running state) (r : Except String PipelineRound) :
    (run.afterRound spec i state r).remaining ≤ run.remaining ∧
      ((∀ round, r = .ok round → ∃ op, round = .returns op none) →
        (run.afterRound spec i state r).remaining < run.remaining) := by
  have hmoved : ∀ {w : AggregateWorker HashAggregateState String} {consumed : Fin n → List VectorBatch},
      AggregateRun.remaining { run with workers := Function.update run.workers i w, consumed } + 2 =
        run.remaining + w.remaining := by
    intro w consumed
    have htwo : (AggregateWorker.running state : AggregateWorker HashAggregateState String).remaining = 2 := rfl
    have hsum := sum_comp_update AggregateWorker.remaining run.workers i w
    rw [hrunning, htwo] at hsum
    simp only [AggregateRun.remaining]
    omega
  rcases r with e | ⟨op, _ | batch⟩ | op
  · have h := @hmoved (.caught e) run.consumed
    simp only [AggregateWorker.remaining] at h
    exact ⟨by simp only [AggregateRun.afterRound]; omega, fun _ => by simp only [AggregateRun.afterRound]; omega⟩
  · have h := @hmoved (.finished (.ok state)) run.consumed
    simp only [AggregateWorker.remaining] at h
    exact ⟨by simp only [AggregateRun.afterRound]; omega, fun _ => by simp only [AggregateRun.afterRound]; omega⟩
  · refine ⟨?_, fun hlast => ?_⟩
    · by_cases hsize : batch.size = 0
      · simp only [AggregateRun.afterRound, if_pos hsize]
        exact le_rfl
      · simp only [AggregateRun.afterRound, if_neg hsize]
        rcases HashAggregateState.consume spec state batch with e | state'
        · have h := @hmoved (.caught e) run.consumed
          simp only [AggregateWorker.remaining] at h
          dsimp only
          omega
        · have h := @hmoved (.running state') (Function.update run.consumed i (run.consumed i ++ [batch]))
          simp only [AggregateWorker.remaining] at h
          dsimp only
          omega
    · obtain ⟨op', hop'⟩ := hlast _ rfl
      cases hop'
  · refine ⟨le_rfl, fun hlast => ?_⟩
    obtain ⟨op', hop'⟩ := hlast _ rfl
    cases hop'

namespace ParallelAggregate

/-- What is left of a call: first the pipelines that are not built, then the segments that are not claimed, then the
rows of the held segments and the steps of the threads. -/
def remaining (s : ParallelAggregate n) : ℕ ×ₗ ℕ ×ₗ ℕ :=
  toLex (s.pool.unbuilt, toLex (s.pool.scan.unclaimed, s.pool.left + s.run.remaining))

theorem remaining_lt_iff {s s' : ParallelAggregate n} : s'.remaining < s.remaining ↔
    s'.pool.unbuilt < s.pool.unbuilt ∨ s'.pool.unbuilt = s.pool.unbuilt ∧
      (s'.pool.scan.unclaimed < s.pool.scan.unclaimed ∨ s'.pool.scan.unclaimed = s.pool.scan.unclaimed ∧
        s'.pool.left + s'.run.remaining < s.pool.left + s.run.remaining) := by
  simp only [remaining, Prod.Lex.toLex_lt_toLex]

section Run

variable {ctx : ExecutionContext} {plan : PhysicalPlan} {spec : AggregateSpec} {order : GroupTable → GroupTable}
  {s s' : ParallelAggregate n}

/-- **Every step of every thread leaves less to do.** -/
theorem Step.remaining_lt (hinv : AggregateRun.CallerOk s.run.workers s.run.caller)
    (h : Step ctx plan spec order s s') : s'.remaining < s.remaining := by
  rw [remaining_lt_iff]
  -- a step of the call in which nothing is consumed
  have hcall : ∀ {run}, AggregateRun.Step (spec.ops order) s.run run → run.consumed = s.run.consumed →
      s.pool.left + run.remaining < s.pool.left + s.run.remaining := fun hst hconsumed =>
    (hst.remaining_lt hinv).elim (Nat.add_lt_add_left · _) fun hne => absurd hconsumed hne
  cases h with
  | outside hout => exact .inr ⟨rfl, .inr ⟨rfl, hcall hout.step hout.consumed⟩⟩
  | submitThrows hk error hc => exact .inr ⟨rfl, .inr ⟨rfl, hcall (.submitThrows hk error hc) rfl⟩⟩
  | emits hc hdrain => exact .inr ⟨rfl, .inr ⟨rfl, hcall (.returns hc) rfl⟩⟩
  | emitFails hc hdrain => exact .inr ⟨rfl, .inr ⟨rfl, hcall (.emitThrows _ hc) rfl⟩⟩
  | consumerThrows error hc => exact .inr ⟨rfl, .inr ⟨rfl, hcall (.emitThrows error hc) rfl⟩⟩
  | builds hrunning hnone hstart => exact .inl (ScanPool.unbuilt_build hnone)
  | @buildFails i state e hrunning hnone hstart =>
    refine .inr ⟨rfl, .inr ⟨rfl, ?_⟩⟩
    have hlt := (AggregateRun.remaining_afterRound spec hrunning (.error e)).2 nofun
    exact Nat.add_lt_add_left hlt _
  | @rounds i state op r hrunning hop hround =>
    obtain ⟨hle, hlt⟩ := AggregateRun.remaining_afterRound spec hrunning r
    have hadds : (s.run.afterRound spec i state r).remaining < s.run.remaining + 1 := Nat.lt_succ_of_le hle
    have hless := ScanPool.remaining_afterRound_lt hop hround hadds hlt
    rw [Nat.one_mul, Nat.one_mul] at hless
    exact .inr ⟨ScanPool.unbuilt_afterRound hop _ r, hless⟩

/-- A round of a pipeline starts no task. -/
theorem AggregateRun.serves_afterRound (spec : AggregateSpec)
    {run : AggregateRun HashAggregateState VectorBatch String n} {i : Fin n} {state : HashAggregateState}
    (hi : run.workers i = .running state) (r : Except String PipelineRound) {threads : ℕ} :
    run.Serves threads (run.afterRound spec i state r) := by
  have hsame : run.Serves threads run := fun j hj hne => absurd hj hne
  have hmoved : ∀ {run' : AggregateRun HashAggregateState VectorBatch String n} {w},
      run'.workers = Function.update run.workers i w → run.Serves threads run' := fun hupdate =>
    AggregateRun.serves_update (fun hqueued => by
      rw [hi] at hqueued
      cases hqueued) hupdate
  rcases r with e | ⟨op, _ | batch⟩ | op
  · exact hmoved rfl
  · exact hmoved rfl
  · simp only [AggregateRun.afterRound]
    split_ifs
    · exact hsame
    · rcases HashAggregateState.consume spec state batch with e | state'
      · exact hmoved rfl
      · exact hmoved rfl
  · exact hsame

/-- **Until the call has ended some thread can go on**, and nothing interferes, if the pool has a thread for the
tasks. -/
theorem exists_step (hlive : s.run.Live) (hended : ¬ s.run.Ended) {threads : ℕ} (hthreads : 0 < threads) :
    ∃ s', Step ctx plan spec order s s' ∧ s'.interfered = s.interfered ∧ s.run.Serves threads s'.run := by
  by_cases hrunning : ∃ i state, s.run.workers i = .running state
  · obtain ⟨i, state, hi⟩ := hrunning
    rcases hop : s.pool.pipelines i with _ | op
    · rcases hstart : startPlan ctx plan with e | ⟨schema, op⟩
      · exact ⟨_, .buildFails hi hop hstart, rfl, AggregateRun.serves_afterRound spec hi (.error e)⟩
      · exact ⟨_, .builds hi hop hstart, rfl, fun j hj hne => absurd hj hne⟩
    · exact ⟨_, .rounds hi hop rfl, rfl, AggregateRun.serves_afterRound spec hi _⟩
  · by_cases hemit : s.run.caller = .emitting
    · rcases hdrain : spec.drain (s.run.merged.emitted order spec) with e | pages
      · exact ⟨_, .emitFails hemit hdrain, rfl, fun j hj hne => absurd hj hne⟩
      · exact ⟨_, .emits hemit hdrain, rfl, fun j hj hne => absurd hj hne⟩
    · have houtside : ∃ run, AggregateRun.Outside (spec.ops order) s.run run ∧ s.run.Serves threads run :=
        hlive.exists_step hended (fun i state hi => hrunning ⟨i, state, hi⟩) hemit hthreads
      obtain ⟨run, hout, hserves⟩ := houtside
      exact ⟨_, .outside hout, rfl, hserves⟩

variable {g : ParallelScanGlobalState}

theorem Reached.live (h : Reached ctx plan spec order g s) : s.run.Live := by
  refine Reachable.invariant (P := AggregateRun.Live) ?_ (fun _ _ hlive hst => hlive.step hst) h.run
  rintro _ rfl
  exact AggregateRun.live_start _ n

/-- A step on a pool of `threads` threads: a task starts only as the next one that a free thread takes. Source:
`thread_pool.h` WorkerLoop. -/
def PooledStep (threads : ℕ) (ctx : ExecutionContext) (plan : PhysicalPlan) (spec : AggregateSpec)
    (order : GroupTable → GroupTable) (s s' : ParallelAggregate n) : Prop :=
  Step ctx plan spec order s s' ∧ s.run.Serves threads s'.run

/-- The states of a call on such a pool. -/
def PooledReached (threads : ℕ) (ctx : ExecutionContext) (plan : PhysicalPlan) (spec : AggregateSpec)
    (order : GroupTable → GroupTable) (g : ParallelScanGlobalState) : ParallelAggregate n → Prop :=
  Reachable (· = start spec order n g) (PooledStep threads ctx plan spec order)

theorem PooledReached.reached {threads : ℕ} (h : PooledReached threads ctx plan spec order g s) :
    Reached ctx plan spec order g s :=
  h.mono (fun _ h => h) fun _ _ hst => hst.1

/-- **Every parallel aggregate ends**, on a pool that has a thread. Whatever the plan, the number of workers that the
configuration allows and the number of the pool's threads, whatever fails and in whatever order the threads take their
steps: no run of a call goes on for ever, and until the call has returned or thrown some thread can take a step. -/
theorem always_ends (config : ParallelConfig) {poolThreads : ℕ} (hthreads : 0 < poolThreads) (arenas : Option ℕ)
    (ctx : ExecutionContext) (plan : PhysicalPlan) (spec : AggregateSpec) (order : GroupTable → GroupTable)
    (g : ParallelScanGlobalState) :
    (∀ run : ℕ → ParallelAggregate (resolveWorkerCount config poolThreads g arenas),
      run 0 = start spec order _ g → ∃ k, ¬ PooledStep poolThreads ctx plan spec order (run k) (run (k + 1))) ∧
    ∀ s : ParallelAggregate (resolveWorkerCount config poolThreads g arenas),
      PooledReached poolThreads ctx plan spec order g s → ¬ s.run.Ended →
      ∃ s', PooledStep poolThreads ctx plan spec order s s' := by
  constructor
  · intro run hstart
    obtain ⟨k, hk⟩ := Reachable.no_endless_run remaining
      (fun s s' (hrun : Reached ctx plan spec order g s) hst => hst.remaining_lt hrun.run.callerOk) run hstart
    exact ⟨k, fun hst => hk hst.1⟩
  · exact fun s hrun hended => (exists_step hrun.reached.live hended hthreads).imp fun _ h => ⟨h.1, h.2.2⟩

/-- One worker that waits in a pool of one thread, and the caller at its future. -/
theorem always_ends_oneThread : ∃ s : ParallelAggregate 1,
    PooledReached 1 ⟨fun _ => none, fun _ => none, .scalar, id, none⟩ (.seqScan 0 [] []) ⟨[], [], []⟩ id
      ⟨[0], 0, none, false⟩ s ∧
      s.run.workers 0 = .queued ∧ s.run.caller = .merging 0 none ∧
      ∃ s', PooledStep 1 ⟨fun _ => none, fun _ => none, .scalar, id, none⟩ (.seqScan 0 [] []) ⟨[], [], []⟩ id s s' := by
  have hstart : PooledReached (n := 1) 1 ⟨fun _ => none, fun _ => none, .scalar, id, none⟩ (.seqScan 0 [] [])
      ⟨[], [], []⟩ id ⟨[0], 0, none, false⟩ (start ⟨[], [], []⟩ id 1 ⟨[0], 0, none, false⟩) := .start rfl
  have hsubmit := hstart.next ⟨.outside ⟨.submit (k := 0) Nat.one_pos rfl, fun i state hi => (by cases hi), rfl,
    fun hc => (by cases hc), fun k e hc => (by cases hc)⟩, fun i hi => by cases hi⟩
  have hmerge := hsubmit.next ⟨.outside ⟨.submitted rfl, fun i state hi => hi, rfl, fun hc => (by cases hc),
    fun k e hc => (by cases hc)⟩, fun i hi hne => absurd hi hne⟩
  obtain ⟨-, hgoes⟩ := always_ends {} Nat.one_pos none ⟨fun _ => none, fun _ => none, .scalar, id, none⟩
    (.seqScan 0 [] []) ⟨[], [], []⟩ id ⟨[0], 0, none, false⟩
  exact ⟨_, hmerge, rfl, rfl, hgoes _ hmerge fun hended => by rcases hended with hc | ⟨e, hc⟩ <;> cases hc⟩

/-- A call whose submissions succeed and whose consumer does not throw comes to its end. -/
theorem exists_ended (n : ℕ) (ctx : ExecutionContext) (plan : PhysicalPlan) (spec : AggregateSpec)
    (order : GroupTable → GroupTable) (g : ParallelScanGlobalState) : ∃ s : ParallelAggregate n,
      Reached ctx plan spec order g s ∧ s.run.Ended ∧ s.interfered = false := by
  have hreached : ∀ s : ParallelAggregate n, Reachable (· = start spec order n g)
      (fun s s' => Step ctx plan spec order s s' ∧ s'.interfered = s.interfered) s →
      Reached ctx plan spec order g s := fun s h => h.mono (fun _ h => h) fun _ _ hst => hst.1
  have hstop : ∃ s : ParallelAggregate n, Reachable (· = start spec order n g)
      (fun s s' => Step ctx plan spec order s s' ∧ s'.interfered = s.interfered) s ∧ s.run.Ended :=
    Reachable.exists_stop remaining (fun s => s.run.Ended)
      (fun s s' hrun hst => hst.1.remaining_lt (hreached s hrun).run.callerOk)
      (fun s hrun hended => (exists_step (hreached s hrun).live hended Nat.one_pos).imp fun _ h => ⟨h.1, h.2.1⟩)
      (.start rfl)
  obtain ⟨s, hrun, hended⟩ := hstop
  refine ⟨s, hreached s hrun, hended, ?_⟩
  refine Reachable.invariant (P := fun s : ParallelAggregate n => s.interfered = false) ?_ ?_ hrun
  · rintro _ rfl
    rfl
  · exact fun s s' h hst => hst.2.trans h

end Run

end ParallelAggregate

end SimpleOlap
