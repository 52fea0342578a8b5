import SimpleOlap.Execution.Aggregate.ParallelAggregate
import SimpleOlap.Execution.Parallel.AggregateRuns
import SimpleOlap.Execution.Parallel.ScanPool
import SimpleOlap.Execution.SerialSelect

/-!
# The parallel aggregate with its scan

* `ParallelAggregate`: a call of `ExecuteAggregate` with the pipelines of its workers on one scan;
  `ParallelAggregate.Step`: one step of one thread, where a worker in its loop makes a round of its pipeline.
* `Step.run`: such a step is a step of the call, or changes nothing in it.
* `ParallelAggregate.Traced`, `Traced.step`: what the workers have consumed is what their pipelines make of the scan,
  and nothing has failed besides a submission or the consumer; `Reached.traced`: so it is in every state of a call.
* `Traced.collected`: in the end the states of all workers, of all rows of the scan, are merged.

Source: `parallel_executor.cpp` ExecuteAggregate.
-/

namespace SimpleOlap

open Lib

variable {n : ℕ}

/-! ## Steps -/

/-- The calls on an aggregate state; `order` is the order in which a hash table is gone through. -/
def AggregateSpec.ops (spec : AggregateSpec) (order : GroupTable → GroupTable) :
    AggregateOps HashAggregateState VectorBatch String :=
  ⟨spec.initial, HashAggregateState.consume spec, HashAggregateState.merge spec order⟩

/-- A call of `ExecuteAggregate`, with the scan that its workers share, the pages that its consumer has got when it
returns, and whether a submission has failed or the consumer has thrown. -/
structure ParallelAggregate (n : ℕ) where
  run : AggregateRun HashAggregateState VectorBatch String n
  pool : ScanPool n
  delivered : List (List (List ExecValue))
  interfered : Bool

/-- The loop of a worker with this state after a round of its pipeline. Source: `parallel_executor.cpp`
ExecuteAggregate, the task. -/
def AggregateRun.afterRound (spec : AggregateSpec) (s : AggregateRun HashAggregateState VectorBatch String n) (i : Fin n)
    (state : HashAggregateState) :
    Except String PipelineRound → AggregateRun HashAggregateState VectorBatch String n
  | .error e => { s with workers := Function.update s.workers i (.caught e) }
  | .ok (.continues _) => s
  | .ok (.returns _ none) => { s with workers := Function.update s.workers i (.finished (.ok state)) }
  | .ok (.returns _ (some batch)) =>
    if batch.size = 0 then s
    else match HashAggregateState.consume spec state batch with
      | .error e => { s with workers := Function.update s.workers i (.caught e) }
      | .ok state' => { s with
          workers := Function.update s.workers i (.running state')
          consumed := Function.update s.consumed i (s.consumed i ++ [batch]) }

namespace ParallelAggregate

/-- The call after `worker_count` is known, with the shared state of its scan. -/
def start (spec : AggregateSpec) (order : GroupTable → GroupTable) (n : ℕ) (g : ParallelScanGlobalState) :
    ParallelAggregate n :=
  ⟨.start (spec.ops order) n, ⟨g, fun _ => none⟩, [], false⟩

/-- One step of one thread. A worker that is in its loop builds its pipeline and makes rounds of it; the calling thread
gives the groups to the consumer. Any submitted
task may start; on a pool it is the next one (`AggregateRun.Serves`). Source: `parallel_executor.cpp` ExecuteAggregate. -/
inductive Step (ctx : ExecutionContext) (plan : PhysicalPlan) (spec : AggregateSpec) (order : GroupTable → GroupTable) :
    ParallelAggregate n → ParallelAggregate n → Prop
  | outside {s : ParallelAggregate n} {run : AggregateRun HashAggregateState VectorBatch String n}
      (h : AggregateRun.Outside (spec.ops order) s.run run) : Step ctx plan spec order s { s with run }
  | submitThrows {s : ParallelAggregate n} {k : ℕ} (hk : k < n) (error : String) (h : s.run.caller = .submitting k) :
      Step ctx plan spec order s
        { s with run := { s.run with caller := .submitFailed k error }, interfered := true }
  | builds {s : ParallelAggregate n} {i : Fin n} {state : HashAggregateState} {schema : ExecSchema}
      {op : RunningOperator} (hrunning : s.run.workers i = .running state) (hnone : s.pool.pipelines i = none)
      (hstart : startPlan ctx plan = .ok (schema, op)) :
      Step ctx plan spec order s { s with pool := s.pool.build i op }
  | buildFails {s : ParallelAggregate n} {i : Fin n} {state : HashAggregateState} {e : String}
      (hrunning : s.run.workers i = .running state) (hnone : s.pool.pipelines i = none)
      (hstart : startPlan ctx plan = .error e) :
      Step ctx plan spec order s { s with run := s.run.afterRound spec i state (.error e) }
  | rounds {s : ParallelAggregate n} {i : Fin n} {state : HashAggregateState} {op : RunningOperator}
      {r : Except String PipelineRound} (hrunning : s.run.workers i = .running state)
      (hop : s.pool.pipelines i = some op) (hround : op.round ctx (s.pool.found s.run.scanCancelled) = r) :
      Step ctx plan spec order s
        { s with run := s.run.afterRound spec i state r, pool := s.pool.afterRound s.run.scanCancelled i op r }
  | emits {s : ParallelAggregate n} {pages : List (List (List ExecValue))} (h : s.run.caller = .emitting)
      (hdrain : spec.drain (s.run.merged.emitted order spec) = .ok pages) :
      Step ctx plan spec order s { s with run := { s.run with caller := .returned }, delivered := pages }
  | emitFails {s : ParallelAggregate n} {error : String} (h : s.run.caller = .emitting)
      (hdrain : spec.drain (s.run.merged.emitted order spec) = .error error) :
      Step ctx plan spec order s { s with run := { s.run with caller := .threw error } }
  | consumerThrows {s : ParallelAggregate n} (error : String) (h : s.run.caller = .emitting) :
      Step ctx plan spec order s { s with run := { s.run with caller := .threw error }, interfered := true }

/-- The states of a call. -/
def Reached (ctx : ExecutionContext) (plan : PhysicalPlan) (spec : AggregateSpec) (order : GroupTable → GroupTable)
    (g : ParallelScanGlobalState) : ParallelAggregate n → Prop :=
  Reachable (· = start spec order n g) (Step ctx plan spec order)

section Run

variable {ctx : ExecutionContext} {plan : PhysicalPlan} {spec : AggregateSpec} {order : GroupTable → GroupTable}
  {s s' : ParallelAggregate n}

/-- A round is a step of the call, or changes nothing in it. -/
theorem run_afterRound {run : AggregateRun HashAggregateState VectorBatch String n} {i : Fin n}
    {state : HashAggregateState} (hrunning : run.workers i = .running state) (r : Except String PipelineRound) :
    run.afterRound spec i state r = run ∨
      AggregateRun.Step (spec.ops order) run (run.afterRound spec i state r) := by
  rcases r with e | ⟨op, _ | batch⟩ | op
  · exact .inr (.throws e hrunning)
  · exact .inr (.ends hrunning)
  · by_cases hsize : batch.size = 0
    · exact .inl (if_pos hsize)
    · refine .inr ?_
      rw [AggregateRun.afterRound, if_neg hsize]
      rcases hconsume : HashAggregateState.consume spec state batch with e | state'
      · exact .throws e hrunning
      · exact .consumes batch hrunning hconsume
  · exact .inl rfl

/-- **A step of the aggregate is a step of the call**, or changes nothing in it. -/
theorem Step.run (h : Step ctx plan spec order s s') :
    s'.run = s.run ∨ AggregateRun.Step (spec.ops order) s.run s'.run := by
  cases h with
  | outside h => exact .inr h.step
  | submitThrows hk error hc => exact .inr (.submitThrows hk error hc)
  | builds hrunning hnone hstart => exact .inl rfl
  | @buildFails _ _ e hrunning hnone hstart => exact run_afterRound hrunning (.error e)
  | @rounds _ _ _ r hrunning hop hround => exact run_afterRound hrunning r
  | emits hc hdrain => exact .inr (.returns hc)
  | emitFails hc hdrain => exact .inr (.emitThrows _ hc)
  | consumerThrows error hc => exact .inr (.emitThrows error hc)

/-- **A run of the aggregate is a run of the call.** -/
theorem Reached.run {g : ParallelScanGlobalState} (h : Reached ctx plan spec order g s) :
    AggregateRun.Reached (spec.ops order) s.run := by
  induction h with
  | start h => exact .start (congrArg ParallelAggregate.run h)
  | next _ hst ih =>
    rcases hst.run with hsame | hstep
    · exact hsame ▸ ih
    · exact ih.next hstep

end Run

end ParallelAggregate

/-! ## Steps outside the loops -/

namespace AggregateRun

variable {σ β ε : Type} {ops : AggregateOps σ β ε} {s s' : AggregateRun σ β ε n} {P : β → Prop} {Good : σ → Prop}

/-- No task fails in them. -/
theorem Outside.not_broken (h : Outside ops s s') (hfine : ¬ s.Broken) : ¬ s'.Broken := by
  obtain ⟨hst, hloop, -, -, -⟩ := h
  rintro ⟨j, e, hj⟩
  -- a task that takes a step has not failed, or had failed before
  have hkeep : ∀ {i : Fin n} {w : AggregateWorker σ ε}, s'.workers = Function.update s.workers i w →
      w ≠ .caught e → w ≠ .finished (.error e) → False := by
    intro i w hworkers hcaught hfinished
    rw [hworkers] at hj
    by_cases hji : j = i
    · subst hji
      rw [Function.update_self] at hj
      exact hj.elim hcaught hfinished
    · rw [Function.update_of_ne hji] at hj
      exact hfine ⟨j, e, hj⟩
  cases hst with
  | start hw => exact hkeep rfl (by simp) (by simp)
  | consumes batch hw hconsume => exact hkeep rfl (by simp) (by simp)
  | submit hk hc => exact hkeep rfl (by simp) (by simp)
  | @throws i state error hw =>
    cases (hloop i state hw).symm.trans (Function.update_self ..)
  | ends hw => exact hkeep rfl (by simp) (by simp)
  | @cancels i error hw => exact hfine ⟨i, error, .inl hw⟩
  | _ => exact hfine ⟨j, e, hj⟩

/-- No task ends in them, unless it fails. -/
theorem Outside.finished (h : Outside ops s s') {i : Fin n} {state : σ} (hi : s'.workers i = .finished (.ok state)) :
    s.workers i = .finished (.ok state) := by
  obtain ⟨hst, hloop, -, -, -⟩ := h
  have hkeep : ∀ {j : Fin n} {w : AggregateWorker σ ε}, s'.workers = Function.update s.workers j w →
      w ≠ .finished (.ok state) → s.workers i = .finished (.ok state) := by
    intro j w hworkers hw
    rw [hworkers] at hi
    by_cases hij : i = j
    · subst hij
      rw [Function.update_self] at hi
      exact absurd hi hw
    · rwa [Function.update_of_ne hij] at hi
  cases hst with
  | start hw => exact hkeep rfl (by simp)
  | consumes batch hw hconsume => exact hkeep rfl (by simp)
  | submit hk hc => exact hkeep rfl (by simp)
  | throws error hw => exact hkeep rfl (by simp)
  | cancels hw => exact hkeep rfl (by simp)
  | @ends j state' hw =>
    cases (hloop j state' hw).symm.trans (Function.update_self ..)
  | _ => exact hi

/-- **While no merge has failed, the call does not give up in them.** -/
theorem Outside.givenUp (h : Outside ops s s') (hunharmed : Unharmed Good s.merged s.caller)
    (hgiven : s'.caller.GivenUp) : s.caller.GivenUp := by
  obtain ⟨hst, -, -, hcaller, hsubmits⟩ := h
  cases hst with
  | submit hk hc | submitted hc | merges hn hc | merged hc => exact absurd hgiven id
  | @submitThrows k hk error hc =>
    rw [hsubmits k error rfl]
    exact True.intro
  | cancelsScan hc | abandon hj hn hc | abandoned hc =>
    rw [hc]
    exact True.intro
  | rethrows hc =>
    rw [hc] at hunharmed
    cases hunharmed.1
  | emitThrows error hc | returns hc => exact absurd hc hcaller
  | _ => exact hgiven

/-- Nor is the scan cancelled in them, until the call has given up. -/
theorem Outside.scanCancelled (h : Outside ops s s') (hfine : ¬ s.Broken)
    (hcancelled : s.scanCancelled = true → s.caller.GivenUp) (hscan : s'.scanCancelled = true) : s'.caller.GivenUp := by
  have hst := h.step
  have hbefore : s.scanCancelled = true → s'.caller.GivenUp := fun hscan => givenUp_step (hcancelled hscan) hst
  cases hst with
  | @cancels i error hw => exact absurd ⟨i, error, .inl hw⟩ hfine
  | cancelsScan hc | rethrows hc => exact True.intro
  | _ => exact hbefore hscan

/-- The call does not return in them. -/
theorem Outside.returned (h : Outside ops s s') (hreturned : s'.caller = .returned) :
    s.caller = .returned ∧ s'.merged = s.merged := by
  obtain ⟨hst, -, -, hcaller, -⟩ := h
  cases hst with
  | returns hc => exact absurd hc hcaller
  | submit | submitThrows | cancelsScan | abandon | abandoned | submitted | merges | rethrows | merged | emitThrows =>
    cases hreturned
  | _ => exact ⟨hreturned, rfl⟩

end AggregateRun

/-! ## The invariant -/

/-- The operators above the scan fail on no batch of it, and make of it, if anything, a batch like this. -/
def ScanTask.Yields (task : ScanTask) (P : VectorBatch → Prop) : Prop :=
  ∀ b, task.Scans b → ∃ out, task.op.through task.ctx b = .ok out ∧ ∀ b' ∈ out, P b'

namespace ParallelAggregate

section Trace

variable {task : ScanTask} {plan : PhysicalPlan} {spec : AggregateSpec} {order : GroupTable → GroupTable}
  {s s' : ParallelAggregate n} {par : ParallelScan (Fin n)} {inputs : Fin n → List VectorBatch}
  {P : VectorBatch → Prop} {Good : HashAggregateState → Prop} {schema : ExecSchema}

/-- The workers have consumed what their pipelines make of what their scans have handed out; a worker that has finished
is at the end of the scan, unless the call has given up; and nothing has failed besides a submission or the consumer. -/
structure Traced (task : ScanTask) (spec : AggregateSpec) (order : GroupTable → GroupTable)
    (Good : HashAggregateState → Prop) (s : ParallelAggregate n) (par : ParallelScan (Fin n))
    (inputs : Fin n → List VectorBatch) : Prop where
  pool : s.pool.Traced task par inputs s.run.consumed
  fine : ¬ s.run.Broken
  left : ¬ s.run.caller.GivenUp → ∀ i state, s.run.workers i = .finished (.ok state) →
    (par.workers i).phase = .finished
  cancelled : s.run.scanCancelled = true → s.run.caller.GivenUp
  unharmed : AggregateRun.Unharmed Good s.run.merged s.run.caller
  interfered : s.run.caller.GivenUp → s.interfered = true
  delivered : s.run.caller = .returned → spec.drain (s.run.merged.emitted order spec) = .ok s.delivered

theorem traced_start {g : ParallelScanGlobalState} (hinitial : Good spec.initial)
    (hbuild : PreparedScanPredicates.build task.options task.table.storage.schema = .ok task.prepared)
    (hcreate : task.table.storage.createParallelScanState task.options = .ok g) :
    Traced task spec order Good (start spec order n g) (.start g) fun _ => [] where
  pool := ScanPool.traced_start hbuild hcreate
  fine := by
    rintro ⟨i, e, hi | hi⟩ <;> cases hi
  left _ i state hi := by cases hi
  cancelled h := absurd h Bool.false_ne_true
  unharmed := hinitial
  interfered h := absurd h id
  delivered h := by cases h

/-- What the workers have consumed is like what the operators make of a batch. -/
theorem yields_consumed {p : ScanPool n} {handed : Fin n → List VectorBatch} (hyields : task.Yields P)
    (h : p.Traced task par inputs handed) (i : Fin n) : ∀ b ∈ handed i, P b := by
  intro b hb
  obtain ⟨outs, houts, heq⟩ := h.makes i
  rw [heq] at hb
  obtain ⟨a, ha, hthrough⟩ := mem_of_mapM_eq_ok houts (List.reduceOption_mem_iff.mp hb)
  obtain ⟨out, hout, hP⟩ := hyields a (h.scans i a ha)
  cases hout.symm.trans hthrough
  exact hP b rfl

/-- A task takes a step, and nothing fails. -/
theorem not_broken_update {run : AggregateRun HashAggregateState VectorBatch String n} (hfine : ¬ run.Broken) (i : Fin n)
    {w : AggregateWorker HashAggregateState String} (hcaught : ∀ e, w ≠ .caught e)
    (hfinished : ∀ e, w ≠ .finished (.error e)) {consumed : Fin n → List VectorBatch} :
    ¬ AggregateRun.Broken { run with workers := Function.update run.workers i w, consumed } := by
  rintro ⟨j, e, hj⟩
  dsimp only at hj
  by_cases hji : j = i
  · subst hji
    rw [Function.update_self] at hj
    exact hj.elim (hcaught e) (hfinished e)
  · rw [Function.update_of_ne hji] at hj
    exact hfine ⟨j, e, hj⟩

/-- A round that succeeds keeps what has happened. -/
theorem Traced.afterRound (h : Traced task spec order Good s par inputs)
    (hsound : AggregateRun.Sound (spec.ops order) P Good) {i : Fin n} {state : HashAggregateState}
    (hrunning : s.run.workers i = .running state) (hgood : Good state) {pool : ScanPool n} {r : PipelineRound}
    {par' : ParallelScan (Fin n)} {inputs' : Fin n → List VectorBatch}
    (hpool : pool.Traced task par' inputs'
      (Function.update s.run.consumed i (s.run.consumed i ++ ScanPool.outputOf r)))
    (hothers : ∀ j, j ≠ i → par'.workers j = par.workers j)
    (hends : ∀ op', r = .returns op' none → s.run.scanCancelled = false → (par'.workers i).phase = .finished)
    (hbatch : ∀ op' b, r = .returns op' (some b) → b.Deliverable ∧ P b) :
    Traced task spec order Good { s with run := s.run.afterRound spec i state (.ok r), pool } par' inputs' := by
  have hsame : ScanPool.outputOf r = [] →
      Function.update s.run.consumed i (s.run.consumed i ++ ScanPool.outputOf r) = s.run.consumed := fun hnil => by
    rw [hnil, List.append_nil, Function.update_eq_self]
  -- the other workers are where they were
  have hleft : ∀ w : AggregateWorker HashAggregateState String, (∀ state', w = .finished (.ok state') →
      ¬ s.run.caller.GivenUp → (par'.workers i).phase = .finished) → ¬ s.run.caller.GivenUp → ∀ j state',
      Function.update s.run.workers i w j = .finished (.ok state') → (par'.workers j).phase = .finished := by
    intro w hw hgiven j state' hj
    by_cases hji : j = i
    · subst hji
      exact hw state' (by simpa using hj) hgiven
    · rw [hothers j hji]
      exact h.left hgiven j state' (by simpa [Function.update_of_ne hji] using hj)
  rcases r with ⟨op, _ | batch⟩ | op
  · rw [hsame rfl] at hpool
    refine ⟨hpool, not_broken_update h.fine i (by simp) (by simp), hleft _ (fun state' _ hgiven => ?_), h.cancelled,
      h.unharmed,
      h.interfered, h.delivered⟩
    exact hends op rfl (Bool.eq_false_iff.mpr fun hscan => hgiven (h.cancelled hscan))
  · obtain ⟨hdeliverable, hP⟩ := hbatch op batch rfl
    have hsize : batch.size ≠ 0 := hdeliverable.nonempty.ne'
    obtain ⟨state', hconsume, -⟩ := hsound.consume hgood hP
    have hstep : HashAggregateState.consume spec state batch = .ok state' := hconsume
    simp only [AggregateRun.afterRound, if_neg hsize, hstep]
    exact ⟨hpool, not_broken_update h.fine i (by simp) (by simp), hleft _ (fun state' heq => by cases heq), h.cancelled,
      h.unharmed, h.interfered, h.delivered⟩
  · rw [hsame rfl] at hpool
    refine ⟨hpool, h.fine, fun hgiven j state' hj => ?_, h.cancelled, h.unharmed, h.interfered, h.delivered⟩
    have hstay := hleft (s.run.workers i) (fun state' heq => by cases hrunning.symm.trans heq) hgiven j state'
    rw [Function.update_eq_self] at hstay
    exact hstay hj

/-- **A step keeps what has happened**, if states can consume and merge whatever the operators make of the scan, and the
groups that are merged can be output. -/
theorem Traced.step (hread : task.Readable) (hstart : startPlan task.ctx plan = .ok (schema, task.pipeline 0 .reset))
    (hyields : task.Yields P) (hsound : AggregateRun.Sound (spec.ops order) P Good)
    (hrun : AggregateRun.Reached (spec.ops order) s.run) (h : Traced task spec order Good s par inputs)
    (hdrains : s.run.caller = .emitting → ∃ pages, spec.drain (s.run.merged.emitted order spec) = .ok pages)
    (hst : Step task.ctx plan spec order s s') : ∃ par' inputs', Traced task spec order Good s' par' inputs' := by
  obtain ⟨haccounts, -⟩ := hrun.accounts_and_merged
  have hconsumed := yields_consumed hyields h.pool
  cases hst with
  | @outside run hout =>
    refine ⟨par, inputs, ?_, hout.not_broken h.fine, fun hgiven i state hi => ?_, hout.scanCancelled h.fine h.cancelled,
      h.unharmed.step hsound haccounts hconsumed h.fine hout.step,
      fun hgiven => h.interfered (hout.givenUp h.unharmed hgiven), fun hreturned => ?_⟩
    · show s.pool.Traced task par inputs run.consumed
      rw [hout.consumed]
      exact h.pool
    · exact h.left (fun hbefore => hgiven (AggregateRun.givenUp_step hbefore hout.step)) i state (hout.finished hi)
    · obtain ⟨hbefore, hmerged⟩ := hout.returned hreturned
      show spec.drain (run.merged.emitted order spec) = .ok s.delivered
      rw [hmerged]
      exact h.delivered hbefore
  | submitThrows hk error hc =>
    exact ⟨par, inputs, h.pool, h.fine, fun hgiven => absurd True.intro hgiven, fun _ => True.intro, True.intro,
      fun _ => rfl, fun hreturned => by cases hreturned⟩
  | builds hrunning hnone hbuilt =>
    cases hstart.symm.trans hbuilt
    exact ⟨par, inputs, h.pool.build hnone, h.fine, h.left, h.cancelled, h.unharmed, h.interfered, h.delivered⟩
  | buildFails hrunning hnone hbuilt => cases hstart.symm.trans hbuilt
  | @rounds i state op r hrunning hop hround =>
    have hgood := hsound.foldlM (hconsumed i) hsound.initial (haccounts.state i state (.inl hrunning))
    rcases h.pool.round hread hop s.run.scanCancelled with
      ⟨⟨b, e, hb, hfails⟩, -⟩ | ⟨r', par', inputs', hr', hpool, hothers, hends⟩
    · obtain ⟨out, hout, -⟩ := hyields b hb
      cases hout.symm.trans hfails
    · obtain rfl := hround.symm.trans hr'
      refine ⟨par', inputs', h.afterRound hsound hrunning hgood hpool hothers hends fun op' b heq => ?_⟩
      subst heq
      refine ⟨deliverable_round hr', yields_consumed hyields hpool i b ?_⟩
      rw [Function.update_self]
      exact List.mem_append_right _ (List.mem_singleton_self b)
  | emits hc hdrain =>
    refine ⟨par, inputs, h.pool, h.fine, fun _ => h.left ?_, fun hscan => ?_, True.intro,
      fun hgiven => absurd hgiven id, fun _ => hdrain⟩
    · rw [hc]
      exact id
    · have hgiven := h.cancelled hscan
      rw [hc] at hgiven
      exact absurd hgiven id
  | emitFails hc hdrain =>
    obtain ⟨pages, hpages⟩ := hdrains hc
    cases hdrain.symm.trans hpages
  | consumerThrows error hc =>
    exact ⟨par, inputs, h.pool, h.fine, fun hgiven => absurd True.intro hgiven, fun _ => True.intro, True.intro,
      fun _ => rfl, fun hreturned => by cases hreturned⟩

/-! ## Whole calls -/

/-- **What has been merged when all futures are collected**: the states of all workers, of what their pipelines make of
batches that have all rows of the scan. -/
theorem Traced.collected (hn : 0 < n) (hrun : AggregateRun.Reached (spec.ops order) s.run)
    (h : Traced task spec order Good s par inputs) (hcaller : s.run.caller = .emitting ∨ s.run.caller = .returned) :
    (((List.finRange n).flatMap inputs).flatMap VectorBatch.activeRows).Perm
        (task.table.storage.scannedRows SegmentReader.evaluatePredicates task.table.disk task.options task.prepared) ∧
      Makes task.ctx ((List.finRange n).flatMap inputs) task.op ((List.finRange n).flatMap s.run.consumed) ∧
      ∃ states, (List.finRange n).mapM (fun i => (s.run.consumed i).foldlM (HashAggregateState.consume spec) spec.initial) =
          .ok states ∧ states.foldlM (HashAggregateState.merge spec order) spec.initial = .ok s.run.merged := by
  obtain ⟨states, hstates, hmerged, hfinished⟩ := hrun.collected hcaller
  have hgiven : ¬ s.run.caller.GivenUp := by
    rcases hcaller with hc | hc <;> rw [hc] <;> exact id
  have hends : ∀ i, (par.workers i).phase = .finished := fun i => by
    obtain ⟨state, hi⟩ := hfinished i
    exact h.left hgiven i state hi
  have hmap : List.Forall₂ Eq
      ((List.finRange n).map fun i => (s.run.consumed i).foldlM (HashAggregateState.consume spec) spec.initial)
      (states.map .ok) := List.forall₂_map_left_iff.mpr (List.forall₂_map_right_iff.mpr hstates)
  rw [List.forall₂_eq_eq_eq] at hmap
  exact ⟨h.pool.complete hn hends, makes_flatMap (List.finRange n) h.pool.makes, states, mapM_eq_ok_iff.mpr hmap, hmerged⟩

/-- **In every state of a call** nothing has failed besides a submission or the consumer, if states can consume and merge
whatever the operators make of the scan and the groups that are merged can be output. -/
theorem Reached.traced {g : ParallelScanGlobalState} (hread : task.Readable)
    (hstart : startPlan task.ctx plan = .ok (schema, task.pipeline 0 .reset))
    (hbuild : PreparedScanPredicates.build task.options task.table.storage.schema = .ok task.prepared)
    (hcreate : task.table.storage.createParallelScanState task.options = .ok g) (hyields : task.Yields P)
    (hsound : AggregateRun.Sound (spec.ops order) P Good)
    (hdrains : ∀ (s : ParallelAggregate n) par inputs, AggregateRun.Reached (spec.ops order) s.run →
      Traced task spec order Good s par inputs → s.run.caller = .emitting →
      ∃ pages, spec.drain (s.run.merged.emitted order spec) = .ok pages)
    (hrun : Reached task.ctx plan spec order g s) : ∃ par inputs, Traced task spec order Good s par inputs := by
  induction hrun with
  | start h =>
    subst h
    exact ⟨_, _, traced_start hsound.initial hbuild hcreate⟩
  | next hbefore hst ih =>
    obtain ⟨par, inputs, h⟩ := ih
    exact h.step hread hstart hyields hsound (Reached.run hbefore) (hdrains _ _ _ (Reached.run hbefore) h) hst

end Trace

end ParallelAggregate

end SimpleOlap
