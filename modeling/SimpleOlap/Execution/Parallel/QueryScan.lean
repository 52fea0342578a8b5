import SimpleOlap.Execution.Parallel.Delivery
import SimpleOlap.Execution.Parallel.ScanPool
import SimpleOlap.Execution.SerialSelect

/-!
# The parallel query with its scan

* `ParallelQuery`: a call of `ExecuteQuery` with the pipelines of its workers on one scan; `ParallelQuery.Step`: one
  step of one thread, where a worker in its loop makes a round of its pipeline.
* `Step.run`: such a step is a step of the call, or changes nothing in it; `reached_run`: so it is for whole runs.
* `ParallelQuery.Traced`, `Traced.step`: what the workers have produced is what their pipelines make of the scan.
* `Reached.returned`: when the call returns, its consumer got what the operators make of all rows of the scan, in some
  order; `Reached.threw`: no pipeline throws unless its operators fail on a batch of the scan.

Source: `parallel_executor.cpp` ExecuteQuery.
-/

namespace SimpleOlap

open Lib

variable {n : ℕ}

/-! ## Steps -/

/-- A call of `ExecuteQuery`, with the scan that its workers share. -/
structure ParallelQuery (n : ℕ) where
  run : QueryRun VectorBatch String n
  pool : ScanPool n

/-- The loop of a worker after a round of its pipeline. Source: `parallel_executor.cpp` ExecuteQuery, the task. -/
def QueryRun.afterRound (s : QueryRun VectorBatch String n) (i : Fin n) :
    Except String PipelineRound → QueryRun VectorBatch String n
  | .error e => { s with
      workers := Function.update s.workers i (.caught e)
      shared := { s.shared with thrown := Function.update s.shared.thrown i (some e) } }
  | .ok (.continues _) => s
  | .ok (.returns _ none) => { s with
      workers := Function.update s.workers i .exiting
      shared := if s.shared.scanCancelled then { s.shared with stopped := Function.update s.shared.stopped i true }
        else s.shared }
  | .ok (.returns _ (some batch)) =>
    if batch.size = 0 then s
    else { s with
      workers := Function.update s.workers i (.pushing batch)
      shared := { s.shared with produced := Function.update s.shared.produced i (s.shared.produced i ++ [batch]) } }

namespace ParallelQuery

/-- The call after `worker_count` is known, with the shared state of its scan. -/
def start (n capacity : ℕ) (g : ParallelScanGlobalState) : ParallelQuery n :=
  ⟨.start VectorBatch String n capacity, g, fun _ => none⟩

/-- One step of one thread. A worker that is in its loop builds its pipeline and makes rounds of it; every other step
leaves such workers where they are. Any submitted
task may start; on a pool it is the next one (`QueryRun.Serves`). Source: `parallel_executor.cpp` ExecuteQuery. -/
inductive Step (ctx : ExecutionContext) (plan : PhysicalPlan) : ParallelQuery n → QueryFailure → ParallelQuery n → Prop
  | outside {s : ParallelQuery n} {f : QueryFailure} {run : QueryRun VectorBatch String n}
      (h : QueryRun.Step VectorBatch.size s.run f run)
      (hloop : ∀ i, s.run.workers i = .running → run.workers i = .running) (hmoves : run ≠ s.run) :
      Step ctx plan s f { s with run }
  | builds {s : ParallelQuery n} {i : Fin n} {schema : ExecSchema} {op : RunningOperator}
      (hrunning : s.run.workers i = .running) (hnone : s.pool.pipelines i = none)
      (hstart : startPlan ctx plan = .ok (schema, op)) :
      Step ctx plan s .none { s with pool := s.pool.build i op }
  | buildFails {s : ParallelQuery n} {i : Fin n} {e : String} (hrunning : s.run.workers i = .running)
      (hnone : s.pool.pipelines i = none) (hstart : startPlan ctx plan = .error e) :
      Step ctx plan s .none { s with run := s.run.afterRound i (.error e) }
  | rounds {s : ParallelQuery n} {i : Fin n} {op : RunningOperator} {r : Except String PipelineRound}
      (hrunning : s.run.workers i = .running) (hop : s.pool.pipelines i = some op)
      (hround : op.round ctx (s.pool.found s.run.shared.scanCancelled) = r) :
      Step ctx plan s .none ⟨s.run.afterRound i r, s.pool.afterRound s.run.shared.scanCancelled i op r⟩

/-- The states of a call. -/
def Reached (ctx : ExecutionContext) (plan : PhysicalPlan) (capacity : ℕ) (g : ParallelScanGlobalState) :
    ParallelQuery n → Prop :=
  Reachable (· = start n capacity g) fun s s' => ∃ f, Step ctx plan s f s'

section Run

variable {ctx : ExecutionContext} {plan : PhysicalPlan} {s s' : ParallelQuery n} {f : QueryFailure} {i : Fin n}

/-- A round is a step of the call, or changes nothing in it. -/
theorem run_afterRound {run : QueryRun VectorBatch String n} (hrunning : run.workers i = .running)
    (r : Except String PipelineRound) :
    run.afterRound i r = run ∨ QueryRun.Step VectorBatch.size run .none (run.afterRound i r) := by
  have hworker : ∀ {w : QueryWorker VectorBatch String} {sh : QueryShared VectorBatch String n},
      WorkerStep VectorBatch.size i .running run.shared w sh →
      QueryRun.Step VectorBatch.size run .none
        { run with workers := Function.update run.workers i w, shared := sh } := fun h => .worker i (hrunning ▸ h)
  rcases r with e | ⟨op, _ | batch⟩ | op
  · exact .inr (hworker (.throws e))
  · refine .inr ?_
    rw [QueryRun.afterRound]
    by_cases hcancel : run.shared.scanCancelled = true
    · rw [if_pos hcancel]
      exact hworker (.stopped hcancel)
    · rw [if_neg hcancel]
      exact hworker .exhausted
  · by_cases hsize : batch.size = 0
    · exact .inl (if_pos hsize)
    · refine .inr ?_
      rw [QueryRun.afterRound, if_neg hsize]
      exact hworker (.next hsize)
  · exact .inl rfl

/-- **A step of the query is a step of the call**, or changes nothing in it. -/
theorem Step.run (h : Step ctx plan s f s') : s'.run = s.run ∨ QueryRun.Step VectorBatch.size s.run f s'.run := by
  cases h with
  | outside h hloop hmoves => exact .inr h
  | builds hrunning hnone hstart => exact .inl rfl
  | @buildFails _ e hrunning hnone hstart => exact run_afterRound hrunning (.error e)
  | @rounds _ _ r hrunning hop hround => exact run_afterRound hrunning r

theorem Step.inv (h : Step ctx plan s f s') (hinv : s.run.Inv VectorBatch.size) : s'.run.Inv VectorBatch.size := by
  rcases h.run with hsame | hst
  · exact hsame ▸ hinv
  · exact hinv.step hst

/-- **A run of the query is a run of the call.** -/
theorem reached_run {capacity : ℕ} {g : ParallelScanGlobalState} (ok : QueryFailure → Prop)
    (h : Reachable (· = start n capacity g) (fun s s' => ∃ f, Step ctx plan s f s' ∧ ok f) s) :
    QueryRun.Reached VectorBatch.size capacity (fun _ => ok) s.run := by
  induction h with
  | start h => exact .start (congrArg ParallelQuery.run h)
  | next _ hst ih =>
    obtain ⟨f, hst, hok⟩ := hst
    rcases hst.run with hsame | hstep
    · exact hsame ▸ ih
    · exact ih.next ⟨f, hstep, hok⟩

/-- So it is whatever fails. -/
theorem Reached.run {capacity : ℕ} {g : ParallelScanGlobalState} (h : Reached ctx plan capacity g s) :
    QueryRun.Reached VectorBatch.size capacity (fun _ _ => True) s.run :=
  reached_run (fun _ => True) (h.mono (fun _ h => h) fun _ _ ⟨f, hst⟩ => ⟨f, hst, True.intro⟩)

theorem Reached.inv {capacity : ℕ} {g : ParallelScanGlobalState} (h : Reached ctx plan capacity g s) :
    s.run.Inv VectorBatch.size := h.run.inv

end Run

/-! ## What the steps outside the loops leave alone -/

section Outside

variable {run run' : QueryRun VectorBatch String n} {f : QueryFailure}

/-- A call that failed stays so. -/
theorem failed_step (h : QueryRun.Step VectorBatch.size run f run') (hfailed : run.shared.Failed) :
    run'.shared.Failed := by
  cases h with
  | worker i hst => exact hfailed.worker hst
  | submitThrows hk error hc => exact .inl rfl
  | _ => exact hfailed

/-- What the pipelines did is not a matter of the other steps. -/
theorem produced_outside (h : QueryRun.Step VectorBatch.size run f run')
    (hloop : ∀ i, run.workers i = .running → run'.workers i = .running) :
    run'.shared.produced = run.shared.produced ∧ run'.shared.thrown = run.shared.thrown := by
  cases h with
  | @worker i w sh hst =>
    have hw : (Function.update run.workers i w) i = w := Function.update_self ..
    have hat : run.workers i = .running → w = .running := fun hrunning => hw.symm.trans (hloop i hrunning)
    generalize hv : run.workers i = v at hst hat
    cases hst with
    | next hrows => cases hat rfl
    | throws error => cases hat rfl
    | _ => exact ⟨rfl, rfl⟩
  | _ => exact ⟨rfl, rfl⟩

/-- Nor does a worker leave its loop in them, until the call has failed. -/
theorem leaving_outside (hinv : run.Inv VectorBatch.size) (h : QueryRun.Step VectorBatch.size run f run')
    (hloop : ∀ i, run.workers i = .running → run'.workers i = .running) (hfine : ¬ run'.shared.Failed) {j : Fin n}
    (hj : (run'.workers j).Leaving) : (run.workers j).Leaving := by
  cases h with
  | @worker i w sh hst =>
    by_cases hji : j = i
    · subst hji
      have hw : (Function.update run.workers j w) j = w := Function.update_self ..
      have hat : run.workers j = .running → w = .running := fun hrunning => hw.symm.trans (hloop j hrunning)
      have hj' : w.Leaving := hw ▸ hj
      have hok := hinv.workers j
      generalize run.workers j = v at hst hat hok
      cases hst with
      | start | skip | throws | pushed | refused | catches => exact absurd hj' id
      | next => exact absurd hj' id
      | exhausted => cases hat rfl
      | stopped => cases hat rfl
      | cancels =>
        have hcancels : WorkerStep VectorBatch.size j .refused run.shared .exiting
          { run.shared with scanCancelled := true } := .cancels
        exact absurd ((hok.refused rfl).worker hcancels) hfine
      | @aborts _ error => exact absurd (QueryShared.failed_of_thrown (hok.caught error (.inr rfl))) hfine
      | leaves | closes => exact True.intro
    · have hw : (Function.update run.workers i w) j = run.workers j := Function.update_of_ne hji ..
      exact hw ▸ hj
  | @submit k hk hc =>
    by_cases hji : j = ⟨k, hk⟩
    · subst hji
      have hw : (Function.update run.workers ⟨k, hk⟩ QueryWorker.queued) ⟨k, hk⟩ = .queued := Function.update_self ..
      exact absurd (hw ▸ hj : (QueryWorker.queued : QueryWorker VectorBatch String).Leaving) id
    · have hw : (Function.update run.workers ⟨k, hk⟩ QueryWorker.queued) j = run.workers j :=
        Function.update_of_ne hji ..
      exact hw ▸ hj
  | _ => exact hj

end Outside

/-! ## The invariant -/

section Trace

variable {task : ScanTask} {plan : PhysicalPlan} {s s' : ParallelQuery n} {f : QueryFailure}
  {par : ParallelScan (Fin n)} {inputs : Fin n → List VectorBatch}

/-- The workers have produced what their pipelines make of what their scans have handed out; and a worker that has left
its loop is at the end of the scan, unless the call failed. -/
structure Traced (task : ScanTask) (s : ParallelQuery n) (par : ParallelScan (Fin n))
    (inputs : Fin n → List VectorBatch) : Prop where
  pool : s.pool.Traced task par inputs s.run.shared.produced
  left : ¬ s.run.shared.Failed → ∀ i, (s.run.workers i).Leaving → (par.workers i).phase = .finished

variable {schema : ExecSchema}

theorem traced_start {g : ParallelScanGlobalState} {capacity : ℕ}
    (hbuild : PreparedScanPredicates.build task.options task.table.storage.schema = .ok task.prepared)
    (hcreate : task.table.storage.createParallelScanState task.options = .ok g) :
    Traced task (start n capacity g) (.start g) fun _ => [] :=
  ⟨ScanPool.traced_start hbuild hcreate, fun _ _ h => absurd h id⟩

/-- A round that succeeds keeps what has happened. -/
theorem Traced.afterRound (h : Traced task s par inputs) {i : Fin n} (hinv : s.run.Inv VectorBatch.size)
    (hrunning : s.run.workers i = .running) {pool : ScanPool n} {r : PipelineRound} {par' : ParallelScan (Fin n)}
    {inputs' : Fin n → List VectorBatch}
    (hpool : pool.Traced task par' inputs'
      (Function.update s.run.shared.produced i (s.run.shared.produced i ++ ScanPool.outputOf r)))
    (hothers : ∀ j, j ≠ i → par'.workers j = par.workers j)
    (hends : ∀ op', r = .returns op' none → s.run.shared.scanCancelled = false → (par'.workers i).phase = .finished)
    (hdeliverable : ∀ op' b, r = .returns op' (some b) → b.Deliverable) :
    Traced task ⟨s.run.afterRound i (.ok r), pool⟩ par' inputs' := by
  have hat : ¬ (s.run.workers i).Leaving := by
    rw [hrunning]
    exact id
  have hsame : ScanPool.outputOf r = [] →
      Function.update s.run.shared.produced i (s.run.shared.produced i ++ ScanPool.outputOf r) =
        s.run.shared.produced := fun hnil => by
    rw [hnil, List.append_nil, Function.update_eq_self]
  -- the other workers are where they were
  have hleft : ∀ w : QueryWorker VectorBatch String, (w.Leaving → ¬ s.run.shared.Failed →
      (par'.workers i).phase = .finished) → ¬ s.run.shared.Failed → ∀ j,
      (Function.update s.run.workers i w j).Leaving → (par'.workers j).phase = .finished := by
    intro w hw hfine j hj
    by_cases hji : j = i
    · subst hji
      exact hw (by simpa using hj) hfine
    · rw [hothers j hji]
      exact h.left hfine j (by simpa [Function.update_of_ne hji] using hj)
  rcases r with ⟨op, _ | batch⟩ | op
  · rw [hsame rfl] at hpool
    have hexit := hleft .exiting fun _ hfine => hends op rfl <| by
      by_contra hcancel
      exact hfine (hinv.shared.scan (Bool.eq_true_of_not_eq_false hcancel))
    unfold QueryRun.afterRound
    by_cases hcancel : s.run.shared.scanCancelled = true
    · refine ⟨?_, fun hfine => hexit fun hfailed => hfine ?_⟩
      · simp only [if_pos hcancel]
        exact hpool
      · simp only [if_pos hcancel]
        exact hfailed
    · refine ⟨?_, fun hfine => hexit fun hfailed => hfine ?_⟩
      · simp only [if_neg hcancel]
        exact hpool
      · simp only [if_neg hcancel]
        exact hfailed
  · have hsize : batch.size ≠ 0 := (hdeliverable op batch rfl).nonempty.ne'
    simp only [QueryRun.afterRound, if_neg hsize]
    exact ⟨hpool, hleft _ fun hw => absurd hw id⟩
  · rw [hsame rfl] at hpool
    refine ⟨hpool, fun hfine j hj => ?_⟩
    have hstay := hleft (s.run.workers i) (fun hw => absurd hw hat) hfine j
    rw [Function.update_eq_self] at hstay
    exact hstay hj

/-- **A step keeps what has happened**, unless a pipeline throws because its operators fail on a batch of the scan. -/
theorem Traced.step (hread : task.Readable) (hstart : startPlan task.ctx plan = .ok (schema, task.pipeline 0 .reset))
    (hinv : s.run.Inv VectorBatch.size) (h : Traced task s par inputs) (hst : Step task.ctx plan s f s') :
    (task.Fails ∧ ∃ i, s'.run.shared.thrown i ≠ none) ∨
      s'.run.shared.thrown = s.run.shared.thrown ∧ ∃ par' inputs', Traced task s' par' inputs' := by
  cases hst with
  | @outside _ run hst hloop hmoves =>
    obtain ⟨hproduced, hthrown⟩ := produced_outside hst hloop
    refine .inr ⟨hthrown, par, inputs, ?_, fun hfine j hj => ?_⟩
    · show s.pool.Traced task par inputs run.shared.produced
      rw [hproduced]
      exact h.pool
    · exact h.left (fun hfailed => hfine (failed_step hst hfailed)) j (leaving_outside hinv hst hloop hfine hj)
  | @builds i schema' op hrunning hnone hbuilt =>
    cases hstart.symm.trans hbuilt
    exact .inr ⟨rfl, par, inputs, h.pool.build hnone, h.left⟩
  | buildFails hrunning hnone hbuilt => cases hstart.symm.trans hbuilt
  | @rounds i op r hrunning hop hround =>
    rcases h.pool.round hread hop s.run.shared.scanCancelled with
      ⟨hfails, e, he⟩ | ⟨r', par', inputs', hr', hpool, hothers, hends⟩
    · obtain rfl := hround.symm.trans he
      refine .inl ⟨hfails, i, ?_⟩
      show Function.update s.run.shared.thrown i (some e) i ≠ none
      rw [Function.update_self]
      exact Option.some_ne_none e
    · obtain rfl := hround.symm.trans hr'
      refine .inr ⟨?_, par', inputs', h.afterRound hinv hrunning hpool hothers hends fun op' b heq => ?_⟩
      · rcases r' with ⟨op', _ | batch⟩ | op'
        · show (if s.run.shared.scanCancelled = true then _ else _ : QueryShared VectorBatch String n).thrown = _
          split_ifs <;> rfl
        · show (QueryRun.afterRound s.run i (.ok (.returns op' (some batch)))).shared.thrown = _
          rw [QueryRun.afterRound]
          split_ifs <;> rfl
        · rfl
      · exact deliverable_round (heq ▸ hr')

/-! ## Whole calls -/

/-- What a pipeline threw stays so. -/
theorem thrown_step {run run' : QueryRun VectorBatch String n} (hinv : run.Inv VectorBatch.size)
    (h : QueryRun.Step VectorBatch.size run f run') (hthrown : ∃ i, run.shared.thrown i ≠ none) :
    ∃ i, run'.shared.thrown i ≠ none := by
  obtain ⟨k, hk⟩ := hthrown
  obtain ⟨e, he⟩ := Option.ne_none_iff_exists'.mp hk
  refine ⟨k, ?_⟩
  cases h with
  | worker i hst =>
    have hkept := hst.thrown_mono (hinv.workers i) he
    exact Option.ne_none_iff_exists'.mpr ⟨e, hkept⟩
  | _ => exact hk

section Reached

variable {capacity : ℕ} {g : ParallelScanGlobalState}

/-- **In every state of a call** the workers have produced what their pipelines make of the scan, and none threw, unless
the operators above the scan fail on a batch of it. -/
theorem Reached.traced (hread : task.Readable) (hstart : startPlan task.ctx plan = .ok (schema, task.pipeline 0 .reset))
    (hbuild : PreparedScanPredicates.build task.options task.table.storage.schema = .ok task.prepared)
    (hcreate : task.table.storage.createParallelScanState task.options = .ok g)
    (hrun : Reached task.ctx plan capacity g s) :
    (task.Fails ∧ ∃ i, s.run.shared.thrown i ≠ none) ∨
      (∀ i, s.run.shared.thrown i = none) ∧ ∃ par inputs, Traced task s par inputs := by
  have hboth : s.run.Inv VectorBatch.size ∧ ((task.Fails ∧ ∃ i, s.run.shared.thrown i ≠ none) ∨
      (∀ i, s.run.shared.thrown i = none) ∧ ∃ par inputs, Traced task s par inputs) := by
    refine Reachable.invariant (P := fun s : ParallelQuery n => s.run.Inv VectorBatch.size ∧
      ((task.Fails ∧ ∃ i, s.run.shared.thrown i ≠ none) ∨
        (∀ i, s.run.shared.thrown i = none) ∧ ∃ par inputs, Traced task s par inputs)) ?_ ?_ hrun
    · rintro _ rfl
      exact ⟨QueryRun.inv_start VectorBatch.size n capacity,
        .inr ⟨fun _ => rfl, _, _, traced_start hbuild hcreate⟩⟩
    · rintro s s' ⟨hinv, hcase⟩ ⟨f, hst⟩
      refine ⟨hst.inv hinv, ?_⟩
      rcases hcase with ⟨hfails, hthrown⟩ | ⟨hnone, par, inputs, h⟩
      · refine .inl ⟨hfails, ?_⟩
        rcases hst.run with hsame | hstep
        · rwa [hsame]
        · exact thrown_step hinv hstep hthrown
      · exact (h.step hread hstart hinv hst).imp_right fun ⟨hsame, htraced⟩ => ⟨fun i => hsame ▸ hnone i, htraced⟩
  exact hboth.2

/-- The batches of all workers are those of each of them. -/
theorem perm_fromWorker {β : Type} (items : List (Fin n × β)) :
    (items.map Prod.snd).Perm ((List.finRange n).flatMap fun i => fromWorker i items) := by
  rw [← Multiset.coe_eq_coe, ScanPool.coe_flatMap_finRange]
  induction items with
  | nil => exact (Finset.sum_eq_zero fun _ _ => rfl).symm
  | cons item items ih =>
    obtain ⟨i, b⟩ := item
    have hsplit : ∀ j, (fromWorker j ((i, b) :: items) : Multiset β) =
        (fromWorker j [(i, b)] : Multiset β) + (fromWorker j items : Multiset β) := fun j => by
      rw [Multiset.coe_add, ← fromWorker_append]
      rfl
    have hone : ∑ j, (fromWorker j [(i, b)] : Multiset β) = {b} := by
      rw [Finset.sum_eq_single i (fun j _ hji => by rw [fromWorker_of_ne (Ne.symm hji)]; rfl)
        fun h => absurd (Finset.mem_univ i) h, fromWorker_self]
      rfl
    rw [List.map_cons, ← Multiset.cons_coe, ih]
    simp only [hsplit]
    rw [Finset.sum_add_distrib, hone, Multiset.singleton_add]

/-- **What the consumer of a call that returns got**: what the operators make of batches of the scan that have all its
rows, in some order. -/
theorem Reached.returned (hn : 0 < n) (hread : task.Readable)
    (hstart : startPlan task.ctx plan = .ok (schema, task.pipeline 0 .reset))
    (hbuild : PreparedScanPredicates.build task.options task.table.storage.schema = .ok task.prepared)
    (hcreate : task.table.storage.createParallelScanState task.options = .ok g)
    (hrun : Reached task.ctx plan capacity g s) (hreturned : s.run.caller = .returned) :
    ∃ inputs bs : List VectorBatch, (∀ b ∈ inputs, task.Scans b) ∧
      (inputs.flatMap VectorBatch.activeRows).Perm (task.table.storage.scannedRows SegmentReader.evaluatePredicates
        task.table.disk task.options task.prepared) ∧
      Makes task.ctx inputs task.op bs ∧ (s.run.delivered.map Prod.snd).Perm bs := by
  have hinv := hrun.inv
  have hcaller := hinv.caller
  rw [hreturned] at hcaller
  obtain ⟨hwithdrawn, hfinished, hclean⟩ := hcaller
  have hfine : ¬ s.run.shared.Failed := by
    rintro (hfailed | ⟨i, hi⟩)
    · exact Bool.false_ne_true (hwithdrawn.symm.trans hfailed)
    · exact hi (hclean.thrown i)
  rcases hrun.traced hread hstart hbuild hcreate with ⟨-, i, hi⟩ | ⟨-, par, inputs, h⟩
  · exact absurd (hclean.thrown i) hi
  have hends : ∀ i, (par.workers i).phase = .finished := fun i => h.left hfine i (by rw [hfinished i]; exact True.intro)
  refine ⟨_, _, fun b hb => ?_, h.pool.complete hn hends, makes_flatMap (List.finRange n) h.pool.makes, ?_⟩
  · obtain ⟨i, -, hb⟩ := List.mem_flatMap.mp hb
    exact h.pool.scans i b hb
  · -- everything that was produced was delivered
    have htaken : s.run.delivered = s.run.shared.taken := by
      rw [hinv.taken, hreturned]
      exact (List.append_nil _).symm
    have hproduced : s.run.shared.produced = fun i => fromWorker i s.run.delivered := by
      funext i
      rw [(hinv.workers i).produced hfine, hclean.empty, hfinished i, htaken, List.append_nil]
      exact List.append_nil _
    rw [hproduced]
    exact perm_fromWorker _

/-- **No pipeline throws**, if the operators above the scan do not fail on a batch of it: a call that throws does so
because of a submission or of its consumer. -/
theorem Reached.threw (hread : task.Readable) (hstart : startPlan task.ctx plan = .ok (schema, task.pipeline 0 .reset))
    (hbuild : PreparedScanPredicates.build task.options task.table.storage.schema = .ok task.prepared)
    (hcreate : task.table.storage.createParallelScanState task.options = .ok g) (hfine : ¬ task.Fails)
    (hrun : Reached task.ctx plan capacity g s) :
    (∀ i, s.run.shared.thrown i = none) ∧
      ∀ e, s.run.caller = .threw e → s.run.shared.withdrawn = true ∨ s.run.consumerThrew = true := by
  have hnone : ∀ i, s.run.shared.thrown i = none := by
    rcases hrun.traced hread hstart hbuild hcreate with ⟨hfails, -⟩ | ⟨hnone, -⟩
    · exact absurd hfails hfine
    · exact hnone
  refine ⟨hnone, fun e hthrew => ?_⟩
  have hcaller := hrun.inv.caller
  rw [hthrew] at hcaller
  rcases hcaller with hwithdrawn | hconsumer | ⟨i, hi⟩
  · exact .inl hwithdrawn
  · exact .inr hconsumer
  · cases (hnone i).symm.trans hi

end Reached

end Trace

end ParallelQuery

end SimpleOlap
