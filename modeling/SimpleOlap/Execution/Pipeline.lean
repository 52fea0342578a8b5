import SimpleOlap.Execution.OperatorRuns

/-!
# Pipelines of parallel workers

* `RunningOperator.round`: one round of the loop of a parallel scan, through the filters and projections above it.
* `rounds_iff`: the rounds of a pipeline, until one returns, are a call of its `Next`.
* `RunningOperator.onScan`, `RunningOperator.through`: a pipeline is its scan, and what it makes of a batch of it;
  `round_onScan`.
* `Makes`: what a pipeline makes of the batches of its scan; `makes_filter_iff`, `makes_projection_iff`.

Source: `filter.cpp`, `projection.cpp`, `seq_scan.cpp` Next, `table_storage.cpp` ScanParallel.
-/

namespace SimpleOlap

open Lib

variable {ctx : ExecutionContext}

/-! ## Rounds -/

/-- What a round of a pipeline comes to: its `Next` returns, or goes on. -/
inductive PipelineRound
  | returns (op : RunningOperator) (output : Option VectorBatch)
  | continues (op : RunningOperator)

namespace PipelineRound

/-- The pipeline after the round. -/
def op : PipelineRound → RunningOperator
  | returns op _ => op
  | continues op => op

/-- What an operator makes of a round of its child: it goes on while its child does, and where it drops the batch.
Source: `filter.cpp` Next, `projection.cpp` Next, the loop. -/
def change (wrap : RunningOperator → RunningOperator) (next : VectorBatch → Except String (Option VectorBatch)) :
    PipelineRound → Except String PipelineRound
  | continues child => .ok (continues (wrap child))
  | returns child none => .ok (returns (wrap child) none)
  | returns child (some batch) => do
    match ← next batch with
    | none => return continues (wrap child)
    | some output => return returns (wrap child) (some output)

variable {wrap wrap' : RunningOperator → RunningOperator} {next next' : VectorBatch → Except String (Option VectorBatch)}

/-- A round that goes on above. -/
theorem change_eq_continues {r : PipelineRound} {op : RunningOperator} (h : r.change wrap next = .ok (continues op)) :
    (∃ child, r = continues child ∧ op = wrap child) ∨
      ∃ child batch, r = returns child (some batch) ∧ next batch = .ok none ∧ op = wrap child := by
  rcases r with ⟨child, _ | batch⟩ | child
  · cases h
  · obtain ⟨output, houtput, h⟩ := bind_eq_ok h
    rcases output with _ | output
    · cases h
      exact .inr ⟨child, batch, rfl, houtput, rfl⟩
    · cases h
  · cases h
    exact .inl ⟨child, rfl, rfl⟩

/-- A round that returns above. -/
theorem change_eq_returns {r : PipelineRound} {op : RunningOperator} {out : Option VectorBatch}
    (h : r.change wrap next = .ok (returns op out)) :
    (∃ child, r = returns child none ∧ op = wrap child ∧ out = none) ∨
      ∃ child batch output, r = returns child (some batch) ∧ next batch = .ok (some output) ∧ op = wrap child ∧
        out = some output := by
  rcases r with ⟨child, _ | batch⟩ | child
  · cases h
    exact .inl ⟨child, rfl, rfl, rfl⟩
  · obtain ⟨output, houtput, h⟩ := bind_eq_ok h
    rcases output with _ | output
    · cases h
    · cases h
      exact .inr ⟨child, batch, output, rfl, houtput, rfl, rfl⟩
  · cases h

/-- The pipeline above has the pipeline below. -/
theorem op_change {r r' : PipelineRound} (h : r.change wrap next = .ok r') : r'.op = wrap r.op := by
  rcases r' with ⟨op, out⟩ | op
  · rcases change_eq_returns h with ⟨child, rfl, rfl, -⟩ | ⟨child, batch, output, rfl, -, rfl, -⟩ <;> rfl
  · rcases change_eq_continues h with ⟨child, rfl, rfl⟩ | ⟨child, batch, rfl, -, rfl⟩ <;> rfl

/-- An operator that changes nothing. -/
theorem change_id (r : PipelineRound) : r.change (fun op => op) (fun batch => .ok (some batch)) = .ok r := by
  rcases r with ⟨child, _ | batch⟩ | child <;> rfl

/-- Two operators, one above the other. -/
theorem change_bind_change (r : PipelineRound) : (do (← r.change wrap next).change wrap' next') =
    r.change (fun op => wrap' (wrap op)) (andThen next next') := by
  rcases r with ⟨child, _ | batch⟩ | child
  · rfl
  · simp only [change, andThen]
    rcases next batch with e | _ | output
    · rfl
    · rfl
    · show (do
        match ← next' output with
        | none => return continues (wrap' (wrap child))
        | some output => return returns (wrap' (wrap child)) (some output)) = _
      rfl
  · rfl

end PipelineRound

/-- One round of a pipeline that finds `g` in the shared state of its scan. Only scans, filters and projections are
in such a pipeline. Source: `table_storage.cpp` ScanParallel, the body of the loop, and `filter.cpp`,
`projection.cpp` Next. -/
def RunningOperator.round (ctx : ExecutionContext) (g : ParallelScanGlobalState) :
    RunningOperator → Except String PipelineRound
  | .parallelScan table options shared looks localState => do
    match ← scanParallelRound table.disk options g localState with
    | .returns localState output =>
      return .returns (.parallelScan table options shared (looks + 1) localState) output
    | .continues localState => return .continues (.parallelScan table options shared (looks + 1) localState)
  | .filter child predicate => do (← child.round ctx g).change (.filter · predicate) (filterNext predicate)
  | .projection child expressions => do
    (← child.round ctx g).change (.projection · expressions) (projectNext ctx.backend expressions)
  | _ => .error "not a pipeline of a worker"

/-- The shared state that the scan of a pipeline finds at its next look. -/
def RunningOperator.found : RunningOperator → Option ParallelScanGlobalState
  | .parallelScan _ _ shared looks _ => some (shared looks)
  | .filter child _ | .projection child _ => child.found
  | _ => none

/-- Rounds until one returns. -/
inductive Rounds (ctx : ExecutionContext) : RunningOperator → RunningOperator × Option VectorBatch → Prop
  | last {op op' : RunningOperator} {g : ParallelScanGlobalState} {out : Option VectorBatch}
      (hfound : op.found = some g) (h : op.round ctx g = .ok (.returns op' out)) : Rounds ctx op (op', out)
  | more {op op' : RunningOperator} {g : ParallelScanGlobalState} {r : RunningOperator × Option VectorBatch}
      (hfound : op.found = some g) (h : op.round ctx g = .ok (.continues op')) (hrest : Rounds ctx op' r) :
      Rounds ctx op r

/-- What a projection makes of a deliverable batch is one. -/
theorem deliverable_projectNext {backend : Backend} {expressions : List ExecExpression} {b out : VectorBatch}
    (hb : b.Deliverable) (h : projectNext backend expressions b = .ok (some out)) : out.Deliverable := by
  unfold projectNext at h
  split_ifs at h
  · cases h
  · rcases hproject : projectBatch backend expressions b with e | out'
    · rw [hproject] at h
      cases h
    · rw [hproject] at h
      cases h
      exact deliverable_projectBatch hb hproject

/-- **A round hands over a deliverable batch.** -/
theorem deliverable_round {op op' : RunningOperator} {g : ParallelScanGlobalState} {b : VectorBatch}
    (h : op.round ctx g = .ok (.returns op' (some b))) : b.Deliverable := by
  induction op generalizing op' b with
  | parallelScan table options shared looks localState =>
    obtain ⟨round, hround, h⟩ := bind_eq_ok h
    cases round with
    | returns localState' output =>
      cases h
      exact deliverable_scanParallelRound hround
    | continues localState' => cases h
  | filter child predicate ih =>
    obtain ⟨r, hr, h⟩ := bind_eq_ok h
    rcases PipelineRound.change_eq_returns h with ⟨_, -, -, hnone⟩ | ⟨below, batch, output, rfl, hchange, -, heq⟩
    · cases hnone
    · exact Option.some.inj heq ▸ deliverable_filterNext (ih hr) hchange
  | projection child expressions ih =>
    obtain ⟨r, hr, h⟩ := bind_eq_ok h
    rcases PipelineRound.change_eq_returns h with ⟨_, -, -, hnone⟩ | ⟨below, batch, output, rfl, hchange, -, heq⟩
    · cases hnone
    · exact Option.some.inj heq ▸ deliverable_projectNext (ih hr) hchange
  | _ => cases h

/-! ## Rounds are a call of Next -/

/-- An operator over a pipeline, in its calls and in its rounds. -/
structure OverPipeline (ctx : ExecutionContext) (wrap : RunningOperator → RunningOperator)
    (change : VectorBatch → Except String (Option VectorBatch)) : Prop where
  filters : Filters (RunningOperator.next ctx) (RunningOperator.next ctx) wrap change
  round : ∀ child g, (wrap child).round ctx g = do (← child.round ctx g).change wrap change
  found : ∀ child, (wrap child).found = child.found

theorem overPipeline_filter (predicate : VectorPredicate) :
    OverPipeline ctx (.filter · predicate) (filterNext predicate) :=
  ⟨filters_filter predicate, fun _ _ => rfl, fun _ => rfl⟩

theorem overPipeline_projection (expressions : List ExecExpression) :
    OverPipeline ctx (.projection · expressions) (projectNext ctx.backend expressions) :=
  ⟨filters_projection expressions, fun _ _ => rfl, fun _ => rfl⟩

namespace OverPipeline

variable {wrap : RunningOperator → RunningOperator} {change : VectorBatch → Except String (Option VectorBatch)}
  {child child' : RunningOperator} {r : RunningOperator × Option VectorBatch} {b : VectorBatch} {n m : ℕ}

/-- A call whose child is at its end. -/
theorem next_end (h : OverPipeline ctx wrap change) (hchild : child.next ctx n = .ok (child', none)) :
    (wrap child).next ctx (n + 1) = .ok (wrap child', none) := by
  rw [h.filters.succ, hchild]
  rfl

/-- A call that hands over what becomes of the batch of its child. -/
theorem next_some (h : OverPipeline ctx wrap change) (hchild : child.next ctx n = .ok (child', some b))
    {output : VectorBatch} (hchange : change b = .ok (some output)) :
    (wrap child).next ctx (n + 1) = .ok (wrap child', some output) := by
  rw [h.filters.succ, hchild]
  simp only [bind, Except.bind, hchange]
  rfl

/-- A call that drops the batch of its child and goes on. -/
theorem next_drop (h : OverPipeline ctx wrap change) (hchild : child.next ctx n = .ok (child', some b))
    (hchange : change b = .ok none) (hrest : (wrap child').next ctx m = .ok r) :
    (wrap child).next ctx (max n m + 1) = .ok r := by
  rw [h.filters.succ, steady_next (le_max_left n m) hchild]
  simp only [bind, Except.bind, hchange]
  exact steady_next (le_max_right n m) hrest

/-- The rounds of the child, up to the one that returns, are rounds of the operator. -/
theorem rounds (h : OverPipeline ctx wrap change) {out : Option VectorBatch} (hchild : Rounds ctx child (child', out))
    (hlast : ∀ below g, below.found = some g → below.round ctx g = .ok (.returns child' out) →
      Rounds ctx (wrap below) r) : Rounds ctx (wrap child) r := by
  generalize hout : (child', out) = q at hchild
  induction hchild with
  | last hfound hround =>
    cases hout
    exact hlast _ _ hfound hround
  | more hfound hround _ ih =>
    refine .more ((h.found _).trans hfound) ?_ (ih hout)
    rw [h.round, hround]
    rfl

/-- A round that returns is a call, if it is so for the child. -/
theorem returns (h : OverPipeline ctx wrap change) {g : ParallelScanGlobalState}
    (hchild : ∀ {op' : RunningOperator} {out : Option VectorBatch}, child.round ctx g = .ok (.returns op' out) →
      ∃ n, child.next ctx n = .ok (op', out)) {op' : RunningOperator} {out : Option VectorBatch}
    (hround : (wrap child).round ctx g = .ok (.returns op' out)) : ∃ n, (wrap child).next ctx n = .ok (op', out) := by
  rw [h.round] at hround
  obtain ⟨r, hr, hround⟩ := bind_eq_ok hround
  rcases PipelineRound.change_eq_returns hround with
    ⟨below, rfl, rfl, rfl⟩ | ⟨below, batch, output, rfl, hchange, rfl, rfl⟩
  · obtain ⟨n, hn⟩ := hchild hr
    exact ⟨n + 1, h.next_end hn⟩
  · obtain ⟨n, hn⟩ := hchild hr
    exact ⟨n + 1, h.next_some hn hchange⟩

/-- A round that goes on is followed by the rest of the call, if it is so for the child. -/
theorem continues (h : OverPipeline ctx wrap change) {g : ParallelScanGlobalState}
    (hreturns : ∀ {op' : RunningOperator} {out : Option VectorBatch}, child.round ctx g = .ok (.returns op' out) →
      ∃ n, child.next ctx n = .ok (op', out))
    (hchild : ∀ {op' : RunningOperator} {r : RunningOperator × Option VectorBatch} {n : ℕ},
      child.round ctx g = .ok (.continues op') → op'.next ctx n = .ok r → ∃ m, child.next ctx m = .ok r)
    {op' : RunningOperator} (hround : (wrap child).round ctx g = .ok (.continues op'))
    (hrest : op'.next ctx n = .ok r) : ∃ m, (wrap child).next ctx m = .ok r := by
  rw [h.round] at hround
  obtain ⟨round, hr, hround⟩ := bind_eq_ok hround
  rcases PipelineRound.change_eq_continues hround with ⟨below, rfl, rfl⟩ | ⟨below, batch, rfl, hdrop, rfl⟩
  · -- the child goes on, and so does the call above it
    rcases n with _ | n
    · exact absurd hrest (h.filters.zero _ _)
    rcases h.filters.succ_eq_ok hrest with ⟨c, hc, rfl⟩ | ⟨c, b, hc, ⟨hdrop, hmore⟩ | ⟨output, hchange, rfl⟩⟩
    · obtain ⟨m, hm⟩ := hchild hr hc
      exact ⟨m + 1, h.next_end hm⟩
    · obtain ⟨m, hm⟩ := hchild hr hc
      exact ⟨max m n + 1, h.next_drop hm hdrop hmore⟩
    · obtain ⟨m, hm⟩ := hchild hr hc
      exact ⟨m + 1, h.next_some hm hchange⟩
  · obtain ⟨m, hm⟩ := hreturns hr
    exact ⟨max m n + 1, h.next_drop hm hdrop hrest⟩

/-- A call is made of rounds, if shorter calls are. -/
theorem rounds_of_next (h : OverPipeline ctx wrap change)
    (hshorter : ∀ {op : RunningOperator} {r : RunningOperator × Option VectorBatch}, op.found ≠ none →
      op.next ctx n = .ok r → Rounds ctx op r) (hkeeps : ∀ {r : RunningOperator × Option VectorBatch},
      Rounds ctx child r → r.1.found ≠ none)
    (hfound : child.found ≠ none) (hnext : (wrap child).next ctx (n + 1) = .ok r) : Rounds ctx (wrap child) r := by
  rcases h.filters.succ_eq_ok hnext with ⟨c, hc, rfl⟩ | ⟨c, b, hc, ⟨hdrop, hmore⟩ | ⟨output, hchange, rfl⟩⟩
  · refine h.rounds (hshorter hfound hc) fun below g hbelow hround => .last ((h.found _).trans hbelow) ?_
    rw [h.round, hround]
    rfl
  · have hrounds := hshorter hfound hc
    have hrest := hshorter ((h.found c).symm ▸ hkeeps hrounds) hmore
    refine h.rounds hrounds fun below g hbelow hround => .more ((h.found _).trans hbelow) ?_ hrest
    rw [h.round, hround]
    simp only [bind, Except.bind, PipelineRound.change, hdrop]
    rfl
  · refine h.rounds (hshorter hfound hc) fun below g hbelow hround => .last ((h.found _).trans hbelow) ?_
    rw [h.round, hround]
    simp only [bind, Except.bind, PipelineRound.change, hchange]
    rfl

end OverPipeline

/-- A round of a scan that returns. -/
theorem round_parallelScan_returns {table : OpenTable} {options : ScanOptions} {shared : ℕ → ParallelScanGlobalState}
    {looks : ℕ} {g : ParallelScanGlobalState} {localState localState' : ParallelScanLocalState}
    {out : Option VectorBatch}
    (h : scanParallelRound table.disk options g localState = .ok (.returns localState' out)) :
    (RunningOperator.parallelScan table options shared looks localState).round ctx g =
      .ok (.returns (.parallelScan table options shared (looks + 1) localState') out) := by
  rw [RunningOperator.round, h]
  rfl

/-- A round of a scan that goes on. -/
theorem round_parallelScan_continues {table : OpenTable} {options : ScanOptions}
    {shared : ℕ → ParallelScanGlobalState} {looks : ℕ} {g : ParallelScanGlobalState}
    {localState localState' : ParallelScanLocalState}
    (h : scanParallelRound table.disk options g localState = .ok (.continues localState')) :
    (RunningOperator.parallelScan table options shared looks localState).round ctx g =
      .ok (.continues (.parallelScan table options shared (looks + 1) localState')) := by
  rw [RunningOperator.round, h]
  rfl

/-- A round that returns is a call. -/
theorem exists_next_of_returns {op op' : RunningOperator} {g : ParallelScanGlobalState} {out : Option VectorBatch}
    (hfound : op.found = some g) (h : op.round ctx g = .ok (.returns op' out)) : ∃ n, op.next ctx n = .ok (op', out) := by
  induction op generalizing op' out with
  | parallelScan table options shared looks localState =>
    cases hfound
    obtain ⟨round, hround, h⟩ := bind_eq_ok h
    cases round with
    | returns localState' output =>
      cases h
      refine ⟨1, ?_⟩
      rw [RunningOperator.next, hround]
      rfl
    | continues localState' => cases h
  | filter child predicate ih =>
    exact (overPipeline_filter predicate).returns (fun h => ih hfound h) h
  | projection child expressions ih =>
    exact (overPipeline_projection expressions).returns (fun h => ih hfound h) h
  | _ => cases h

/-- A round that goes on is followed by the rest of the call. -/
theorem exists_next_of_continues {op op' : RunningOperator} {g : ParallelScanGlobalState}
    {r : RunningOperator × Option VectorBatch} {n : ℕ} (hfound : op.found = some g)
    (h : op.round ctx g = .ok (.continues op')) (hrest : op'.next ctx n = .ok r) : ∃ m, op.next ctx m = .ok r := by
  induction op generalizing op' r n with
  | parallelScan table options shared looks localState =>
    cases hfound
    obtain ⟨round, hround, h⟩ := bind_eq_ok h
    cases round with
    | returns localState' output => cases h
    | continues localState' =>
      cases h
      refine ⟨n + 1, ?_⟩
      rw [RunningOperator.next, hround]
      exact hrest
  | filter child predicate ih =>
    exact (overPipeline_filter predicate).continues (fun h => exists_next_of_returns hfound h)
      (fun h hnext => ih hfound h hnext) h hrest
  | projection child expressions ih =>
    exact (overPipeline_projection expressions).continues (fun h => exists_next_of_returns hfound h)
      (fun h hnext => ih hfound h hnext) h hrest
  | _ => cases h

/-- A pipeline stays one. -/
theorem found_of_round {op : RunningOperator} {g : ParallelScanGlobalState} {r : PipelineRound}
    (h : op.round ctx g = .ok r) : r.op.found ≠ none := by
  induction op generalizing r with
  | parallelScan table options shared looks localState =>
    obtain ⟨round, -, h⟩ := bind_eq_ok h
    cases round <;> cases h <;> exact Option.some_ne_none _
  | filter child predicate ih | projection child expressions ih =>
    obtain ⟨round, hround, h⟩ := bind_eq_ok h
    rw [PipelineRound.op_change h]
    exact ih hround
  | _ => cases h

theorem Rounds.found {op : RunningOperator} {r : RunningOperator × Option VectorBatch} (h : Rounds ctx op r) :
    r.1.found ≠ none := by
  induction h with
  | last _ h => exact found_of_round h
  | more _ _ _ ih => exact ih

/-- A call of a pipeline is made of rounds. -/
theorem rounds_of_next {op : RunningOperator} {r : RunningOperator × Option VectorBatch} {n : ℕ}
    (hfound : op.found ≠ none) (h : op.next ctx n = .ok r) : Rounds ctx op r := by
  induction n generalizing op r with
  | zero => cases h
  | succ n ih =>
    cases op with
    | parallelScan table options shared looks localState =>
      obtain ⟨round, hround, h⟩ := bind_eq_ok h
      cases round with
      | returns localState' output =>
        cases h
        exact .last rfl (round_parallelScan_returns hround)
      | continues localState' =>
        exact .more rfl (round_parallelScan_continues hround) (ih (Option.some_ne_none _) h)
    | filter child predicate => exact (overPipeline_filter predicate).rounds_of_next ih (·.found) hfound h
    | projection child expressions =>
      exact (overPipeline_projection expressions).rounds_of_next ih (·.found) hfound h
    | _ => exact absurd rfl hfound

/-- **The rounds of a pipeline, until one returns, are a call of its `Next`.** -/
theorem rounds_iff {op : RunningOperator} (hop : op.found ≠ none) {r : RunningOperator × Option VectorBatch} :
    Rounds ctx op r ↔ ∃ n, op.next ctx n = .ok r := by
  refine ⟨fun h => ?_, fun ⟨n, h⟩ => rounds_of_next hop h⟩
  induction h with
  | last hfound h => exact exists_next_of_returns hfound h
  | more hfound h _ ih =>
    obtain ⟨n, hn⟩ := ih (found_of_round h)
    exact exists_next_of_continues hfound h hn

/-- The scan of a table with one row, whose segment nobody has claimed. -/
def oneRowScan : RunningOperator :=
  .parallelScan ⟨oneRowTable, oneRowDisk, segmentCount_oneRowTable⟩ ⟨[0], []⟩ (fun looks => ⟨[0], looks, none, false⟩) 0
    .reset

/-- A pipeline above it: `SELECT c, c FROM t`. -/
def oneRowPipeline : RunningOperator := .projection oneRowScan [.columnRef 0 .int32, .columnRef 0 .int32]

/-- Its call of `Next` hands over a batch, and so do its rounds. -/
theorem rounds_oneRowPipeline :
    ∃ r, Rounds ⟨fun _ => none, fun _ => none, .scalar, id, none⟩ oneRowPipeline r ∧ r.2 ≠ none := by
  have hfound : oneRowPipeline.found ≠ none := Option.some_ne_none _
  have hnext : ∃ r, oneRowPipeline.next ⟨fun _ => none, fun _ => none, .scalar, id, none⟩ 3 = .ok r ∧ r.2 ≠ none :=
    ⟨_, rfl, Option.some_ne_none _⟩
  obtain ⟨r, hr, hsome⟩ := hnext
  exact ⟨r, (rounds_iff hfound).mpr ⟨3, hr⟩, hsome⟩

/-! ## A pipeline and its scan -/

/-- The operators of a pipeline on another scan. -/
def RunningOperator.onScan : RunningOperator → RunningOperator → RunningOperator
  | .filter child predicate, scan => .filter (child.onScan scan) predicate
  | .projection child expressions, scan => .projection (child.onScan scan) expressions
  | _, scan => scan

/-- What the operators of a pipeline make of a batch of its scan. -/
def RunningOperator.through (ctx : ExecutionContext) : RunningOperator → VectorBatch → Except String (Option VectorBatch)
  | .filter child predicate => andThen (child.through ctx) (filterNext predicate)
  | .projection child expressions => andThen (child.through ctx) (projectNext ctx.backend expressions)
  | _ => fun batch => .ok (some batch)

/-- **A round of a pipeline is a round of its scan**, and what the operators above make of the batch. -/
theorem round_onScan (g : ParallelScanGlobalState) (scan op : RunningOperator) :
    (op.onScan scan).round ctx g =
      (scan.round ctx g >>= fun r => r.change op.onScan (op.through ctx)) := by
  induction op with
  | filter child predicate ih | projection child expressions ih =>
    simp only [RunningOperator.onScan, RunningOperator.round, ih, RunningOperator.through, bind_assoc,
      PipelineRound.change_bind_change]
  | _ =>
    simp only [RunningOperator.onScan, RunningOperator.through, PipelineRound.change_id]
    exact (bind_pure _).symm

/-- What a pipeline makes of the batches of its scan. -/
def Makes (ctx : ExecutionContext) (inputs : List VectorBatch) (op : RunningOperator) (bs : List VectorBatch) : Prop :=
  ∃ outs, inputs.mapM (op.through ctx) = .ok outs ∧ bs = outs.reduceOption

/-- A scan alone makes its batches. -/
theorem makes_parallelScan (inputs : List VectorBatch) {table : OpenTable} {options : ScanOptions}
    {shared : ℕ → ParallelScanGlobalState} {looks : ℕ} {localState : ParallelScanLocalState} :
    Makes ctx inputs (.parallelScan table options shared looks localState) inputs :=
  ⟨inputs.map some, List.mapM_pure, by rw [List.reduceOption, List.filterMap_map]; exact List.filterMap_some.symm⟩

theorem makes_filter_iff {inputs bs : List VectorBatch} {child : RunningOperator} {predicate : VectorPredicate} :
    Makes ctx inputs (.filter child predicate) bs ↔
      ∃ mids outs, Makes ctx inputs child mids ∧ mids.mapM (filterNext predicate) = .ok outs ∧
        bs = outs.reduceOption :=
  exists_mapM_andThen_iff _ _

theorem makes_projection_iff {inputs bs : List VectorBatch} {child : RunningOperator}
    {expressions : List ExecExpression} : Makes ctx inputs (.projection child expressions) bs ↔
      ∃ mids outs, Makes ctx inputs child mids ∧ mids.mapM (projectNext ctx.backend expressions) = .ok outs ∧
        bs = outs.reduceOption :=
  exists_mapM_andThen_iff _ _

/-- What is made of several lists of batches. -/
theorem makes_flatMap {ι : Type} (is : List ι) {inputs handed : ι → List VectorBatch} {op : RunningOperator}
    (h : ∀ i, Makes ctx (inputs i) op (handed i)) : Makes ctx (is.flatMap inputs) op (is.flatMap handed) := by
  induction is with
  | nil => exact ⟨[], rfl, rfl⟩
  | cons i is ih =>
    obtain ⟨outs, houts, heq⟩ := h i
    obtain ⟨rest, hrest, heqs⟩ := ih
    refine ⟨outs ++ rest, ?_, ?_⟩
    · rw [List.flatMap_cons, List.mapM_append, houts, hrest]
      rfl
    · rw [List.flatMap_cons, heq, heqs, List.reduceOption_append]

theorem Makes.unique {inputs bs bs' : List VectorBatch} {op : RunningOperator} (h : Makes ctx inputs op bs)
    (h' : Makes ctx inputs op bs') : bs = bs' := by
  obtain ⟨outs, houts, rfl⟩ := h
  obtain ⟨outs', houts', rfl⟩ := h'
  rw [Except.ok.inj (houts.symm.trans houts')]

end SimpleOlap
