import SimpleOlap.Execution.Operators
import SimpleOlap.Lib.Pull

/-!
# Operators that are called until their end

* `RunningOperator.Runs ctx op batches`: the batches that the calls of `Next` hand out.
* `steady_next`: what a call does is not a matter of its number of steps.
* `runs_seqScan_iff`, `runs_filter_iff`, `runs_projection_iff`, `runs_hashAggregate_iff`: what the operators
  hand out, in terms of their children.

Source: `execution_engine.cpp` ExecuteSerialQuery, the loop.
-/

namespace SimpleOlap

open Lib

variable {ctx : ExecutionContext}

/-- The batches of an operator, from its state to its end. -/
abbrev RunningOperator.Runs (ctx : ExecutionContext) : RunningOperator → List VectorBatch → Prop :=
  Drains (RunningOperator.next ctx)

/-- One more step changes no result. -/
theorem next_succ {n : ℕ} {op : RunningOperator} {r : RunningOperator × Option VectorBatch}
    (h : op.next ctx n = .ok r) : op.next ctx (n + 1) = .ok r := by
  induction n generalizing op r with
  | zero => cases h
  | succ n ih =>
    cases op with
    | seqScan table options cursor => exact h
    | parallelScan table options shared looks localState =>
      rw [RunningOperator.next] at h ⊢
      obtain ⟨round, hround, h⟩ := bind_eq_ok h
      rw [hround]
      cases round with
      | returns localState' output => exact h
      | continues localState' => exact ih h
    | indexScan table columns prepared groups => exact h
    | filter child predicate =>
      rw [RunningOperator.next] at h ⊢
      obtain ⟨⟨child', input⟩, hchild, h⟩ := bind_eq_ok h
      rw [ih hchild]
      rcases input with _ | input
      · exact h
      · obtain ⟨output, houtput, h⟩ := bind_eq_ok h
        show (filterNext predicate input >>= _) = _
        rw [houtput]
        rcases output with _ | output
        · exact ih h
        · exact h
    | projection child expressions =>
      rw [RunningOperator.next] at h ⊢
      obtain ⟨⟨child', input⟩, hchild, h⟩ := bind_eq_ok h
      rw [ih hchild]
      rcases input with _ | input
      · exact h
      · simp only [bind, Except.bind] at h ⊢
        split_ifs at h ⊢
        · exact ih h
        · exact h
    | hashAggregate child spec state rest =>
      rcases rest with _ | rest
      · rw [RunningOperator.next] at h ⊢
        obtain ⟨⟨child', input⟩, hchild, h⟩ := bind_eq_ok h
        rw [ih hchild]
        rcases input with _ | input
        · exact ih h
        · obtain ⟨state', hstate, h⟩ := bind_eq_ok h
          show (state.consume spec input >>= _) = _
          rw [hstate]
          exact ih h
      · exact h

/-- **What a call does is not a matter of its number of steps.** -/
theorem steady_next : Steady (RunningOperator.next ctx) := by
  intro n m op r hle h
  induction m, hle using Nat.le_induction with
  | base => exact h
  | succ m _ ih => exact next_succ ih

/-! ## Scans -/

/-- The batches of a scan are those of the calls of the table. -/
theorem runs_seqScan_iff {table : OpenTable} {options : ScanOptions} {cursor : ScanCursor}
    {bs : List VectorBatch} : (RunningOperator.seqScan table options cursor).Runs ctx bs ↔
      TableStorage.ScanCalls SegmentReader.evaluatePredicates table.storage table.segmentCount table.disk
        options cursor bs := by
  have hstep : ∀ {n : ℕ} {cursor : ScanCursor} {r : RunningOperator × Option VectorBatch},
      RunningOperator.next ctx n (.seqScan table options cursor) = .ok r →
        ∃ cursor' out, TableStorage.scan SegmentReader.evaluatePredicates table.storage table.segmentCount
          table.disk options cursor = .ok (cursor', out) ∧ r = (.seqScan table options cursor', out) := by
    intro n cursor r h
    cases n with
    | zero => cases h
    | succ n =>
      obtain ⟨⟨cursor', out⟩, hscan, h⟩ := bind_eq_ok h
      exact ⟨cursor', out, hscan, (Except.ok.inj h).symm⟩
  have hcall : ∀ {cursor cursor' : ScanCursor} {out : Option VectorBatch},
      TableStorage.scan SegmentReader.evaluatePredicates table.storage table.segmentCount table.disk options
        cursor = .ok (cursor', out) →
      RunningOperator.next ctx 1 (.seqScan table options cursor) = .ok (.seqScan table options cursor', out) := by
    intro cursor cursor' out h
    rw [RunningOperator.next, h]
    rfl
  constructor
  · intro h
    generalize hop : RunningOperator.seqScan table options cursor = op at h
    induction h generalizing cursor with
    | done h =>
      obtain ⟨cursor', out, hscan, heq⟩ := hstep (hop ▸ h)
      cases heq
      exact .done hscan
    | next h _ ih =>
      obtain ⟨cursor', out, hscan, heq⟩ := hstep (hop ▸ h)
      cases heq
      exact .next hscan (ih rfl)
  · intro h
    induction h with
    | done h => exact .done (hcall h)
    | next h _ ih => exact .next (hcall h) ih

/-! ## Filters and projections -/

/-- A filter hands out what passes of the batches of its child. -/
theorem filters_filter (predicate : VectorPredicate) : Filters (RunningOperator.next ctx)
    (RunningOperator.next ctx) (RunningOperator.filter · predicate) (filterNext predicate) where
  zero _ _ h := by cases h
  succ n op := by
    rw [RunningOperator.next]
    refine bind_congr fun r => ?_
    obtain ⟨child, _ | batch⟩ := r
    · rfl
    · refine bind_congr fun out => ?_
      cases out <;> rfl

theorem runs_filter_iff {child : RunningOperator} {predicate : VectorPredicate} {bs : List VectorBatch} :
    (RunningOperator.filter child predicate).Runs ctx bs ↔
      ∃ inputs outs, child.Runs ctx inputs ∧ inputs.mapM (filterNext predicate) = .ok outs ∧
        bs = outs.reduceOption :=
  (filters_filter predicate).drains_iff steady_next steady_next

/-- What a projection makes of a batch; one without active rows is passed over. Source: `projection.cpp`
Next, the body of the loop. -/
def projectNext (backend : Backend) (expressions : List ExecExpression) (batch : VectorBatch) :
    Except String (Option VectorBatch) :=
  if batch.size = 0 then .ok none else some <$> projectBatch backend expressions batch

/-- A projection hands out what becomes of the batches of its child. -/
theorem filters_projection (expressions : List ExecExpression) : Filters (RunningOperator.next ctx)
    (RunningOperator.next ctx) (RunningOperator.projection · expressions)
    (projectNext ctx.backend expressions) where
  zero _ _ h := by cases h
  succ n op := by
    rw [RunningOperator.next]
    refine bind_congr fun r => ?_
    obtain ⟨child, _ | batch⟩ := r
    · rfl
    · unfold projectNext
      by_cases hsize : batch.size = 0
      · simp only [hsize, if_true, bind, Except.bind]
      · simp only [hsize, if_false, bind, Except.bind, Functor.map, Except.map]
        cases projectBatch ctx.backend expressions batch <;> rfl

theorem runs_projection_iff {child : RunningOperator} {expressions : List ExecExpression}
    {bs : List VectorBatch} : (RunningOperator.projection child expressions).Runs ctx bs ↔
      ∃ inputs outs, child.Runs ctx inputs ∧
        inputs.mapM (projectNext ctx.backend expressions) = .ok outs ∧ bs = outs.reduceOption :=
  (filters_projection expressions).drains_iff steady_next steady_next

/-! ## Aggregates -/

/-- The groups that an aggregate goes through when its input is consumed. -/
def HashAggregateState.emitted (order : GroupTable → GroupTable) (spec : AggregateSpec)
    (s : HashAggregateState) : GroupTable :=
  if spec.isGlobal then s.outputGroups spec else order (s.outputGroups spec)

/-- Groups that are left are handed out in batches of at most 1024. -/
theorem runs_groups_iff {child : RunningOperator} {spec : AggregateSpec} {state : HashAggregateState}
    {rest : GroupTable} {bs : List VectorBatch} :
    (RunningOperator.hashAggregate child spec state (some rest)).Runs ctx bs ↔
      ∃ pages, spec.drain rest = .ok pages ∧ bs = pages.map (resultBatch spec.outputs) := by
  have hstep : ∀ {n : ℕ} {rest : GroupTable} {r : RunningOperator × Option VectorBatch},
      RunningOperator.next ctx n (.hashAggregate child spec state (some rest)) = .ok r →
        spec.nextResult rest = .ok none ∧ r = (.hashAggregate child spec state (some rest), none) ∨
        ∃ rows rest', spec.nextResult rest = .ok (some (rows, rest')) ∧
          r = (.hashAggregate child spec state (some rest'), some (resultBatch spec.outputs rows)) := by
    intro n rest r h
    cases n with
    | zero => cases h
    | succ n =>
      obtain ⟨out, hnext, h⟩ := bind_eq_ok h
      rcases out with _ | ⟨rows, rest'⟩
      · exact .inl ⟨hnext, (Except.ok.inj h).symm⟩
      · exact .inr ⟨rows, rest', hnext, (Except.ok.inj h).symm⟩
  constructor
  · intro h
    generalize hop : RunningOperator.hashAggregate child spec state (some rest) = op at h
    induction h generalizing rest with
    | done h =>
      rcases hstep (hop ▸ h) with ⟨hnext, -⟩ | ⟨rows, rest', hnext, heq⟩
      · refine ⟨[], ?_, rfl⟩
        rw [AggregateSpec.drain_eq, hnext]
        rfl
      · cases heq
    | next h _ ih =>
      rcases hstep (hop ▸ h) with ⟨hnext, heq⟩ | ⟨rows, rest', hnext, heq⟩
      · cases heq
      · cases heq
        obtain ⟨pages, hpages, rfl⟩ := ih rfl
        refine ⟨rows :: pages, ?_, rfl⟩
        rw [AggregateSpec.drain_eq, hnext]
        show (do return rows :: (← spec.drain rest')) = _
        rw [hpages]
        rfl
  · rintro ⟨pages, hpages, rfl⟩
    induction pages generalizing rest with
    | nil =>
      rw [AggregateSpec.drain_eq] at hpages
      obtain ⟨out, hnext, hpages⟩ := bind_eq_ok hpages
      rcases out with _ | ⟨rows, rest'⟩
      · have hcall : RunningOperator.next ctx 1 (.hashAggregate child spec state (some rest)) =
            .ok (.hashAggregate child spec state (some rest), none) := by
          rw [RunningOperator.next, hnext]
          rfl
        exact .done hcall
      · obtain ⟨rest'', -, hpages⟩ := bind_eq_ok hpages
        cases hpages
    | cons rows pages ih =>
      rw [AggregateSpec.drain_eq] at hpages
      obtain ⟨out, hnext, hpages⟩ := bind_eq_ok hpages
      rcases out with _ | ⟨rows', rest'⟩
      · cases hpages
      · obtain ⟨pages', hrest, hpages⟩ := bind_eq_ok hpages
        cases hpages
        exact .next (next_hashAggregate_some (n := 0) hnext) (ih hrest)

/-- An aggregate consumes the batches of its child first. -/
theorem folds_hashAggregate (spec : AggregateSpec) : Folds (RunningOperator.next ctx)
    (RunningOperator.next ctx) (fun child state => .hashAggregate child spec state none)
    (fun state batch => state.consume spec batch)
    (fun child state => .hashAggregate child spec state (some (state.emitted ctx.order spec))) where
  zero _ _ _ h := by cases h
  succ n child state := by
    rw [RunningOperator.next]
    refine bind_congr fun r => ?_
    obtain ⟨child', _ | batch⟩ := r <;> rfl

theorem runs_hashAggregate_iff {child : RunningOperator} {spec : AggregateSpec} {state : HashAggregateState}
    {bs : List VectorBatch} : (RunningOperator.hashAggregate child spec state none).Runs ctx bs ↔
      ∃ inputs state', child.Runs ctx inputs ∧
        inputs.foldlM (fun (state : HashAggregateState) batch => state.consume spec batch) state = .ok state' ∧
        ∃ pages, spec.drain (state'.emitted ctx.order spec) = .ok pages ∧
          bs = pages.map (resultBatch spec.outputs) :=
  (folds_hashAggregate spec).drains_iff steady_next steady_next fun _ _ _ => runs_groups_iff

end SimpleOlap
