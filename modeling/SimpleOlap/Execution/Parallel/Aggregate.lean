import SimpleOlap.Lib.Transition
import Mathlib.Data.Fintype.Basic

/-!
# The parallel aggregate

* `AggregateWorker`, `AggregateCaller`: where a worker task and the calling thread are in
  `ExecuteAggregate`; `AggregateRun.Step`: one step of one thread. Here a submitted task may start at any
  time, which is more than a pool does (`AggregateRun.Serves` says when one takes it).
* `AggregateRun.callerOk_step`: what the caller knows of the futures that it has waited for;
  `AggregateRun.Reached.joined`: when the call has ended, no submitted task is left.
-/

namespace SimpleOlap

open Lib

variable {σ β ε : Type} {n : ℕ}

/-- Where a worker task is, with its aggregate state; `running` is before a `Next` of its pipeline.
Source: `parallel_executor.cpp` ExecuteAggregate, the task. -/
inductive AggregateWorker (σ ε : Type) where
  | unsubmitted
  | queued
  | running (state : σ)
  | caught (error : ε)
  | finished (outcome : Except ε σ)

/-- Where the calling thread is; the numbers count tasks. Source: `parallel_executor.cpp`
ExecuteAggregate. -/
inductive AggregateCaller (ε : Type) where
  | submitting (next : ℕ)
  | submitFailed (submitted : ℕ) (error : ε)
  | abandoning (submitted next : ℕ) (error : ε)
  | merging (next : ℕ) (error : Option ε)
  | emitting
  | returned
  | threw (error : ε)

/-- A call of `ExecuteAggregate` with `n` workers, and the batches that they have consumed. -/
structure AggregateRun (σ β ε : Type) (n : ℕ) where
  workers : Fin n → AggregateWorker σ ε
  consumed : Fin n → List β
  scanCancelled : Bool
  caller : AggregateCaller ε
  merged : σ

/-- What the calls on an aggregate state do; each may throw. -/
structure AggregateOps (σ β ε : Type) where
  initial : σ
  consume : σ → β → Except ε σ
  merge : σ → σ → Except ε σ

namespace AggregateWorker

/-- The task has finished; its future is ready. -/
def Done (w : AggregateWorker σ ε) : Prop := ∃ outcome, w = .finished outcome

end AggregateWorker

namespace AggregateRun

/-- The call after `worker_count` is known. -/
def start (ops : AggregateOps σ β ε) (n : ℕ) : AggregateRun σ β ε n :=
  ⟨fun _ => .unsubmitted, fun _ => [], false, .submitting 0, ops.initial⟩

/-- The first error is kept. Source: `parallel_executor.cpp` ExecuteAggregate, collecting the
futures. -/
def collect (ops : AggregateOps σ β ε) (merged : σ) (error : Option ε) (outcome : Except ε σ) :
    σ × Option ε :=
  match outcome with
  | .error e => (merged, error.or (some e))
  | .ok state =>
    match ops.merge merged state with
    | .error e => (merged, error.or (some e))
    | .ok merged' => (merged', error)

/-- One step of one thread. The tasks get whatever batches their pipelines find; building a pipeline,
its `Next` and `Consume` may throw. Source: `parallel_executor.cpp` ExecuteAggregate. -/
inductive Step (ops : AggregateOps σ β ε) : AggregateRun σ β ε n → AggregateRun σ β ε n → Prop
  | start {s : AggregateRun σ β ε n} {i : Fin n} (h : s.workers i = .queued) :
      Step ops s { s with workers := Function.update s.workers i (.running ops.initial) }
  | consumes {s : AggregateRun σ β ε n} {i : Fin n} {state state' : σ} (batch : β)
      (h : s.workers i = .running state) (hconsume : ops.consume state batch = .ok state') :
      Step ops s { s with
        workers := Function.update s.workers i (.running state')
        consumed := Function.update s.consumed i (s.consumed i ++ [batch]) }
  | throws {s : AggregateRun σ β ε n} {i : Fin n} {state : σ} (error : ε)
      (h : s.workers i = .running state) :
      Step ops s { s with workers := Function.update s.workers i (.caught error) }
  | ends {s : AggregateRun σ β ε n} {i : Fin n} {state : σ} (h : s.workers i = .running state) :
      Step ops s { s with workers := Function.update s.workers i (.finished (.ok state)) }
  | cancels {s : AggregateRun σ β ε n} {i : Fin n} {error : ε} (h : s.workers i = .caught error) :
      Step ops s { s with
        workers := Function.update s.workers i (.finished (.error error))
        scanCancelled := true }
  | submit {s : AggregateRun σ β ε n} {k : ℕ} (hk : k < n) (h : s.caller = .submitting k) :
      Step ops s { s with
        workers := Function.update s.workers ⟨k, hk⟩ .queued
        caller := .submitting (k + 1) }
  | submitThrows {s : AggregateRun σ β ε n} {k : ℕ} (hk : k < n) (error : ε)
      (h : s.caller = .submitting k) : Step ops s { s with caller := .submitFailed k error }
  | cancelsScan {s : AggregateRun σ β ε n} {k : ℕ} {error : ε}
      (h : s.caller = .submitFailed k error) :
      Step ops s { s with caller := .abandoning k 0 error, scanCancelled := true }
  | abandon {s : AggregateRun σ β ε n} {k j : ℕ} {error : ε} (hj : j < k) (hn : j < n)
      (h : s.caller = .abandoning k j error) (hdone : (s.workers ⟨j, hn⟩).Done) :
      Step ops s { s with caller := .abandoning k (j + 1) error }
  | abandoned {s : AggregateRun σ β ε n} {k : ℕ} {error : ε}
      (h : s.caller = .abandoning k k error) : Step ops s { s with caller := .threw error }
  | submitted {s : AggregateRun σ β ε n} (h : s.caller = .submitting n) :
      Step ops s { s with caller := .merging 0 none }
  | merges {s : AggregateRun σ β ε n} {j : ℕ} {error : Option ε} {outcome : Except ε σ} (hn : j < n)
      (h : s.caller = .merging j error) (hdone : s.workers ⟨j, hn⟩ = .finished outcome) :
      Step ops s { s with
        caller := .merging (j + 1) (collect ops s.merged error outcome).2
        merged := (collect ops s.merged error outcome).1 }
  | rethrows {s : AggregateRun σ β ε n} {error : ε} (h : s.caller = .merging n (some error)) :
      Step ops s { s with caller := .threw error, scanCancelled := true }
  | merged {s : AggregateRun σ β ε n} (h : s.caller = .merging n none) :
      Step ops s { s with caller := .emitting }
  | emitThrows {s : AggregateRun σ β ε n} (error : ε) (h : s.caller = .emitting) :
      Step ops s { s with caller := .threw error }
  | returns {s : AggregateRun σ β ε n} (h : s.caller = .emitting) :
      Step ops s { s with caller := .returned }

/-- The states of a call. -/
def Reached (ops : AggregateOps σ β ε) : AggregateRun σ β ε n → Prop :=
  Reachable (· = start ops n) (Step ops)

/-! ## No task is left -/

/-- Every task that was submitted has finished. -/
def Joined (s : AggregateRun σ β ε n) : Prop :=
  ∀ i, s.workers i = .unsubmitted ∨ (s.workers i).Done

/-- The call has ended. -/
def Ended (s : AggregateRun σ β ε n) : Prop :=
  s.caller = .returned ∨ ∃ error, s.caller = .threw error

/-- What holds of the tasks when the caller is at `c`. -/
def CallerOk (workers : Fin n → AggregateWorker σ ε) : AggregateCaller ε → Prop
  | .submitting k | .submitFailed k _ => ∀ i : Fin n, k ≤ i → workers i = .unsubmitted
  | .abandoning k j _ => (∀ i : Fin n, k ≤ i → workers i = .unsubmitted) ∧
      ∀ i : Fin n, i < j → (workers i).Done
  | .merging j _ => ∀ i : Fin n, i < j → (workers i).Done
  | .emitting | .returned | .threw _ => ∀ i, workers i = .unsubmitted ∨ (workers i).Done

variable {ops : AggregateOps σ β ε} {s s' : AggregateRun σ β ε n}

/-- A task that is in takes a step. -/
theorem CallerOk.update {workers : Fin n → AggregateWorker σ ε} {c : AggregateCaller ε}
    (h : CallerOk workers c) {i : Fin n} (hsubmitted : workers i ≠ .unsubmitted)
    (hdone : ¬ (workers i).Done) (w : AggregateWorker σ ε) :
    CallerOk (Function.update workers i w) c := by
  have hkeep : ∀ (j : Fin n) (v : AggregateWorker σ ε), v = .unsubmitted ∨ v.Done →
      workers j = v → Function.update workers i w j = v := by
    rintro j v hv hj
    have hji : j ≠ i := by
      rintro rfl
      rcases hv with rfl | hv
      · exact hsubmitted hj
      · exact hdone (hj ▸ hv)
    rw [Function.update_of_ne hji, hj]
  have hunsubmitted : ∀ j, workers j = .unsubmitted → Function.update workers i w j = .unsubmitted :=
    fun j hj => hkeep j _ (.inl rfl) hj
  have hdone' : ∀ j, (workers j).Done → (Function.update workers i w j).Done := fun j hj => by
    rw [hkeep j _ (.inr hj) rfl]
    exact hj
  cases c with
  | submitting k | submitFailed k e => exact fun j hj => hunsubmitted j (h j hj)
  | abandoning k j e =>
    exact ⟨fun l hl => hunsubmitted l (h.1 l hl), fun l hl => hdone' l (h.2 l hl)⟩
  | merging j e => exact fun l hl => hdone' l (h l hl)
  | emitting | returned | threw e => exact fun l => (h l).imp (hunsubmitted l) (hdone' l)

/-- The next future is ready. -/
theorem done_succ {workers : Fin n → AggregateWorker σ ε} {j : ℕ} (hn : j < n)
    (h : ∀ i : Fin n, i < j → (workers i).Done) (hj : (workers ⟨j, hn⟩).Done) (i : Fin n)
    (hi : i < j + 1) : (workers i).Done := by
  rcases Nat.lt_succ_iff_lt_or_eq.mp hi with hlt | heq
  · exact h i hlt
  · obtain rfl : i = ⟨j, hn⟩ := Fin.ext heq
    exact hj

/-- Every step keeps what holds of the tasks. -/
theorem callerOk_step (h : CallerOk s.workers s.caller) (hst : Step ops s s') :
    CallerOk s'.workers s'.caller := by
  cases hst with
  | start hw | throws error hw | ends hw | cancels hw =>
    exact h.update (by rw [hw]; exact nofun) (by rw [hw]; exact nofun) _
  | consumes batch hw hconsume =>
    exact h.update (by rw [hw]; exact nofun) (by rw [hw]; exact nofun) _
  | @submit k hk hc =>
    rw [hc] at h
    intro i hi
    have hne : i ≠ ⟨k, hk⟩ := by
      rintro rfl
      exact absurd hi (Nat.not_succ_le_self k)
    show Function.update s.workers ⟨k, hk⟩ .queued i = .unsubmitted
    rw [Function.update_of_ne hne]
    exact h i (Nat.le_of_succ_le hi)
  | submitThrows hk error hc =>
    rw [hc] at h
    exact h
  | cancelsScan hc =>
    rw [hc] at h
    exact ⟨h, nofun⟩
  | abandon hj hn hc hdone =>
    rw [hc] at h
    exact ⟨h.1, done_succ hn h.2 hdone⟩
  | @abandoned k error hc =>
    rw [hc] at h
    intro i
    rcases Nat.lt_or_ge i k with hlt | hge
    · exact .inr (h.2 i hlt)
    · exact .inl (h.1 i hge)
  | submitted hc => exact nofun
  | merges hn hc hdone =>
    rw [hc] at h
    exact done_succ hn h ⟨_, hdone⟩
  | rethrows hc | merged hc =>
    rw [hc] at h
    exact fun i => .inr (h i i.isLt)
  | emitThrows error hc | returns hc =>
    rw [hc] at h
    exact h

theorem Reached.callerOk (hrun : Reached ops s) : CallerOk s.workers s.caller := by
  refine Reachable.invariant (P := fun s => CallerOk s.workers s.caller) ?_
    (fun _ _ h hst => callerOk_step h hst) hrun
  rintro _ rfl
  exact fun _ _ => rfl

/-- No run of `ExecuteAggregate` leaves a task behind. -/
theorem Reached.joined (hrun : Reached ops s) (hended : s.Ended) : s.Joined := by
  have h := hrun.callerOk
  rcases hended with hc | ⟨e, hc⟩ <;> rw [hc] at h <;> exact h

end AggregateRun

end SimpleOlap
