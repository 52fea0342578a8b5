import SimpleOlap.Execution.Parallel.Aggregate
import SimpleOlap.Parallel.ThreadPool
import Mathlib.Data.List.FinRange
import Mathlib.Data.List.Forall2

/-!
# What a parallel aggregate computes

* `AggregateRun.Broken`: a task has failed; `AggregateCaller.GivenUp`: the caller has given up.
* `AggregateRun.Accounts`: the state of a task is that of the batches it has consumed.
* `AggregateRun.Merged`: what the caller has merged so far; `Reached.collected`: in the end, the states of all tasks.
* `AggregateRun.Sound`: states on which no call fails; `Unharmed.step`: with them no merge fails.
* `AggregateRun.pool`, `Serves`: the tasks of the call in the pool that runs them.
* `AggregateRun.Live`, `Live.exists_step`, `remaining`, `Step.remaining_lt`: the call goes on until it has ended.
-/

namespace SimpleOlap

open Lib

variable {σ β ε : Type} {n : ℕ}

/-- The call has failed to submit a task, or has thrown. -/
def AggregateCaller.GivenUp : AggregateCaller ε → Prop
  | .submitFailed _ _ | .abandoning _ _ _ | .threw _ => True
  | _ => False

namespace AggregateRun

variable {ops : AggregateOps σ β ε} {s s' : AggregateRun σ β ε n}

/-! ## Tasks -/

/-- Some task has failed. -/
def Broken (s : AggregateRun σ β ε n) : Prop :=
  ∃ i e, s.workers i = .caught e ∨ s.workers i = .finished (.error e)

/-- A step of one task leaves the others as they are. -/
theorem update_eq_of_ne {workers : Fin n → AggregateWorker σ ε} {i j : Fin n} {w v : AggregateWorker σ ε}
    (hj : workers j = v) (hv : workers i ≠ v) : Function.update workers i w j = v := by
  have hji : j ≠ i := by
    rintro rfl
    exact hv hj
  rw [Function.update_of_ne hji, hj]

/-- The state of a task is that of the batches that it has consumed. -/
structure Accounts (ops : AggregateOps σ β ε) (workers : Fin n → AggregateWorker σ ε) (consumed : Fin n → List β) :
    Prop where
  idle : ∀ i, workers i = .unsubmitted ∨ workers i = .queued → consumed i = []
  state : ∀ i state, workers i = .running state ∨ workers i = .finished (.ok state) →
    (consumed i).foldlM ops.consume ops.initial = .ok state

/-- A task takes a step. -/
theorem Accounts.update {workers : Fin n → AggregateWorker σ ε} {consumed : Fin n → List β}
    (h : Accounts ops workers consumed) (i : Fin n) {w : AggregateWorker σ ε} {bs : List β}
    (hidle : w = .unsubmitted ∨ w = .queued → bs = [])
    (hstate : ∀ state, w = .running state ∨ w = .finished (.ok state) →
      bs.foldlM ops.consume ops.initial = .ok state) :
    Accounts ops (Function.update workers i w) (Function.update consumed i bs) := by
  constructor
  · intro j
    by_cases hji : j = i
    · subst hji
      simpa only [Function.update_self] using hidle
    · simpa only [Function.update_of_ne hji] using h.idle j
  · intro j
    by_cases hji : j = i
    · subst hji
      simpa only [Function.update_self] using hstate
    · simpa only [Function.update_of_ne hji] using h.state j

/-- A task takes a step in which it consumes nothing. -/
theorem Accounts.move {workers : Fin n → AggregateWorker σ ε} {consumed : Fin n → List β}
    (h : Accounts ops workers consumed) {i : Fin n} {w : AggregateWorker σ ε}
    (hidle : w = .unsubmitted ∨ w = .queued → consumed i = [])
    (hstate : ∀ state, w = .running state ∨ w = .finished (.ok state) →
      (consumed i).foldlM ops.consume ops.initial = .ok state) : Accounts ops (Function.update workers i w) consumed := by
  have hmoved := h.update i hidle hstate
  rwa [Function.update_eq_self] at hmoved

theorem Accounts.step (hinv : CallerOk s.workers s.caller) (h : Accounts ops s.workers s.consumed)
    (hst : Step ops s s') : Accounts ops s'.workers s'.consumed := by
  cases hst with
  | @start i hw =>
    refine h.move nofun fun state hstate => ?_
    rcases hstate with hstate | hstate <;> cases hstate
    rw [h.idle i (.inr hw)]
    rfl
  | @consumes i state state' batch hw hconsume =>
    refine h.update i nofun fun st hst => ?_
    rcases hst with hst | hst <;> cases hst
    rw [List.foldlM_append, h.state i state (.inl hw)]
    show [batch].foldlM ops.consume state = .ok state'
    rw [List.foldlM_cons, hconsume]
    rfl
  | throws error hw => exact h.move nofun fun st hst => by rcases hst with hst | hst <;> cases hst
  | @ends i state hw =>
    refine h.move nofun fun st hst => ?_
    rcases hst with hst | hst <;> cases hst
    exact h.state i state (.inl hw)
  | cancels hw => exact h.move nofun fun st hst => by rcases hst with hst | hst <;> cases hst
  | @submit k hk hc =>
    rw [hc] at hinv
    refine h.move (fun _ => h.idle _ (.inl (hinv ⟨k, hk⟩ le_rfl))) fun st hst => ?_
    rcases hst with hst | hst <;> cases hst
  | _ => exact h

/-! ## What the caller merges -/

/-- The states of the first `j` tasks, merged in order. -/
def Folded (ops : AggregateOps σ β ε) (workers : Fin n → AggregateWorker σ ε) (merged : σ) (j : ℕ) : Prop :=
  ∃ states, List.Forall₂ (fun i state => workers i = .finished (.ok state)) ((List.finRange n).take j) states ∧
    states.foldlM ops.merge ops.initial = .ok merged

/-- What the caller has merged. -/
def Merged (ops : AggregateOps σ β ε) (workers : Fin n → AggregateWorker σ ε) (merged : σ) : AggregateCaller ε → Prop
  | .submitting _ => merged = ops.initial
  | .merging j none => Folded ops workers merged j
  | .emitting | .returned => Folded ops workers merged n
  | _ => True

/-- A task that has not finished takes a step. -/
theorem Merged.update {workers : Fin n → AggregateWorker σ ε} {merged : σ} {c : AggregateCaller ε}
    (h : Merged ops workers merged c) {i : Fin n} (hdone : ¬ (workers i).Done) (w : AggregateWorker σ ε) :
    Merged ops (Function.update workers i w) merged c := by
  have hfolded : ∀ {j}, Folded ops workers merged j → Folded ops (Function.update workers i w) merged j := by
    rintro j ⟨states, hstates, hfold⟩
    exact ⟨states, hstates.imp fun k state hk => update_eq_of_ne hk fun hi => hdone ⟨_, hi⟩, hfold⟩
  rcases c with k | ⟨k, e⟩ | ⟨k, j, e⟩ | ⟨j, _ | e⟩ | _ | _ | e
  case submitting => exact h
  case merging.none => exact hfolded h
  case emitting => exact hfolded h
  case returned => exact hfolded h
  all_goals trivial

/-- The state of the next task is merged. -/
theorem Folded.succ {workers : Fin n → AggregateWorker σ ε} {merged merged' state : σ} {j : ℕ}
    (h : Folded ops workers merged j) (hn : j < n) (hdone : workers ⟨j, hn⟩ = .finished (.ok state))
    (hmerge : ops.merge merged state = .ok merged') : Folded ops workers merged' (j + 1) := by
  obtain ⟨states, hstates, hfold⟩ := h
  have hlen : j < (List.finRange n).length := by rwa [List.length_finRange]
  refine ⟨states ++ [state], ?_, ?_⟩
  · rw [List.take_succ_eq_append_getElem hlen, List.getElem_finRange]
    exact List.rel_append hstates (.cons hdone .nil)
  · rw [List.foldlM_append, hfold]
    show [state].foldlM ops.merge merged = .ok merged'
    rw [List.foldlM_cons, hmerge]
    rfl

/-- The first error is kept. -/
theorem collect_eq_none {merged merged' : σ} {error : Option ε} {outcome : Except ε σ}
    (h : collect ops merged error outcome = (merged', none)) :
    error = none ∧ ∃ state, outcome = .ok state ∧ ops.merge merged state = .ok merged' := by
  unfold collect at h
  rcases outcome with e | state
  · rcases error with _ | e' <;> cases h
  · rcases hmerge : ops.merge merged state with e | next
    · simp only [hmerge] at h
      rcases error with _ | e' <;> cases h
    · simp only [hmerge] at h
      cases h
      exact ⟨rfl, state, rfl, hmerge⟩

theorem Merged.step (h : Merged ops s.workers s.merged s.caller)
    (hst : Step ops s s') : Merged ops s'.workers s'.merged s'.caller := by
  cases hst with
  | start hw | throws error hw | ends hw | cancels hw => exact h.update (by rw [hw]; exact nofun) _
  | consumes batch hw hconsume => exact h.update (by rw [hw]; exact nofun) _
  | submit hk hc =>
    rw [hc] at h
    exact h
  | submitted hc =>
    rw [hc] at h
    exact ⟨[], .nil, congrArg Except.ok h.symm⟩
  | @merges j error outcome hn hc hdone =>
    rw [hc] at h
    rcases hcollect : collect ops s.merged error outcome with ⟨merged', _ | e⟩
    · obtain ⟨rfl, state, rfl, hmerge⟩ := collect_eq_none hcollect
      exact Folded.succ h hn hdone hmerge
    · trivial
  | merged hc | returns hc =>
    rw [hc] at h
    exact h
  | submitThrows | cancelsScan | abandon | abandoned | rethrows | emitThrows => trivial

theorem Reached.accounts_and_merged (hrun : Reached ops s) :
    Accounts ops s.workers s.consumed ∧ Merged ops s.workers s.merged s.caller := by
  have hall : CallerOk s.workers s.caller ∧ Accounts ops s.workers s.consumed ∧
      Merged ops s.workers s.merged s.caller := by
    refine Reachable.invariant (P := fun s => CallerOk s.workers s.caller ∧ Accounts ops s.workers s.consumed ∧
      Merged ops s.workers s.merged s.caller) ?_ ?_ hrun
    · rintro _ rfl
      refine ⟨fun _ _ => rfl, ⟨fun _ _ => rfl, fun i state hstate => ?_⟩, rfl⟩
      rcases hstate with hstate | hstate <;> cases hstate
    · exact fun s s' ⟨hinv, haccounts, hmerged⟩ hst =>
        ⟨callerOk_step hinv hst, haccounts.step hinv hst, hmerged.step hst⟩
  exact hall.2

/-- **What has been merged when the futures are collected**: the states of all tasks, each of the batches that it
consumed. -/
theorem Reached.collected (hrun : Reached ops s) (hcaller : s.caller = .emitting ∨ s.caller = .returned) :
    ∃ states, List.Forall₂ (fun i state => (s.consumed i).foldlM ops.consume ops.initial = .ok state)
        (List.finRange n) states ∧ states.foldlM ops.merge ops.initial = .ok s.merged ∧
      ∀ i, ∃ state, s.workers i = .finished (.ok state) := by
  obtain ⟨haccounts, hmerged⟩ := hrun.accounts_and_merged
  have hfolded : Folded ops s.workers s.merged n := by
    rcases hcaller with hc | hc <;> rw [hc] at hmerged <;> exact hmerged
  obtain ⟨states, hstates, hfold⟩ := hfolded
  rw [List.take_of_length_le (by rw [List.length_finRange])] at hstates
  refine ⟨states, hstates.imp fun i state hi => haccounts.state i state (.inr hi), hfold, fun i => ?_⟩
  obtain ⟨k, hk, hget⟩ := List.mem_iff_getElem.mp (List.mem_finRange i)
  have hat := hstates.get hk (hstates.length_eq ▸ hk)
  rw [List.get_eq_getElem, hget] at hat
  exact ⟨_, hat⟩

/-! ## Calls that give up -/

/-- A call that has given up does not go back. -/
theorem givenUp_step (h : s.caller.GivenUp) (hst : Step ops s s') : s'.caller.GivenUp := by
  cases hst with
  | submit hk hc | submitThrows hk error hc | merges hn hc | submitted hc | merged hc | rethrows hc | emitThrows error hc
  | returns hc =>
    rw [hc] at h
    exact absurd h id
  | cancelsScan | abandon | abandoned => exact True.intro
  | _ => exact h

/-! ## States on which no call fails -/

/-- On states like this no call fails. -/
structure Sound (ops : AggregateOps σ β ε) (P : β → Prop) (Good : σ → Prop) : Prop where
  initial : Good ops.initial
  consume : ∀ {state batch}, Good state → P batch → ∃ state', ops.consume state batch = .ok state' ∧ Good state'
  merge : ∀ {state state'}, Good state → Good state' → ∃ merged, ops.merge state state' = .ok merged ∧ Good merged

variable {P : β → Prop} {Good : σ → Prop}

/-- A list of batches is consumed. -/
theorem Sound.foldlM (h : Sound ops P Good) {bs : List β} (hbs : ∀ b ∈ bs, P b) {state state' : σ} (hgood : Good state)
    (hfold : bs.foldlM ops.consume state = .ok state') : Good state' := by
  induction bs generalizing state with
  | nil =>
    cases hfold
    exact hgood
  | cons b bs ih =>
    obtain ⟨next, hnext, hgood'⟩ := h.consume hgood (hbs b List.mem_cons_self)
    rw [List.foldlM_cons, hnext] at hfold
    exact ih (fun b hb => hbs b (List.mem_cons_of_mem _ hb)) hgood' hfold

/-- What the caller knows, while no task has failed. -/
def Unharmed (Good : σ → Prop) (merged : σ) : AggregateCaller ε → Prop
  | .merging _ error => error = none ∧ Good merged
  | .submitting _ => Good merged
  | _ => True

/-- **While no task has failed, no merge fails.** -/
theorem Unharmed.step (hsound : Sound ops P Good) (haccounts : Accounts ops s.workers s.consumed)
    (hconsumed : ∀ i, ∀ b ∈ s.consumed i, P b) (hfine : ¬ s.Broken) (h : Unharmed Good s.merged s.caller)
    (hst : Step ops s s') : Unharmed Good s'.merged s'.caller := by
  cases hst with
  | submit hk hc =>
    rw [hc] at h
    exact h
  | submitted hc =>
    rw [hc] at h
    exact ⟨rfl, h⟩
  | @merges j error outcome hn hc hdone =>
    rw [hc] at h
    obtain ⟨rfl, hgood⟩ := h
    rcases outcome with e | state
    · exact absurd ⟨_, e, .inr hdone⟩ hfine
    · have hstate : Good state :=
        hsound.foldlM (hconsumed ⟨j, hn⟩) hsound.initial (haccounts.state ⟨j, hn⟩ state (.inr hdone))
      obtain ⟨next, hnext, hgood'⟩ := hsound.merge hgood hstate
      simp only [collect, hnext]
      exact ⟨rfl, hgood'⟩
  | submitThrows | cancelsScan | abandon | abandoned | rethrows | merged | emitThrows | returns => trivial
  | _ => exact h

/-! ## The call goes on -/

/-- The tasks that the caller has submitted, and still goes on with. -/
def submittedCount (n : ℕ) : AggregateCaller ε → ℕ
  | .submitting k | .submitFailed k _ | .abandoning k _ _ => k
  | .threw _ => 0
  | _ => n

/-- What keeps the call going. -/
structure Live (s : AggregateRun σ β ε n) : Prop where
  submitted : ∀ i : Fin n, i < submittedCount n s.caller → s.workers i ≠ .unsubmitted
  count_le : submittedCount n s.caller ≤ n
  next_le : ∀ k j e, s.caller = .abandoning k j e → j ≤ k
  merging_le : ∀ j error, s.caller = .merging j error → j ≤ n

theorem live_start (ops : AggregateOps σ β ε) (n : ℕ) : (start ops n).Live where
  submitted := nofun
  count_le := Nat.zero_le n
  next_le := nofun
  merging_le := nofun

/-- A task takes a step. -/
theorem Live.update (h : Live s) {i : Fin n} {w : AggregateWorker σ ε} (hw : w ≠ .unsubmitted) {consumed : Fin n → List β}
    {scanCancelled : Bool} :
    Live { s with workers := Function.update s.workers i w, consumed, scanCancelled } := by
  refine ⟨fun j hj => ?_, h.count_le, h.next_le, h.merging_le⟩
  by_cases hji : j = i
  · subst hji
    simpa only [Function.update_self] using hw
  · simpa only [Function.update_of_ne hji] using h.submitted j hj

theorem Live.step (h : Live s) (hst : Step ops s s') : Live s' := by
  have hsubmitted := h.submitted
  have hcount := h.count_le
  cases hst with
  | start hw | throws error hw | ends hw | cancels hw =>
    refine h.update ?_
    exact nofun
  | consumes batch hw hconsume =>
    refine h.update ?_
    exact nofun
  | @submit k hk hc =>
    rw [hc] at hsubmitted
    refine ⟨fun j hj => ?_, hk, nofun, nofun⟩
    by_cases hji : j = ⟨k, hk⟩
    · subst hji
      simp
    · have hlt : (j : ℕ) < k := Nat.lt_of_le_of_ne (Nat.lt_succ_iff.mp hj) fun heq => hji (Fin.ext heq)
      simpa only [Function.update_of_ne hji] using hsubmitted j hlt
  | submitThrows hk error hc =>
    rw [hc] at hsubmitted hcount
    exact ⟨hsubmitted, hcount, nofun, nofun⟩
  | cancelsScan hc =>
    rw [hc] at hsubmitted hcount
    refine ⟨hsubmitted, hcount, fun k j e heq => ?_, nofun⟩
    cases heq
    exact Nat.zero_le _
  | abandon hj hn hc hdone =>
    rw [hc] at hsubmitted hcount
    refine ⟨hsubmitted, hcount, fun k j e heq => ?_, nofun⟩
    cases heq
    exact hj
  | submitted hc =>
    rw [hc] at hsubmitted
    refine ⟨hsubmitted, le_rfl, nofun, fun j error heq => ?_⟩
    cases heq
    exact Nat.zero_le n
  | merges hn hc hdone =>
    rw [hc] at hsubmitted
    refine ⟨hsubmitted, le_rfl, nofun, fun j error heq => ?_⟩
    cases heq
    exact hn
  | merged hc | returns hc =>
    rw [hc] at hsubmitted
    exact ⟨hsubmitted, le_rfl, nofun, nofun⟩
  | abandoned | rethrows | emitThrows => exact ⟨nofun, Nat.zero_le n, nofun, nofun⟩

/-- A step of a thread that is not in the loop of a worker, does not submit in vain and does not call the consumer. -/
structure Outside (ops : AggregateOps σ β ε) (s s' : AggregateRun σ β ε n) : Prop where
  step : Step ops s s'
  loop : ∀ i state, s.workers i = .running state → s'.workers i = .running state
  consumed : s'.consumed = s.consumed
  caller : s.caller ≠ .emitting
  submits : ∀ k e, s'.caller = .submitFailed k e → s.caller = .submitFailed k e

/-! ### The pool that runs the tasks -/

end AggregateRun

namespace AggregateWorker

/-- The task waits in the pool. -/
def isQueued : AggregateWorker σ ε → Bool
  | .queued => true
  | _ => false

/-- A thread of the pool runs the task. -/
def isStarted : AggregateWorker σ ε → Bool
  | .running _ | .caught _ => true
  | _ => false

end AggregateWorker

namespace AggregateRun

variable {ops : AggregateOps σ β ε} {s s' : AggregateRun σ β ε n}

/-- A pool of `threads` threads with the tasks of the call, which are submitted in the order of the workers. Source:
`parallel_executor.cpp` ExecuteAggregate, the submissions; `thread_pool.h`. -/
def pool (threads : ℕ) (s : AggregateRun σ β ε n) : ThreadPool (Fin n) where
  threadCount := threads
  tasks := (List.finRange n).filter fun i => (s.workers i).isQueued
  active := (List.finRange n).filter fun i => (s.workers i).isStarted

/-- A task that starts is the one that a thread of the pool takes next. Source: `thread_pool.h` WorkerLoop. -/
def Serves (threads : ℕ) (s s' : AggregateRun σ β ε n) : Prop :=
  ∀ i, s.workers i = .queued → s'.workers i ≠ .queued → (s.pool threads).next? = some i

/-- One task goes on. -/
theorem serves_update {threads : ℕ} {i : Fin n} {w : AggregateWorker σ ε}
    (hi : s.workers i = .queued → (s.pool threads).next? = some i)
    (hupdate : s'.workers = Function.update s.workers i w) : s.Serves threads s' := by
  intro j hj hne
  by_cases hji : j = i
  · subst hji
    exact hi hj
  · rw [hupdate, Function.update_of_ne hji] at hne
    exact absurd hj hne

/-- Where a task is not finished and none is in its loop, some task has an exception to handle, or a thread takes one. -/
theorem exists_caught_or_next {threads : ℕ} (hthreads : 0 < threads) (hloop : ∀ i state, s.workers i ≠ .running state)
    {i : Fin n} (hsubmitted : s.workers i ≠ .unsubmitted) (hdone : ¬ (s.workers i).Done) :
    (∃ j e, s.workers j = .caught e) ∨ ∃ j, s.workers j = .queued ∧ (s.pool threads).next? = some j := by
  by_cases hcaught : ∃ j e, s.workers j = .caught e
  · exact .inl hcaught
  have hactive : (s.pool threads).active = [] := by
    refine List.filter_eq_nil_iff.mpr fun j _ hj => ?_
    rcases hw : s.workers j with _ | _ | state | e | outcome <;> rw [hw] at hj
    case running => exact hloop j state hw
    case caught => exact hcaught ⟨j, e, hw⟩
    all_goals cases hj
  have hi : i ∈ (s.pool threads).tasks := by
    refine List.mem_filter.mpr ⟨List.mem_finRange i, ?_⟩
    rcases hw : s.workers i with _ | _ | state | e | outcome
    · exact absurd hw hsubmitted
    · rfl
    · exact absurd hw (hloop i state)
    · exact absurd ⟨i, e, hw⟩ hcaught
    · exact absurd ⟨outcome, hw⟩ hdone
  obtain ⟨j, hj, hnext⟩ := ThreadPool.exists_next? (p := s.pool threads) hthreads hactive (List.ne_nil_of_mem hi)
  refine .inr ⟨j, ?_, hnext⟩
  have hfilter := (List.mem_filter.mp hj).2
  rcases hw : s.workers j with _ | _ | state | e | outcome
  case queued => rfl
  all_goals
    rw [hw] at hfilter
    cases hfilter

/-- Some thread can go on. -/
def GoesOn (ops : AggregateOps σ β ε) (threads : ℕ) (s : AggregateRun σ β ε n) : Prop :=
  ∃ s', Outside ops s s' ∧ s.Serves threads s'

section

variable (hloop : ∀ i state, s.workers i ≠ .running state) (hemit : s.caller ≠ .emitting) {threads : ℕ}
include hloop hemit

/-- A step of a task is enough. -/
theorem goesOn_of_task {j : Fin n} {w : AggregateWorker σ ε} (hst : Step ops s s') (hconsumed : s'.consumed = s.consumed)
    (hcaller : s'.caller = s.caller) (hupdate : s'.workers = Function.update s.workers j w)
    (hnext : s.workers j = .queued → (s.pool threads).next? = some j) : GoesOn ops threads s :=
  ⟨_, ⟨hst, fun i state hi => absurd hi (hloop i state), hconsumed, hemit, fun _ _ hc => hcaller ▸ hc⟩,
    serves_update hnext hupdate⟩

/-- So is a step of the caller. -/
theorem goesOn_of_caller (hst : Step ops s s') (hconsumed : s'.consumed = s.consumed)
    (hqueued : ∀ i, s.workers i = .queued → s'.workers i = .queued)
    (hsubmits : ∀ k e, s'.caller ≠ .submitFailed k e) : GoesOn ops threads s :=
  ⟨_, ⟨hst, fun i state hi => absurd hi (hloop i state), hconsumed, hemit, fun k e hc => absurd hc (hsubmits k e)⟩,
    fun i hi hne => absurd (hqueued i hi) hne⟩

/-- A task that is submitted has finished, or some task can go on. -/
theorem done_or_goesOn (hthreads : 0 < threads) {i : Fin n} (hsubmitted : s.workers i ≠ .unsubmitted) :
    (s.workers i).Done ∨ GoesOn ops threads s := by
  by_cases hdone : (s.workers i).Done
  · exact .inl hdone
  right
  rcases exists_caught_or_next hthreads hloop hsubmitted hdone with ⟨j, e, hj⟩ | ⟨j, hj, hnext⟩
  · refine goesOn_of_task hloop hemit (.cancels hj) rfl rfl rfl fun hqueued => ?_
    rw [hj] at hqueued
    cases hqueued
  · exact goesOn_of_task hloop hemit (.start hj) rfl rfl rfl fun _ => hnext

end

/-- **Until the call has ended a thread can go on**, if no task is in its loop, there is nothing to output, and the
pool has a thread for the tasks. -/
theorem Live.exists_step (h : Live s) (hended : ¬ s.Ended) (hloop : ∀ i state, s.workers i ≠ .running state)
    (hemit : s.caller ≠ .emitting) {threads : ℕ} (hthreads : 0 < threads) : GoesOn ops threads s := by
  have hcall : ∀ {s'}, Step ops s s' → s'.consumed = s.consumed → s'.workers = s.workers →
      (∀ k e, s'.caller ≠ .submitFailed k e) → GoesOn ops threads s :=
    fun hst hconsumed hworkers hsubmits =>
      goesOn_of_caller hloop hemit hst hconsumed (fun i hi => hworkers ▸ hi) hsubmits
  have hsubmitted := h.submitted
  have hcount := h.count_le
  rcases hc : s.caller with k | ⟨k, e⟩ | ⟨k, j, e⟩ | ⟨j, error⟩ | _ | _ | e <;> rw [hc] at hsubmitted hcount
  case submitting =>
    rcases Nat.lt_or_eq_of_le hcount with hk | hk
    · refine goesOn_of_caller hloop hemit (.submit hk hc) rfl (fun i hi => ?_) nofun
      show Function.update s.workers ⟨k, hk⟩ .queued i = .queued
      rw [Function.update_apply]
      split_ifs
      · rfl
      · exact hi
    · exact hcall (.submitted (hc.trans (congrArg AggregateCaller.submitting hk))) rfl rfl nofun
  case submitFailed => exact hcall (.cancelsScan hc) rfl rfl nofun
  case abandoning =>
    rcases Nat.lt_or_eq_of_le (h.next_le k j e hc) with hj | rfl
    · have hn : j < n := Nat.lt_of_lt_of_le hj hcount
      rcases done_or_goesOn hloop hemit hthreads (hsubmitted ⟨j, hn⟩ hj) with hdone | hstep
      · exact hcall (.abandon hj hn hc hdone) rfl rfl nofun
      · exact hstep
    · exact hcall (.abandoned hc) rfl rfl nofun
  case merging =>
    rcases Nat.lt_or_eq_of_le (h.merging_le j error hc) with hj | rfl
    · rcases done_or_goesOn hloop hemit hthreads (hsubmitted ⟨j, hj⟩ hj) with ⟨outcome, hdone⟩ | hstep
      · exact hcall (.merges hj hc hdone) rfl rfl nofun
      · exact hstep
    · rcases error with _ | e
      · exact hcall (.merged hc) rfl rfl nofun
      · exact hcall (.rethrows hc) rfl rfl nofun
  case emitting => exact absurd hc hemit
  case returned => exact absurd (.inl hc) hended
  case threw => exact absurd (.inr ⟨e, hc⟩) hended

end AggregateRun

/-- The steps of a task until it has finished, without those that consume batches. -/
def AggregateWorker.remaining : AggregateWorker σ ε → ℕ
  | .unsubmitted => 4
  | .queued => 3
  | .running _ => 2
  | .caught _ => 1
  | .finished _ => 0

/-- The steps of the caller until it has ended. -/
def AggregateCaller.remaining (n : ℕ) : AggregateCaller ε → ℕ
  | .submitting k => n - k + n + 5
  | .submitFailed k _ => k + 2
  | .abandoning k j _ => k - j + 1
  | .merging j _ => n - j + 3
  | .emitting => 2
  | .returned => 0
  | .threw _ => 0

namespace AggregateRun

variable {ops : AggregateOps σ β ε} {s s' : AggregateRun σ β ε n}

/-- The steps until the call has ended, without those that consume batches. -/
def remaining (s : AggregateRun σ β ε n) : ℕ := ∑ i, (s.workers i).remaining + s.caller.remaining n

/-- A task that goes on. -/
theorem sum_update_lt {i : Fin n} {w : AggregateWorker σ ε} (hw : w.remaining < (s.workers i).remaining) :
    ∑ j, (Function.update s.workers i w j).remaining < ∑ j, (s.workers j).remaining := by
  have hsum := sum_comp_update AggregateWorker.remaining s.workers i w
  omega

/-- **Every step that consumes no batch brings the call nearer to its end.** -/
theorem Step.remaining_lt (hinv : CallerOk s.workers s.caller) (hst : Step ops s s') :
    s'.remaining < s.remaining ∨ s'.consumed ≠ s.consumed := by
  have hcaller : ∀ {s' : AggregateRun σ β ε n}, s'.workers = s.workers →
      s'.caller.remaining n < s.caller.remaining n → s'.remaining < s.remaining := by
    intro s' hworkers hlt
    rw [remaining, remaining, hworkers]
    exact Nat.add_lt_add_left hlt _
  cases hst with
  | start hw => exact .inl (Nat.add_lt_add_right (sum_update_lt (by rw [hw]; exact Nat.lt_succ_self 2)) _)
  | throws error hw => exact .inl (Nat.add_lt_add_right (sum_update_lt (by rw [hw]; exact Nat.lt_succ_self 1)) _)
  | ends hw => exact .inl (Nat.add_lt_add_right (sum_update_lt (by rw [hw]; exact Nat.two_pos)) _)
  | cancels hw => exact .inl (Nat.add_lt_add_right (sum_update_lt (by rw [hw]; exact Nat.one_pos)) _)
  | @consumes i state state' batch hw hconsume =>
    refine .inr fun heq => ?_
    have hlen := congrArg List.length (congrFun heq i)
    simp at hlen
  | @submit k hk hc =>
    rw [hc] at hinv
    have hlt : (AggregateWorker.queued : AggregateWorker σ ε).remaining < (s.workers ⟨k, hk⟩).remaining := by
      rw [hinv ⟨k, hk⟩ le_rfl]
      exact Nat.lt_succ_self 3
    refine .inl (Nat.add_lt_add_of_lt_of_le (sum_update_lt hlt) ?_)
    rw [hc]
    show n - (k + 1) + n + 5 ≤ n - k + n + 5
    omega
  | submitThrows hk error hc | cancelsScan hc | abandon hj hn hc hdone | abandoned hc | submitted hc
  | merges hn hc hdone | rethrows hc | merged hc | emitThrows error hc | returns hc =>
    refine .inl (hcaller rfl ?_)
    simp only [hc, AggregateCaller.remaining]
    omega

end AggregateRun

end SimpleOlap
