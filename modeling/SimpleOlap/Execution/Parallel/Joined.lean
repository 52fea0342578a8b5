import SimpleOlap.Execution.Parallel.Aggregate
import SimpleOlap.Execution.Parallel.Delivery

/-!
# The end of a parallel call

* `QueryRun.joined_step`: the end of `ExecuteQuery` finds all submitted tasks finished, unless it is the
  consumer that throws.
* `joined_of_ended`: no task is left when a parallel call ends, if the consumer of a query throws only
  when all tasks have finished. It is called before the futures are waited for, so one that throws earlier
  leaves tasks behind that use what is on the caller's stack.
-/

namespace SimpleOlap

open Lib

variable {σ β ε : Type} {n : ℕ}

namespace QueryRun

variable {rows : β → ℕ} {s s' : QueryRun β ε n}

/-- Every task that was submitted has finished. -/
def Joined (s : QueryRun β ε n) : Prop := ∀ i, s.workers i = .unsubmitted ∨ s.workers i = .finished

/-- The consumer throws only when all submitted tasks have finished. -/
def Settled (s : QueryRun β ε n) (f : QueryFailure) : Prop := f = .consumer → s.Joined

/-- Nobody is left to take a step after the end. -/
theorem Joined.worker (h : s.Joined) {i : Fin n} {w : QueryWorker β ε} {sh sh' : QueryShared β ε n}
    (hst : WorkerStep rows i (s.workers i) sh w sh') : False := by
  rcases h i with hi | hi
  · exact hst.ne_of_step.1 hi
  · exact hst.ne_of_step.2 hi

/-- A step that ends the call finds all submitted tasks finished, if the consumer lets it. -/
theorem joined_step (hinv : Inv rows s) (h : s.caller.Ended → s.Joined) {f : QueryFailure}
    (hst : Step rows s f s') (hsettled : Settled s f) (hended : s'.caller.Ended) : s'.Joined := by
  have hok := hinv.caller
  cases hst with
  | worker i hst => exact ((h hended).worker hst).elim
  | @abandoned k error hc =>
    rw [hc] at hok
    intro i
    rcases Nat.lt_or_ge i k with hlt | hge
    · exact .inr (hok.2.2 i hlt)
    · exact .inl (hok.2.1 i hge)
  | consumerThrows error hc hrows => exact hsettled rfl
  | returns hc | rethrows hc =>
    rw [hc] at hok
    exact fun i => .inr (hok.2.1 i i.isLt)
  | submit hk hc | submitted hc | submitThrows hk error hc | cancelsScan hc | cancelsResults hc
  | abandon hj hn hc hdone | pops hc hpop | popEnds hc hpop | consumes hc | collects hc
  | join hn hc hdone => exact hended.elim

end QueryRun

/-- **No task is left when a parallel call ends.** `ExecuteAggregate` never leaves one behind, whatever
fails. Nor does `ExecuteQuery` in a run whose consumer throws only when all submitted tasks have
finished; and a throw of the consumer leaves none exactly then. -/
theorem joined_of_ended {rows : β → ℕ} {capacity : ℕ} {ops : AggregateOps σ β ε} :
    (∀ s : AggregateRun σ β ε n, AggregateRun.Reached ops s → s.Ended → s.Joined) ∧
    (∀ s : QueryRun β ε n, QueryRun.Reached rows capacity QueryRun.Settled s →
      s.caller.Ended → s.Joined) ∧
    ∀ s s' : QueryRun β ε n, QueryRun.Step rows s .consumer s' →
      s'.caller.Ended ∧ (s'.Joined ↔ s.Joined) := by
  refine ⟨fun s hrun => hrun.joined, fun s hrun => ?_, fun s s' hst => ?_⟩
  · have hboth : QueryRun.Inv rows s ∧ (s.caller.Ended → s.Joined) := by
      refine Reachable.invariant
        (P := fun s => QueryRun.Inv rows s ∧ (s.caller.Ended → s.Joined)) ?_ ?_ hrun
      · rintro _ rfl
        exact ⟨QueryRun.inv_start rows n capacity, nofun⟩
      · rintro s s' ⟨hinv, hjoined⟩ ⟨f, hst, hsettled⟩
        exact ⟨hinv.step hst, QueryRun.joined_step hinv hjoined hst hsettled⟩
    exact hboth.2
  · cases hst with
    | consumerThrows error hc hrows => exact ⟨True.intro, Iff.rfl⟩

/-- The run of one worker and one batch ends with that worker finished. -/
theorem joined_of_ended_one : ∃ s : QueryRun ℕ ℕ 1, s.caller = .returned ∧ s.Joined := by
  obtain ⟨s, hrun, hcaller⟩ := QueryRun.exists_returned
  have hsettled : QueryRun.Reached id 1 QueryRun.Settled s :=
    hrun.mono (fun _ h => h) fun _ _ ⟨f, hst, hf⟩ => ⟨f, hst, fun hf' => by cases hf.symm.trans hf'⟩
  have hleft := (@joined_of_ended ℕ ℕ ℕ 1 id 1 ⟨0, fun a _ => .ok a, fun a _ => .ok a⟩).2.1 s
    hsettled
  exact ⟨s, hcaller, hleft (hcaller ▸ True.intro)⟩

/-- **A consumer that throws on the first batch leaves a running task behind.** -/
theorem not_joined_consumerThrows :
    ¬ ∀ s : QueryRun ℕ ℕ 1, QueryRun.Reached id 1 (fun _ _ => True) s → s.caller.Ended → s.Joined := by
  intro hall
  obtain ⟨s, hrun, hworkers, hcaller, -⟩ := QueryRun.exists_consuming
  have hany : QueryRun.Reached id 1 (fun _ _ => True) s :=
    hrun.mono (fun _ h => h) fun _ _ ⟨f, hst, _⟩ => ⟨f, hst, True.intro⟩
  have hthrown := hall _ (hany.next ⟨_, .consumerThrows 0 hcaller (by decide), True.intro⟩) True.intro 0
  simp [hworkers] at hthrown

end SimpleOlap
