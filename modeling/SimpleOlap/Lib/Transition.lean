import Mathlib.Algebra.BigOperators.Group.Finset.Basic
import Mathlib.Logic.Relation
import Mathlib.Order.WellFounded

/-!
# Reachable states and invariants

`Reachable init step s`: a run of `step` from a state that satisfies `init` ends in `s`. A predicate
that holds initially and that every step preserves holds of every reachable state
(`Reachable.invariant`); a run of a smaller relation is a run of a larger one (`Reachable.mono`). Where every step lowers
a measure, no run goes on for ever (`Reachable.no_endless_run`), and a run that can go on until it stops comes to a
stop (`Reachable.exists_stop`); `sum_comp_update` is for measures that are sums over threads.
`exists_foldlM`: calls that are each defined where a predicate holds, and keep it, make a run that is defined.
-/

namespace SimpleOlap.Lib

variable {σ : Type*}

/-- The states that runs of `step` from `init` end in. -/
inductive Reachable (init : σ → Prop) (step : σ → σ → Prop) : σ → Prop
  | start {s : σ} (h : init s) : Reachable init step s
  | next {s t : σ} (h : Reachable init step s) (hst : step s t) : Reachable init step t

namespace Reachable

variable {init init' : σ → Prop} {step step' : σ → σ → Prop} {s : σ}

/-- **Invariants**: what holds initially and is preserved by every step holds throughout. -/
theorem invariant {P : σ → Prop} (hinit : ∀ s, init s → P s)
    (hstep : ∀ s t, P s → step s t → P t) (h : Reachable init step s) : P s := by
  induction h with
  | start h0 => exact hinit _ h0
  | next _ hst ih => exact hstep _ _ ih hst

theorem mono (hinit : ∀ s, init s → init' s) (hstep : ∀ s t, step s t → step' s t)
    (h : Reachable init step s) : Reachable init' step' s := by
  induction h with
  | start h0 => exact .start (hinit _ h0)
  | next _ hst ih => exact ih.next (hstep _ _ hst)

variable {α : Type*} [LT α] [WellFoundedLT α] (measure : σ → α)

/-- **No run goes on for ever**, where every step from a reachable state lowers a measure. -/
theorem no_endless_run (hlt : ∀ s t, Reachable init step s → step s t → measure t < measure s) (run : ℕ → σ)
    (hstart : init (run 0)) : ∃ k, ¬ step (run k) (run (k + 1)) := by
  by_contra hendless
  have hstep : ∀ k, step (run k) (run (k + 1)) := fun k => not_not.mp fun h => hendless ⟨k, h⟩
  have hreach : ∀ k, Reachable init step (run k) := by
    intro k
    induction k with
    | zero => exact .start hstart
    | succ k ih => exact ih.next (hstep k)
  -- the measure of a state that is met is not the least one
  have hleast : ∀ a : α, ∀ k, measure (run k) = a → False := by
    intro a
    induction a using WellFoundedLT.induction with
    | _ a ih =>
      rintro k rfl
      exact ih _ (hlt _ _ (hreach k) (hstep k)) (k + 1) rfl
  exact hleast _ 0 rfl

/-- **A run comes to a stop**, if it can go on until then and every step lowers a measure. -/
theorem exists_stop (stop : σ → Prop) (hlt : ∀ s t, Reachable init step s → step s t → measure t < measure s)
    (hgo : ∀ s, Reachable init step s → ¬ stop s → ∃ t, step s t) (h : Reachable init step s) :
    ∃ t, Reachable init step t ∧ stop t := by
  generalize ha : measure s = a
  induction a using WellFoundedLT.induction generalizing s with
  | _ a ih =>
    subst ha
    by_cases hstop : stop s
    · exact ⟨s, h, hstop⟩
    · obtain ⟨t, hst⟩ := hgo s h hstop
      exact ih _ (hlt s t h hst) (h.next hst) rfl

end Reachable

/-- A sum over threads, one of which goes on. -/
theorem sum_comp_update {ι α : Type*} [DecidableEq ι] [Fintype ι] (f : α → ℕ) (threads : ι → α) (i : ι) (a : α) :
    ∑ j, f (Function.update threads i a j) + f (threads i) = ∑ j, f (threads j) + f a := by
  rw [← Finset.add_sum_erase _ _ (Finset.mem_univ i), ← Finset.add_sum_erase _ (fun j => f (threads j))
    (Finset.mem_univ i), Function.update_self]
  have hrest : ∑ j ∈ Finset.univ.erase i, f (Function.update threads i a j) =
      ∑ j ∈ Finset.univ.erase i, f (threads j) :=
    Finset.sum_congr rfl fun j hj => by rw [Function.update_of_ne (Finset.ne_of_mem_erase hj)]
  rw [hrest]
  omega

/-- A run of calls that are each defined is defined, and ends where the predicate still holds. -/
theorem exists_foldlM {κ : Type*} {σ : Type} {P : σ → Prop} {f : σ → κ → Option σ}
    (hstep : ∀ s call, P s → ∃ t, f s call = some t ∧ P t) :
    ∀ (calls : List κ) (s : σ), P s → ∃ t, calls.foldlM f s = some t ∧ P t
  | [], s, hs => ⟨s, rfl, hs⟩
  | call :: calls, s, hs => by
    obtain ⟨t, hst, ht⟩ := hstep s call hs
    obtain ⟨u, htu, hu⟩ := exists_foldlM hstep calls t ht
    refine ⟨u, ?_, hu⟩
    rw [List.foldlM_cons, hst]
    exact htu

end SimpleOlap.Lib
