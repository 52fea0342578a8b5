import Mathlib.Data.List.Basic

/-!
# The thread pool

* `ThreadPool`: the threads of a pool, the tasks that wait, and those that run; `submit`, `next?`, `shutdown`: what
  comes in, what a thread takes next, and when the threads leave.
* `next?_eq_none`: a pool without threads, as one that was shut down, runs nothing.
* `exists_next?`: a pool with a thread takes the task that has waited longest, once its threads are free.

Source: `parallel/thread_pool/thread_pool.h`.
-/

namespace SimpleOlap

/-- A pool of worker threads: `tasks` in the order of Submit, and `active` the ones that a thread has taken. -/
structure ThreadPool (τ : Type) where
  threadCount : ℕ
  tasks : List τ
  active : List τ

namespace ThreadPool

variable {τ : Type} {p : ThreadPool τ}

/-- A task is submitted; it is not looked whether the pool was shut down. Source: `thread_pool.h` Submit. -/
def submit (p : ThreadPool τ) (task : τ) : ThreadPool τ := { p with tasks := p.tasks ++ [task] }

/-- The task that a thread takes next: the first in the queue, if a thread waits for one. Source: `thread_pool.h`
WorkerLoop. -/
def next? (p : ThreadPool τ) : Option τ := if p.active.length < p.threadCount then p.tasks.head? else none

/-- The threads leave when the queue is empty, and none is left. Source: `thread_pool.h` Shutdown, and WorkerLoop. -/
def shutdown (p : ThreadPool τ) : ThreadPool τ := ⟨0, p.tasks, []⟩

/-- A pool without threads runs nothing. -/
theorem next?_eq_none (h : p.threadCount = 0) : p.next? = none := by
  rw [next?, if_neg]
  omega

/-- After Shutdown a submitted task waits for ever. -/
theorem next?_submit_shutdown (task : τ) : (p.shutdown.submit task).next? = none :=
  next?_eq_none rfl

/-- **A pool with a thread goes on**: once its threads are free, the first task is taken. -/
theorem exists_next? (hthreads : 0 < p.threadCount) (hactive : p.active = []) (htasks : p.tasks ≠ []) :
    ∃ task ∈ p.tasks, p.next? = some task := by
  obtain ⟨task, rest, hcons⟩ := List.exists_cons_of_ne_nil htasks
  refine ⟨task, hcons ▸ List.mem_cons_self, ?_⟩
  have hidle : p.active.length < p.threadCount := by
    rw [hactive]
    exact hthreads
  rw [next?, if_pos hidle, hcons]
  rfl

end ThreadPool

end SimpleOlap
