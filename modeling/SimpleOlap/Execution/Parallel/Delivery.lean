import SimpleOlap.Execution.Parallel.Query
import SimpleOlap.Parallel.ThreadPool
import Mathlib.Algebra.BigOperators.Group.Finset.Basic
import Mathlib.Algebra.Order.BigOperators.Group.Finset

/-!
# What a parallel query delivers

* `QueryRun.remaining`: how many steps are left, apart from those in which a pipeline produces a batch;
  `Step.remaining_lt`: every other step brings the call nearer to its end.
* `QueryRun.pool`, `Serves`: the tasks of the call in the pool that runs them.
* `QueryRun.Live`, `Live.exists_served_step`: until the call has ended some thread can take a step, if the pool has a
  thread for its tasks.
* `QueryRun.not_returned_of_noThreads`: on a pool without threads it never returns.
* `QueryRun.delivers`: with submissions that succeed and a consumer that does not throw, every batch is
  delivered once and every error is reported.
-/

namespace SimpleOlap

open Lib Finset

variable {β ε : Type} {n : ℕ}

/-! ## Steps that are left -/

/-- The steps of a task until it has finished, without those that produce batches. -/
def QueryWorker.remaining : QueryWorker β ε → ℕ
  | .unsubmitted => 9
  | .queued => 8
  | .running => 7
  | .pushing _ => 11
  | .refused => 4
  | .caught _ => 5
  | .aborting _ => 4
  | .exiting => 3
  | .closing => 1
  | .finished => 0

/-- The steps of the caller until it has ended, without those for batches in the queue. -/
def QueryCaller.remaining (n : ℕ) : QueryCaller β ε → ℕ
  | .submitting k => n + 8 + (n - k)
  | .submitFailed k _ => k + 3
  | .withdrawing k _ => k + 2
  | .abandoning k j _ => k - j + 1
  | .popping => n + 5
  | .consuming _ => n + 6
  | .collecting => n + 4
  | .joining j _ => n - j + 1
  | .returned => 0
  | .threw _ => 0

/-- The call has ended. -/
def QueryCaller.Ended : QueryCaller β ε → Prop
  | .returned | .threw _ => True
  | _ => False

namespace QueryRun

variable {rows : β → ℕ} {s s' : QueryRun β ε n}

/-- The steps until the call has ended, without those that produce batches. -/
def remaining (s : QueryRun β ε n) : ℕ :=
  ∑ i, (s.workers i).remaining + 3 * s.shared.results.queue.length + s.caller.remaining n

/-- One task goes on. -/
theorem sum_update_remaining (workers : Fin n → QueryWorker β ε) (i : Fin n) (w : QueryWorker β ε) :
    ∑ j, (Function.update workers i w j).remaining + (workers i).remaining =
      ∑ j, (workers j).remaining + w.remaining := by
  rw [← add_sum_erase univ _ (mem_univ i), ← add_sum_erase univ (fun j => (workers j).remaining)
    (mem_univ i), Function.update_self]
  have hrest : ∑ j ∈ univ.erase i, (Function.update workers i w j).remaining =
      ∑ j ∈ univ.erase i, (workers j).remaining := by
    refine sum_congr rfl fun j hj => ?_
    rw [Function.update_of_ne (ne_of_mem_erase hj)]
  rw [hrest]
  omega

/-- A worker step that produces nothing brings the worker and the queue nearer to the end. -/
theorem worker_remaining_lt {sh sh' : QueryShared β ε n} {i : Fin n} {w w' : QueryWorker β ε}
    (hst : WorkerStep rows i w sh w' sh') : w' = w ∧ sh' = sh ∨ sh'.produced ≠ sh.produced ∨
      w'.remaining + 3 * sh'.results.queue.length < w.remaining + 3 * sh.results.queue.length := by
  cases hst with
  | skip => exact .inl ⟨rfl, rfl⟩
  | @next _ batch hrows =>
    refine .inr (.inl fun heq => ?_)
    have hlen : (sh.produced i ++ [batch]).length = (sh.produced i).length := by
      have hat := congrFun heq i
      simp only [Function.update_self] at hat
      rw [hat]
    simp at hlen
  | pushed hpush =>
    right; right
    cases BoundedBlockingQueue.push_cases hpush with
    | accepted hterm hsame hqueue =>
      simp only [hqueue, List.length_append, List.length_singleton, QueryWorker.remaining]
      omega
  | refused hpush =>
    right; right
    cases BoundedBlockingQueue.push_cases hpush with
    | rejected hterm =>
      simp only [QueryWorker.remaining]
      omega
  | leaves =>
    right; right
    split_ifs <;> simp [QueryWorker.remaining]
  | _ =>
    right; right
    simp [QueryWorker.remaining, BoundedBlockingQueue.abort, BoundedBlockingQueue.close]

/-- A step of the caller brings the call nearer to its end. -/
theorem Step.remaining_lt_of_caller (hinv : Inv rows s) {f : QueryFailure} (hst : Step rows s f s')
    (hcaller : s'.caller ≠ s.caller) : s'.remaining < s.remaining := by
  cases hst with
  | worker => exact absurd rfl hcaller
  | @submit k hk h =>
    have hok := hinv.caller
    rw [h] at hok
    have hsum := sum_update_remaining s.workers ⟨k, hk⟩ .queued
    rw [hok.2 ⟨k, hk⟩ (le_refl k)] at hsum
    simp only [remaining, h, QueryCaller.remaining, QueryWorker.remaining] at hsum ⊢
    omega
  | @pops q item h hpop =>
    cases BoundedBlockingQueue.pop_cases hpop with
    | item hsame hqueue =>
      simp only [remaining, h, QueryCaller.remaining, hqueue, List.length_cons]
      omega
  | popEnds h hpop =>
    cases BoundedBlockingQueue.pop_cases hpop with
    | none hterm hempty =>
      simp only [remaining, h, QueryCaller.remaining]
      omega
  | cancelsResults h =>
    simp only [remaining, h, QueryCaller.remaining, BoundedBlockingQueue.cancel]
    omega
  | submitted h | submitThrows hk error h | cancelsScan h | abandon hj hn h hdone | abandoned h
  | consumes h | consumerThrows error h hrows | collects h | join hn h hdone | returns h
  | rethrows h =>
    simp only [remaining, h, QueryCaller.remaining]
    omega

/-- Each step of the caller moves it on. -/
theorem Step.cases_caller {f : QueryFailure} (hst : Step rows s f s') : s'.caller ≠ s.caller ∨
    ∃ i w sh, WorkerStep rows i (s.workers i) s.shared w sh ∧
      s' = { s with workers := Function.update s.workers i w, shared := sh } := by
  cases hst with
  | worker i h => exact .inr ⟨i, _, _, h, rfl⟩
  | submit hk h | submitted h | submitThrows hk error h | cancelsScan h | cancelsResults h
  | abandon hj hn h hdone | abandoned h | pops h hpop | popEnds h hpop | consumes h
  | consumerThrows error h hrows | collects h | join hn h hdone | returns h | rethrows h =>
    left
    simp [h]

/-- **Every step that neither produces a batch nor passes over an empty one brings the call nearer to
its end.** -/
theorem Step.remaining_lt (hinv : Inv rows s) {f : QueryFailure} (hst : Step rows s f s') :
    s' = s ∨ s'.shared.produced ≠ s.shared.produced ∨ s'.remaining < s.remaining := by
  rcases hst.cases_caller with hcaller | ⟨i, w, sh, hworker, rfl⟩
  · exact .inr (.inr (hst.remaining_lt_of_caller hinv hcaller))
  · have hsum := sum_update_remaining s.workers i w
    rcases worker_remaining_lt hworker with ⟨rfl, rfl⟩ | hproduced | hlt
    · left
      rw [Function.update_eq_self]
    · exact .inr (.inl hproduced)
    · right; right
      simp only [remaining]
      omega

/-! ## Somebody can go on -/

/-- The tasks that the caller has submitted, and still goes on with. -/
def submittedCount (n : ℕ) : QueryCaller (Fin n × β) ε → ℕ
  | .submitting k | .submitFailed k _ | .withdrawing k _ | .abandoning k _ _ => k
  | .threw _ => 0
  | _ => n

/-- The caller has gone through its futures as far as they go; it does so on a terminated queue. -/
def CallerLive (sh : QueryShared β ε n) : QueryCaller (Fin n × β) ε → Prop
  | .abandoning k j _ => j ≤ k ∧ sh.results.terminated = true
  | .joining j _ => j ≤ n ∧ sh.results.terminated = true
  | _ => True

/-- What keeps the call going. -/
structure Live (s : QueryRun β ε n) : Prop where
  submitted : ∀ i : Fin n, i < submittedCount n s.caller → s.workers i ≠ .unsubmitted
  count_le : submittedCount n s.caller ≤ n
  caller : CallerLive s.shared s.caller
  last : (∀ i, (s.workers i).Past) →
    (∃ i, s.workers i = .closing) ∨ s.shared.results.closed = true
  room : 0 < s.shared.results.capacity

theorem live_start (hn : 0 < n) (capacity : ℕ) : Live (start β ε n capacity) where
  submitted := nofun
  count_le := Nat.zero_le n
  caller := True.intro
  last hall := (hall ⟨0, hn⟩).elim
  room := by
    show 0 < (BoundedBlockingQueue.new capacity : BoundedBlockingQueue (Fin n × β) ε).capacity
    rw [BoundedBlockingQueue.capacity_new]
    exact Nat.lt_of_lt_of_le Nat.one_pos (le_max_left 1 capacity)

/-- What a worker step leaves of the queue's capacity and flags. -/
theorem worker_flags {sh sh' : QueryShared β ε n} {i : Fin n} {w w' : QueryWorker β ε}
    (hst : WorkerStep rows i w sh w' sh') : sh'.results.capacity = sh.results.capacity ∧
      (sh.results.terminated = true → sh'.results.terminated = true) ∧ w' ≠ .unsubmitted := by
  cases hst with
  | pushed hpush =>
    cases BoundedBlockingQueue.push_cases hpush with
    | accepted hterm hsame => exact ⟨hsame.capacity, fun ht => hsame.terminated.trans ht, nofun⟩
  | refused hpush =>
    cases BoundedBlockingQueue.push_cases hpush with
    | rejected => exact ⟨rfl, id, nofun⟩
  | aborts => exact ⟨rfl, fun _ => BoundedBlockingQueue.terminated_abort _ _, nofun⟩
  | closes => exact ⟨rfl, fun _ => rfl, nofun⟩
  | leaves =>
    refine ⟨rfl, id, ?_⟩
    split_ifs <;> exact nofun
  | _ => exact ⟨rfl, id, nofun⟩

/-- A worker step keeps the call going. -/
theorem Live.worker (hinv : Inv rows s) (h : Live s) {i : Fin n} {w : QueryWorker β ε}
    {sh : QueryShared β ε n} (hst : WorkerStep rows i (s.workers i) s.shared w sh) :
    Live { s with workers := Function.update s.workers i w, shared := sh } := by
  obtain ⟨hcapacity, hterm, hne⟩ := worker_flags hst
  constructor
  case submitted =>
    show ∀ j : Fin n, _ → Function.update s.workers i w j ≠ .unsubmitted
    intro j hj
    by_cases hji : j = i
    · rw [hji, Function.update_self]
      exact hne
    · rw [Function.update_of_ne hji]
      exact h.submitted j hj
  case count_le => exact h.count_le
  case caller =>
    have hcaller := h.caller
    show CallerLive sh s.caller
    revert hcaller
    cases s.caller with
    | abandoning k j e => exact fun hc => ⟨hc.1, hterm hc.2⟩
    | joining j e => exact fun hc => ⟨hc.1, hterm hc.2⟩
    | _ => exact id
  case last =>
    show (∀ j, (Function.update s.workers i w j).Past) →
      (∃ j, Function.update s.workers i w j = .closing) ∨ sh.results.closed = true
    intro hall
    have hself : w.Past := by
      have hi := hall i
      rwa [Function.update_self] at hi
    have hothers : ∀ j, j ≠ i → (s.workers j).Past := by
      intro j hji
      have hj := hall j
      rwa [Function.update_of_ne hji] at hj
    generalize hw : s.workers i = v at hst
    cases hst with
    | closes => exact .inr rfl
    | leaves =>
      -- only this task was still in, so it closes the queue
      have hset : ({j | ¬ (s.workers j).Past} : Finset (Fin n)) = {i} := by
        ext j
        by_cases hji : j = i
        · have hin : ¬ (s.workers i).Past := by
            rw [hw]
            exact id
          simp [hji, hin]
        · simp [hji, hothers j hji]
      have hone : s.shared.activeWorkers = 1 := by
        rw [hinv.counted.active, hset, card_singleton]
      exact .inl ⟨i, by rw [Function.update_self, if_pos hone]⟩
    | _ => exact absurd hself id
  case room => exact hcapacity ▸ h.room

/-- Every step keeps the call going. -/
theorem Live.step (hinv : Inv rows s) (h : Live s) {f : QueryFailure} (hst : Step rows s f s') :
    Live s' := by
  have hsubmitted := h.submitted
  have hcount := h.count_le
  have hcaller := h.caller
  have hok := hinv.caller
  cases hst with
  | worker i hst => exact h.worker hinv hst
  | @submit k hk hc =>
    rw [hc] at hsubmitted hok
    refine ⟨fun i hi => ?_, hk, True.intro, fun hall => ?_, h.room⟩
    · show Function.update s.workers ⟨k, hk⟩ .queued i ≠ .unsubmitted
      by_cases hik : i = ⟨k, hk⟩
      · rw [hik, Function.update_self]
        exact nofun
      · rw [Function.update_of_ne hik]
        have hne : i.val ≠ k := fun heq => hik (Fin.ext heq)
        exact hsubmitted i (lt_of_le_of_ne (Nat.lt_succ_iff.mp hi) hne)
    · have hpast : (Function.update s.workers ⟨k, hk⟩ .queued ⟨k, hk⟩).Past := hall ⟨k, hk⟩
      rw [Function.update_self] at hpast
      exact absurd hpast id
  | @submitted hc =>
    rw [hc] at hsubmitted
    exact ⟨hsubmitted, le_refl n, True.intro, h.last, h.room⟩
  | submitThrows hk error hc | cancelsScan hc =>
    rw [hc] at hsubmitted hcount
    exact ⟨hsubmitted, hcount, True.intro, h.last, h.room⟩
  | cancelsResults hc =>
    rw [hc] at hsubmitted hcount
    exact ⟨hsubmitted, hcount, ⟨Nat.zero_le _, BoundedBlockingQueue.terminated_cancel _⟩, h.last,
      h.room⟩
  | abandon hj hn hc hdone =>
    rw [hc] at hsubmitted hcount hcaller
    exact ⟨hsubmitted, hcount, ⟨hj, hcaller.2⟩, h.last, h.room⟩
  | abandoned hc | consumerThrows error hc hrows | rethrows hc =>
    exact ⟨nofun, Nat.zero_le n, True.intro, h.last, h.room⟩
  | pops hc hpop =>
    rw [hc] at hsubmitted
    cases BoundedBlockingQueue.pop_cases hpop with
    | item hsame hqueue =>
      refine ⟨hsubmitted, le_refl n, True.intro, fun hall => ?_, hsame.capacity ▸ h.room⟩
      exact (h.last hall).imp_right fun hclosed => hsame.closed.trans hclosed
  | popEnds hc hpop =>
    rw [hc] at hsubmitted
    cases BoundedBlockingQueue.pop_cases hpop with
    | none hterm hempty => exact ⟨hsubmitted, le_refl n, True.intro, h.last, h.room⟩
  | consumes hc | returns hc =>
    rw [hc] at hsubmitted
    exact ⟨hsubmitted, le_refl n, True.intro, h.last, h.room⟩
  | collects hc =>
    rw [hc] at hsubmitted hok
    exact ⟨hsubmitted, le_refl n, ⟨Nat.zero_le n, hok.2.1⟩, h.last, h.room⟩
  | join hn hc hdone =>
    rw [hc] at hsubmitted hcaller
    exact ⟨hsubmitted, le_refl n, ⟨hn, hcaller.2⟩, h.last, h.room⟩

/-! ## The pool that runs the tasks -/

end QueryRun

namespace QueryWorker

/-- The task waits in the pool. -/
def isQueued : QueryWorker β ε → Bool
  | .queued => true
  | _ => false

/-- A thread of the pool runs the task. -/
def isStarted : QueryWorker β ε → Bool
  | .unsubmitted | .queued | .finished => false
  | _ => true

theorem isQueued_iff {w : QueryWorker β ε} : w.isQueued = true ↔ w = .queued := by
  cases w <;> simp [isQueued]

theorem isStarted_iff {w : QueryWorker β ε} :
    w.isStarted = true ↔ w ≠ .unsubmitted ∧ w ≠ .queued ∧ w ≠ .finished := by
  cases w <;> simp [isStarted]

end QueryWorker

namespace QueryRun

variable {rows : β → ℕ} {s s' : QueryRun β ε n}

/-- A pool of `threads` threads with the tasks of the call, which are submitted in the order of the workers. Source:
`parallel_executor.cpp` ExecuteQuery, the submissions; `thread_pool.h`. -/
def pool (threads : ℕ) (s : QueryRun β ε n) : ThreadPool (Fin n) where
  threadCount := threads
  tasks := (List.finRange n).filter fun i => (s.workers i).isQueued
  active := (List.finRange n).filter fun i => (s.workers i).isStarted

/-- A task that starts is the one that a thread of the pool takes next. Source: `thread_pool.h` WorkerLoop. -/
def Serves (threads : ℕ) (s s' : QueryRun β ε n) : Prop :=
  ∀ i, s.workers i = .queued → s'.workers i ≠ .queued → (s.pool threads).next? = some i

/-- A pool without threads starts no task. -/
theorem Serves.queued_of_noThreads (h : s.Serves 0 s') {i : Fin n}
    (hi : s.workers i = .queued) : s'.workers i = .queued := by
  by_contra hne
  have hnext := h i hi hne
  rw [ThreadPool.next?_eq_none rfl] at hnext
  cases hnext

/-- One task goes on. -/
theorem serves_update {threads : ℕ} {i : Fin n} {w : QueryWorker β ε} {sh : QueryShared β ε n}
    (hi : s.workers i = .queued → (s.pool threads).next? = some i) :
    s.Serves threads { s with workers := Function.update s.workers i w, shared := sh } := by
  intro j hj hne
  by_cases hji : j = i
  · subst hji
    exact hi hj
  · exact absurd ((Function.update_of_ne hji w s.workers).trans hj) hne

/-- The caller starts no task. -/
theorem Step.serves_of_caller {f : QueryFailure} (hst : Step rows s f s') (hne : s'.caller ≠ s.caller)
    {threads : ℕ} : s.Serves threads s' := by
  intro i hi hnot
  cases hst with
  | worker j hst => exact absurd rfl hne
  | submit hk hc =>
    refine absurd ?_ hnot
    show Function.update s.workers _ .queued i = .queued
    rw [Function.update_apply]
    split_ifs
    · rfl
    · exact hi
  | _ => exact absurd hi hnot

/-- Where a task is not finished, a thread runs some task, or takes one. -/
theorem exists_started_or_next {threads : ℕ} (hthreads : 0 < threads) {i : Fin n}
    (hsubmitted : s.workers i ≠ .unsubmitted) (hfinished : s.workers i ≠ .finished) :
    (∃ j, s.workers j ≠ .unsubmitted ∧ s.workers j ≠ .queued ∧ s.workers j ≠ .finished) ∨
      ∃ j, s.workers j = .queued ∧ (s.pool threads).next? = some j := by
  by_cases hstarted : ∃ j, (s.workers j).isStarted = true
  · obtain ⟨j, hj⟩ := hstarted
    exact .inl ⟨j, QueryWorker.isStarted_iff.mp hj⟩
  · have hactive : (s.pool threads).active = [] :=
      List.filter_eq_nil_iff.mpr fun j _ hj => hstarted ⟨j, hj⟩
    have hqueued : s.workers i = .queued := by
      by_contra hqueued
      exact hstarted ⟨i, QueryWorker.isStarted_iff.mpr ⟨hsubmitted, hqueued, hfinished⟩⟩
    have hi : i ∈ (s.pool threads).tasks :=
      List.mem_filter.mpr ⟨List.mem_finRange i, QueryWorker.isQueued_iff.mpr hqueued⟩
    obtain ⟨j, hj, hnext⟩ := ThreadPool.exists_next? (p := s.pool threads) hthreads hactive (List.ne_nil_of_mem hi)
    exact .inr ⟨j, QueryWorker.isQueued_iff.mp (List.mem_filter.mp hj).2, hnext⟩

/-- A task that is submitted and not finished can go on, unless it waits for room. -/
theorem exists_workerStep (rows : β → ℕ) {sh : QueryShared β ε n} (i : Fin n)
    {w : QueryWorker β ε}
    (hsubmitted : w ≠ .unsubmitted) (hfinished : w ≠ .finished)
    (hroom : sh.results.terminated = true ∨ sh.results.queue.length < sh.results.capacity) :
    ∃ w' sh', WorkerStep rows i w sh w' sh' ∧
      w'.remaining + 3 * sh'.results.queue.length < w.remaining + 3 * sh.results.queue.length := by
  have hlt : ∀ {w' sh'}, WorkerStep rows i w sh w' sh' → w' ≠ w → sh'.produced = sh.produced →
      ∃ w' sh', WorkerStep rows i w sh w' sh' ∧
        w'.remaining + 3 * sh'.results.queue.length < w.remaining + 3 * sh.results.queue.length := by
    intro w' sh' hst hne hproduced
    rcases worker_remaining_lt hst with ⟨heq, -⟩ | hnew | hlt
    · exact absurd heq hne
    · exact absurd hproduced hnew
    · exact ⟨w', sh', hst, hlt⟩
  cases w with
  | unsubmitted => exact absurd rfl hsubmitted
  | finished => exact absurd rfl hfinished
  | queued => exact hlt .start nofun rfl
  | running => exact hlt .exhausted nofun rfl
  | refused => exact hlt .cancels nofun rfl
  | caught e => exact hlt .catches nofun rfl
  | aborting e => exact hlt .aborts nofun rfl
  | exiting =>
    refine hlt .leaves ?_ rfl
    split_ifs <;> exact nofun
  | closing => exact hlt .closes nofun rfl
  | pushing batch =>
    by_cases hterm : sh.results.terminated = true
    · exact hlt (.refused (BoundedBlockingQueue.push_of_terminated hterm (i, batch))) nofun rfl
    · have hopen : sh.results.terminated = false := Bool.not_eq_true _ ▸ hterm
      obtain ⟨q, hpush⟩ := BoundedBlockingQueue.exists_push hopen (hroom.resolve_left hterm) (i, batch)
      exact hlt (.pushed hpush) nofun rfl

/-- Some thread can bring the call nearer to its end. -/
def GoesOn (rows : β → ℕ) (threads : ℕ) (s : QueryRun β ε n) : Prop :=
  ∃ s', Step rows s .none s' ∧ s'.remaining < s.remaining ∧ s.Serves threads s'

/-- A step of the caller is enough. -/
theorem goesOn_of_caller (hinv : Inv rows s) (hst : Step rows s .none s') (hne : s'.caller ≠ s.caller) {threads : ℕ} :
    GoesOn rows threads s :=
  ⟨_, hst, hst.remaining_lt_of_caller hinv hne, hst.serves_of_caller hne⟩

/-- So is a step of a task. -/
theorem goesOn_of_task {threads : ℕ} {i : Fin n} {w : QueryWorker β ε} {sh : QueryShared β ε n}
    (hst : WorkerStep rows i (s.workers i) s.shared w sh)
    (hlt : w.remaining + 3 * sh.results.queue.length <
      (s.workers i).remaining + 3 * s.shared.results.queue.length)
    (hnext : s.workers i = .queued → (s.pool threads).next? = some i) : GoesOn rows threads s := by
  refine ⟨_, .worker i hst, ?_, serves_update hnext⟩
  have hsum := sum_update_remaining s.workers i w
  simp only [remaining]
  omega

/-- Where a task is not finished, it or the one that the pool takes next can go on. -/
theorem goesOn_of_worker {threads : ℕ} (hthreads : 0 < threads) {i : Fin n} (hsubmitted : s.workers i ≠ .unsubmitted)
    (hfinished : s.workers i ≠ .finished)
    (hroom : s.shared.results.terminated = true ∨ s.shared.results.queue.length < s.shared.results.capacity) :
    GoesOn rows threads s := by
  rcases exists_started_or_next hthreads hsubmitted hfinished with ⟨j, hnew, hqueued, hdone⟩ | ⟨j, hj, hnext⟩
  · obtain ⟨w, sh, hst, hlt⟩ := exists_workerStep rows j hnew hdone hroom
    exact goesOn_of_task hst hlt fun hj => absurd hj hqueued
  · have hst : WorkerStep rows j (s.workers j) s.shared .running s.shared := hj ▸ .start
    refine goesOn_of_task hst ?_ fun _ => hnext
    rw [hj]
    exact Nat.add_lt_add_right (Nat.lt_succ_self 7) _

/-- A caller that pops gets a batch or the end, or some task can go on. -/
theorem Live.goesOn_of_popping (hinv : Inv rows s) (h : Live s) (hc : s.caller = .popping) {threads : ℕ}
    (hthreads : 0 < threads) : GoesOn rows threads s := by
  have hsubmitted := h.submitted
  rw [hc] at hsubmitted
  rcases hqueue : s.shared.results.queue with _ | ⟨item, rest⟩
  · by_cases hterm : s.shared.results.terminated = true
    · exact goesOn_of_caller hinv (.popEnds hc (BoundedBlockingQueue.pop_of_terminated hterm hqueue)) (by simp [hc])
    · have hroom : s.shared.results.queue.length < s.shared.results.capacity := by
        rw [hqueue]
        exact h.room
      by_cases hall : ∀ i, (s.workers i).Past
      · rcases h.last hall with ⟨i, hi⟩ | hclosed
        · exact goesOn_of_worker hthreads (hsubmitted i i.isLt) (by rw [hi]; exact nofun) (.inr hroom)
        · exact absurd (by simp [BoundedBlockingQueue.terminated, hclosed]) hterm
      · obtain ⟨i, hi⟩ := not_forall.mp hall
        refine goesOn_of_worker hthreads (hsubmitted i i.isLt) (fun hdone => hi ?_) (.inr hroom)
        rw [hdone]
        exact True.intro
  · obtain ⟨q, hpop⟩ := BoundedBlockingQueue.exists_pop hqueue
    exact goesOn_of_caller hinv (.pops hc hpop) (by simp [hc])

/-- **Until the call has ended some thread can bring it nearer to its end**, if the pool has a thread for it. -/
theorem Live.exists_served_step (hinv : Inv rows s) (h : Live s) (hended : ¬ s.caller.Ended) {threads : ℕ}
    (hthreads : 0 < threads) : GoesOn rows threads s := by
  have hstep : ∀ {s'}, Step rows s .none s' → s'.caller ≠ s.caller → GoesOn rows threads s :=
    fun hst hne => goesOn_of_caller hinv hst hne
  have hsubmitted := h.submitted
  have hcount := h.count_le
  have hcaller := h.caller
  rcases hc : s.caller with k | ⟨k, e⟩ | ⟨k, e⟩ | ⟨k, j, e⟩ | _ | item | _ | ⟨j, error⟩ | _ | e <;>
    rw [hc] at hsubmitted hcount hcaller hended
  case submitting =>
    have hcount' : k ≤ n := hcount
    rcases Nat.lt_or_eq_of_le hcount' with hk | rfl
    · exact hstep (.submit hk hc) (by simp [hc])
    · exact hstep (.submitted hc) (by simp [hc])
  case submitFailed => exact hstep (.cancelsScan hc) (by simp [hc])
  case withdrawing => exact hstep (.cancelsResults hc) (by simp [hc])
  case abandoning =>
    rcases Nat.lt_or_eq_of_le hcaller.1 with hj | rfl
    · have hn : j < n := Nat.lt_of_lt_of_le hj hcount
      by_cases hdone : s.workers ⟨j, hn⟩ = .finished
      · exact hstep (.abandon hj hn hc hdone) (by simp [hc])
      · exact goesOn_of_worker hthreads (hsubmitted ⟨j, hn⟩ hj) hdone (.inl hcaller.2)
    · exact hstep (.abandoned hc) (by simp [hc])
  case popping => exact h.goesOn_of_popping hinv hc hthreads
  case consuming => exact hstep (.consumes hc) (by simp [hc])
  case collecting => exact hstep (.collects hc) (by simp [hc])
  case joining =>
    obtain ⟨hle, hterm⟩ : j ≤ n ∧ s.shared.results.terminated = true := hcaller
    rcases Nat.lt_or_eq_of_le hle with hj | rfl
    · by_cases hdone : s.workers ⟨j, hj⟩ = .finished
      · exact hstep (.join hj hc hdone) (by simp [hc])
      · exact goesOn_of_worker hthreads (hsubmitted ⟨j, hj⟩ hj) hdone (.inl hterm)
    · cases error with
      | none => exact hstep (.returns hc) (by simp [hc])
      | some e => exact hstep (.rethrows hc) (by simp [hc])
  case returned => exact absurd True.intro hended
  case threw => exact absurd True.intro hended

/-! ### A pool without threads -/

/-- No task has started. -/
def NoneStarted (s : QueryRun β ε n) : Prop := ∀ i, s.workers i = .unsubmitted ∨ s.workers i = .queued

/-- A pool without threads keeps it so. -/
theorem NoneStarted.step (h : s.NoneStarted) {f : QueryFailure} (hst : Step rows s f s') (hserves : s.Serves 0 s') :
    s'.NoneStarted := by
  intro i
  rcases h i with hi | hi
  · cases hst with
    | @worker j w sh hst =>
      have hij : i ≠ j := by
        rintro rfl
        exact hst.ne_of_step.1 hi
      exact .inl ((Function.update_of_ne hij w s.workers).trans hi)
    | submit hk hc =>
      show Function.update s.workers _ .queued i = .unsubmitted ∨ Function.update s.workers _ .queued i = .queued
      rw [Function.update_apply]
      split_ifs
      · exact .inr rfl
      · exact .inl hi
    | _ => exact .inl hi
  · exact .inr (hserves.queued_of_noThreads hi)

/-- **On a pool without threads no call returns**, whatever its threads do: the caller waits for a task that nobody
runs. -/
theorem not_returned_of_noThreads (hn : 0 < n) {capacity : ℕ}
    (hrun : Reachable (· = start β ε n capacity) (fun s s' => ∃ f, Step rows s f s' ∧ s.Serves 0 s') s) :
    s.caller ≠ .returned := by
  have hboth : Inv rows s ∧ s.NoneStarted := by
    refine Reachable.invariant (P := fun s => Inv rows s ∧ s.NoneStarted) ?_ ?_ hrun
    · rintro _ rfl
      exact ⟨inv_start rows n capacity, fun _ => .inl rfl⟩
    · rintro s s' ⟨hinv, hnone⟩ ⟨f, hst, hserves⟩
      exact ⟨hinv.step hst, hnone.step hst hserves⟩
  intro hreturned
  have hcaller := hboth.1.caller
  rw [hreturned] at hcaller
  rcases hboth.2 ⟨0, hn⟩ with hi | hi <;> cases hi.symm.trans (hcaller.2.1 ⟨0, hn⟩)

/-! ## Delivery -/

/-- Submissions succeed and the consumer does not throw. -/
def Smooth (_ : QueryRun β ε n) (f : QueryFailure) : Prop := f = .none

/-- In such runs nothing but a pipeline fails. -/
theorem Reached.smooth {capacity : ℕ} (hrun : Reached rows capacity Smooth s) :
    s.shared.withdrawn = false ∧ s.consumerThrew = false := by
  refine Reachable.invariant
    (P := fun s => s.shared.withdrawn = false ∧ s.consumerThrew = false) ?_ ?_ hrun
  · rintro _ rfl
    exact ⟨rfl, rfl⟩
  · rintro s s' h ⟨f, hst, rfl⟩
    cases hst with
    | worker i hst => exact ⟨hst.caller_eq.1.trans h.1, h.2⟩
    | _ => exact h

theorem Reached.live {capacity : ℕ} {ok : QueryRun β ε n → QueryFailure → Prop} (hn : 0 < n)
    (hrun : Reached rows capacity ok s) : Live s := by
  have hboth : Inv rows s ∧ Live s := by
    refine Reachable.invariant (P := fun s => Inv rows s ∧ Live s) ?_ ?_ hrun
    · rintro _ rfl
      exact ⟨inv_start rows n capacity, live_start hn capacity⟩
    · rintro s s' ⟨hinv, hlive⟩ ⟨f, hst, -⟩
      exact ⟨hinv.step hst, hlive.step hinv hst⟩
  exact hboth.2

/-- **A parallel query loses nothing and hides no error.** In every run whose submissions succeed and
whose consumer does not throw: the queue is closed only when every task has counted itself out, after its
last Push; when the call returns, no task has thrown and none has seen a cancellation, and from each one
the consumer has got what it produced, each batch once; when the call throws, it is what a task threw;
and until it has ended some thread can go on, where every step that produces no batch brings the end
nearer. -/
theorem delivers (hn : 0 < n) {capacity : ℕ} (hrun : Reached rows capacity Smooth s) :
    (s.shared.results.closed = true → ∀ i, (s.workers i).Past) ∧
    (s.caller = .returned → (∀ i, s.shared.thrown i = none) ∧
      (∀ i, s.shared.stopped i = false) ∧
      ∀ i, fromWorker i s.delivered = s.shared.produced i) ∧
    (∀ e, s.caller = .threw e → ∃ i, s.shared.thrown i = some e) ∧
    (¬ s.caller.Ended → ∃ s', Step rows s .none s' ∧ s'.remaining < s.remaining) ∧
    ∀ f s', Step rows s f s' →
      s' = s ∨ s'.shared.produced ≠ s.shared.produced ∨ s'.remaining < s.remaining := by
  have hinv := hrun.inv
  obtain ⟨hfine, hconsumer⟩ := hrun.smooth
  have hok := hinv.caller
  refine ⟨fun hclosed i => (hinv.workers i).past hclosed, fun hc => ?_, fun e hc => ?_,
    fun hended => (hrun.live hn).exists_served_step hinv hended Nat.one_pos |>.imp fun _ h => ⟨h.1, h.2.1⟩,
    fun f s' hst => hst.remaining_lt hinv⟩
  · rw [hc] at hok
    obtain ⟨-, hdone, hclean⟩ := hok
    have hfailed : ¬ s.shared.Failed := by
      rintro (hbad | ⟨i, hi⟩)
      · exact Bool.false_ne_true (hfine.symm.trans hbad)
      · exact hi (hclean.thrown i)
    refine ⟨hclean.thrown, fun i => ?_, fun i => ?_⟩
    · exact Bool.eq_false_iff.mpr fun hstopped => hfailed (hinv.shared.stopped i hstopped)
    · have hproduced := (hinv.workers i).produced hfailed
      have htaken : s.shared.taken = s.delivered := by
        rw [hinv.taken, hc]
        exact List.append_nil _
      rw [hdone i, hclean.empty, List.append_nil, htaken] at hproduced
      rw [hproduced]
      exact (List.append_nil _).symm
  · rw [hc] at hok
    rcases hok with hbad | hbad | hthrown
    · exact absurd (hfine.symm.trans hbad) Bool.false_ne_true
    · exact absurd (hconsumer.symm.trans hbad) Bool.false_ne_true
    · exact hthrown

/-! ## One worker, one batch -/

/-- The only task takes a step. -/
theorem Reached.worker_one {s : QueryRun ℕ ℕ 1} (hrun : Reached id 1 Smooth s)
    {w w' : QueryWorker ℕ ℕ} {sh : QueryShared ℕ ℕ 1} (hw : s.workers = fun _ => w)
    (hst : WorkerStep id 0 w s.shared w' sh) : Reached id 1 Smooth
      ⟨fun _ => w', sh, s.caller, s.delivered, s.consumerThrew⟩ := by
  have hst' : WorkerStep id 0 (s.workers 0) s.shared w' sh := by
    rw [hw]
    exact hst
  have hupdate : Function.update s.workers 0 w' = fun _ => w' := by
    funext i
    rw [Subsingleton.elim i 0, Function.update_self]
  have hnext := hrun.next ⟨.none, .worker 0 hst', rfl⟩
  rwa [hupdate] at hnext

/-- The task has pushed its batch and the caller has it in hand. -/
theorem exists_consuming : ∃ s : QueryRun ℕ ℕ 1, Reached id 1 Smooth s ∧
    (s.workers = fun _ => .running) ∧ s.caller = .consuming (0, 7) ∧ s.shared.activeWorkers = 1 ∧
    s.shared.results.queue = [] ∧ s.shared.results.error = none := by
  have hstart : Reached id 1 Smooth (start ℕ ℕ 1 1) := .start rfl
  have hsubmit := hstart.next ⟨.none, .submit Nat.one_pos rfl, rfl⟩
  have hqueued : Function.update (start ℕ ℕ 1 1).workers ⟨0, Nat.one_pos⟩ .queued =
      fun _ => .queued := by
    funext i
    rw [Subsingleton.elim i ⟨0, Nat.one_pos⟩, Function.update_self]
  have hsubmitted := hsubmit.next ⟨.none, .submitted rfl, rfl⟩
  have hrunning := Reached.worker_one hsubmitted hqueued .start
  have hproduced := Reached.worker_one hrunning rfl (.next (show id 7 ≠ 0 by decide))
  have hpushed := Reached.worker_one hproduced rfl (.pushed rfl)
  exact ⟨_, hpushed.next ⟨.none, .pops rfl rfl, rfl⟩, rfl, rfl, rfl, rfl, rfl⟩

theorem exists_returned : ∃ s : QueryRun ℕ ℕ 1, Reached id 1 Smooth s ∧ s.caller = .returned := by
  obtain ⟨s, hrun, hworkers, hcaller, hactive, hempty, herror⟩ := exists_consuming
  have hexiting := Reached.worker_one hrun hworkers .exhausted
  have hclosing := Reached.worker_one hexiting rfl .leaves
  rw [if_pos hactive] at hclosing
  have hclosed := Reached.worker_one hclosing rfl .closes
  have hpopping := hclosed.next ⟨.none, .consumes hcaller, rfl⟩
  have hcollecting := hpopping.next ⟨.none, .popEnds rfl
    (BoundedBlockingQueue.pop_of_terminated rfl hempty), rfl⟩
  have hjoining := hcollecting.next ⟨.none, .collects rfl, rfl⟩
  have hjoined := hjoining.next ⟨.none, .join Nat.one_pos rfl rfl, rfl⟩
  exact ⟨_, hjoined.next ⟨.none, .returns (congrArg (QueryCaller.joining 1) herror), rfl⟩, rfl⟩

theorem delivers_one : ∃ s : QueryRun ℕ ℕ 1, s.caller = .returned ∧
    fromWorker 0 s.delivered = s.shared.produced 0 := by
  obtain ⟨s, hrun, hcaller⟩ := exists_returned
  exact ⟨s, hcaller, ((delivers Nat.one_pos hrun).2.1 hcaller).2.2 0⟩

end QueryRun

end SimpleOlap
