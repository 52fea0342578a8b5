import SimpleOlap.Parallel.Queue
import Mathlib.Data.Fintype.Card

/-!
# The parallel query

* `QueryWorker`, `QueryCaller`: where a worker task and the calling thread are in `ExecuteQuery`.
* `QueryShared`: the variables they share, and what has happened so far.
* `WorkerStep`, `QueryRun.Step`: one step of one thread. Here a submitted task may start at any time, which
  is more than a pool does (`QueryRun.Serves` says when one takes it); what a pipeline produces, and whether
  it throws, is open.
* `QueryRun.Inv`, `Inv.step`: the invariant, which every step of every thread keeps.
-/

namespace SimpleOlap

open Lib Finset

variable {β ε : Type} {n : ℕ}

/-- Where a worker task is. `running` is before a `Next` of its pipeline, or in building it. Source:
`parallel_executor.cpp` ExecuteQuery, the task. -/
inductive QueryWorker (β ε : Type) where
  | unsubmitted
  | queued
  | running
  | pushing (batch : β)
  | refused
  | caught (error : ε)
  | aborting (error : ε)
  | exiting
  | closing
  | finished

/-- Where the calling thread is; the numbers count tasks. Source: `parallel_executor.cpp`
ExecuteQuery. -/
inductive QueryCaller (β ε : Type) where
  | submitting (next : ℕ)
  | submitFailed (submitted : ℕ) (error : ε)
  | withdrawing (submitted : ℕ) (error : ε)
  | abandoning (submitted next : ℕ) (error : ε)
  | popping
  | consuming (batch : β)
  | collecting
  | joining (next : ℕ) (error : Option ε)
  | returned
  | threw (error : ε)

/-- The shared variables, and the history: whether a submission failed, what the pipelines produced and
threw, which of them saw the cancellation, and what was popped. Batches in the queue carry the worker
that pushed them. -/
structure QueryShared (β ε : Type) (n : ℕ) where
  results : BoundedBlockingQueue (Fin n × β) ε
  activeWorkers : ℕ
  scanCancelled : Bool
  withdrawn : Bool
  produced : Fin n → List β
  thrown : Fin n → Option ε
  stopped : Fin n → Bool
  taken : List (Fin n × β)

/-- A call of `ExecuteQuery` with `n` workers, and what its consumer got. -/
structure QueryRun (β ε : Type) (n : ℕ) where
  workers : Fin n → QueryWorker β ε
  shared : QueryShared β ε n
  caller : QueryCaller (Fin n × β) ε
  delivered : List (Fin n × β)
  consumerThrew : Bool

/-- What fails in a step, besides pipelines. -/
inductive QueryFailure where
  | none
  | submission
  | consumer

/-! ## Steps -/

/-- One step of the task of worker `i`; `rows` is ActiveRowCount. Source: `parallel_executor.cpp`
ExecuteQuery, the task and WorkerExitGuard. -/
inductive WorkerStep (rows : β → ℕ) (i : Fin n) :
    QueryWorker β ε → QueryShared β ε n → QueryWorker β ε → QueryShared β ε n → Prop
  | start {sh : QueryShared β ε n} : WorkerStep rows i .queued sh .running sh
  | next {sh : QueryShared β ε n} {batch : β} (hrows : rows batch ≠ 0) :
      WorkerStep rows i .running sh (.pushing batch)
        { sh with produced := Function.update sh.produced i (sh.produced i ++ [batch]) }
  | skip {sh : QueryShared β ε n} {batch : β} (hrows : rows batch = 0) :
      WorkerStep rows i .running sh .running sh
  | exhausted {sh : QueryShared β ε n} : WorkerStep rows i .running sh .exiting sh
  | stopped {sh : QueryShared β ε n} (hcancel : sh.scanCancelled = true) :
      WorkerStep rows i .running sh .exiting
        { sh with stopped := Function.update sh.stopped i true }
  | throws {sh : QueryShared β ε n} (error : ε) :
      WorkerStep rows i .running sh (.caught error)
        { sh with thrown := Function.update sh.thrown i (some error) }
  | pushed {sh : QueryShared β ε n} {batch : β} {q : BoundedBlockingQueue (Fin n × β) ε}
      (hpush : sh.results.push (i, batch) = some (q, true)) :
      WorkerStep rows i (.pushing batch) sh .running { sh with results := q }
  | refused {sh : QueryShared β ε n} {batch : β} {q : BoundedBlockingQueue (Fin n × β) ε}
      (hpush : sh.results.push (i, batch) = some (q, false)) :
      WorkerStep rows i (.pushing batch) sh .refused { sh with results := q }
  | cancels {sh : QueryShared β ε n} :
      WorkerStep rows i .refused sh .exiting { sh with scanCancelled := true }
  | catches {sh : QueryShared β ε n} {error : ε} :
      WorkerStep rows i (.caught error) sh (.aborting error) { sh with scanCancelled := true }
  | aborts {sh : QueryShared β ε n} {error : ε} :
      WorkerStep rows i (.aborting error) sh .exiting
        { sh with results := sh.results.abort (some error) }
  | leaves {sh : QueryShared β ε n} :
      WorkerStep rows i .exiting sh (if sh.activeWorkers = 1 then .closing else .finished)
        { sh with activeWorkers := sh.activeWorkers - 1 }
  | closes {sh : QueryShared β ε n} :
      WorkerStep rows i .closing sh .finished { sh with results := sh.results.close }

namespace QueryRun

/-- The call after `worker_count` is known. -/
def start (β ε : Type) (n capacity : ℕ) : QueryRun β ε n where
  workers _ := .unsubmitted
  shared := ⟨.new capacity, n, false, false, fun _ => [], fun _ => none, fun _ => false, []⟩
  caller := .submitting 0
  delivered := []
  consumerThrew := false

/-- One step of one thread. A task catches whatever it throws, so its future holds no exception. Source:
`parallel_executor.cpp` ExecuteQuery. -/
inductive Step (rows : β → ℕ) : QueryRun β ε n → QueryFailure → QueryRun β ε n → Prop
  | worker {s : QueryRun β ε n} (i : Fin n) {w : QueryWorker β ε} {sh : QueryShared β ε n}
      (h : WorkerStep rows i (s.workers i) s.shared w sh) :
      Step rows s .none { s with workers := Function.update s.workers i w, shared := sh }
  | submit {s : QueryRun β ε n} {k : ℕ} (hk : k < n) (h : s.caller = .submitting k) :
      Step rows s .none { s with
        workers := Function.update s.workers ⟨k, hk⟩ .queued
        caller := .submitting (k + 1) }
  | submitted {s : QueryRun β ε n} (h : s.caller = .submitting n) :
      Step rows s .none { s with caller := .popping }
  | submitThrows {s : QueryRun β ε n} {k : ℕ} (hk : k < n) (error : ε)
      (h : s.caller = .submitting k) :
      Step rows s .submission { s with
        caller := .submitFailed k error
        shared := { s.shared with withdrawn := true } }
  | cancelsScan {s : QueryRun β ε n} {k : ℕ} {error : ε} (h : s.caller = .submitFailed k error) :
      Step rows s .none { s with
        caller := .withdrawing k error
        shared := { s.shared with scanCancelled := true } }
  | cancelsResults {s : QueryRun β ε n} {k : ℕ} {error : ε} (h : s.caller = .withdrawing k error) :
      Step rows s .none { s with
        caller := .abandoning k 0 error
        shared := { s.shared with results := s.shared.results.cancel } }
  | abandon {s : QueryRun β ε n} {k j : ℕ} {error : ε} (hj : j < k) (hn : j < n)
      (h : s.caller = .abandoning k j error) (hdone : s.workers ⟨j, hn⟩ = .finished) :
      Step rows s .none { s with caller := .abandoning k (j + 1) error }
  | abandoned {s : QueryRun β ε n} {k : ℕ} {error : ε} (h : s.caller = .abandoning k k error) :
      Step rows s .none { s with caller := .threw error }
  | pops {s : QueryRun β ε n} {q : BoundedBlockingQueue (Fin n × β) ε} {item : Fin n × β}
      (h : s.caller = .popping) (hpop : s.shared.results.pop = some (q, some item)) :
      Step rows s .none { s with
        caller := .consuming item
        shared := { s.shared with results := q, taken := s.shared.taken ++ [item] } }
  | popEnds {s : QueryRun β ε n} {q : BoundedBlockingQueue (Fin n × β) ε}
      (h : s.caller = .popping) (hpop : s.shared.results.pop = some (q, none)) :
      Step rows s .none { s with caller := .collecting, shared := { s.shared with results := q } }
  | consumes {s : QueryRun β ε n} {item : Fin n × β} (h : s.caller = .consuming item) :
      Step rows s .none { s with
        caller := .popping
        delivered := if rows item.2 = 0 then s.delivered else s.delivered ++ [item] }
  | consumerThrows {s : QueryRun β ε n} {item : Fin n × β} (error : ε)
      (h : s.caller = .consuming item) (hrows : rows item.2 ≠ 0) :
      Step rows s .consumer { s with
        caller := .threw error
        delivered := s.delivered ++ [item]
        consumerThrew := true }
  | collects {s : QueryRun β ε n} (h : s.caller = .collecting) :
      Step rows s .none { s with caller := .joining 0 s.shared.results.error }
  | join {s : QueryRun β ε n} {j : ℕ} {error : Option ε} (hn : j < n)
      (h : s.caller = .joining j error) (hdone : s.workers ⟨j, hn⟩ = .finished) :
      Step rows s .none { s with caller := .joining (j + 1) error }
  | returns {s : QueryRun β ε n} (h : s.caller = .joining n none) :
      Step rows s .none { s with caller := .returned }
  | rethrows {s : QueryRun β ε n} {error : ε} (h : s.caller = .joining n (some error)) :
      Step rows s .none { s with
        caller := .threw error
        shared := { s.shared with scanCancelled := true } }

end QueryRun

/-! ## The invariant -/

namespace QueryWorker

/-- The task has counted itself out. -/
def Past : QueryWorker β ε → Prop
  | .closing | .finished => True
  | _ => False

instance (w : QueryWorker β ε) : Decidable w.Past := by
  cases w <;> unfold Past <;> infer_instance

/-- The task is on its way out. -/
def Leaving : QueryWorker β ε → Prop
  | .exiting | .closing | .finished => True
  | _ => False

/-- The batch that the task has produced and not pushed yet. -/
def inFlight : QueryWorker β ε → List β
  | .pushing batch => [batch]
  | _ => []

end QueryWorker

/-- The batch that the caller has popped and not given to the consumer yet. -/
def QueryCaller.inHand : QueryCaller β ε → List β
  | .consuming batch => [batch]
  | _ => []

/-- The batches of worker `i` in a list. -/
def fromWorker (i : Fin n) (items : List (Fin n × β)) : List β :=
  (items.filter fun item => item.1 = i).map Prod.snd

theorem fromWorker_append (i : Fin n) (items items' : List (Fin n × β)) :
    fromWorker i (items ++ items') = fromWorker i items ++ fromWorker i items' := by
  rw [fromWorker, List.filter_append, List.map_append]
  rfl

@[simp] theorem fromWorker_self (i : Fin n) (batch : β) : fromWorker i [(i, batch)] = [batch] := by
  simp [fromWorker]

theorem fromWorker_of_ne {i j : Fin n} (h : j ≠ i) (batch : β) : fromWorker i [(j, batch)] = [] := by
  simp [fromWorker, h]

namespace QueryShared

/-- A submission failed or a pipeline threw. -/
def Failed (sh : QueryShared β ε n) : Prop := sh.withdrawn = true ∨ ∃ i, sh.thrown i ≠ none

/-- What holds of a worker that is at `w`. -/
structure WorkerOk (rows : β → ℕ) (sh : QueryShared β ε n) (i : Fin n) (w : QueryWorker β ε) :
    Prop where
  produced : ¬ sh.Failed → sh.produced i = fromWorker i (sh.taken ++ sh.results.queue) ++ w.inFlight
  flight : ∀ batch ∈ w.inFlight, rows batch ≠ 0
  threw : ∀ e, sh.thrown i = some e →
    w = .caught e ∨ w = .aborting e ∨ sh.results.aborted = true ∧ w.Leaving
  caught : ∀ e, w = .caught e ∨ w = .aborting e → sh.thrown i = some e
  refused : w = .refused → sh.Failed
  past : sh.results.closed = true → w.Past

/-- What holds of the shared variables. -/
structure Ok (rows : β → ℕ) (sh : QueryShared β ε n) : Prop where
  rows : ∀ item ∈ sh.results.queue, rows item.2 ≠ 0
  error : ∀ e, sh.results.error = some e → ∃ i, sh.thrown i = some e
  aborted : sh.results.aborted = true → sh.results.error ≠ none
  cancelled : sh.results.cancelled = true → sh.withdrawn = true
  scan : sh.scanCancelled = true → sh.Failed
  stopped : ∀ i, sh.stopped i = true → sh.Failed

end QueryShared

namespace QueryRun

/-- The counter counts the tasks that have not counted themselves out; the one that closes the queue is
the last. -/
structure Counted (workers : Fin n → QueryWorker β ε) (activeWorkers : ℕ) : Prop where
  active : activeWorkers = #{i | ¬ (workers i).Past}
  closing : ∀ i, workers i = .closing → ∀ j, (workers j).Past

/-- Nothing failed and everything was popped. -/
structure Clean (sh : QueryShared β ε n) : Prop where
  closed : sh.results.closed = true
  empty : sh.results.queue = []
  thrown : ∀ i, sh.thrown i = none

/-- What holds when the caller is at `c`. -/
def CallerOk (rows : β → ℕ) (workers : Fin n → QueryWorker β ε) (sh : QueryShared β ε n)
    (consumerThrew : Bool) : QueryCaller (Fin n × β) ε → Prop
  | .submitting k => sh.withdrawn = false ∧ ∀ i : Fin n, k ≤ i → workers i = .unsubmitted
  | .submitFailed k _ | .withdrawing k _ =>
    sh.withdrawn = true ∧ ∀ i : Fin n, k ≤ i → workers i = .unsubmitted
  | .abandoning k j _ => sh.withdrawn = true ∧ (∀ i : Fin n, k ≤ i → workers i = .unsubmitted) ∧
      ∀ i : Fin n, i < j → workers i = .finished
  | .popping => sh.withdrawn = false
  | .consuming item => sh.withdrawn = false ∧ rows item.2 ≠ 0
  | .collecting => sh.withdrawn = false ∧ sh.results.terminated = true ∧ sh.results.queue = []
  | .joining j error => sh.withdrawn = false ∧ (∀ i : Fin n, i < j → workers i = .finished) ∧
      (error = none → Clean sh) ∧ ∀ e, error = some e → ∃ i, sh.thrown i = some e
  | .returned => sh.withdrawn = false ∧ (∀ i, workers i = .finished) ∧ Clean sh
  | .threw e => sh.withdrawn = true ∨ consumerThrew = true ∨ ∃ i, sh.thrown i = some e

/-- What holds in every state of a call. -/
structure Inv (rows : β → ℕ) (s : QueryRun β ε n) : Prop where
  workers : ∀ i, s.shared.WorkerOk rows i (s.workers i)
  shared : s.shared.Ok rows
  counted : Counted s.workers s.shared.activeWorkers
  caller : CallerOk rows s.workers s.shared s.consumerThrew s.caller
  taken : s.shared.taken = s.delivered ++ s.caller.inHand

/-! ## Counting -/

namespace Counted

variable {workers : Fin n → QueryWorker β ε} {activeWorkers : ℕ} {i : Fin n} {w : QueryWorker β ε}

/-- A task that is and stays in. -/
theorem stays (h : Counted workers activeWorkers) (hi : ¬ (workers i).Past) (hw : ¬ w.Past) :
    Counted (Function.update workers i w) activeWorkers where
  active := by
    rw [h.active]
    refine congrArg card (filter_congr fun j _ => not_congr ?_)
    by_cases hj : j = i
    · subst hj
      rw [Function.update_self]
      exact iff_of_false hi hw
    · rw [Function.update_of_ne hj]
  closing j hj := by
    have hne : j ≠ i := by
      rintro rfl
      rw [Function.update_self] at hj
      exact hw (hj ▸ True.intro)
    rw [Function.update_of_ne hne] at hj
    exact absurd (h.closing j hj i) hi

/-- The task that closes the queue is done. -/
theorem done (h : Counted workers activeWorkers) (hi : workers i = .closing) :
    Counted (Function.update workers i .finished) activeWorkers := by
  have hall : ∀ j, (Function.update workers i .finished j).Past := by
    intro j
    by_cases hj : j = i
    · rw [hj, Function.update_self]
      exact True.intro
    · rw [Function.update_of_ne hj]
      exact h.closing i hi j
  refine ⟨?_, fun _ _ => hall⟩
  have hnone : ∀ f : Fin n → QueryWorker β ε, (∀ j, (f j).Past) → #{j | ¬ (f j).Past} = 0 := by
    intro f hf
    simp [hf]
  rw [h.active, hnone _ (h.closing i hi), hnone _ hall]

/-- A task counts itself out. -/
theorem leaves (h : Counted workers activeWorkers) (hi : workers i = .exiting) :
    Counted (Function.update workers i (if activeWorkers = 1 then .closing else .finished))
      (activeWorkers - 1) := by
  have hin : ¬ (workers i).Past := by
    rw [hi]
    exact id
  have hself : (if activeWorkers = 1 then .closing else .finished : QueryWorker β ε).Past := by
    split_ifs <;> exact True.intro
  have hset : ({j | ¬ (Function.update workers i
      (if activeWorkers = 1 then .closing else .finished) j).Past} : Finset (Fin n)) =
      ({j | ¬ (workers j).Past} : Finset (Fin n)).erase i := by
    ext j
    by_cases hj : j = i
    · subst hj
      simp [hself]
    · simp [hj]
  have hmem : i ∈ ({j | ¬ (workers j).Past} : Finset (Fin n)) := by simp [hin]
  refine ⟨by rw [hset, card_erase_of_mem hmem, h.active], fun j hj k => ?_⟩
  by_cases hji : j = i
  · -- the counter was 1, so all others are out
    subst hji
    have hone : activeWorkers = 1 := by
      by_contra hne
      rw [Function.update_self, if_neg hne] at hj
      cases hj
    by_cases hk : k = j
    · rw [hk, Function.update_self]
      exact hself
    · rw [Function.update_of_ne hk]
      obtain ⟨m, hm⟩ := card_eq_one.mp (h.active.symm.trans hone)
      by_contra hnot
      have hk' : k ∈ ({j | ¬ (workers j).Past} : Finset (Fin n)) := by simp [hnot]
      rw [hm, mem_singleton] at hk' hmem
      exact hk (hk'.trans hmem.symm)
  · rw [Function.update_of_ne hji] at hj
    exact absurd (h.closing j hj i) hin

end Counted

end QueryRun

/-! ## Worker steps -/

namespace QueryShared

variable {rows : β → ℕ} {sh sh' : QueryShared β ε n} {i j : Fin n} {w w' : QueryWorker β ε}

theorem failed_of_thrown {e : ε} (h : sh.thrown i = some e) : sh.Failed :=
  .inr ⟨i, h ▸ Option.some_ne_none e⟩

/-- What is unchanged for a worker. -/
theorem WorkerOk.frame (h : sh.WorkerOk rows i w) (hfailed : sh.Failed → sh'.Failed)
    (hproduced : sh'.produced i = sh.produced i)
    (harrived : fromWorker i (sh'.taken ++ sh'.results.queue) =
      fromWorker i (sh.taken ++ sh.results.queue))
    (hthrown : sh'.thrown i = sh.thrown i)
    (haborted : sh.results.aborted = true → sh'.results.aborted = true)
    (hclosed : sh'.results.closed = true → w.Past) : sh'.WorkerOk rows i w where
  produced hok := by rw [hproduced, harrived, h.produced fun hbad => hok (hfailed hbad)]
  flight := h.flight
  threw e he := by
    rw [hthrown] at he
    exact (h.threw e he).imp_right fun hor => hor.imp_right fun hout => ⟨haborted hout.1, hout.2⟩
  caught e he := hthrown.trans (h.caught e he)
  refused hw := hfailed (h.refused hw)
  past := hclosed

/-- A worker that is not on its way out and has no exception in hand has thrown nothing. -/
theorem WorkerOk.thrown_eq_none (h : sh.WorkerOk rows i w)
    (hcalm : ∀ e, ¬ (w = .caught e ∨ w = .aborting e)) (hin : ¬ w.Leaving) : sh.thrown i = none := by
  rcases hthrown : sh.thrown i with _ | e
  · rfl
  · rcases h.threw e hthrown with hw | hw | hw
    · exact absurd (.inl hw) (hcalm e)
    · exact absurd (.inr hw) (hcalm e)
    · exact absurd hw.2 hin

/-- A worker without an exception in hand goes on with the same batch in flight. -/
theorem WorkerOk.move (h : sh.WorkerOk rows i w) (hflight : w'.inFlight = w.inFlight)
    (hcalm : ∀ e, ¬ (w = .caught e ∨ w = .aborting e))
    (hcalm' : ∀ e, ¬ (w' = .caught e ∨ w' = .aborting e)) (hrefused : w' = .refused → sh.Failed)
    (hleaving : w.Leaving → w'.Leaving) (hpast : w.Past → w'.Past) : sh.WorkerOk rows i w' where
  produced hok := by rw [hflight, h.produced hok]
  flight := hflight ▸ h.flight
  threw e he := by
    rcases h.threw e he with hw | hw | hw
    · exact absurd (.inl hw) (hcalm e)
    · exact absurd (.inr hw) (hcalm e)
    · exact .inr (.inr ⟨hw.1, hleaving hw.2⟩)
  caught e he := absurd he (hcalm' e)
  refused := hrefused
  past hc := hpast (h.past hc)

/-- A worker that has thrown has the exception in hand, or is out after the abort. -/
theorem WorkerOk.of_thrown {error : ε} (hthrown : sh'.thrown i = some error)
    (hw' : w' = .caught error ∨ w' = .aborting error ∨
      sh'.results.aborted = true ∧ w' = .exiting)
    (hclosed : sh'.results.closed = true → w'.Past) : sh'.WorkerOk rows i w' where
  produced hok := absurd (failed_of_thrown hthrown) hok
  flight := by rcases hw' with rfl | rfl | ⟨-, rfl⟩ <;> exact List.forall_mem_nil _
  threw e he := by
    obtain rfl : e = error := Option.some.inj (he.symm.trans hthrown)
    rcases hw' with hw' | hw' | ⟨ha, rfl⟩
    · exact .inl hw'
    · exact .inr (.inl hw')
    · exact .inr (.inr ⟨ha, True.intro⟩)
  caught e he := by
    rcases hw' with rfl | rfl | ⟨-, rfl⟩
    · obtain rfl : error = e := by simpa using he
      exact hthrown
    · obtain rfl : error = e := by simpa using he
      exact hthrown
    · simp at he
  refused hw := by rcases hw' with rfl | rfl | ⟨-, rfl⟩ <;> cases hw
  past := hclosed

/-- A failure stays. -/
theorem Failed.worker (h : sh.Failed) (hst : WorkerStep rows i w sh w' sh') : sh'.Failed := by
  cases hst with
  | throws error => exact failed_of_thrown (Function.update_self i (some error) sh.thrown)
  | _ => exact h

/-- A step of one worker is fine with the others. -/
theorem WorkerOk.other (h : sh.WorkerOk rows j w) (hji : j ≠ i) {v v' : QueryWorker β ε}
    (hclosing : v = .closing → w.Past) (hst : WorkerStep rows i v sh v' sh') :
    sh'.WorkerOk rows j w := by
  have hfailed : sh.Failed → sh'.Failed := fun hbad => hbad.worker hst
  cases hst with
  | start | skip | exhausted => exact h
  | stopped | leaves | cancels | catches =>
    exact h.frame hfailed rfl rfl rfl id h.past
  | next hrows => exact h.frame hfailed (Function.update_of_ne hji ..) rfl rfl id h.past
  | throws error => exact h.frame hfailed rfl rfl (Function.update_of_ne hji ..) id h.past
  | @pushed _ batch q hpush =>
    cases BoundedBlockingQueue.push_cases hpush with
    | accepted hterm hsame hqueue =>
      refine h.frame hfailed rfl ?_ rfl (fun ha => hsame.aborted.trans ha)
        fun hc => h.past (hsame.closed.symm.trans hc)
      show fromWorker j (sh.taken ++ q.queue) = _
      rw [hqueue, ← List.append_assoc, fromWorker_append, fromWorker_of_ne hji.symm,
        List.append_nil]
  | refused hpush =>
    cases BoundedBlockingQueue.push_cases hpush with
    | rejected hterm => exact h
  | aborts => exact h.frame hfailed rfl rfl rfl (fun _ => rfl) h.past
  | closes => exact h.frame hfailed rfl rfl rfl id fun _ => hclosing rfl

/-- A terminated queue whose worker is still in belongs to a call that failed. -/
theorem Ok.failed_of_terminated (hsh : sh.Ok rows) (h : sh.WorkerOk rows i w) (hw : ¬ w.Past)
    (hterm : sh.results.terminated = true) : sh.Failed := by
  simp only [BoundedBlockingQueue.terminated, Bool.or_eq_true] at hterm
  rcases hterm with (hclosed | haborted) | hcancelled
  · exact absurd (h.past hclosed) hw
  · obtain ⟨e, he⟩ := Option.ne_none_iff_exists'.mp (hsh.aborted haborted)
    obtain ⟨k, hk⟩ := hsh.error e he
    exact failed_of_thrown hk
  · exact .inl (hsh.cancelled hcancelled)

/-- A step of a worker is fine with itself. -/
theorem WorkerOk.self (hsh : sh.Ok rows) (h : sh.WorkerOk rows i w)
    (hst : WorkerStep rows i w sh w' sh') : sh'.WorkerOk rows i w' := by
  have hfailed : sh.Failed → sh'.Failed := fun hbad => hbad.worker hst
  cases hst with
  | start | skip | exhausted => exact h.move rfl (by simp) (by simp) nofun nofun nofun
  | stopped hcancel =>
    have hmove : sh.WorkerOk rows i .exiting := h.move rfl (by simp) (by simp) nofun nofun nofun
    exact hmove.frame hfailed rfl rfl rfl id hmove.past
  | @next _ batch hrows =>
    have hnone := h.thrown_eq_none (by simp) id
    refine ⟨fun hok => ?_, ?_, fun e he => ?_, by simp, nofun, fun hc => h.past hc⟩
    · show Function.update sh.produced i (sh.produced i ++ [batch]) i = _
      rw [Function.update_self, h.produced hok]
      simp [QueryWorker.inFlight]
    · intro batch' hmem
      exact List.mem_singleton.mp hmem ▸ hrows
    · simp [hnone] at he
  | throws error =>
    exact .of_thrown (Function.update_self i (some error) sh.thrown) (.inl rfl) fun hc => h.past hc
  | @pushed _ batch q hpush =>
    have hnone := h.thrown_eq_none (by simp) id
    cases BoundedBlockingQueue.push_cases hpush with
    | accepted hterm hsame hqueue =>
      refine ⟨fun hok => ?_, List.forall_mem_nil _, fun e he => ?_, by simp, nofun, fun hc => ?_⟩
      · show sh.produced i = fromWorker i (sh.taken ++ q.queue) ++ []
        rw [h.produced hok, hqueue, ← List.append_assoc, fromWorker_append, fromWorker_append,
          fromWorker_append, fromWorker_self, List.append_nil]
        rfl
      · simp [hnone] at he
      · exact h.past (hsame.closed.symm.trans hc)
  | refused hpush =>
    have hnone := h.thrown_eq_none (by simp) id
    cases BoundedBlockingQueue.push_cases hpush with
    | rejected hterm =>
      have hbad : sh.Failed := hsh.failed_of_terminated h id hterm
      refine ⟨fun hok => absurd hbad hok, List.forall_mem_nil _, fun e he => ?_, by simp,
        fun _ => hbad, fun hc => h.past hc⟩
      simp [hnone] at he
  | cancels =>
    have hmove : sh.WorkerOk rows i .exiting := h.move rfl (by simp) (by simp) nofun nofun nofun
    exact hmove.frame hfailed rfl rfl rfl id hmove.past
  | @catches _ error =>
    exact .of_thrown (h.caught error (.inl rfl)) (.inr (.inl rfl)) fun hc => h.past hc
  | @aborts _ error =>
    exact .of_thrown (h.caught error (.inr rfl)) (.inr (.inr ⟨rfl, rfl⟩)) fun hc => h.past hc
  | leaves =>
    have hmove : sh.WorkerOk rows i (if sh.activeWorkers = 1 then .closing else .finished) := by
      split_ifs <;>
        exact h.move rfl (by simp) (by simp) nofun (fun _ => True.intro) fun _ => True.intro
    exact hmove.frame hfailed rfl rfl rfl id hmove.past
  | closes =>
    have hmove : sh.WorkerOk rows i .finished := h.move rfl (by simp) (by simp) nofun id id
    exact hmove.frame hfailed rfl rfl rfl id fun _ => True.intro

/-- A worker step keeps what holds of the shared variables. -/
theorem Ok.worker (hsh : sh.Ok rows) (h : sh.WorkerOk rows i w)
    (hst : WorkerStep rows i w sh w' sh') : sh'.Ok rows := by
  have hfailed : sh.Failed → sh'.Failed := fun hbad => hbad.worker hst
  cases hst with
  | start | skip | exhausted => exact hsh
  | next | leaves => exact ⟨hsh.rows, hsh.error, hsh.aborted, hsh.cancelled, hsh.scan, hsh.stopped⟩
  | stopped hcancel =>
    exact ⟨hsh.rows, hsh.error, hsh.aborted, hsh.cancelled, hsh.scan, fun _ _ => hsh.scan hcancel⟩
  | throws error =>
    have hnone := h.thrown_eq_none (by simp) id
    refine ⟨hsh.rows, fun e he => ?_, hsh.aborted, hsh.cancelled, fun hc => hfailed (hsh.scan hc),
      fun j hj => hfailed (hsh.stopped j hj)⟩
    obtain ⟨k, hk⟩ := hsh.error e he
    have hki : k ≠ i := by
      rintro rfl
      simp [hnone] at hk
    exact ⟨k, (Function.update_of_ne hki ..).trans hk⟩
  | @pushed _ batch q hpush =>
    cases BoundedBlockingQueue.push_cases hpush with
    | accepted hterm hsame hqueue =>
      refine ⟨fun item hitem => ?_, fun e he => hsh.error e (hsame.error.symm.trans he),
        fun ha he => hsh.aborted (hsame.aborted.symm.trans ha) (hsame.error.symm.trans he),
        fun hc => hsh.cancelled (hsame.cancelled.symm.trans hc), hsh.scan, hsh.stopped⟩
      have hitem' : item ∈ sh.results.queue ++ [(i, batch)] := hqueue ▸ hitem
      rcases List.mem_append.mp hitem' with hold | hnew
      · exact hsh.rows item hold
      · rw [List.mem_singleton.mp hnew]
        exact h.flight batch (List.mem_singleton_self batch)
  | refused hpush =>
    cases BoundedBlockingQueue.push_cases hpush with
    | rejected hterm => exact hsh
  | cancels =>
    exact ⟨hsh.rows, hsh.error, hsh.aborted, hsh.cancelled, fun _ => h.refused rfl, hsh.stopped⟩
  | @catches _ error =>
    exact ⟨hsh.rows, hsh.error, hsh.aborted, hsh.cancelled,
      fun _ => failed_of_thrown (h.caught error (.inl rfl)), hsh.stopped⟩
  | @aborts _ error =>
    refine ⟨hsh.rows, fun e he => ⟨i, ?_⟩, fun _ => Option.some_ne_none error, hsh.cancelled, hsh.scan,
      hsh.stopped⟩
    have he' : some error = some e := he
    exact he' ▸ h.caught error (.inr rfl)
  | closes => exact ⟨hsh.rows, hsh.error, hsh.aborted, hsh.cancelled, hsh.scan, hsh.stopped⟩

end QueryShared

namespace WorkerStep

variable {rows : β → ℕ} {sh sh' : QueryShared β ε n} {i : Fin n} {w w' : QueryWorker β ε}

/-- A task that is not submitted takes no step, nor one that has finished. -/
theorem ne_of_step (h : WorkerStep rows i w sh w' sh') : w ≠ .unsubmitted ∧ w ≠ .finished := by
  cases h <;> exact ⟨nofun, nofun⟩

/-- A worker does not touch what the caller did. -/
theorem caller_eq (h : WorkerStep rows i w sh w' sh') :
    sh'.withdrawn = sh.withdrawn ∧ sh'.taken = sh.taken := by
  cases h <;> exact ⟨rfl, rfl⟩

/-- A queue that is terminated and empty stays so. -/
theorem drained (h : WorkerStep rows i w sh w' sh') (hterm : sh.results.terminated = true)
    (hempty : sh.results.queue = []) :
    sh'.results.terminated = true ∧ sh'.results.queue = [] := by
  cases h with
  | pushed hpush =>
    cases BoundedBlockingQueue.push_cases hpush with
    | accepted hopen => exact absurd (hopen.symm.trans hterm) Bool.false_ne_true
  | refused hpush =>
    cases BoundedBlockingQueue.push_cases hpush with
    | rejected => exact ⟨hterm, hempty⟩
  | aborts => exact ⟨BoundedBlockingQueue.terminated_abort _ _, hempty⟩
  | closes => exact ⟨rfl, hempty⟩
  | _ => exact ⟨hterm, hempty⟩

/-- What was thrown stays so. -/
theorem thrown_mono (h : WorkerStep rows i w sh w' sh') (hw : sh.WorkerOk rows i w) {k : Fin n} {e : ε}
    (hk : sh.thrown k = some e) : sh'.thrown k = some e := by
  cases h with
  | throws error =>
    have hki : k ≠ i := by
      rintro rfl
      simp [hw.thrown_eq_none (by simp) id] at hk
    exact (Function.update_of_ne hki ..).trans hk
  | _ => exact hk

/-- A clean end stays so. -/
theorem clean (h : WorkerStep rows i w sh w' sh') (hw : sh.WorkerOk rows i w)
    (hclean : QueryRun.Clean sh) : QueryRun.Clean sh' := by
  have hpast : w.Past := hw.past hclean.closed
  cases h with
  | closes => exact ⟨rfl, hclean.empty, hclean.thrown⟩
  | _ => exact absurd hpast id

end WorkerStep

/-! ## Every step -/

namespace QueryRun

variable {rows : β → ℕ} {s s' : QueryRun β ε n}

/-- A worker step keeps what holds of the caller. -/
theorem CallerOk.worker {workers : Fin n → QueryWorker β ε} {sh sh' : QueryShared β ε n}
    {consumerThrew : Bool} {c : QueryCaller (Fin n × β) ε} {i : Fin n} {w : QueryWorker β ε}
    (h : CallerOk rows workers sh consumerThrew c) (hw : sh.WorkerOk rows i (workers i))
    (hst : WorkerStep rows i (workers i) sh w sh') :
    CallerOk rows (Function.update workers i w) sh' consumerThrew c := by
  obtain ⟨hwithdrawn, -⟩ := hst.caller_eq
  have hkeep : ∀ (j : Fin n) (v : QueryWorker β ε), v = .unsubmitted ∨ v = .finished →
      workers j = v → Function.update workers i w j = v := by
    intro j v hv hj
    have hji : j ≠ i := by
      rintro rfl
      rcases hv with rfl | rfl
      · exact hst.ne_of_step.1 hj
      · exact hst.ne_of_step.2 hj
    rw [Function.update_of_ne hji, hj]
  cases c with
  | submitting k =>
    exact ⟨hwithdrawn.trans h.1, fun j hj => hkeep j _ (.inl rfl) (h.2 j hj)⟩
  | submitFailed k e | withdrawing k e =>
    exact ⟨hwithdrawn.trans h.1, fun j hj => hkeep j _ (.inl rfl) (h.2 j hj)⟩
  | abandoning k j e =>
    exact ⟨hwithdrawn.trans h.1, fun l hl => hkeep l _ (.inl rfl) (h.2.1 l hl),
      fun l hl => hkeep l _ (.inr rfl) (h.2.2 l hl)⟩
  | popping => exact hwithdrawn.trans h
  | consuming item => exact ⟨hwithdrawn.trans h.1, h.2⟩
  | collecting => exact ⟨hwithdrawn.trans h.1, hst.drained h.2.1 h.2.2⟩
  | joining j error =>
    obtain ⟨hfine, hdone, hclean, hthrown⟩ := h
    refine ⟨hwithdrawn.trans hfine, fun l hl => hkeep l _ (.inr rfl) (hdone l hl),
      fun he => hst.clean hw (hclean he), fun e he => ?_⟩
    obtain ⟨k, hk⟩ := hthrown e he
    exact ⟨k, hst.thrown_mono hw hk⟩
  | returned =>
    obtain ⟨hfine, hdone, hclean⟩ := h
    exact ⟨hwithdrawn.trans hfine, fun l => hkeep l _ (.inr rfl) (hdone l), hst.clean hw hclean⟩
  | threw e =>
    rcases h with hbad | hbad | ⟨k, hk⟩
    · exact .inl (hwithdrawn.trans hbad)
    · exact .inr (.inl hbad)
    · exact .inr (.inr ⟨k, hst.thrown_mono hw hk⟩)

/-- A worker step keeps the count. -/
theorem Counted.worker {workers : Fin n → QueryWorker β ε} {sh sh' : QueryShared β ε n} {i : Fin n}
    {w : QueryWorker β ε} (h : Counted workers sh.activeWorkers)
    (hst : WorkerStep rows i (workers i) sh w sh') :
    Counted (Function.update workers i w) sh'.activeWorkers := by
  generalize hw : workers i = v at hst
  have hstays : ¬ v.Past → ¬ w.Past → Counted (Function.update workers i w) sh.activeWorkers :=
    fun hv hw' => h.stays (hw ▸ hv) hw'
  cases hst with
  | leaves => exact h.leaves hw
  | closes => exact h.done hw
  | _ => exact hstays id id

/-- A worker step keeps the invariant. -/
theorem Inv.worker (h : Inv rows s) {i : Fin n} {w : QueryWorker β ε} {sh : QueryShared β ε n}
    (hst : WorkerStep rows i (s.workers i) s.shared w sh) :
    Inv rows { s with workers := Function.update s.workers i w, shared := sh } where
  workers := by
    rw [Function.forall_update_iff (p := fun j v => sh.WorkerOk rows j v)]
    exact ⟨(h.workers i).self h.shared hst,
      fun j hj => (h.workers j).other hj (fun hclosing => h.counted.closing i hclosing j) hst⟩
  shared := h.shared.worker (h.workers i) hst
  counted := h.counted.worker hst
  caller := h.caller.worker (h.workers i) hst
  taken := hst.caller_eq.2.trans h.taken

/-- When the queue is drained without an error, everything is clean. -/
theorem Inv.clean_of_drained (h : Inv rows s) (hfine : s.shared.withdrawn = false)
    (hterm : s.shared.results.terminated = true) (hempty : s.shared.results.queue = [])
    (herror : s.shared.results.error = none) : Clean s.shared := by
  have haborted : s.shared.results.aborted ≠ true := fun ha => h.shared.aborted ha herror
  have hcancelled : s.shared.results.cancelled ≠ true := fun hc =>
    Bool.false_ne_true (hfine.symm.trans (h.shared.cancelled hc))
  have hclosed : s.shared.results.closed = true := by
    simpa [BoundedBlockingQueue.terminated, haborted, hcancelled] using hterm
  refine ⟨hclosed, hempty, fun i => ?_⟩
  rcases hthrown : s.shared.thrown i with _ | e
  · rfl
  · have hpast := (h.workers i).past hclosed
    rcases (h.workers i).threw e hthrown with hw | hw | hw
    · rw [hw] at hpast
      exact absurd hpast id
    · rw [hw] at hpast
      exact absurd hpast id
    · exact absurd hw.1 haborted

/-- One more future has been waited for. -/
theorem finished_succ {workers : Fin n → QueryWorker β ε} {j : ℕ} {hn : j < n}
    (h : ∀ i : Fin n, i < j → workers i = .finished) (hdone : workers ⟨j, hn⟩ = .finished) (i : Fin n)
    (hi : i < j + 1) : workers i = .finished := by
  rcases Nat.lt_succ_iff_lt_or_eq.mp hi with hlt | heq
  · exact h i hlt
  · obtain rfl : i = ⟨j, hn⟩ := Fin.ext heq
    exact hdone

/-- A submission keeps the invariant. -/
theorem Inv.submit (h : Inv rows s) {k : ℕ} (hk : k < n) (hc : s.caller = .submitting k) :
    Inv rows { s with
      workers := Function.update s.workers ⟨k, hk⟩ .queued
      caller := .submitting (k + 1) } := by
  have hcaller := h.caller
  have htaken := h.taken
  rw [hc] at hcaller htaken
  have hk' : s.workers ⟨k, hk⟩ = .unsubmitted := hcaller.2 ⟨k, hk⟩ (le_refl k)
  have hmove : s.shared.WorkerOk rows ⟨k, hk⟩ .queued :=
    (hk' ▸ h.workers ⟨k, hk⟩).move rfl (by simp) (by simp) nofun nofun nofun
  refine ⟨?_, h.shared, ?_, ⟨hcaller.1, fun i hi => ?_⟩, htaken⟩
  · rw [Function.forall_update_iff (p := fun j v => s.shared.WorkerOk rows j v)]
    exact ⟨hmove, fun j _ => h.workers j⟩
  · exact h.counted.stays (by rw [hk']; exact id) id
  · have hne : i ≠ ⟨k, hk⟩ := by
      rintro rfl
      exact absurd hi (Nat.not_succ_le_self k)
    show Function.update s.workers ⟨k, hk⟩ .queued i = .unsubmitted
    rw [Function.update_of_ne hne]
    exact hcaller.2 i (Nat.le_of_succ_le hi)

/-- A Pop that returns a batch keeps the invariant. -/
theorem Inv.pops (h : Inv rows s) {q : BoundedBlockingQueue (Fin n × β) ε} {item : Fin n × β}
    (hc : s.caller = .popping) (hpop : s.shared.results.pop = some (q, some item)) :
    Inv rows { s with
      caller := .consuming item
      shared := { s.shared with results := q, taken := s.shared.taken ++ [item] } } := by
  have hcaller := h.caller
  have htaken := h.taken
  rw [hc] at hcaller htaken
  cases BoundedBlockingQueue.pop_cases hpop with
  | item hsame hqueue =>
    have hmem : item ∈ s.shared.results.queue := hqueue ▸ List.mem_cons_self
    refine ⟨fun i => (h.workers i).frame id rfl ?_ rfl (fun ha => hsame.aborted.trans ha)
      fun hclosed => (h.workers i).past (hsame.closed.symm.trans hclosed), ?_, h.counted,
      ⟨hcaller, h.shared.rows item hmem⟩, ?_⟩
    · rw [hqueue]
      exact congrArg (fromWorker i) (List.append_assoc _ [item] q.queue)
    · exact ⟨fun item' hmem' => h.shared.rows item' (hqueue ▸ List.mem_cons_of_mem item hmem'),
        fun e he => h.shared.error e (hsame.error.symm.trans he),
        fun ha he => h.shared.aborted (hsame.aborted.symm.trans ha) (hsame.error.symm.trans he),
        fun hcan => h.shared.cancelled (hsame.cancelled.symm.trans hcan), h.shared.scan,
        h.shared.stopped⟩
    · show s.shared.taken ++ [item] = s.delivered ++ [item]
      rw [htaken]
      exact congrArg (· ++ [item]) (List.append_nil _)

/-- **Every step of every thread keeps the invariant.** -/
theorem Inv.step (h : Inv rows s) {f : QueryFailure} (hst : Step rows s f s') : Inv rows s' := by
  have hcaller := h.caller
  have htaken := h.taken
  cases hst with
  | worker i hst => exact h.worker hst
  | submit hk hc => exact h.submit hk hc
  | submitted hc =>
    rw [hc] at hcaller htaken
    exact ⟨h.workers, h.shared, h.counted, hcaller.1, htaken⟩
  | submitThrows hk error hc =>
    rw [hc] at hcaller htaken
    have hbad : QueryShared.Failed { s.shared with withdrawn := true } := .inl rfl
    refine ⟨fun i => (h.workers i).frame (fun _ => hbad) rfl rfl rfl id (h.workers i).past, ?_,
      h.counted, ⟨rfl, hcaller.2⟩, htaken⟩
    exact ⟨h.shared.rows, h.shared.error, h.shared.aborted, fun _ => rfl, fun _ => hbad,
      fun _ _ => hbad⟩
  | cancelsScan hc =>
    rw [hc] at hcaller htaken
    have hbad : s.shared.Failed := .inl hcaller.1
    refine ⟨fun i => (h.workers i).frame id rfl rfl rfl id (h.workers i).past, ?_, h.counted, hcaller,
      htaken⟩
    exact ⟨h.shared.rows, h.shared.error, h.shared.aborted, h.shared.cancelled, fun _ => hbad,
      h.shared.stopped⟩
  | cancelsResults hc =>
    rw [hc] at hcaller htaken
    refine ⟨fun i => (h.workers i).frame id rfl rfl rfl id (h.workers i).past, ?_, h.counted,
      ⟨hcaller.1, hcaller.2, nofun⟩, htaken⟩
    exact ⟨h.shared.rows, h.shared.error, h.shared.aborted, fun _ => hcaller.1, h.shared.scan,
      h.shared.stopped⟩
  | abandon hj hn hc hdone =>
    rw [hc] at hcaller htaken
    exact ⟨h.workers, h.shared, h.counted,
      ⟨hcaller.1, hcaller.2.1, finished_succ hcaller.2.2 hdone⟩, htaken⟩
  | abandoned hc =>
    rw [hc] at hcaller htaken
    exact ⟨h.workers, h.shared, h.counted, .inl hcaller.1, htaken⟩
  | pops hc hpop => exact h.pops hc hpop
  | popEnds hc hpop =>
    rw [hc] at hcaller htaken
    cases BoundedBlockingQueue.pop_cases hpop with
    | none hterm hempty =>
      exact ⟨h.workers, h.shared, h.counted, ⟨hcaller, hterm, hempty⟩, htaken⟩
  | @consumes item hc =>
    rw [hc] at hcaller htaken
    refine ⟨h.workers, h.shared, h.counted, hcaller.1, ?_⟩
    show s.shared.taken = (if rows item.2 = 0 then s.delivered else s.delivered ++ [item]) ++ []
    rw [if_neg hcaller.2, List.append_nil]
    exact htaken
  | @consumerThrows item error hc hrows =>
    rw [hc] at hcaller htaken
    refine ⟨h.workers, h.shared, h.counted, .inr (.inl rfl), ?_⟩
    show s.shared.taken = s.delivered ++ [item] ++ []
    rw [List.append_nil]
    exact htaken
  | collects hc =>
    rw [hc] at hcaller htaken
    exact ⟨h.workers, h.shared, h.counted, ⟨hcaller.1, nofun,
      fun he => h.clean_of_drained hcaller.1 hcaller.2.1 hcaller.2.2 he,
      fun e he => h.shared.error e he⟩, htaken⟩
  | join hn hc hdone =>
    rw [hc] at hcaller htaken
    exact ⟨h.workers, h.shared, h.counted,
      ⟨hcaller.1, finished_succ hcaller.2.1 hdone, hcaller.2.2⟩, htaken⟩
  | returns hc =>
    rw [hc] at hcaller htaken
    exact ⟨h.workers, h.shared, h.counted,
      ⟨hcaller.1, fun i => hcaller.2.1 i i.isLt, hcaller.2.2.1 rfl⟩, htaken⟩
  | @rethrows error hc =>
    rw [hc] at hcaller htaken
    obtain ⟨k, hk⟩ := hcaller.2.2.2 error rfl
    refine ⟨fun i => (h.workers i).frame id rfl rfl rfl id (h.workers i).past, ?_, h.counted,
      .inr (.inr ⟨k, hk⟩), htaken⟩
    exact ⟨h.shared.rows, h.shared.error, h.shared.aborted, h.shared.cancelled,
      fun _ => QueryShared.failed_of_thrown hk, h.shared.stopped⟩

theorem inv_start (rows : β → ℕ) (n capacity : ℕ) : Inv rows (start β ε n capacity) where
  workers i := ⟨fun _ => rfl, List.forall_mem_nil _, nofun, by simp [start], nofun, nofun⟩
  shared := ⟨List.forall_mem_nil _, nofun, nofun, nofun, nofun, nofun⟩
  counted := ⟨by simp [start, QueryWorker.Past], nofun⟩
  caller := ⟨rfl, fun _ _ => rfl⟩
  taken := rfl

/-- The states of a call whose steps satisfy `ok`. -/
def Reached (rows : β → ℕ) (capacity : ℕ) (ok : QueryRun β ε n → QueryFailure → Prop) :
    QueryRun β ε n → Prop :=
  Reachable (· = start β ε n capacity) fun s s' => ∃ f, Step rows s f s' ∧ ok s f

theorem Reached.inv {capacity : ℕ} {ok : QueryRun β ε n → QueryFailure → Prop}
    (hrun : Reached rows capacity ok s) : Inv rows s := by
  refine Reachable.invariant (P := Inv rows) ?_ ?_ hrun
  · rintro _ rfl
    exact inv_start rows n capacity
  · rintro s s' h ⟨f, hst, -⟩
    exact h.step hst

end QueryRun

end SimpleOlap
