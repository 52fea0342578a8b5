import SimpleOlap.Lib.Transition
import Mathlib.Data.List.Infix
import Mathlib.Data.List.Lattice

/-!
# The bounded blocking queue

* `BoundedBlockingQueue`: the queue with its capacity and flags. Every method holds the mutex, so it is
  one step; `push` and `pop` are `none` where their thread waits.
* `push_cases`, `pop_cases`: what the two can do.
* `QueueRun`: any number of threads that call the methods, each Push call with a number of its own, and
  `QueueRun.Step`, one step of one thread. A thread that wakes up and finds that it has to wait again
  changes nothing.
* `QueueRun.lossless_fifo`: under every interleaving the queue is a first-in first-out queue that loses
  nothing.
-/

namespace SimpleOlap

open Lib

/-- Source: `bounded_blocking_queue.h` BoundedBlockingQueue. `ε` is what `Abort` carries. -/
structure BoundedBlockingQueue (α ε : Type) where
  capacity : ℕ
  queue : List α
  closed : Bool
  aborted : Bool
  cancelled : Bool
  error : Option ε
  bounded : queue.length ≤ capacity

namespace BoundedBlockingQueue

variable {α ε : Type}

/-- Source: `bounded_blocking_queue.h` constructor. -/
def new (capacity : ℕ) : BoundedBlockingQueue α ε :=
  ⟨if capacity = 0 then 1 else capacity, [], false, false, false, none, Nat.zero_le _⟩

/-- One of the flags is set. -/
def terminated (q : BoundedBlockingQueue α ε) : Bool := q.closed || q.aborted || q.cancelled

/-- Source: `bounded_blocking_queue.h` Push; `none` while the thread waits for room. -/
def push (q : BoundedBlockingQueue α ε) (value : α) : Option (BoundedBlockingQueue α ε × Bool) :=
  if q.terminated then some (q, false)
  else if h : q.queue.length < q.capacity then
    some ({ q with queue := q.queue ++ [value], bounded := by simpa using Nat.succ_le_of_lt h }, true)
  else none

/-- Source: `bounded_blocking_queue.h` Pop; `none` while the thread waits for an item, `some (_, none)`
when it returns false. -/
def pop (q : BoundedBlockingQueue α ε) : Option (BoundedBlockingQueue α ε × Option α) :=
  match h : q.queue with
  | value :: rest =>
    have hlen : rest.length + 1 ≤ q.capacity := by simpa [h] using q.bounded
    some ({ q with queue := rest, bounded := (Nat.le_succ _).trans hlen }, some value)
  | [] => if q.terminated then some (q, none) else none

/-- Source: `bounded_blocking_queue.h` Close. -/
def close (q : BoundedBlockingQueue α ε) : BoundedBlockingQueue α ε := { q with closed := true }

/-- Source: `bounded_blocking_queue.h` Abort. -/
def abort (q : BoundedBlockingQueue α ε) (error : Option ε) : BoundedBlockingQueue α ε :=
  { q with
    aborted := true
    error := if error.isSome then error else q.error }

/-- Source: `bounded_blocking_queue.h` Cancel. -/
def cancel (q : BoundedBlockingQueue α ε) : BoundedBlockingQueue α ε := { q with cancelled := true }

/-! ## What the methods do -/

/-- A queue holds at least one item. -/
theorem capacity_new (capacity : ℕ) :
    (new capacity : BoundedBlockingQueue α ε).capacity = max 1 capacity := by
  show (if capacity = 0 then 1 else capacity) = max 1 capacity
  split_ifs with h
  · rw [h]
    rfl
  · exact (max_eq_right (Nat.one_le_iff_ne_zero.mpr h)).symm

/-- No flag is set. -/
@[simp] theorem terminated_new (capacity : ℕ) :
    (new capacity : BoundedBlockingQueue α ε).terminated = false := rfl

/-- A closed queue is terminated. -/
@[simp] theorem terminated_close (q : BoundedBlockingQueue α ε) : q.close.terminated = true := rfl

/-- An aborted queue is terminated. -/
@[simp] theorem terminated_abort (q : BoundedBlockingQueue α ε) (error : Option ε) :
    (q.abort error).terminated = true := by simp [abort, terminated]

/-- A cancelled queue is terminated. -/
@[simp] theorem terminated_cancel (q : BoundedBlockingQueue α ε) : q.cancel.terminated = true := by
  simp [cancel, terminated]

/-- The two queues have the same capacity, flags and error. -/
structure SameFlags (q q' : BoundedBlockingQueue α ε) : Prop where
  capacity : q'.capacity = q.capacity
  closed : q'.closed = q.closed
  aborted : q'.aborted = q.aborted
  cancelled : q'.cancelled = q.cancelled
  error : q'.error = q.error

/-- The flags decide whether a queue is terminated. -/
theorem SameFlags.terminated {q q' : BoundedBlockingQueue α ε} (h : q.SameFlags q') :
    q'.terminated = q.terminated := by
  rw [BoundedBlockingQueue.terminated, h.closed, h.aborted, h.cancelled]
  rfl

/-- What a Push that returns did. -/
inductive PushCases (q : BoundedBlockingQueue α ε) (value : α) :
    BoundedBlockingQueue α ε → Bool → Prop
  | rejected (h : q.terminated = true) : PushCases q value q false
  | accepted {q' : BoundedBlockingQueue α ε} (h : q.terminated = false) (hsame : q.SameFlags q')
      (hqueue : q'.queue = q.queue ++ [value]) : PushCases q value q' true

/-- What a Push did. -/
theorem push_cases {q q' : BoundedBlockingQueue α ε} {value : α} {ok : Bool}
    (h : q.push value = some (q', ok)) : PushCases q value q' ok := by
  unfold push at h
  split_ifs at h with hterm hroom
  · cases h
    exact .rejected hterm
  · cases h
    exact .accepted (Bool.not_eq_true _ ▸ hterm) ⟨rfl, rfl, rfl, rfl, rfl⟩ rfl

/-- What a Pop that returns did. -/
inductive PopCases (q : BoundedBlockingQueue α ε) :
    BoundedBlockingQueue α ε → Option α → Prop
  | item {q' : BoundedBlockingQueue α ε} {value : α} (hsame : q.SameFlags q')
      (hqueue : q.queue = value :: q'.queue) : PopCases q q' (some value)
  | none (hterm : q.terminated = true) (hempty : q.queue = []) : PopCases q q none

/-- What a Pop did. -/
theorem pop_cases {q q' : BoundedBlockingQueue α ε} {r : Option α} (h : q.pop = some (q', r)) :
    PopCases q q' r := by
  unfold pop at h
  split at h
  · next value rest hqueue =>
    cases h
    exact .item ⟨rfl, rfl, rfl, rfl, rfl⟩ hqueue
  · next hempty =>
    split_ifs at h with hterm
    cases h
    exact .none hterm hempty

/-- An item that waits can be popped. -/
theorem exists_pop {q : BoundedBlockingQueue α ε} {value : α} {rest : List α}
    (h : q.queue = value :: rest) : ∃ q', q.pop = some (q', some value) := by
  unfold pop
  split
  · next value' rest' hqueue =>
    obtain ⟨rfl, rfl⟩ := List.cons.inj (hqueue.symm.trans h)
    exact ⟨_, rfl⟩
  · next hempty => simp [h] at hempty

/-- A queue with room takes an item. -/
theorem exists_push {q : BoundedBlockingQueue α ε} (hopen : q.terminated = false)
    (hroom : q.queue.length < q.capacity) (value : α) : ∃ q', q.push value = some (q', true) := by
  unfold push
  rw [if_neg (by simp [hopen]), dif_pos hroom]
  exact ⟨_, rfl⟩

/-- Nobody waits for an item of a terminated queue. -/
theorem pop_of_terminated {q : BoundedBlockingQueue α ε} (hterm : q.terminated = true)
    (hempty : q.queue = []) : q.pop = some (q, none) := by
  unfold pop
  split
  · next value rest hqueue => simp [hempty] at hqueue
  · exact if_pos hterm

/-- Nobody waits to push on a terminated queue. -/
theorem push_of_terminated {q : BoundedBlockingQueue α ε} (h : q.terminated = true) (value : α) :
    q.push value = some (q, false) := if_pos h

end BoundedBlockingQueue

/-! ## Threads that share a queue -/

/-- Where a thread is: between calls, or inside a Push or a Pop. -/
inductive QueueCall (α : Type) where
  | idle
  | pushing (item : α)
  | popping

/-- A thread that is idle is not in a Push. -/
theorem QueueCall.idle_ne_pushing {α : Type} (item : α) : QueueCall.idle ≠ .pushing item := nofun

/-- A thread that is in a Pop is not in a Push. -/
theorem QueueCall.popping_ne_pushing {α : Type} (item : α) : QueueCall.popping ≠ .pushing item :=
  nofun

/-- Threads over a queue, whose items carry the number of their Push call, and what the calls have
returned so far. -/
structure QueueRun (τ α ε : Type) where
  queue : BoundedBlockingQueue (ℕ × α) ε
  threads : τ → QueueCall (ℕ × α)
  calls : ℕ
  accepted : List (ℕ × α)
  rejected : List (ℕ × α)
  popped : List (ℕ × α)
  ended : Bool

namespace QueueRun

variable {τ α ε : Type} [DecidableEq τ]

/-- A new queue that no thread has called yet. -/
def start (capacity : ℕ) : QueueRun τ α ε :=
  ⟨.new capacity, fun _ => .idle, 0, [], [], [], false⟩

/-- The thread is at another place. -/
def moved (s : QueueRun τ α ε) (t : τ) (c : QueueCall (ℕ × α)) : τ → QueueCall (ℕ × α) :=
  Function.update s.threads t c

/-- One step of one thread. -/
inductive Step : QueueRun τ α ε → QueueRun τ α ε → Prop
  | callPush {s : QueueRun τ α ε} (t : τ) (value : α) (h : s.threads t = .idle) :
      Step s { s with threads := s.moved t (.pushing (s.calls, value)), calls := s.calls + 1 }
  | pushReturns {s : QueueRun τ α ε} {t : τ} {item : ℕ × α} {q : BoundedBlockingQueue (ℕ × α) ε}
      {ok : Bool} (h : s.threads t = .pushing item) (hpush : s.queue.push item = some (q, ok)) :
      Step s { s with
        queue := q
        threads := s.moved t .idle
        accepted := if ok then s.accepted ++ [item] else s.accepted
        rejected := if ok then s.rejected else s.rejected ++ [item] }
  | callPop {s : QueueRun τ α ε} (t : τ) (h : s.threads t = .idle) :
      Step s { s with threads := s.moved t .popping }
  | popReturns {s : QueueRun τ α ε} {t : τ} {q : BoundedBlockingQueue (ℕ × α) ε}
      {r : Option (ℕ × α)} (h : s.threads t = .popping) (hpop : s.queue.pop = some (q, r)) :
      Step s { s with
        queue := q
        threads := s.moved t .idle
        popped := s.popped ++ r.toList
        ended := s.ended || r.isNone }
  | close {s : QueueRun τ α ε} (t : τ) (h : s.threads t = .idle) :
      Step s { s with queue := s.queue.close }
  | abort {s : QueueRun τ α ε} (t : τ) (error : Option ε) (h : s.threads t = .idle) :
      Step s { s with queue := s.queue.abort error }
  | cancel {s : QueueRun τ α ε} (t : τ) (h : s.threads t = .idle) :
      Step s { s with queue := s.queue.cancel }

/-- Every call is made once: its item waits in one thread, or was accepted, or was rejected. -/
structure Numbered (s : QueueRun τ α ε) : Prop where
  inFlight : ∀ t item, s.threads t = .pushing item →
    item.1 < s.calls ∧ item ∉ s.accepted ∧ item ∉ s.rejected
  alone : ∀ t t' item, s.threads t = .pushing item → s.threads t' = .pushing item → t = t'
  below : ∀ item ∈ s.accepted ++ s.rejected, item.1 < s.calls
  disjoint : ∀ item ∈ s.accepted, item ∉ s.rejected

/-- What holds in every state of a run on a queue of the given capacity. -/
structure Inv (capacity : ℕ) (s : QueueRun τ α ε) : Prop extends Numbered s where
  capacity_eq : s.queue.capacity = max 1 capacity
  accepted_eq : s.accepted = s.popped ++ s.queue.queue
  ended_imp : s.ended = true → s.queue.terminated = true ∧ s.queue.queue = []

variable {capacity : ℕ} {s s' : QueueRun τ α ε}

omit [DecidableEq τ] in
/-- Before any call. -/
theorem inv_start (capacity : ℕ) : Inv capacity (start capacity : QueueRun τ α ε) where
  inFlight _ _ h := by cases h
  alone _ _ _ h := by cases h
  below := List.forall_mem_nil _
  disjoint := List.forall_mem_nil _
  capacity_eq := BoundedBlockingQueue.capacity_new capacity
  accepted_eq := rfl
  ended_imp h := by cases h

/-- A thread that is in a Push moved there or was there. -/
theorem moved_eq_pushing {t t' : τ} {c : QueueCall (ℕ × α)} {item : ℕ × α}
    (h : s.moved t c t' = .pushing item) :
    t' = t ∧ c = .pushing item ∨ t' ≠ t ∧ s.threads t' = .pushing item := by
  unfold moved at h
  by_cases ht : t' = t
  · rw [ht, Function.update_self] at h
    exact .inl ⟨ht, h⟩
  · rw [Function.update_of_ne ht] at h
    exact .inr ⟨ht, h⟩

namespace Numbered

/-- A thread goes on to something else than a Push. -/
theorem leave {t : τ} {c : QueueCall (ℕ × α)} (hc : ∀ item, c ≠ .pushing item) {t' : τ}
    {item : ℕ × α} (ht' : s.moved t c t' = .pushing item) : s.threads t' = .pushing item := by
  rcases moved_eq_pushing ht' with ⟨-, hpush⟩ | ⟨-, hother⟩
  · exact absurd hpush (hc item)
  · exact hother

omit [DecidableEq τ] in
/-- The numbers stay when the histories of the pushes do. -/
theorem of_threads (h : s.Numbered) (hsub : ∀ t item, s'.threads t = .pushing item →
    s.threads t = .pushing item) (hcalls : s'.calls = s.calls) (hacc : s'.accepted = s.accepted)
    (hrej : s'.rejected = s.rejected) : s'.Numbered where
  inFlight t item ht := by
    rw [hcalls, hacc, hrej]
    exact h.inFlight t item (hsub t item ht)
  alone t t' item ht ht' := h.alone t t' item (hsub t item ht) (hsub t' item ht')
  below := by
    rw [hcalls, hacc, hrej]
    exact h.below
  disjoint := by
    rw [hacc, hrej]
    exact h.disjoint

/-- A new call has a new number. -/
theorem callPush (h : s.Numbered) (t : τ) (value : α) : Numbered
    { s with threads := s.moved t (.pushing (s.calls, value)), calls := s.calls + 1 } where
  inFlight t' item ht' := by
    rcases moved_eq_pushing ht' with ⟨-, hpush⟩ | ⟨-, hother⟩
    · -- a number that no earlier call has
      obtain rfl := QueueCall.pushing.inj hpush
      refine ⟨Nat.lt_succ_self _, fun hmem => ?_, fun hmem => ?_⟩
      · exact lt_irrefl _ (h.below _ (List.mem_append_left _ hmem))
      · exact lt_irrefl _ (h.below _ (List.mem_append_right _ hmem))
    · obtain ⟨hlt, hold⟩ := h.inFlight t' item hother
      exact ⟨Nat.lt_succ_of_lt hlt, hold⟩
  alone t₁ t₂ item h₁ h₂ := by
    rcases moved_eq_pushing h₁ with ⟨rfl, hpush₁⟩ | ⟨-, hother₁⟩ <;>
      rcases moved_eq_pushing h₂ with ⟨rfl, hpush₂⟩ | ⟨-, hother₂⟩
    · rfl
    · obtain rfl := QueueCall.pushing.inj hpush₁
      exact absurd (h.inFlight _ _ hother₂).1 (lt_irrefl _)
    · obtain rfl := QueueCall.pushing.inj hpush₂
      exact absurd (h.inFlight _ _ hother₁).1 (lt_irrefl _)
    · exact h.alone _ _ item hother₁ hother₂
  below item hmem := Nat.lt_succ_of_lt (h.below item hmem)
  disjoint := h.disjoint

/-- A Push that returns files its item once. -/
theorem pushReturns (h : s.Numbered) {t : τ} {item : ℕ × α} (ht : s.threads t = .pushing item)
    (q : BoundedBlockingQueue (ℕ × α) ε) (ok : Bool) : Numbered { s with
      queue := q
      threads := s.moved t .idle
      accepted := if ok then s.accepted ++ [item] else s.accepted
      rejected := if ok then s.rejected else s.rejected ++ [item] } := by
  obtain ⟨hlt, hacc, hrej⟩ := h.inFlight t item ht
  constructor
  case inFlight =>
    intro t' item' ht'
    rcases moved_eq_pushing ht' with ⟨-, hpush⟩ | ⟨hne, hother⟩
    · exact absurd hpush (QueueCall.idle_ne_pushing item')
    · obtain ⟨hlt', hacc', hrej'⟩ := h.inFlight t' item' hother
      have hitem : item' ≠ item := fun heq => hne (h.alone t' t item (heq ▸ hother) ht)
      cases ok <;> simp [hlt', hacc', hrej', hitem]
  case alone =>
    intro t₁ t₂ item' h₁ h₂
    exact h.alone t₁ t₂ item' (leave QueueCall.idle_ne_pushing h₁)
      (leave QueueCall.idle_ne_pushing h₂)
  case below =>
    intro item' hmem
    have hmem' : item' ∈ s.accepted ++ s.rejected ∨ item' = item := by
      cases ok <;> simpa [or_assoc, or_comm, or_left_comm] using hmem
    rcases hmem' with hold | rfl
    · exact h.below item' hold
    · exact hlt
  case disjoint =>
    intro item' hmem
    cases ok with
    | false =>
      have hne : item' ≠ item := fun heq => hacc (heq ▸ hmem)
      simpa [hne] using h.disjoint item' hmem
    | true =>
      rcases List.mem_append.mp hmem with hold | hnew
      · exact h.disjoint item' hold
      · exact List.mem_singleton.mp hnew ▸ hrej

end Numbered

omit [DecidableEq τ] in
/-- The flags of a queue are only ever set. -/
theorem Inv.flag (h : Inv capacity s) {q : BoundedBlockingQueue (ℕ × α) ε}
    (hcapacity : q.capacity = s.queue.capacity) (hqueue : q.queue = s.queue.queue)
    (hterm : q.terminated = true) : Inv capacity { s with queue := q } where
  toNumbered := h.toNumbered.of_threads (fun _ _ ht => ht) rfl rfl rfl
  capacity_eq := hcapacity.trans h.capacity_eq
  accepted_eq := h.accepted_eq.trans (congrArg (s.popped ++ ·) hqueue.symm)
  ended_imp hended := ⟨hterm, hqueue.trans (h.ended_imp hended).2⟩

/-- **Every step of every thread keeps the invariant.** -/
theorem Inv.step (h : Inv capacity s) (hst : Step s s') : Inv capacity s' := by
  cases hst with
  | callPush t value ht =>
    exact ⟨h.toNumbered.callPush t value, h.capacity_eq, h.accepted_eq, h.ended_imp⟩
  | @pushReturns t item q ok ht hpush =>
    have hnum := h.toNumbered.pushReturns ht q ok
    cases BoundedBlockingQueue.push_cases hpush with
    | rejected hterm => exact ⟨hnum, h.capacity_eq, h.accepted_eq, h.ended_imp⟩
    | accepted hterm hsame hqueue =>
      refine ⟨hnum, hsame.capacity.trans h.capacity_eq, ?_, fun hended => ?_⟩
      · show s.accepted ++ [item] = s.popped ++ q.queue
        rw [hqueue, h.accepted_eq, List.append_assoc]
      · exact absurd (hterm.symm.trans (h.ended_imp hended).1) Bool.false_ne_true
  | callPop t ht =>
    exact ⟨h.toNumbered.of_threads (fun _ _ => Numbered.leave QueueCall.popping_ne_pushing) rfl rfl
      rfl, h.capacity_eq, h.accepted_eq, h.ended_imp⟩
  | @popReturns t q r ht hpop =>
    have hnum : Numbered { s with
        queue := q
        threads := s.moved t .idle
        popped := s.popped ++ r.toList
        ended := s.ended || r.isNone } :=
      h.toNumbered.of_threads (fun _ _ => Numbered.leave QueueCall.idle_ne_pushing) rfl rfl rfl
    cases BoundedBlockingQueue.pop_cases hpop with
    | @item _ value hsame hqueue =>
      refine ⟨hnum, hsame.capacity.trans h.capacity_eq, ?_, fun hended => ?_⟩
      · show s.accepted = s.popped ++ [value] ++ q.queue
        rw [h.accepted_eq, hqueue, List.append_assoc]
        rfl
      · have hended' : s.ended = true := by simpa using hended
        simp [(h.ended_imp hended').2] at hqueue
    | none hterm hempty =>
      refine ⟨hnum, h.capacity_eq, ?_, fun _ => ⟨hterm, hempty⟩⟩
      show s.accepted = s.popped ++ [] ++ s.queue.queue
      rw [List.append_nil]
      exact h.accepted_eq
  | close t ht => exact h.flag rfl rfl s.queue.terminated_close
  | abort t error ht => exact h.flag rfl rfl (s.queue.terminated_abort error)
  | cancel t ht => exact h.flag rfl rfl s.queue.terminated_cancel

/-- The runs of threads on a new queue. -/
def Reached (capacity : ℕ) : QueueRun τ α ε → Prop := Reachable (· = start capacity) Step

/-- Every state that is reached satisfies the invariant. -/
theorem Reached.inv (hrun : Reached capacity s) : Inv capacity s := by
  refine Reachable.invariant (P := Inv capacity) ?_ (fun _ _ h hst => h.step hst) hrun
  rintro _ rfl
  exact inv_start capacity

/-- Once a Pop has returned false, a step accepts and pops nothing. -/
theorem Inv.step_of_ended (h : Inv capacity s) (hended : s.ended = true) (hst : Step s s') :
    s'.accepted = s.accepted ∧ s'.popped = s.popped ∧ s'.ended = true := by
  obtain ⟨hterm, hempty⟩ := h.ended_imp hended
  cases hst with
  | callPush | callPop | close | abort | cancel => exact ⟨rfl, rfl, hended⟩
  | @pushReturns t item q ok ht hpush =>
    cases BoundedBlockingQueue.push_cases hpush with
    | rejected => exact ⟨rfl, rfl, hended⟩
    | accepted hopen => exact absurd (hopen.symm.trans hterm) Bool.false_ne_true
  | @popReturns t q r ht hpop =>
    cases BoundedBlockingQueue.pop_cases hpop with
    | item hsame hqueue => simp [hempty] at hqueue
    | none => exact ⟨rfl, List.append_nil _, by simp [hended]⟩

/-- Once a Pop has returned false, nothing more is accepted or popped. -/
theorem Inv.run_of_ended (h : Inv capacity s) (hended : s.ended = true)
    (hrun : Reachable (· = s) Step s') : s'.accepted = s.accepted ∧ s'.popped = s.popped := by
  have hall : Inv capacity s' ∧ s'.ended = true ∧ s'.accepted = s.accepted ∧
      s'.popped = s.popped := by
    refine Reachable.invariant (P := fun u => Inv capacity u ∧ u.ended = true ∧
      u.accepted = s.accepted ∧ u.popped = s.popped) ?_ ?_ hrun
    · rintro _ rfl
      exact ⟨h, hended, rfl, rfl⟩
    · rintro u u' ⟨hu, hended', hacc, hpop⟩ hst
      obtain ⟨hacc', hpop', hended''⟩ := hu.step_of_ended hended' hst
      exact ⟨hu.step hst, hended'', hacc'.trans hacc, hpop'.trans hpop⟩
  exact hall.2.2

/-- **The queue is a lossless first-in first-out queue under every interleaving**: it never holds more
than its capacity; what a Push was refused for is never popped; what was popped is a front part of what
was accepted; a Pop returns false only when the queue is terminated and everything accepted was popped;
and after that nothing more is accepted or popped. -/
theorem lossless_fifo (hrun : Reached capacity s) :
    s.queue.queue.length ≤ max 1 capacity ∧
    (∀ item ∈ s.rejected, item ∉ s.popped) ∧
    s.popped <+: s.accepted ∧
    (∀ q, s.queue.pop = some (q, none) → (s.queue.closed || s.queue.aborted || s.queue.cancelled) =
      true ∧ s.popped = s.accepted) ∧
    (s.ended = true → ∀ s', Reachable (· = s) Step s' →
      s'.accepted = s.accepted ∧ s'.popped = s.popped) := by
  have h := hrun.inv
  have hfront : s.popped <+: s.accepted := by
    rw [h.accepted_eq]
    exact List.prefix_append _ _
  refine ⟨h.capacity_eq ▸ s.queue.bounded, ?_, hfront, ?_, ?_⟩
  · intro item hrej hpop
    exact h.disjoint item (hfront.subset hpop) hrej
  · intro q hpop
    cases BoundedBlockingQueue.pop_cases hpop with
    | none hterm hempty =>
      refine ⟨hterm, ?_⟩
      rw [h.accepted_eq, hempty, List.append_nil]
  · intro hended s' hrun'
    exact h.run_of_ended hended hrun'

/-- One thread has pushed an item on a queue of capacity 0, which holds one, and closed the queue. The other
has popped the item, and then was told that nothing is left. -/
def onePopped : QueueRun Bool ℕ ℕ :=
  ⟨⟨1, [], true, false, false, none, Nat.zero_le 1⟩, fun _ => .idle, 1, [(0, 7)], [], [(0, 7)], true⟩

/-- A call that returns leaves its thread idle, as all others are. -/
theorem moved_idle {s : QueueRun Bool ℕ ℕ} {t : Bool} {c : QueueCall (ℕ × ℕ)}
    (h : s.threads = Function.update (fun _ => .idle) t c) : s.moved t .idle = fun _ => .idle := by
  rw [moved, h, Function.update_idem, Function.update_eq_self_iff]

/-- Each call takes its step. -/
theorem reached_onePopped : Reached 0 onePopped := by
  let idle : Bool → QueueCall (ℕ × ℕ) := fun _ => .idle
  let full : BoundedBlockingQueue (ℕ × ℕ) ℕ := ⟨1, [(0, 7)], false, false, false, none, le_refl 1⟩
  let pushing : QueueRun Bool ℕ ℕ :=
    ⟨.new 0, Function.update idle false (.pushing (0, 7)), 1, [], [], [], false⟩
  let pushed : QueueRun Bool ℕ ℕ := ⟨full, idle, 1, [(0, 7)], [], [], false⟩
  let popping : QueueRun Bool ℕ ℕ := { pushed with threads := Function.update idle true .popping }
  let popped : QueueRun Bool ℕ ℕ := { pushed with
    queue := ⟨1, [], false, false, false, none, Nat.zero_le 1⟩
    popped := [(0, 7)] }
  let closed : QueueRun Bool ℕ ℕ := { popped with queue := popped.queue.close }
  let again : QueueRun Bool ℕ ℕ := { closed with threads := Function.update idle true .popping }
  have hpush : Step (start 0) pushing := .callPush false 7 rfl
  have hpushed : Step pushing pushed := by
    have h := @Step.pushReturns Bool ℕ ℕ _ pushing false (0, 7) full true rfl rfl
    rwa [moved_idle rfl] at h
  have hpop : Step pushed popping := .callPop true rfl
  have hpopped : Step popping popped := by
    have h := @Step.popReturns Bool ℕ ℕ _ popping true popped.queue (some (0, 7)) rfl rfl
    rwa [moved_idle rfl] at h
  have hclosed : Step popped closed := .close false rfl
  have hagain : Step closed again := .callPop true rfl
  have hended : Step again onePopped := by
    have h := @Step.popReturns Bool ℕ ℕ _ again true again.queue none rfl rfl
    rwa [moved_idle rfl] at h
  exact .next (.next (.next (.next (.next (.next (.next (.start rfl) hpush) hpushed) hpop) hpopped) hclosed)
    hagain) hended

/-- In that state and ever after, one item has been accepted and popped. -/
theorem lossless_fifo_onePopped :
    onePopped.popped <+: onePopped.accepted ∧
      ∀ s', Reachable (· = onePopped) Step s' → s'.accepted = [(0, 7)] ∧ s'.popped = [(0, 7)] := by
  obtain ⟨-, -, hfront, -, hended⟩ := lossless_fifo reached_onePopped
  exact ⟨hfront, hended rfl⟩

end QueueRun

end SimpleOlap
