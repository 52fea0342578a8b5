import Mathlib.Data.Multiset.AddSub
import Mathlib.Data.Multiset.Bind

/-!
# Mergeable summaries

A summary keeps of the inputs that it has seen what is needed of them, and two summaries can be combined.
Here the state may depend on the order of the inputs in ways that do not matter: what is said of it is
the relation `Sums` to the multiset of the inputs.

* `Summary`: the operations, which may fail on inputs that are not `Good`, with what they have to keep.
* `MergeTree`: any distribution of inputs over workers, and any way of combining the results.
* `Summary.sums_eval`, `Summary.sums_workers`: a tree comes to a state for the multiset of all its inputs,
  and so do workers whose states are combined one after the other.
* `Summary.batched`: inputs that come in batches.
* `Best`: a state that keeps an input of least rank.
-/

namespace SimpleOlap.Lib

/-- The states of a summary, and what they say of the multiset of the inputs. -/
structure Summary (σ α ε : Type*) where
  initial : σ
  update : σ → α → Except ε σ
  combine : σ → σ → Except ε σ
  Good : α → Prop
  Sums : σ → Multiset α → Prop
  sums_initial : Sums initial 0
  sums_update : ∀ {s m a}, Sums s m → Good a → ∃ s', update s a = .ok s' ∧ Sums s' (a ::ₘ m)
  sums_combine : ∀ {s t m m'}, Sums s m → Sums t m' → ∃ s', combine s t = .ok s' ∧ Sums s' (m + m')

/-- Inputs that are seen one after the other, and results that are combined. -/
inductive MergeTree (α : Type*)
  | worker (inputs : List α)
  | merge (left right : MergeTree α)

/-- All inputs of a tree. -/
def MergeTree.inputs {α : Type*} : MergeTree α → List α
  | .worker inputs => inputs
  | .merge left right => left.inputs ++ right.inputs

/-- The value of a tree under any operations. -/
def MergeTree.eval {σ α ε : Type*} (initial : σ) (update : σ → α → Except ε σ)
    (combine : σ → σ → Except ε σ) : MergeTree α → Except ε σ
  | .worker inputs => inputs.foldlM update initial
  | .merge left right => do
    let s ← left.eval initial update combine
    let t ← right.eval initial update combine
    combine s t

namespace Summary

variable {σ α ε : Type*} (S : Summary σ α ε)

/-- Inputs seen one after the other. -/
theorem sums_foldlM {s : σ} {m : Multiset α} (h : S.Sums s m) (inputs : List α)
    (hgood : ∀ a ∈ inputs, S.Good a) :
    ∃ s', inputs.foldlM S.update s = .ok s' ∧ S.Sums s' (m + ↑inputs) := by
  induction inputs generalizing s m with
  | nil => exact ⟨s, rfl, by simpa using h⟩
  | cons a rest ih =>
    obtain ⟨s₁, hs₁, hsum₁⟩ := S.sums_update h (hgood a List.mem_cons_self)
    obtain ⟨s₂, hs₂, hsum₂⟩ := ih hsum₁ fun b hb => hgood b (List.mem_cons_of_mem a hb)
    refine ⟨s₂, ?_, ?_⟩
    · rw [List.foldlM_cons, hs₁]
      exact hs₂
    · rwa [← Multiset.cons_coe, Multiset.add_cons, ← Multiset.cons_add]

/-- **Any distribution and any combination comes to a state for all inputs.** -/
theorem sums_eval (t : MergeTree α) (hgood : ∀ a ∈ t.inputs, S.Good a) :
    ∃ s, t.eval S.initial S.update S.combine = .ok s ∧ S.Sums s ↑t.inputs := by
  induction t with
  | worker inputs =>
    obtain ⟨s, hs, hsum⟩ := S.sums_foldlM S.sums_initial inputs hgood
    refine ⟨s, hs, ?_⟩
    rw [MergeTree.inputs]
    simpa using hsum
  | merge left right ihl ihr =>
    obtain ⟨s, hs, hsums⟩ := ihl fun a ha => hgood a (List.mem_append_left _ ha)
    obtain ⟨t, ht, hsumt⟩ := ihr fun a ha => hgood a (List.mem_append_right _ ha)
    obtain ⟨u, hu, hsumu⟩ := S.sums_combine hsums hsumt
    refine ⟨u, ?_, ?_⟩
    · rw [MergeTree.eval, hs, ht]
      exact hu
    · rwa [MergeTree.inputs, ← Multiset.coe_add]

/-- **Workers whose states are then combined in order** come to a state for all inputs. -/
theorem sums_workers (workers : List (List α)) (hgood : ∀ a ∈ workers.flatten, S.Good a) :
    ∃ states s, workers.mapM (fun inputs => inputs.foldlM S.update S.initial) = .ok states ∧
      states.foldlM S.combine S.initial = .ok s ∧ S.Sums s ↑workers.flatten := by
  suffices hfrom : ∀ (acc : σ) (m : Multiset α), S.Sums acc m →
      ∃ states s, workers.mapM (fun inputs => inputs.foldlM S.update S.initial) = .ok states ∧
        states.foldlM S.combine acc = .ok s ∧ S.Sums s (m + ↑workers.flatten) by
    simpa using hfrom S.initial 0 S.sums_initial
  induction workers with
  | nil => exact fun acc m hsum => ⟨[], acc, rfl, rfl, by simpa using hsum⟩
  | cons inputs rest ih =>
    intro acc m hsum
    rw [List.flatten_cons] at hgood ⊢
    obtain ⟨t, ht, hsumt⟩ := S.sums_foldlM S.sums_initial inputs fun a ha =>
      hgood a (List.mem_append_left _ ha)
    rw [zero_add] at hsumt
    obtain ⟨acc', hacc', hsum'⟩ := S.sums_combine hsum hsumt
    obtain ⟨states, s, hstates, hs, hsums⟩ :=
      ih (fun a ha => hgood a (List.mem_append_right _ ha)) acc' _ hsum'
    refine ⟨t :: states, s, ?_, ?_, ?_⟩
    · rw [List.mapM_cons, ht, hstates]
      rfl
    · rw [List.foldlM_cons, hacc']
      exact hs
    · rwa [← Multiset.coe_add, ← add_assoc]

/-! ## Batches -/

/-- A summary of inputs that come in batches. -/
def batched {β : Type*} (rows : β → List α) : Summary σ β ε where
  initial := S.initial
  update s b := (rows b).foldlM S.update s
  combine := S.combine
  Good b := ∀ a ∈ rows b, S.Good a
  Sums s m := S.Sums s (m.bind fun b => ↑(rows b))
  sums_initial := S.sums_initial
  sums_update := by
    intro s m b hsum hgood
    obtain ⟨s', hs', hsum'⟩ := S.sums_foldlM hsum (rows b) hgood
    refine ⟨s', hs', ?_⟩
    rwa [Multiset.cons_bind, add_comm]
  sums_combine := by
    intro s t m m' hs ht
    rw [Multiset.add_bind]
    exact S.sums_combine hs ht

end Summary

/-! ## The input of least rank -/

/-- `best` is, when present, an input of least rank. -/
structure Best {α κ : Type*} [LE κ] (rank : α → κ) (present : Bool) (best : α) (m : Multiset α) :
    Prop where
  present_iff : present = true ↔ m ≠ 0
  mem : present = true → best ∈ m
  least : ∀ a ∈ m, rank best ≤ rank a

namespace Best

variable {α κ : Type*} [LinearOrder κ] {rank : α → κ} {p : Bool} {b b' : α} {m m' : Multiset α}

/-- Nothing seen. -/
theorem none : Best rank false b 0 := ⟨by simp, by simp, by simp⟩

/-- One input seen. -/
theorem singleton : Best rank true b {b} := ⟨by simp, by simp, by simp⟩

theorem eq_zero (h : Best rank false b m) : m = 0 := by
  by_contra hne
  exact Bool.false_ne_true (h.present_iff.mpr hne)

/-- The other side has nothing better. -/
theorem keep (h : Best rank true b m) (h' : Best rank true b' m') (hle : rank b ≤ rank b') :
    Best rank true b (m + m') := by
  refine ⟨?_, ?_, ?_⟩
  · have hmem : b ∈ m + m' := Multiset.mem_add.mpr (.inl (h.mem rfl))
    refine iff_of_true rfl fun hzero => ?_
    simp [hzero] at hmem
  · exact fun hp => Multiset.mem_add.mpr (.inl (h.mem hp))
  · intro a ha
    rcases Multiset.mem_add.mp ha with ha | ha
    · exact h.least a ha
    · exact hle.trans (h'.least a ha)

/-- The other side has something as good. -/
theorem take (h : Best rank true b m) (h' : Best rank true b' m') (hle : rank b' ≤ rank b) :
    Best rank true b' (m + m') := by
  rw [add_comm]
  exact h'.keep h hle

/-- The better one of both sides. -/
theorem pick (h : Best rank true b m) (h' : Best rank true b' m') {q : Prop} [Decidable q]
    (hq : q ↔ rank b' < rank b) : Best rank true (if q then b' else b) (m + m') := by
  split_ifs with hb
  · exact h.take h' (hq.mp hb).le
  · exact h.keep h' (not_lt.mp fun hlt => hb (hq.mpr hlt))

/-- Two states for the same inputs keep inputs of the same rank. -/
theorem rank_eq (h : Best rank true b m) (h' : Best rank true b' m) : rank b = rank b' :=
  le_antisymm (h.least b' (h'.mem rfl)) (h'.least b (h.mem rfl))

end Best

end SimpleOlap.Lib
