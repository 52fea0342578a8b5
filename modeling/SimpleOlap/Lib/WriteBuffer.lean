import Mathlib.Algebra.BigOperators.Group.Multiset.Basic
import Mathlib.Algebra.Order.Group.Multiset

/-!
# A store that buffers what it accepts

* `WriteBuffer`: what a reader finds, what is accepted but not yet written, and what a restart would find.
* `Move`, `Step`, `Run`: items are accepted; a flush writes some of those buffered and forgets the others; a
  restart forgets what was not saved.
* `Run.accounted`: nothing is read or buffered that was not accepted, and nothing more often.
* `Run.listed_eq`: while every flush writes and saves all it has, a reader finds the items that were accepted and
  then flushed, and so does a restart.
-/

namespace SimpleOlap.Lib

variable {α : Type*}

/-- What has become of the items that a store accepted. -/
structure WriteBuffer (α : Type*) where
  /-- what a restart finds, if it finds anything to read -/
  durable : Option (Multiset α)
  /-- what a reader finds -/
  listed : Multiset α
  /-- accepted, not yet written -/
  buffered : Multiset α

/-- What a flush makes of what a restart finds. -/
inductive Saved
  /-- all that a reader finds -/
  | current
  /-- what it was -/
  | previous
  /-- nothing that can be read -/
  | nothing
  deriving DecidableEq, Repr

/-- What can happen to a store. -/
inductive Move (α : Type*)
  | accept (items : Multiset α)
  | flush (kept : Multiset α) (saved : Saved)
  | restart

/-- The items that a move brings in. -/
def Move.accepted : Move α → Multiset α
  | .accept items => items
  | .flush _ _ => 0
  | .restart => 0

namespace WriteBuffer

/-- Saving replaces what a restart finds, or leaves it, or spoils it. -/
def save (durable : Option (Multiset α)) (listed : Multiset α) : Saved → Option (Multiset α)
  | .current => some listed
  | .previous => durable
  | .nothing => none

/-- One move. A flush keeps some of the buffered items. -/
inductive Step : WriteBuffer α → Move α → WriteBuffer α → Prop
  | accept (g : WriteBuffer α) (items : Multiset α) :
      Step g (.accept items) { g with buffered := g.buffered + items }
  | flush (g : WriteBuffer α) {kept : Multiset α} (saved : Saved) (h : kept ≤ g.buffered) :
      Step g (.flush kept saved) ⟨save g.durable (g.listed + kept) saved, g.listed + kept, 0⟩
  | restart (g : WriteBuffer α) {found : Multiset α} (h : g.durable = some found) :
      Step g .restart ⟨some found, found, 0⟩

/-- A sequence of moves. -/
inductive Run : WriteBuffer α → List (Move α) → WriteBuffer α → Prop
  | nil (g : WriteBuffer α) : Run g [] g
  | cons {g g' g'' : WriteBuffer α} {move : Move α} {moves : List (Move α)} (h : Step g move g')
      (hrest : Run g' moves g'') : Run g (move :: moves) g''

theorem Run.single {g g' : WriteBuffer α} {move : Move α} (h : Step g move g') : Run g [move] g' :=
  .cons h (.nil g')

theorem Run.append {g g' g'' : WriteBuffer α} {moves moves' : List (Move α)} (h : Run g moves g')
    (h' : Run g' moves' g'') : Run g (moves ++ moves') g'' := by
  induction h with
  | nil => exact h'
  | cons hst _ ih => exact .cons hst (ih h')

/-- A store that has accepted nothing yet. -/
structure Fresh (g : WriteBuffer α) : Prop where
  durable : ∀ found, g.durable = some found → found = 0
  listed : g.listed = 0
  buffered : g.buffered = 0

/-! ## Nothing is made up -/

/-- A restart finds no more than a reader does. -/
def Sound (g : WriteBuffer α) : Prop := ∀ found, g.durable = some found → found ≤ g.listed

theorem Step.sound {g g' : WriteBuffer α} {move : Move α} (h : Step g move g') (hg : g.Sound) : g'.Sound := by
  cases h with
  | accept items => exact hg
  | @flush kept saved hkept =>
    intro found hfound
    cases saved with
    | current => exact le_of_eq (Option.some.inj hfound).symm
    | previous => exact (hg found hfound).trans (Multiset.le_add_right _ _)
    | nothing => cases hfound
  | restart hdurable => exact fun found hfound => le_of_eq (Option.some.inj hfound).symm

theorem Step.accounted {g g' : WriteBuffer α} {move : Move α} (h : Step g move g') (hg : g.Sound) :
    g'.listed + g'.buffered ≤ g.listed + g.buffered + Move.accepted move := by
  cases h with
  | accept items => exact le_of_eq (add_assoc _ _ _).symm
  | @flush kept saved hkept =>
    rw [Move.accepted, add_zero, add_zero]
    exact Multiset.add_le_add_left hkept
  | restart hdurable =>
    rw [Move.accepted, add_zero, add_zero]
    exact (hg _ hdurable).trans (Multiset.le_add_right _ _)

/-- **Nothing is made up**: what is read or buffered was accepted, each item as often at least. -/
theorem Run.accounted {g g' : WriteBuffer α} {moves : List (Move α)} (h : Run g moves g') (hg : g.Sound) :
    g'.listed + g'.buffered ≤ g.listed + g.buffered + (moves.map Move.accepted).sum := by
  induction h with
  | nil => exact Multiset.le_add_right _ _
  | @cons g g' g'' move moves hst _ ih =>
    rw [List.map_cons, List.sum_cons, ← add_assoc]
    exact (ih (hst.sound hg)).trans (Multiset.add_le_add_right (hst.accounted hg))

/-- What a fresh store comes to read or buffer was accepted. -/
theorem Run.le_accepted {g g' : WriteBuffer α} {moves : List (Move α)} (h : Run g moves g') (hg : g.Fresh) :
    g'.listed + g'.buffered ≤ (moves.map Move.accepted).sum := by
  have hsound : g.Sound := fun found hfound => (hg.durable found hfound).trans_le (Multiset.zero_le _)
  have hle := h.accounted hsound
  rwa [hg.listed, hg.buffered, add_zero, zero_add] at hle

/-! ## Nothing is lost -/

/-- Every flush writes all that is buffered, and saves it. -/
inductive Complete : Multiset α → List (Move α) → Prop
  | nil (pending : Multiset α) : Complete pending []
  | accept {pending items : Multiset α} {moves : List (Move α)} (h : Complete (pending + items) moves) :
      Complete pending (.accept items :: moves)
  | flush {pending : Multiset α} {moves : List (Move α)} (h : Complete 0 moves) :
      Complete pending (.flush pending .current :: moves)
  | restart {pending : Multiset α} {moves : List (Move α)} (h : Complete 0 moves) :
      Complete pending (.restart :: moves)

/-- The items that are accepted and then flushed before a restart. -/
def flushedItems : Multiset α → List (Move α) → Multiset α
  | _, [] => 0
  | pending, .accept items :: moves => flushedItems (pending + items) moves
  | pending, .flush _ _ :: moves => pending + flushedItems 0 moves
  | _, .restart :: moves => flushedItems 0 moves

/-- **Nothing is lost that was flushed**, while every flush writes and saves all it has. -/
theorem Run.listed_eq {g g' : WriteBuffer α} {moves : List (Move α)} (h : Run g moves g')
    (hg : ∀ found, g.durable = some found → found = g.listed) (hcomplete : Complete g.buffered moves) :
    g'.listed = g.listed + flushedItems g.buffered moves ∧
      ∀ found, g'.durable = some found → found = g'.listed := by
  induction h with
  | nil g => exact ⟨(add_zero _).symm, hg⟩
  | @cons g g' g'' move moves hst _ ih =>
    cases hst with
    | accept items =>
      cases hcomplete with
      | accept hcomplete => exact ih hg hcomplete
    | flush saved hkept =>
      cases hcomplete with
      | flush hcomplete =>
        obtain ⟨hlisted, hdurable⟩ := ih (fun found hfound => (Option.some.inj hfound).symm) hcomplete
        exact ⟨hlisted.trans (add_assoc _ _ _), hdurable⟩
    | restart hdurable =>
      cases hcomplete with
      | restart hcomplete =>
        obtain rfl := hg _ hdurable
        exact ih (fun found hfound => (Option.some.inj hfound).symm) hcomplete

/-- A fresh store lists what was accepted and then flushed. -/
theorem Run.listed_eq_flushedItems {g g' : WriteBuffer α} {moves : List (Move α)} (h : Run g moves g')
    (hg : g.Fresh) (hcomplete : Complete 0 moves) : g'.listed = flushedItems 0 moves := by
  have hdurable : ∀ found, g.durable = some found → found = g.listed := fun found hfound =>
    (hg.durable found hfound).trans hg.listed.symm
  have hlisted := (h.listed_eq hdurable (hg.buffered.symm ▸ hcomplete)).1
  rwa [hg.listed, hg.buffered, zero_add] at hlisted

end WriteBuffer

end SimpleOlap.Lib
