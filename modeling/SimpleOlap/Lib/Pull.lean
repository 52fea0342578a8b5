import Mathlib.Data.List.ReduceOption
import Mathlib.Order.Lattice
import SimpleOlap.Lib.Results

/-!
# Iterators that are pulled

An iterator is a function that makes one call: the state after it, and an item, or none at its end. A call
may loop, so it is given a number of steps.

* `Steady`: more steps change no result.
* `Drains next s items`: calling until the end hands out these items; `Drains.unique`.
* `andThen`: one change of items after another; `exists_mapM_andThen_iff`.
* `Filters`: an iterator that pulls another one, drops some of its items and changes the others;
  `Filters.drains_iff` is what it hands out.
* `Folds`: an iterator that first pulls another one to its end; `Folds.drains_iff`.
-/

namespace SimpleOlap.Lib

section Pull

variable {σ τ β γ α ε : Type}

/-- The results do not depend on the number of steps, once it is large enough. -/
def Steady (next : ℕ → σ → Except ε (σ × Option β)) : Prop :=
  ∀ ⦃n m : ℕ⦄ ⦃s : σ⦄ ⦃r : σ × Option β⦄, n ≤ m → next n s = .ok r → next m s = .ok r

/-- Calling until the end, and the items that are handed out. -/
inductive Drains (next : ℕ → σ → Except ε (σ × Option β)) : σ → List β → Prop
  | done {n : ℕ} {s s' : σ} (h : next n s = .ok (s', none)) : Drains next s []
  | next {n : ℕ} {s s' : σ} {b : β} {bs : List β} (h : next n s = .ok (s', some b))
      (hrest : Drains next s' bs) : Drains next s (b :: bs)

variable {next : ℕ → σ → Except ε (σ × Option β)} {next' : ℕ → τ → Except ε (τ × Option γ)}

/-- Two calls that succeed have one result. -/
theorem Steady.eq (h : Steady next) {n m : ℕ} {s : σ} {r r' : σ × Option β} (hr : next n s = .ok r)
    (hr' : next m s = .ok r') : r = r' := by
  have hmax := h (le_max_left n m) hr
  rw [h (le_max_right n m) hr'] at hmax
  exact (Except.ok.inj hmax).symm

/-- **The items are the same each time.** -/
theorem Drains.unique (hsteady : Steady next) {s : σ} {bs bs' : List β} (h : Drains next s bs)
    (h' : Drains next s bs') : bs = bs' := by
  induction h generalizing bs' with
  | done h =>
    cases h' with
    | done => rfl
    | next h' _ => cases hsteady.eq h h'
  | next h _ ih =>
    cases h' with
    | done h' => cases hsteady.eq h h'
    | next h' hrest' =>
      cases hsteady.eq h h'
      rw [ih hrest']

/-- States whose calls do the same hand out the same. -/
theorem Drains.of_eq {s s' : σ} {bs : List β} (h : Drains next s' bs) (heq : ∀ n, next n s = next n s') :
    Drains next s bs := by
  cases h with
  | done h => exact .done ((heq _).trans h)
  | next h hrest => exact .next ((heq _).trans h) hrest

/-! ## Changes of items -/

section Changes

variable {α β γ ε : Type}

/-- One change after another; what the first one drops stays away. -/
def andThen (f : α → Except ε (Option β)) (g : β → Except ε (Option γ)) (a : α) : Except ε (Option γ) := do
  match ← f a with
  | none => return none
  | some b => g b

/-- Items that are changed twice, without those that are dropped. -/
theorem exists_mapM_andThen_iff (f : α → Except ε (Option β)) (g : β → Except ε (Option γ)) {xs : List α}
    {cs : List γ} : (∃ outs, xs.mapM (andThen f g) = .ok outs ∧ cs = outs.reduceOption) ↔
      ∃ bs outs, (∃ mids, xs.mapM f = .ok mids ∧ bs = mids.reduceOption) ∧ bs.mapM g = .ok outs ∧
        cs = outs.reduceOption := by
  induction xs generalizing cs with
  | nil =>
    constructor
    · rintro ⟨outs, houts, rfl⟩
      cases houts
      exact ⟨[], [], ⟨[], rfl, rfl⟩, rfl, rfl⟩
    · rintro ⟨bs, outs, ⟨mids, hmids, rfl⟩, houts, rfl⟩
      cases hmids
      cases houts
      exact ⟨[], rfl, rfl⟩
  | cons x xs ih =>
    constructor
    · rintro ⟨outs, houts, rfl⟩
      rw [List.mapM_cons] at houts
      obtain ⟨out, hout, houts⟩ := bind_eq_ok houts
      obtain ⟨rest, hrest, houts⟩ := bind_eq_ok houts
      obtain rfl := Except.ok.inj houts
      obtain ⟨bs, outs', ⟨mids, hmids, rfl⟩, houts', heq⟩ := ih.mp ⟨rest, hrest, rfl⟩
      obtain ⟨mid, hmid, hout⟩ := bind_eq_ok hout
      have hcons : (x :: xs).mapM f = .ok (mid :: mids) := by
        rw [List.mapM_cons, hmid, hmids]
        rfl
      rcases mid with _ | b
      · cases hout
        refine ⟨_, outs', ⟨_, hcons, rfl⟩, ?_, ?_⟩
        · rwa [List.reduceOption_cons_of_none]
        · rwa [List.reduceOption_cons_of_none]
      · refine ⟨_, out :: outs', ⟨_, hcons, rfl⟩, ?_, ?_⟩
        · have hout' : g b = .ok out := hout
          rw [List.reduceOption_cons_of_some, List.mapM_cons, hout', houts']
          rfl
        · rcases out with _ | c
          · rwa [List.reduceOption_cons_of_none, List.reduceOption_cons_of_none]
          · rw [List.reduceOption_cons_of_some, List.reduceOption_cons_of_some, heq]
    · rintro ⟨bs, outs, ⟨mids, hmids, rfl⟩, houts, rfl⟩
      rw [List.mapM_cons] at hmids
      obtain ⟨mid, hmid, hmids⟩ := bind_eq_ok hmids
      obtain ⟨mids', hmids', heq⟩ := bind_eq_ok hmids
      obtain rfl := Except.ok.inj heq
      rcases mid with _ | b
      · rw [List.reduceOption_cons_of_none] at houts
        obtain ⟨rest, hrest, heq⟩ := ih.mpr ⟨_, outs, ⟨mids', hmids', rfl⟩, houts, rfl⟩
        refine ⟨none :: rest, ?_, by rwa [List.reduceOption_cons_of_none]⟩
        rw [List.mapM_cons, andThen, hmid, hrest]
        rfl
      · rw [List.reduceOption_cons_of_some, List.mapM_cons] at houts
        obtain ⟨out, hout, houts⟩ := bind_eq_ok houts
        obtain ⟨outs', houts', hcons⟩ := bind_eq_ok houts
        obtain rfl := Except.ok.inj hcons
        obtain ⟨rest, hrest, heq⟩ := ih.mpr ⟨_, outs', ⟨mids', hmids', rfl⟩, houts', rfl⟩
        refine ⟨out :: rest, ?_, ?_⟩
        · have hx : andThen f g x = .ok out := by
            rw [andThen, hmid]
            exact hout
          rw [List.mapM_cons, hx, hrest]
          rfl
        · rcases out with _ | c
          · rw [List.reduceOption_cons_of_none, List.reduceOption_cons_of_none, heq]
          · rw [List.reduceOption_cons_of_some, List.reduceOption_cons_of_some, heq]

end Changes

/-! ## Iterators over iterators -/

/-- The calls of an iterator over `next`: until `change` makes an item out of one that is pulled. -/
structure Filters (next : ℕ → σ → Except ε (σ × Option β)) (next' : ℕ → τ → Except ε (τ × Option γ))
    (wrap : σ → τ) (change : β → Except ε (Option γ)) : Prop where
  zero : ∀ s r, next' 0 (wrap s) ≠ .ok r
  succ : ∀ n s, next' (n + 1) (wrap s) = (do
    match ← next n s with
    | (s', none) => return (wrap s', none)
    | (s', some b) =>
      match ← change b with
      | none => next' n (wrap s')
      | some c => return (wrap s', some c))

namespace Filters

variable {wrap : σ → τ} {change : β → Except ε (Option γ)}

/-- A call, by what it pulls first. -/
theorem succ_eq_ok (h : Filters next next' wrap change) {n : ℕ} {s : σ} {r : τ × Option γ}
    (hr : next' (n + 1) (wrap s) = .ok r) :
    (∃ s', next n s = .ok (s', none) ∧ r = (wrap s', none)) ∨
    ∃ s' b, next n s = .ok (s', some b) ∧
      (change b = .ok none ∧ next' n (wrap s') = .ok r ∨
        ∃ c, change b = .ok (some c) ∧ r = (wrap s', some c)) := by
  rw [h.succ] at hr
  obtain ⟨⟨s', out⟩, hnext, hr⟩ := bind_eq_ok hr
  rcases out with _ | b
  · exact .inl ⟨s', hnext, (Except.ok.inj hr).symm⟩
  · obtain ⟨out, hchange, hr⟩ := bind_eq_ok hr
    rcases out with _ | c
    · exact .inr ⟨s', b, hnext, .inl ⟨hchange, hr⟩⟩
    · exact .inr ⟨s', b, hnext, .inr ⟨c, hchange, (Except.ok.inj hr).symm⟩⟩

/-- The items behind one that is dropped. -/
theorem drains_of_drop (h : Filters next next' wrap change) (hsteady : Steady next)
    (hsteady' : Steady next') {n : ℕ} {s s' : σ} {b : β} {cs : List γ} (hnext : next n s = .ok (s', some b))
    (hdrop : change b = .ok none) (hrest : Drains next' (wrap s') cs) : Drains next' (wrap s) cs := by
  have hstep : ∀ {m : ℕ} {r : τ × Option γ}, next' m (wrap s') = .ok r →
      next' (max n m + 1) (wrap s) = .ok r := by
    intro m r hr
    rw [h.succ, hsteady (le_max_left n m) hnext]
    show (do
      match ← change b with
      | none => next' (max n m) (wrap s')
      | some c => return (wrap s', some c)) = _
    rw [hdrop]
    exact hsteady' (le_max_right n m) hr
  cases hrest with
  | done hr => exact .done (hstep hr)
  | next hr hrest => exact .next (hstep hr) hrest

/-- Items that are pulled and changed are handed out, without those that are dropped. -/
theorem drains (h : Filters next next' wrap change) (hsteady : Steady next) (hsteady' : Steady next')
    {s : σ} {bs : List β} {outs : List (Option γ)} (hbs : Drains next s bs)
    (houts : bs.mapM change = .ok outs) : Drains next' (wrap s) outs.reduceOption := by
  induction hbs generalizing outs with
  | @done n s s' hr =>
    cases houts
    have hcall : next' (n + 1) (wrap s) = .ok (wrap s', none) := by
      rw [h.succ, hr]
      rfl
    exact .done hcall
  | @next n s s' b bs hr _ ih =>
    rw [List.mapM_cons] at houts
    obtain ⟨out, hout, houts⟩ := bind_eq_ok houts
    obtain ⟨rest, hrest, houts⟩ := bind_eq_ok houts
    obtain rfl := Except.ok.inj houts
    rcases out with _ | c
    · rw [List.reduceOption_cons_of_none]
      exact h.drains_of_drop hsteady hsteady' hr hout (ih hrest)
    · rw [List.reduceOption_cons_of_some]
      have hcall : next' (n + 1) (wrap s) = .ok (wrap s', some c) := by
        rw [h.succ, hr]
        show (do
          match ← change b with
          | none => next' n (wrap s')
          | some c => return (wrap s', some c)) = _
        rw [hout]
        rfl
      exact .next hcall (ih hrest)

/-- What is pulled by a call that hands out nothing. -/
theorem exists_of_call_none (h : Filters next next' wrap change) {n : ℕ} {s : σ} {t : τ}
    (hr : next' n (wrap s) = .ok (t, none)) :
    ∃ bs outs, Drains next s bs ∧ bs.mapM change = .ok outs ∧ outs.reduceOption = [] := by
  induction n generalizing s with
  | zero => exact absurd hr (h.zero s _)
  | succ n ih =>
    rcases h.succ_eq_ok hr with ⟨s', hnext, -⟩ | ⟨s', b, hnext, ⟨hdrop, hrest⟩ | ⟨c, -, heq⟩⟩
    · exact ⟨[], [], .done hnext, rfl, rfl⟩
    · obtain ⟨bs, outs, hbs, houts, hnil⟩ := ih hrest
      refine ⟨b :: bs, none :: outs, .next hnext hbs, ?_, by rwa [List.reduceOption_cons_of_none]⟩
      rw [List.mapM_cons, hdrop, houts]
      rfl
    · cases heq

/-- What is pulled by a call that hands out an item, and where it leaves the iterator below. -/
theorem exists_of_call_some (h : Filters next next' wrap change) {n : ℕ} {s : σ} {t : τ} {c : γ}
    (hr : next' n (wrap s) = .ok (t, some c)) : ∃ s', t = wrap s' ∧
      ∀ {bs : List β} {outs : List (Option γ)}, Drains next s' bs → bs.mapM change = .ok outs →
        ∃ bs' outs', Drains next s bs' ∧ bs'.mapM change = .ok outs' ∧
          outs'.reduceOption = c :: outs.reduceOption := by
  induction n generalizing s with
  | zero => exact absurd hr (h.zero s _)
  | succ n ih =>
    rcases h.succ_eq_ok hr with ⟨s', -, heq⟩ | ⟨s', b, hnext, ⟨hdrop, hrest⟩ | ⟨c', hkeep, heq⟩⟩
    · cases heq
    · obtain ⟨s'', rfl, hpull⟩ := ih hrest
      refine ⟨s'', rfl, fun hbs houts => ?_⟩
      obtain ⟨bs', outs', hbs', houts', heq⟩ := hpull hbs houts
      refine ⟨b :: bs', none :: outs', .next hnext hbs', ?_, by rwa [List.reduceOption_cons_of_none]⟩
      rw [List.mapM_cons, hdrop, houts']
      rfl
    · cases heq
      refine ⟨s', rfl, fun {bs outs} hbs houts => ⟨b :: bs, some c :: outs, .next hnext hbs, ?_, ?_⟩⟩
      · rw [List.mapM_cons, hkeep, houts]
        rfl
      · rw [List.reduceOption_cons_of_some]

/-- **What an iterator over another one hands out**: the items below, changed, without those that are
dropped; and it comes to its end where the one below does and no item makes `change` fail. -/
theorem drains_iff (h : Filters next next' wrap change) (hsteady : Steady next) (hsteady' : Steady next')
    {s : σ} {cs : List γ} : Drains next' (wrap s) cs ↔
      ∃ bs outs, Drains next s bs ∧ bs.mapM change = .ok outs ∧ cs = outs.reduceOption := by
  refine ⟨fun hcs => ?_, fun ⟨bs, outs, hbs, houts, hcs⟩ => hcs ▸ h.drains hsteady hsteady' hbs houts⟩
  generalize ht : wrap s = t at hcs
  induction hcs generalizing s with
  | done hr =>
    obtain ⟨bs, outs, hbs, houts, hnil⟩ := h.exists_of_call_none (ht ▸ hr)
    exact ⟨bs, outs, hbs, houts, hnil.symm⟩
  | next hr _ ih =>
    obtain ⟨s', rfl, hpull⟩ := h.exists_of_call_some (ht ▸ hr)
    obtain ⟨bs, outs, hbs, houts, rfl⟩ := ih rfl
    obtain ⟨bs', outs', hbs', houts', heq⟩ := hpull hbs houts
    exact ⟨bs', outs', hbs', houts', heq.symm⟩

end Filters

/-- The calls of an iterator that pulls another one to its end, and then goes on from what it has
gathered. -/
structure Folds (next : ℕ → σ → Except ε (σ × Option β)) (next' : ℕ → τ → Except ε (τ × Option γ))
    (wrap : σ → α → τ) (gather : α → β → Except ε α) (after : σ → α → τ) : Prop where
  zero : ∀ s a r, next' 0 (wrap s a) ≠ .ok r
  succ : ∀ n s a, next' (n + 1) (wrap s a) = (do
    match ← next n s with
    | (s', none) => next' n (after s' a)
    | (s', some b) => do
      let a' ← gather a b
      next' n (wrap s' a'))

namespace Folds

variable {wrap after : σ → α → τ} {gather : α → β → Except ε α}

/-- **What an iterator that gathers first hands out**: what comes after, with all items below gathered. -/
theorem drains_iff (h : Folds next next' wrap gather after) (hsteady : Steady next) (hsteady' : Steady next')
    {emits : α → List γ → Prop} (hafter : ∀ s a cs, Drains next' (after s a) cs ↔ emits a cs)
    {s : σ} {a : α} {cs : List γ} : Drains next' (wrap s a) cs ↔
      ∃ bs a', Drains next s bs ∧ bs.foldlM gather a = .ok a' ∧ emits a' cs := by
  constructor
  · intro hcs
    -- the first call pulls to the end, by recursion on its steps
    have hcall : ∀ {n : ℕ} {s : σ} {a : α} {r : τ × Option γ}, next' n (wrap s a) = .ok r →
        ∃ bs s' a' m, Drains next s bs ∧ bs.foldlM gather a = .ok a' ∧ next' m (after s' a') = .ok r := by
      intro n
      induction n with
      | zero => exact fun hr => absurd hr (h.zero _ _ _)
      | succ n ih =>
        intro s a r hr
        rw [h.succ] at hr
        obtain ⟨⟨s', out⟩, hnext, hr⟩ := bind_eq_ok hr
        rcases out with _ | b
        · exact ⟨[], s', a, n, .done hnext, rfl, hr⟩
        · obtain ⟨a', ha', hr⟩ := bind_eq_ok hr
          obtain ⟨bs, s'', a'', m, hbs, hfold, hr⟩ := ih hr
          refine ⟨b :: bs, s'', a'', m, .next hnext hbs, ?_, hr⟩
          rw [List.foldlM_cons, ha']
          exact hfold
    cases hcs with
    | done hr =>
      obtain ⟨bs, s', a', m, hbs, hfold, hr⟩ := hcall hr
      exact ⟨bs, a', hbs, hfold, (hafter s' a' []).mp (.done hr)⟩
    | next hr hrest =>
      obtain ⟨bs, s', a', m, hbs, hfold, hr⟩ := hcall hr
      exact ⟨bs, a', hbs, hfold, (hafter s' a' _).mp (.next hr hrest)⟩
  · rintro ⟨bs, a', hbs, hfold, hemits⟩
    -- the calls below, put in front of the first call of what comes after
    have hstep : ∀ {k : ℕ} {t t' : τ}, (∀ {m : ℕ} {r : τ × Option γ}, next' m t' = .ok r →
        next' (max k m + 1) t = .ok r) → Drains next' t' cs → Drains next' t cs := by
      intro k t t' hfront hcs
      cases hcs with
      | done hr => exact .done (hfront hr)
      | next hr hrest => exact .next (hfront hr) hrest
    induction hbs generalizing a with
    | @done n s s' hr =>
      cases hfold
      refine hstep (k := n) (fun {m r} hr' => ?_) ((hafter s' a' cs).mpr hemits)
      rw [h.succ, hsteady (le_max_left n m) hr]
      exact hsteady' (le_max_right n m) hr'
    | @next n s s' b bs hr _ ih =>
      rw [List.foldlM_cons] at hfold
      obtain ⟨a'', ha'', hfold⟩ := bind_eq_ok hfold
      refine hstep (k := n) (fun {m r} hr' => ?_) (ih hfold)
      rw [h.succ, hsteady (le_max_left n m) hr]
      show (gather a b >>= fun a' => next' (max n m) (wrap s' a')) = _
      rw [ha'']
      exact hsteady' (le_max_right n m) hr'

end Folds

end Pull

end SimpleOlap.Lib
