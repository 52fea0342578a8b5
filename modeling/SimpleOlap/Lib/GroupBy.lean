import SimpleOlap.Lib.Summary

/-!
# Summaries by group

A hash table of states is a list of entries, one for a key, in an order that does not matter.

* `Table.modify`: the entry of a key, made where there is none, and changed.
* `Grouped`: what a table says of the inputs: one entry for each key that occurs, for the inputs of it.
* `Grouped.modify`, `Grouped.merge`: the two ways in which a table grows.
-/

namespace SimpleOlap.Lib

variable {κ σ ε : Type}

/-- `try_emplace` of a key, then a change of the entry's state. -/
def Table.modify (eqv : κ → κ → Bool) (key : κ) (initial : σ) (change : σ → Except ε σ) :
    List (κ × σ) → Except ε (List (κ × σ))
  | [] => return [(key, ← change initial)]
  | entry :: rest =>
    if eqv entry.1 key then return (entry.1, ← change entry.2) :: rest
    else return entry :: (← Table.modify eqv key initial change rest)

namespace Table

variable {eqv : κ → κ → Bool} {key : κ} {initial : σ} {change : σ → Except ε σ}

theorem modify_append {pre : List (κ × σ)} (post : List (κ × σ)) (initial : σ)
    (change : σ → Except ε σ) (hpre : ∀ e ∈ pre, eqv e.1 key = false) :
    modify eqv key initial change (pre ++ post) =
      return pre ++ (← modify eqv key initial change post) := by
  induction pre with
  | nil => simp
  | cons e rest ih =>
    rw [List.cons_append, modify, hpre e List.mem_cons_self, if_neg Bool.false_ne_true,
      ih fun e' he' => hpre e' (List.mem_cons_of_mem e he')]
    simp

/-- The key is not in the table. -/
theorem modify_of_absent {t : List (κ × σ)} (h : ∀ e ∈ t, eqv e.1 key = false) {s' : σ}
    (hs : change initial = .ok s') :
    modify eqv key initial change t = .ok (t ++ [(key, s')]) := by
  have happ := modify_append [] initial change h
  rw [List.append_nil, modify, hs] at happ
  exact happ

/-- The key is that of an entry. -/
theorem modify_of_present {pre post : List (κ × σ)} {k : κ} {s s' : σ}
    (hpre : ∀ e ∈ pre, eqv e.1 key = false) (hk : eqv k key = true) (hs : change s = .ok s') :
    modify eqv key initial change (pre ++ (k, s) :: post) = .ok (pre ++ (k, s') :: post) := by
  rw [modify_append _ _ _ hpre, modify, if_pos hk, hs]
  rfl

end Table

/-! ## What a table says -/

variable {α : Type}

/-- One entry for each key that occurs, for the inputs of that key. -/
structure Grouped [DecidableEq κ] (Sums : σ → Multiset α → Prop) (keyOf : α → κ) (t : List (κ × σ))
    (m : Multiset α) : Prop where
  nodup : (t.map Prod.fst).Nodup
  sums : ∀ e ∈ t, Sums e.2 (m.filter fun a => keyOf a = e.1)
  mem_keys : ∀ k, k ∈ t.map Prod.fst ↔ ∃ a ∈ m, keyOf a = k

namespace Grouped

variable {eqv : κ → κ → Bool} {Good : κ → Prop} {Sums : σ → Multiset α → Prop} {keyOf : α → κ}
  {t : List (κ × σ)} {m n : Multiset α} {k : κ}

theorem keys_add (hn : ∀ a ∈ n, keyOf a = k) (hne : n ≠ 0) (k' : κ) :
    (∃ a ∈ m + n, keyOf a = k') ↔ (∃ a ∈ m, keyOf a = k') ∨ k' = k := by
  obtain ⟨b, hb⟩ := Multiset.exists_mem_of_ne_zero hne
  constructor
  · rintro ⟨a, ha, hka⟩
    rcases Multiset.mem_add.mp ha with ha | ha
    · exact .inl ⟨a, ha, hka⟩
    · exact .inr (hka.symm.trans (hn a ha))
  · rintro (⟨a, ha, hka⟩ | rfl)
    · exact ⟨a, Multiset.mem_add.mpr (.inl ha), hka⟩
    · exact ⟨b, Multiset.mem_add.mpr (.inr hb), hn b hb⟩

variable [DecidableEq κ]

theorem empty : Grouped Sums keyOf ([] : List (κ × σ)) 0 := ⟨by simp, by simp, by simp⟩

/-- The order of the entries does not matter. -/
theorem perm {t' : List (κ × σ)} (h : Grouped Sums keyOf t m) (hp : t'.Perm t) :
    Grouped Sums keyOf t' m where
  nodup := (hp.map Prod.fst).nodup_iff.mpr h.nodup
  sums e he := h.sums e (hp.mem_iff.mp he)
  mem_keys k := ((hp.map Prod.fst).mem_iff).trans (h.mem_keys k)

theorem filter_eq_zero_iff : (m.filter fun a => keyOf a = k) = 0 ↔ ¬ ∃ a ∈ m, keyOf a = k := by
  simp [Multiset.filter_eq_nil]

theorem filter_add_of_key (hn : ∀ a ∈ n, keyOf a = k) (k' : κ) :
    ((m + n).filter fun a => keyOf a = k') =
      (m.filter fun a => keyOf a = k') + if k' = k then n else 0 := by
  rw [Multiset.filter_add]
  congr 1
  split_ifs with h
  · exact Multiset.filter_eq_self.mpr fun a ha => (hn a ha).trans h.symm
  · exact Multiset.filter_eq_nil.mpr fun a ha hka => h (hka.symm.trans (hn a ha))

/-- **Inputs of one key, in the entry of the key.** -/
theorem modify {initial : σ} {change : σ → Except ε σ}
    (heqv : ∀ k k', Good k → Good k' → (eqv k k' = true ↔ k = k'))
    (h : Grouped Sums keyOf t m) (hm : ∀ a ∈ m, Good (keyOf a)) (hk : Good k) (hn : ∀ a ∈ n, keyOf a = k)
    (hne : n ≠ 0) (hinitial : Sums initial 0)
    (hchange : ∀ s, Sums s (m.filter fun a => keyOf a = k) →
      ∃ s', change s = .ok s' ∧ Sums s' ((m.filter fun a => keyOf a = k) + n)) :
    ∃ t', Table.modify eqv k initial change t = .ok t' ∧ Grouped Sums keyOf t' (m + n) := by
  have heqk : ∀ e ∈ t, eqv e.1 k = true → e.1 = k := by
    intro e he
    obtain ⟨a, ha, hka⟩ := (h.mem_keys e.1).mp (List.mem_map_of_mem he)
    exact (heqv e.1 k (hka ▸ hm a ha) hk).mp
  have hself : eqv k k = true := (heqv k k hk hk).mpr rfl
  by_cases hmem : k ∈ t.map Prod.fst
  · -- the entry is there
    obtain ⟨⟨k₁, s⟩, he, rfl⟩ := List.mem_map.mp hmem
    obtain ⟨s', hs', hsum⟩ := hchange s (h.sums _ he)
    obtain ⟨pre, post, rfl⟩ := List.append_of_mem he
    have hnodup := h.nodup
    simp only [List.map_append, List.map_cons, List.nodup_append, List.nodup_cons] at hnodup
    have hother : ∀ e, e ∈ pre ∨ e ∈ post → e.1 ≠ k₁ := by
      rintro e (he | he) hek
      · exact hnodup.2.2 e.1 (List.mem_map_of_mem he) k₁ List.mem_cons_self hek
      · exact hnodup.2.1.1 (hek ▸ List.mem_map_of_mem he)
    refine ⟨pre ++ (k₁, s') :: post, Table.modify_of_present ?_ hself hs', ?_⟩
    · intro e he
      rw [Bool.eq_false_iff]
      exact fun hek => hother e (.inl he) (heqk e (List.mem_append_left _ he) hek)
    · have hkeys : (pre ++ (k₁, s') :: post).map Prod.fst = (pre ++ (k₁, s) :: post).map Prod.fst := by
        simp
      refine ⟨hkeys ▸ h.nodup, ?_, ?_⟩
      · intro e he
        rw [filter_add_of_key hn]
        rcases List.mem_append.mp he with he | he
        · rw [if_neg (hother e (.inl he)), add_zero]
          exact h.sums e (List.mem_append_left _ he)
        · rcases List.mem_cons.mp he with rfl | he
          · rwa [if_pos rfl]
          · rw [if_neg (hother e (.inr he)), add_zero]
            exact h.sums e (List.mem_append_right _ (List.mem_cons_of_mem _ he))
      · intro k'
        rw [hkeys, h.mem_keys, keys_add hn hne]
        constructor
        · exact .inl
        · rintro (hk' | rfl)
          · exact hk'
          · exact (h.mem_keys _).mp hmem
  · -- a new entry
    have hzero : (m.filter fun a => keyOf a = k) = 0 :=
      filter_eq_zero_iff.mpr fun hex => hmem ((h.mem_keys k).mpr hex)
    obtain ⟨s', hs', hsum⟩ := hchange initial (by rwa [hzero])
    rw [hzero, zero_add] at hsum
    have hother : ∀ e ∈ t, e.1 ≠ k := fun e he hek => hmem (hek ▸ List.mem_map_of_mem he)
    refine ⟨t ++ [(k, s')], Table.modify_of_absent ?_ hs', ⟨?_, ?_, ?_⟩⟩
    · intro e he
      rw [Bool.eq_false_iff]
      exact fun hek => hother e he (heqk e he hek)
    · rw [List.map_append, List.nodup_append]
      refine ⟨h.nodup, by simp, ?_⟩
      intro a ha b hb hab
      rw [hab, List.mem_singleton.mp hb] at ha
      exact hmem ha
    · intro e he
      rw [filter_add_of_key hn]
      rcases List.mem_append.mp he with he | he
      · rw [if_neg (hother e he), add_zero]
        exact h.sums e he
      · rw [List.mem_singleton.mp he, if_pos rfl, hzero, zero_add]
        exact hsum
    · intro k'
      rw [keys_add hn hne, List.map_append, List.mem_append, h.mem_keys]
      simp

/-- The entries but the first are for the inputs of the other keys. -/
theorem tail {e : κ × σ} (h : Grouped Sums keyOf (e :: t) m) :
    Grouped Sums keyOf t (m.filter fun a => keyOf a ≠ e.1) := by
  have hnodup := h.nodup
  rw [List.map_cons, List.nodup_cons] at hnodup
  refine ⟨hnodup.2, ?_, ?_⟩
  · intro e' he'
    have hne : e'.1 ≠ e.1 := fun heq => hnodup.1 (heq ▸ List.mem_map_of_mem he')
    rw [Multiset.filter_filter]
    have hfilter : (m.filter fun a => keyOf a = e'.1 ∧ keyOf a ≠ e.1) =
        m.filter fun a => keyOf a = e'.1 :=
      Multiset.filter_congr fun a _ => and_iff_left_of_imp fun hka => hka ▸ hne
    rw [hfilter]
    exact h.sums e' (List.mem_cons_of_mem e he')
  · intro k
    have hkeys := h.mem_keys k
    rw [List.map_cons, List.mem_cons] at hkeys
    constructor
    · intro hk
      obtain ⟨a, ha, hka⟩ := hkeys.mp (.inr hk)
      have hne : keyOf a ≠ e.1 := fun heq => hnodup.1 (heq ▸ hka ▸ hk)
      exact ⟨a, Multiset.mem_filter.mpr ⟨ha, hne⟩, hka⟩
    · rintro ⟨a, ha, rfl⟩
      have ⟨ham, hne⟩ := Multiset.mem_filter.mp ha
      exact (hkeys.mpr ⟨a, ham, rfl⟩).resolve_left hne

/-- **The entries of one table, into another.** -/
theorem merge {initial : σ} {combine : σ → σ → Except ε σ} {t' : List (κ × σ)} {m' : Multiset α}
    (heqv : ∀ k k', Good k → Good k' → (eqv k k' = true ↔ k = k'))
    (hinitial : Sums initial 0)
    (hcombine : ∀ {s s' x y}, Sums s x → Sums s' y →
      ∃ u, combine s s' = .ok u ∧ Sums u (x + y))
    (h : Grouped Sums keyOf t m) (h' : Grouped Sums keyOf t' m')
    (hm : ∀ a ∈ m, Good (keyOf a)) (hm' : ∀ a ∈ m', Good (keyOf a)) :
    ∃ u, t'.foldlM (fun acc e => Table.modify eqv e.1 initial (fun s => combine s e.2) acc) t =
      .ok u ∧ Grouped Sums keyOf u (m + m') := by
  induction t' generalizing t m m' with
  | nil =>
    have hzero : m' = 0 := by
      by_contra hne
      obtain ⟨a, ha⟩ := Multiset.exists_mem_of_ne_zero hne
      simpa using (h'.mem_keys (keyOf a)).mpr ⟨a, ha, rfl⟩
    exact ⟨t, rfl, by rwa [hzero, add_zero]⟩
  | cons e rest ih =>
    obtain ⟨b, hb, hkb⟩ := (h'.mem_keys e.1).mp (by simp)
    have hne : (m'.filter fun a => keyOf a = e.1) ≠ 0 := fun hzero =>
      filter_eq_zero_iff.mp hzero ⟨b, hb, hkb⟩
    obtain ⟨t₁, ht₁, hg₁⟩ := modify heqv h hm (hkb ▸ hm' b hb)
      (fun a ha => (Multiset.mem_filter.mp ha).2) hne hinitial
      fun s hs => hcombine hs (h'.sums e List.mem_cons_self)
    have hm₁ : ∀ a ∈ m + m'.filter fun a => keyOf a = e.1, Good (keyOf a) := by
      intro a ha
      rcases Multiset.mem_add.mp ha with ha | ha
      · exact hm a ha
      · exact hm' a (Multiset.mem_filter.mp ha).1
    obtain ⟨u, hu, hgu⟩ := ih hg₁ h'.tail hm₁ fun a ha => hm' a (Multiset.mem_filter.mp ha).1
    refine ⟨u, ?_, ?_⟩
    · rw [List.foldlM_cons, ht₁]
      exact hu
    · rwa [add_assoc, Multiset.filter_add_not] at hgu

end Grouped

end SimpleOlap.Lib
