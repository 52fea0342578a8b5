import Mathlib.Data.List.Nodup

/-!
# Indexes as logs of entries

An index over keys is described by the log of the entries it was given, each a place with a
visibility flag that is raised later.

* `entriesOf log k`: all entries of a key, as a non-unique index holds them.
* `latest log k`: the last entry of a key, as a unique index that overwrites holds it.
* `revealAll p log`: raise the flags of the entries whose place satisfies `p`.

Appending and revealing act on the two views as the corresponding index operations do
(`entriesOf_append`, `latest_snoc`, `entriesOf_revealAll`, `latest_revealAll`). When the keys of the
log are pairwise distinct the last entry is the only one (`latest_eq_some_iff`).
-/

namespace SimpleOlap.Lib

/-- A place, and whether it is visible yet. -/
structure Entry (π : Type*) where
  place : π
  visible : Bool
  deriving DecidableEq, Repr

/-- Raise the flag if the place is among those meant. -/
def Entry.reveal {π : Type*} (p : π → Bool) (e : Entry π) : Entry π :=
  if p e.place then { e with visible := true } else e

namespace KeyLog

variable {κ π : Type*} [DecidableEq κ]

/-- All entries of a key. -/
def entriesOf (log : List (κ × Entry π)) (k : κ) : List (Entry π) :=
  (log.filter fun r => r.1 = k).map Prod.snd

/-- The last entry of a key. -/
def latest (log : List (κ × Entry π)) (k : κ) : Option (Entry π) := (entriesOf log k).getLast?

/-- Raise the flags of the places meant. -/
def revealAll (p : π → Bool) (log : List (κ × Entry π)) : List (κ × Entry π) :=
  log.map fun r => (r.1, r.2.reveal p)

theorem entriesOf_append (as bs : List (κ × Entry π)) (k : κ) :
    entriesOf (as ++ bs) k = entriesOf as k ++ entriesOf bs k := by
  simp [entriesOf]

theorem entriesOf_snoc (log : List (κ × Entry π)) (k : κ) (e : Entry π) (k' : κ) :
    entriesOf (log ++ [(k, e)]) k' = if k = k' then entriesOf log k' ++ [e] else entriesOf log k' := by
  rw [entriesOf_append]
  by_cases h : k = k' <;> simp [entriesOf, h]

/-- One more entry overwrites the key's last one. -/
theorem latest_snoc (log : List (κ × Entry π)) (k : κ) (e : Entry π) (k' : κ) :
    latest (log ++ [(k, e)]) k' = if k = k' then some e else latest log k' := by
  rw [latest, entriesOf_snoc]
  by_cases h : k = k' <;> simp [h, latest]

theorem entriesOf_revealAll (p : π → Bool) (log : List (κ × Entry π)) (k : κ) :
    entriesOf (revealAll p log) k = (entriesOf log k).map (Entry.reveal p) := by
  simp [entriesOf, revealAll, List.filter_map, Function.comp_def]

theorem latest_revealAll (p : π → Bool) (log : List (κ × Entry π)) (k : κ) :
    latest (revealAll p log) k = (latest log k).map (Entry.reveal p) := by
  rw [latest, entriesOf_revealAll, List.getLast?_map, latest]

theorem mem_entriesOf {log : List (κ × Entry π)} {k : κ} {e : Entry π} :
    e ∈ entriesOf log k ↔ (k, e) ∈ log := by
  simp only [entriesOf, List.mem_map, List.mem_filter, decide_eq_true_eq]
  constructor
  · rintro ⟨r, ⟨hr, rfl⟩, rfl⟩
    exact hr
  · intro h
    exact ⟨(k, e), ⟨h, rfl⟩, rfl⟩

/-- The keys of the log are the keys the index knows. -/
theorem latest_eq_none_iff {log : List (κ × Entry π)} {k : κ} :
    latest log k = none ↔ k ∉ log.map Prod.fst := by
  rw [latest, List.getLast?_eq_none_iff, List.eq_nil_iff_forall_not_mem]
  simp only [mem_entriesOf, List.mem_map, not_exists, not_and, Prod.forall]
  constructor
  · rintro h k' e he rfl
    exact h e he
  · intro h e he
    exact h k e he rfl

omit [DecidableEq κ] in
/-- With distinct keys a key has at most one entry. -/
theorem eq_of_mem {log : List (κ × Entry π)} (h : (log.map Prod.fst).Nodup) {k : κ} {e e' : Entry π}
    (he : (k, e) ∈ log) (he' : (k, e') ∈ log) : e = e' := by
  have hinj := List.inj_on_of_nodup_map h he he' rfl
  exact congrArg Prod.snd hinj

/-- **With distinct keys the last entry is the only one.** -/
theorem latest_eq_some_iff {log : List (κ × Entry π)} (h : (log.map Prod.fst).Nodup) {k : κ}
    {e : Entry π} : latest log k = some e ↔ (k, e) ∈ log := by
  constructor
  · intro hl
    exact mem_entriesOf.mp (List.mem_of_getLast? hl)
  · intro hmem
    rcases hl : latest log k with _ | e'
    · exact absurd (List.mem_map.mpr ⟨(k, e), hmem, rfl⟩) (latest_eq_none_iff.mp hl)
    · rw [eq_of_mem h hmem (mem_entriesOf.mp (List.mem_of_getLast? hl))]

omit [DecidableEq κ] in
@[simp] theorem map_fst_revealAll (p : π → Bool) (log : List (κ × Entry π)) :
    (revealAll p log).map Prod.fst = log.map Prod.fst := by
  simp [revealAll, Function.comp_def]

end KeyLog

end SimpleOlap.Lib
