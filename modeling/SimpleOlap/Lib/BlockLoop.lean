import Mathlib.Data.List.Range

/-!
# Loops in blocks

A loop over `count` elements takes `lanes` of them at a time while a whole block is left, and one at a
time after that. Where a block gives what its elements give, this is the plain loop
(`blockLoop_eq_map`). `stepLoop` is one such loop over a state, with its rule (`stepLoop_invariant`).
-/

namespace SimpleOlap.Lib

variable {α : Type*}

/-- `for (; i + lanes <= count; i += lanes)` a block, then `for (; i < count; ++i)` an element. -/
def blockLoop (lanes : ℕ) (block : ℕ → List α) (tail : ℕ → α) (count i : ℕ) : List α :=
  if _h : 0 < lanes ∧ i + lanes ≤ count then
    block i ++ blockLoop lanes block tail count (i + lanes)
  else (List.range' i (count - i)).map tail
termination_by count - i
decreasing_by omega

theorem blockLoop_eq_map_range' {lanes : ℕ} {block : ℕ → List α} {tail : ℕ → α}
    (hblock : ∀ i, block i = (List.range' i lanes).map tail) (count i : ℕ) :
    blockLoop lanes block tail count i = (List.range' i (count - i)).map tail := by
  induction i using blockLoop.induct lanes count with
  | case1 i h ih =>
    have hsplit : lanes + (count - (i + lanes)) = count - i := by omega
    rw [blockLoop, dif_pos h, ih, hblock, ← List.map_append, List.range'_append_1, hsplit]
  | case2 i h => rw [blockLoop, dif_neg h]

/-- **Blocks and tail together go through all elements.** -/
theorem blockLoop_eq_map {lanes : ℕ} {block : ℕ → List α} {tail : ℕ → α}
    (hblock : ∀ i, block i = (List.range' i lanes).map tail) (count : ℕ) :
    blockLoop lanes block tail count 0 = (List.range count).map tail := by
  rw [blockLoop_eq_map_range' hblock, Nat.sub_zero, List.range_eq_range']

/-! ## Loops over a state -/

variable {σ : Type*}

/-- `for (; i + step <= count; i += step)`: the index where the loop ends, and the state. -/
def stepLoop (step count : ℕ) (body : ℕ → σ → σ) (i : ℕ) (s : σ) : ℕ × σ :=
  if _h : 0 < step ∧ i + step ≤ count then stepLoop step count body (i + step) (body i s) else (i, s)
termination_by count - i
decreasing_by omega

/-- **What a step keeps holds at the end**, where less than a step is left. -/
theorem stepLoop_invariant {step count : ℕ} {body : ℕ → σ → σ} (Inv : ℕ → σ → Prop) (hstep : 0 < step)
    (hbody : ∀ i s, i + step ≤ count → Inv i s → Inv (i + step) (body i s)) {i : ℕ} {s : σ} (hi : i ≤ count)
    (h : Inv i s) :
    let final := stepLoop step count body i s
    Inv final.1 final.2 ∧ final.1 ≤ count ∧ count < final.1 + step := by
  induction i, s using stepLoop.induct step count body with
  | case1 i s hmore ih =>
    rw [stepLoop, dif_pos hmore]
    exact ih hmore.2 (hbody i s hmore.2 h)
  | case2 i s hdone =>
    rw [stepLoop, dif_neg hdone]
    exact ⟨h, hi, by omega⟩

end SimpleOlap.Lib
