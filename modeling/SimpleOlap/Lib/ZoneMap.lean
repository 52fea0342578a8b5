import Mathlib.Order.Basic
import Mathlib.Order.Lattice
import Mathlib.Order.MinMax

/-!
# Zone maps: deciding a comparison from a minimum and a maximum

The values of a block lie between a least one `lo` and a greatest one `hi`, both attained. From these
two numbers a comparison `v op l` can sometimes be decided for the whole block.

* `CmpOp` and `CmpOp.holds`: the six comparisons over a linear order.
* `verdict op lo hi l`: skip the block, every value matches, or look at the values.
* `verdict_eq_skip_iff` and `verdict_eq_allMatch_iff` say exactly when the first two are given, in
  terms of the values (`Outside`, `Inside`) and not of the bounds.
* `Outside.not_holds` and `Inside.holds`: both verdicts are right about every value of the block.
* `holds_iff_holds_iff`: what becomes of a comparison when both sides are mapped to another order; it
  changes just where the map brings together what the operator tells apart (`CmpOp.Separates`).
-/

namespace SimpleOlap.Lib

/-- The six comparison operators. -/
inductive CmpOp
  | eq | ne | gt | ge | lt | le
  deriving DecidableEq, Repr

variable {β : Type*} [LinearOrder β]

/-- The comparison `x op y`. -/
def CmpOp.holds (op : CmpOp) (x y : β) : Prop :=
  match op with
  | .eq => x = y
  | .ne => x ≠ y
  | .gt => y < x
  | .ge => y ≤ x
  | .lt => x < y
  | .le => x ≤ y

/-- Whether a comparison holds can be decided. -/
instance (op : CmpOp) (x y : β) : Decidable (op.holds x y) := by
  cases op <;> unfold CmpOp.holds <;> infer_instance

/-- What the bounds of a block say about a comparison. -/
inductive Verdict
  | skip | allMatch | needFilter
  deriving DecidableEq, Repr

/-- The verdict on `v op l` for a block with least value `lo` and greatest value `hi`. -/
def verdict (op : CmpOp) (lo hi l : β) : Verdict :=
  match op with
  | .eq => if l < lo ∨ hi < l then .skip else if lo = l ∧ hi = l then .allMatch else .needFilter
  | .ne => if lo = l ∧ hi = l then .skip else if l < lo ∨ hi < l then .allMatch else .needFilter
  | .gt => if hi ≤ l then .skip else if l < lo then .allMatch else .needFilter
  | .ge => if hi < l then .skip else if l ≤ lo then .allMatch else .needFilter
  | .lt => if l ≤ lo then .skip else if hi < l then .allMatch else .needFilter
  | .le => if l < lo then .skip else if hi ≤ l then .allMatch else .needFilter

/-- The values lie where none of them can satisfy `v op l`. -/
def Outside (op : CmpOp) (l : β) (vs : List β) : Prop :=
  match op with
  | .eq => (∀ v ∈ vs, l < v) ∨ ∀ v ∈ vs, v < l
  | .ne => ∀ v ∈ vs, v = l
  | .gt => ∀ v ∈ vs, v ≤ l
  | .ge => ∀ v ∈ vs, v < l
  | .lt => ∀ v ∈ vs, l ≤ v
  | .le => ∀ v ∈ vs, l < v

/-- The values lie where each of them satisfies `v op l`. -/
def Inside (op : CmpOp) (l : β) (vs : List β) : Prop :=
  match op with
  | .eq => ∀ v ∈ vs, v = l
  | .ne => (∀ v ∈ vs, l < v) ∨ ∀ v ∈ vs, v < l
  | .gt => ∀ v ∈ vs, l < v
  | .ge => ∀ v ∈ vs, l ≤ v
  | .lt => ∀ v ∈ vs, v < l
  | .le => ∀ v ∈ vs, v ≤ l

/-- Whether a bound is outside can be decided. -/
instance (op : CmpOp) (l : β) (vs : List β) : Decidable (Outside op l vs) := by
  cases op <;> unfold Outside <;> infer_instance

/-- Whether a bound is inside can be decided. -/
instance (op : CmpOp) (l : β) (vs : List β) : Decidable (Inside op l vs) := by
  cases op <;> unfold Inside <;> infer_instance

/-- Outside, no value passes. -/
theorem Outside.not_holds {op : CmpOp} {l v : β} {vs : List β} (h : Outside op l vs)
    (hv : v ∈ vs) : ¬ op.holds v l := by
  cases op with
  | eq =>
    rcases h with h | h
    · exact (h v hv).ne'
    · exact (h v hv).ne
  | ne => exact not_not.mpr (h v hv)
  | gt => exact not_lt.mpr (h v hv)
  | ge => exact not_le.mpr (h v hv)
  | lt => exact not_lt.mpr (h v hv)
  | le => exact not_le.mpr (h v hv)

/-- Inside, every value passes. -/
theorem Inside.holds {op : CmpOp} {l v : β} {vs : List β} (h : Inside op l vs) (hv : v ∈ vs) :
    op.holds v l := by
  cases op with
  | eq => exact h v hv
  | ne =>
    rcases h with h | h
    · exact (h v hv).ne'
    · exact (h v hv).ne
  | gt => exact h v hv
  | ge => exact h v hv
  | lt => exact h v hv
  | le => exact h v hv

/-- `lo` and `hi` are the least and the greatest value of the block. -/
structure Bounds (lo hi : β) (vs : List β) : Prop where
  lo_mem : lo ∈ vs
  hi_mem : hi ∈ vs
  lo_le : ∀ v ∈ vs, lo ≤ v
  le_hi : ∀ v ∈ vs, v ≤ hi

namespace Bounds

variable {lo hi l : β} {vs : List β}

/-- A block of one value. -/
theorem single (v : β) : Bounds v v [v] :=
  ⟨List.mem_singleton_self v, List.mem_singleton_self v, by simp, by simp⟩

/-- One more value behind a block. -/
theorem snoc (h : Bounds lo hi vs) (v : β) : Bounds (min lo v) (max hi v) (vs ++ [v]) where
  lo_mem := by
    rcases min_choice lo v with hm | hm
    · rw [hm]
      exact List.mem_append_left _ h.lo_mem
    · simp [hm]
  hi_mem := by
    rcases max_choice hi v with hm | hm
    · rw [hm]
      exact List.mem_append_left _ h.hi_mem
    · simp [hm]
  lo_le := by
    intro w hw
    rcases List.mem_append.mp hw with hw | hw
    · exact le_trans (min_le_left _ _) (h.lo_le w hw)
    · rw [List.mem_singleton.mp hw]
      exact min_le_right _ _
  le_hi := by
    intro w hw
    rcases List.mem_append.mp hw with hw | hw
    · exact le_trans (h.le_hi w hw) (le_max_left _ _)
    · rw [List.mem_singleton.mp hw]
      exact le_max_right _ _

/-- Below the least. -/
theorem lt_lo_iff (h : Bounds lo hi vs) : l < lo ↔ ∀ v ∈ vs, l < v :=
  ⟨fun hl v hv => lt_of_lt_of_le hl (h.lo_le v hv), fun hall => hall lo h.lo_mem⟩

/-- At most the least. -/
theorem le_lo_iff (h : Bounds lo hi vs) : l ≤ lo ↔ ∀ v ∈ vs, l ≤ v :=
  ⟨fun hl v hv => le_trans hl (h.lo_le v hv), fun hall => hall lo h.lo_mem⟩

/-- Above the greatest. -/
theorem hi_lt_iff (h : Bounds lo hi vs) : hi < l ↔ ∀ v ∈ vs, v < l :=
  ⟨fun hl v hv => lt_of_le_of_lt (h.le_hi v hv) hl, fun hall => hall hi h.hi_mem⟩

/-- At least the greatest. -/
theorem hi_le_iff (h : Bounds lo hi vs) : hi ≤ l ↔ ∀ v ∈ vs, v ≤ l :=
  ⟨fun hl v hv => le_trans (h.le_hi v hv) hl, fun hall => hall hi h.hi_mem⟩

/-- Both bounds. -/
theorem lo_eq_and_hi_eq_iff (h : Bounds lo hi vs) : lo = l ∧ hi = l ↔ ∀ v ∈ vs, v = l := by
  constructor
  · rintro ⟨rfl, hhi⟩ v hv
    exact le_antisymm (hhi ▸ h.le_hi v hv) (h.lo_le v hv)
  · intro hall
    exact ⟨hall lo h.lo_mem, hall hi h.hi_mem⟩

/-- A block cannot lie both where nothing and where everything matches. -/
theorem not_outside_of_inside {op : CmpOp} (h : Bounds lo hi vs) (hin : Inside op l vs) :
    ¬ Outside op l vs := fun hout => hout.not_holds h.lo_mem (hin.holds h.lo_mem)

end Bounds

/-- **When a block is skipped.** -/
theorem verdict_eq_skip_iff {op : CmpOp} {lo hi l : β} {vs : List β} (h : Bounds lo hi vs) :
    verdict op lo hi l = .skip ↔ Outside op l vs := by
  cases op <;>
    simp only [verdict, Outside, ← h.lt_lo_iff, ← h.le_lo_iff, ← h.hi_lt_iff, ← h.hi_le_iff,
      ← h.lo_eq_and_hi_eq_iff] <;>
    split_ifs with h₁ h₂ <;> simp [h₁]

/-- **When a block is said to match whole.** -/
theorem verdict_eq_allMatch_iff {op : CmpOp} {lo hi l : β} {vs : List β} (h : Bounds lo hi vs) :
    verdict op lo hi l = .allMatch ↔ Inside op l vs := by
  have hne : Inside op l vs → ¬ Outside op l vs := h.not_outside_of_inside
  cases op <;>
    simp only [verdict, Outside, Inside, ← h.lt_lo_iff, ← h.le_lo_iff, ← h.hi_lt_iff,
      ← h.hi_le_iff, ← h.lo_eq_and_hi_eq_iff] at hne ⊢ <;>
    split_ifs with h₁ h₂ <;> first | simp [h₂] | simpa using fun hin => hne hin h₁

/-! ## Comparisons of different precision -/

/-- The operator answers otherwise for `x` and `y` than for equals. -/
def CmpOp.Separates (op : CmpOp) (x y : β) : Prop :=
  match op with
  | .eq | .ne => x ≠ y
  | .gt | .le => y < x
  | .ge | .lt => x < y

/-- Whether a comparison separates can be decided. -/
instance (op : CmpOp) (x y : β) : Decidable (op.Separates x y) := by
  cases op <;> unfold CmpOp.Separates <;> infer_instance

/-- Equals are not told apart. -/
theorem CmpOp.not_separates_self (op : CmpOp) (x : β) : ¬ op.Separates x x := by
  cases op <;> simp [CmpOp.Separates]

/-- **A comparison in another order.** When the order is never reversed, only values that come together
can change it. -/
theorem holds_iff_holds_iff {γ : Type*} [LinearOrder γ] (op : CmpOp) {x y : β} {x' y' : γ}
    (hle : x ≤ y → x' ≤ y') (hge : y ≤ x → y' ≤ x') :
    (op.holds x' y' ↔ op.holds x y) ↔ ¬ (x' = y' ∧ op.Separates x y) := by
  rcases lt_trichotomy x y with hxy | rfl | hxy
  · rcases (hle hxy.le).lt_or_eq with hlt | heq
    · cases op <;> simp [CmpOp.holds, CmpOp.Separates, hxy, hxy.le, hxy.ne, hxy.not_gt, hxy.not_ge,
        hlt, hlt.le, hlt.ne, hlt.not_gt, hlt.not_ge]
    · cases op <;> simp [CmpOp.holds, CmpOp.Separates, hxy, hxy.le, hxy.ne, hxy.not_gt, hxy.not_ge,
        heq]
  · have heq := le_antisymm (hle le_rfl) (hge le_rfl)
    cases op <;> simp [CmpOp.holds, CmpOp.Separates, heq]
  · rcases (hge hxy.le).lt_or_eq with hlt | heq
    · cases op <;> simp [CmpOp.holds, CmpOp.Separates, hxy, hxy.le, hxy.ne', hxy.not_gt, hxy.not_ge,
        hlt, hlt.le, hlt.ne', hlt.not_gt, hlt.not_ge]
    · cases op <;> simp [CmpOp.holds, CmpOp.Separates, hxy, hxy.le, hxy.ne', hxy.not_gt, hxy.not_ge,
        heq]

end SimpleOlap.Lib
