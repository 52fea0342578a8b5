import SimpleOlap.Lib.FpInt

/-!
# Exact sums and quotients of floating-point values

* `Fp.add`, `Fp.sub`: the IEEE sum and difference before rounding; on exact integer numbers of units the
  sum is the integer one (`Fp.add_ofUnits`).
* `Fp.Denotes a x`: the value is the whole number `x` of units; what sums and differences denote.
* `Format.quotient`: the quotient by a count, rounded once to the format.
* `Fp.refine`, `Fp.coarsen`, `Format.refine`: values and formats in a finer unit; `Format.mem_coarsen`: what is rounded
  there is a value of the format.
-/

namespace SimpleOlap.Lib

namespace Fp

/-- The sum, before rounding. Opposite infinities have none; a sum that is zero is negative only when
both terms are. -/
def add : Fp → Fp → Fp
  | nan, _ | _, nan => nan
  | inf s, inf t => if s = t then inf s else nan
  | inf s, num _ _ => inf s
  | num _ _, inf t => inf t
  | num s m, num t n =>
    let z := signed s m + signed t n
    if z = 0 then num (s && t) 0 else ofUnits z

/-- The value with the other sign. -/
def neg : Fp → Fp
  | nan => nan
  | inf s => inf !s
  | num s m => num (!s) m

/-- The difference, before rounding. -/
def sub (a b : Fp) : Fp := a.add b.neg

theorem add_ofUnits (x y : ℤ) : (ofUnits x).add (ofUnits y) = ofUnits (x + y) := by
  simp only [ofUnits, add, signed_natAbs]
  split_ifs with h
  · have hsign : ¬ (x < 0 ∧ y < 0) := by omega
    simp only [h, Int.natAbs_zero, lt_irrefl, decide_false, num.injEq, and_true]
    simpa using hsign
  · rfl

/-! ## Whole numbers of units -/

/-- The value is `x` units, a zero with either sign. -/
def Denotes (a : Fp) (x : ℤ) : Prop := ∃ s m, a = num s m ∧ signed s m = x

theorem denotes_ofUnits (x : ℤ) : (ofUnits x).Denotes x := ⟨_, _, rfl, signed_natAbs x⟩

theorem signed_not (s : Bool) (m : ℕ) : signed (!s) m = -signed s m := by
  cases s <;> simp [signed]

section

variable {a b : Fp} {x y : ℤ}

theorem Denotes.add (ha : a.Denotes x) (hb : b.Denotes y) : (a.add b).Denotes (x + y) := by
  obtain ⟨s, m, rfl, rfl⟩ := ha
  obtain ⟨t, n, rfl, rfl⟩ := hb
  simp only [Fp.add]
  split_ifs with h
  · refine ⟨_, _, rfl, ?_⟩
    rw [h]
    cases s <;> cases t <;> rfl
  · exact denotes_ofUnits _

theorem Denotes.neg (ha : a.Denotes x) : a.neg.Denotes (-x) := by
  obtain ⟨s, m, rfl, rfl⟩ := ha
  exact ⟨_, _, rfl, signed_not s m⟩

theorem Denotes.sub (ha : a.Denotes x) (hb : b.Denotes y) : (a.sub b).Denotes (x - y) :=
  ha.add hb.neg

theorem Denotes.trunc (ha : a.Denotes x) (u : ℕ) : a.trunc u = x.tdiv u := by
  obtain ⟨s, m, rfl, rfl⟩ := ha
  rfl

/-- Which numbers a format has does not depend on the sign. -/
theorem Denotes.mem {F : Format} (ha : a.Denotes x) (h : F.Mem (ofUnits x)) : F.Mem a := by
  obtain ⟨s, m, rfl, rfl⟩ := ha
  have hm : (signed s m).natAbs = m := by cases s <;> simp [signed]
  have h' : F.Rep (signed s m).natAbs ∧ (signed s m).natAbs < F.overflow := h
  rw [hm] at h'
  exact h'

/-- A value at the place of a whole number denotes it. -/
theorem denotes_of_key_eq (ha : a ≠ nan) (h : a.key = (ofUnits x).key) : a.Denotes x := by
  rw [key_ofUnits] at h
  rcases a with _ | neg | ⟨s, m⟩
  · exact absurd rfl ha
  · cases neg with
    | true => exact absurd h.symm WithBot.coe_ne_bot
    | false => exact absurd (WithBot.coe_inj.mp h) WithTop.top_ne_coe
  · exact ⟨s, m, rfl, WithTop.coe_inj.mp (WithBot.coe_inj.mp h)⟩

end

end Fp

namespace Format

/-- The magnitude of the quotient, rounded once to the format. -/
def quotientMag (F : Format) (n d : ℕ) : ℕ :=
  rneDiv n (d * 2 ^ F.quantum (n / d)) * 2 ^ F.quantum (n / d)

/-- The quotient by a count, rounded once to the format. -/
def quotient (F : Format) (a : Fp) (d : ℕ) : Fp :=
  match a with
  | .nan => .nan
  | .inf neg => .inf neg
  | .num neg n => F.convert (.num neg (F.quotientMag n d))

end Format

/-! ## Finer units -/

namespace Fp

/-- The same value, with `2 ^ k` of the new units to the old one. -/
def refine (k : ℕ) : Fp → Fp
  | num s n => num s (n * 2 ^ k)
  | a => a

/-- Back from the finer unit. -/
def coarsen (k : ℕ) : Fp → Fp
  | num s n => num s (n / 2 ^ k)
  | a => a

end Fp

namespace Format

/-- The format in the finer unit. -/
def refine (F : Format) (k : ℕ) : Format := ⟨F.prec, F.emin + k, F.width, F.prec_ge, F.width_ge⟩

/-- The last kept bit is the same one, counted in the finer unit. -/
theorem quantum_refine (F : Format) {k m : ℕ} (hm : m ≠ 0) : (F.refine k).quantum (m * 2 ^ k) = F.quantum m + k := by
  have hlog : Nat.log2 (m * 2 ^ k) = Nat.log2 m + k := by
    refine Nat.le_antisymm (Nat.lt_succ_iff.mp ((Nat.log2_lt (by positivity)).mpr ?_))
      ((Nat.le_log2 (by positivity)).mpr ?_)
    · rw [show (Nat.log2 m + k).succ = Nat.log2 m + 1 + k by omega, pow_add]
      exact Nat.mul_lt_mul_of_pos_right Nat.lt_log2_self (Nat.two_pow_pos k)
    · rw [pow_add]
      exact Nat.mul_le_mul_right _ (Nat.log2_self_le hm)
  simp only [quantum, refine, hlog]
  omega

/-- **What the format has in the finer unit, it has.** -/
theorem mem_coarsen (F : Format) {k : ℕ} {a : Fp} (h : (F.refine k).Mem a) : F.Mem (a.coarsen k) := by
  rcases a with _ | neg | ⟨s, n⟩
  · trivial
  · trivial
  obtain ⟨hrep, hlt⟩ : (F.refine k).Rep n ∧ n < (F.refine k).overflow := h
  have hdvd : 2 ^ k ∣ n :=
    dvd_trans (pow_dvd_pow 2 ((Nat.le_add_left k F.emin).trans ((F.refine k).emin_le_quantum n))) hrep
  obtain ⟨m, hm⟩ := hdvd
  rw [mul_comm] at hm
  subst hm
  show F.Rep (m * 2 ^ k / 2 ^ k) ∧ m * 2 ^ k / 2 ^ k < F.overflow
  rw [Nat.mul_div_cancel _ (Nat.two_pow_pos k)]
  constructor
  · rcases Nat.eq_zero_or_pos m with rfl | hpos
    · exact dvd_zero _
    · have hrep' : 2 ^ (F.refine k).quantum (m * 2 ^ k) ∣ m * 2 ^ k := hrep
      rw [F.quantum_refine hpos.ne', pow_add] at hrep'
      exact Nat.dvd_of_mul_dvd_mul_right (Nat.two_pow_pos k) hrep'
  · have hfour : 2 ^ 2 ≤ 2 ^ F.width := Nat.pow_le_pow_right Nat.two_pos F.width_ge
    have hover : (F.refine k).overflow = F.overflow * 2 ^ k := by
      rw [overflow, overflow, ← pow_add]
      congr 1
      show F.emin + k + F.prec + 2 ^ F.width - 3 = F.emin + F.prec + 2 ^ F.width - 3 + k
      omega
    rw [hover] at hlt
    exact Nat.lt_of_mul_lt_mul_right hlt

end Format

end SimpleOlap.Lib
