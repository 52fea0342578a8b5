import Mathlib.Algebra.Order.Ring.Nat
import Mathlib.Tactic.Ring
import Mathlib.Tactic.Linarith

/-!
# Round to nearest, ties to even, on magnitudes

A magnitude is a natural number of one fixed unit (small enough that every value of every format in
play is a whole number of units). A `Format` keeps `prec` significant bits and never resolves below
`2 ^ emin` units.

* `rneDiv n d` is `n / d` rounded to the nearest natural number, ties to the even one.
* `Format.quantum F n` is the exponent of the last kept bit of `n`, and `Format.roundMag F n` rounds
  `n` to a multiple of it.
* `Format.roundMag_mono`: rounding is monotone; `Format.roundMag_of_rep`: it fixes what the format
  represents; `Format.rep_roundMag`: its result is represented.
-/

namespace SimpleOlap.Lib

/-! ## Division to nearest -/

/-- `n / d` to the nearest natural number, a tie going to the even one. -/
def rneDiv (n d : ℕ) : ℕ :=
  if 2 * (n % d) < d then n / d
  else if d < 2 * (n % d) then n / d + 1
  else n / d + n / d % 2

theorem rneDiv_mul {d : ℕ} (hd : 0 < d) (k : ℕ) : rneDiv (k * d) d = k := by
  simp [rneDiv, Nat.mul_div_cancel k hd, hd]

theorem div_le_rneDiv (n d : ℕ) : n / d ≤ rneDiv n d := by
  unfold rneDiv
  split_ifs <;> omega

theorem rneDiv_le_div_succ (n d : ℕ) : rneDiv n d ≤ n / d + 1 := by
  unfold rneDiv
  split_ifs <;> omega

/-- A multiple of `d` at or below `n` stays at or below the rounded quotient. -/
theorem le_rneDiv {n d k : ℕ} (hd : 0 < d) (h : k * d ≤ n) : k ≤ rneDiv n d :=
  le_trans ((Nat.le_div_iff_mul_le hd).mpr h) (div_le_rneDiv n d)

/-- A multiple of `d` at or above `n` stays at or above the rounded quotient. -/
theorem rneDiv_le {n d k : ℕ} (hd : 0 < d) (h : n ≤ k * d) : rneDiv n d ≤ k := by
  rcases Nat.lt_or_ge (n / d) k with hlt | hge
  · exact le_trans (rneDiv_le_div_succ n d) hlt
  · have hkd : k * d ≤ n := (Nat.le_div_iff_mul_le hd).mp hge
    have hn : n = k * d := le_antisymm h hkd
    rw [hn, rneDiv_mul hd]

theorem rneDiv_mono {n m : ℕ} (d : ℕ) (h : n ≤ m) : rneDiv n d ≤ rneDiv m d := by
  have hq : n / d ≤ m / d := Nat.div_le_div_right h
  rcases Nat.lt_or_ge (n / d) (m / d) with hlt | hge
  · exact le_trans (rneDiv_le_div_succ n d) (le_trans hlt (div_le_rneDiv m d))
  · -- same quotient: the remainders are ordered, and so are the roundings
    have heq : n / d = m / d := le_antisymm hq hge
    have hn := Nat.div_add_mod n d
    have hm := Nat.div_add_mod m d
    rw [heq] at hn
    have hr : n % d ≤ m % d := by omega
    unfold rneDiv
    rw [heq]
    split_ifs <;> omega

/-! ## Formats -/

/-- A binary format: `prec` significant bits, least resolution `2 ^ emin` units, and an exponent
field of `width` bits. -/
structure Format where
  prec : ℕ
  emin : ℕ
  width : ℕ
  prec_ge : 2 ≤ prec
  width_ge : 2 ≤ width

namespace Format

variable (F : Format)

/-- The exponent of the last bit kept of the magnitude `n`. -/
def quantum (n : ℕ) : ℕ := max F.emin (Nat.log2 n + 1 - F.prec)

/-- The magnitude `n` rounded to the format's precision (with no bound on its size). -/
def roundMag (n : ℕ) : ℕ := rneDiv n (2 ^ F.quantum n) * 2 ^ F.quantum n

/-- `n` has no bit below its quantum: the format represents it, size permitting. -/
def Rep (n : ℕ) : Prop := 2 ^ F.quantum n ∣ n

instance (n : ℕ) : Decidable (F.Rep n) := inferInstanceAs (Decidable (_ ∣ _))

theorem emin_le_quantum (n : ℕ) : F.emin ≤ F.quantum n := le_max_left _ _

theorem log2_mono {n m : ℕ} (h : n ≤ m) : Nat.log2 n ≤ Nat.log2 m := by
  rcases Nat.eq_zero_or_pos n with rfl | hn
  · simp
  · exact (Nat.le_log2 (by omega)).mpr (le_trans (Nat.log2_self_le (by omega)) h)

theorem quantum_mono {n m : ℕ} (h : n ≤ m) : F.quantum n ≤ F.quantum m := by
  have := log2_mono h
  unfold quantum
  omega

theorem lt_two_pow_quantum (n : ℕ) : n < 2 ^ (F.prec + F.quantum n) := by
  have h1 : n < 2 ^ (Nat.log2 n + 1) := Nat.lt_log2_self
  have h2 : Nat.log2 n + 1 ≤ F.prec + F.quantum n := by
    unfold quantum
    omega
  exact lt_of_lt_of_le h1 (Nat.pow_le_pow_right (by decide) h2)

/-- Above the least resolution the leading bit is kept, so the significand is full. -/
theorem two_pow_le_of_emin_lt {n : ℕ} (h : F.emin < F.quantum n) :
    2 ^ (F.prec - 1 + F.quantum n) ≤ n := by
  have hq : F.quantum n = Nat.log2 n + 1 - F.prec := by
    unfold quantum at h ⊢
    omega
  have hn : n ≠ 0 := by
    rintro rfl
    have := F.prec_ge
    simp [hq] at h
    omega
  have hexp : F.prec - 1 + F.quantum n = Nat.log2 n := by
    have := F.prec_ge
    omega
  rw [hexp]
  exact Nat.log2_self_le hn

/-- **Rounding is monotone.** -/
theorem roundMag_mono {n m : ℕ} (h : n ≤ m) : F.roundMag n ≤ F.roundMag m := by
  rcases (F.quantum_mono h).lt_or_eq with hlt | heq
  · -- the quantum grows: a power of two separates the two results
    have hup : F.roundMag n ≤ 2 ^ (F.prec + F.quantum n) := by
      rw [roundMag, pow_add]
      apply Nat.mul_le_mul_right
      apply rneDiv_le (Nat.two_pow_pos _)
      rw [← pow_add]
      exact (F.lt_two_pow_quantum n).le
    have hemin : F.emin < F.quantum m := lt_of_le_of_lt (F.emin_le_quantum n) hlt
    have hlow : 2 ^ (F.prec - 1 + F.quantum m) ≤ F.roundMag m := by
      rw [roundMag, pow_add]
      apply Nat.mul_le_mul_right
      apply le_rneDiv (Nat.two_pow_pos _)
      rw [← pow_add]
      exact F.two_pow_le_of_emin_lt hemin
    have hmid : F.prec + F.quantum n ≤ F.prec - 1 + F.quantum m := by
      have := F.prec_ge
      omega
    exact le_trans hup (le_trans (Nat.pow_le_pow_right (by decide) hmid) hlow)
  · rw [roundMag, roundMag, ← heq]
    exact Nat.mul_le_mul_right _ (rneDiv_mono _ h)

/-- Rounding fixes what the format represents. -/
theorem roundMag_of_rep {n : ℕ} (h : F.Rep n) : F.roundMag n = n := by
  obtain ⟨k, hk⟩ := h
  have hk' : n = k * 2 ^ F.quantum n := by rw [mul_comm]; exact hk
  calc F.roundMag n = rneDiv n (2 ^ F.quantum n) * 2 ^ F.quantum n := rfl
    _ = rneDiv (k * 2 ^ F.quantum n) (2 ^ F.quantum n) * 2 ^ F.quantum n := by rw [← hk']
    _ = k * 2 ^ F.quantum n := by rw [rneDiv_mul (Nat.two_pow_pos _)]
    _ = n := hk'.symm

/-- A short enough significand at or above the least resolution is represented. -/
theorem rep_mul_two_pow {k e : ℕ} (hk : k < 2 ^ F.prec) (he : F.emin ≤ e) :
    F.Rep (k * 2 ^ e) := by
  rcases Nat.eq_zero_or_pos k with rfl | hpos
  · simp [Rep]
  · have hlog : Nat.log2 (k * 2 ^ e) < F.prec + e := by
      rw [Nat.log2_lt (by positivity), pow_add]
      exact Nat.mul_lt_mul_of_pos_right hk (Nat.two_pow_pos _)
    have hq : F.quantum (k * 2 ^ e) ≤ e := by
      unfold quantum
      omega
    exact Dvd.dvd.mul_left (pow_dvd_pow 2 hq) k

/-- A wider format represents what a narrower one does. -/
theorem Rep.of_le {F G : Format} (hp : F.prec ≤ G.prec) (he : G.emin ≤ F.emin) {n : ℕ}
    (h : F.Rep n) : G.Rep n := by
  have hq : G.quantum n ≤ F.quantum n := by
    unfold quantum
    omega
  exact dvd_trans (pow_dvd_pow 2 hq) h

/-- Rounding keeps trailing zeros. -/
theorem two_pow_dvd_roundMag {n e : ℕ} (h : 2 ^ e ∣ n) : 2 ^ e ∣ F.roundMag n := by
  rcases Nat.le_total (F.quantum n) e with hq | hq
  · have hrep : F.Rep n := dvd_trans (pow_dvd_pow 2 hq) h
    rwa [F.roundMag_of_rep hrep]
  · exact dvd_trans (pow_dvd_pow 2 hq) (Dvd.intro_left _ rfl)

/-- The result of rounding is represented. -/
theorem rep_roundMag (n : ℕ) : F.Rep (F.roundMag n) := by
  have hle : rneDiv n (2 ^ F.quantum n) ≤ 2 ^ F.prec := by
    apply rneDiv_le (Nat.two_pow_pos _)
    rw [← pow_add]
    exact (F.lt_two_pow_quantum n).le
  rcases hle.lt_or_eq with hlt | heq
  · exact F.rep_mul_two_pow hlt (F.emin_le_quantum n)
  · -- the significand overflowed to the next power of two
    have hpow : F.roundMag n = 1 * 2 ^ (F.prec + F.quantum n) := by
      rw [roundMag, heq, pow_add, one_mul]
    have hone : 1 < 2 ^ F.prec := Nat.one_lt_two_pow (by have := F.prec_ge; omega)
    rw [hpow]
    exact F.rep_mul_two_pow hone (le_trans (F.emin_le_quantum n) (Nat.le_add_left _ _))

end Format

end SimpleOlap.Lib
