import SimpleOlap.Lib.Rounding
import Mathlib.Order.WithBot
import Mathlib.Data.Int.ConditionallyCompleteOrder

/-!
# Floating-point values: comparison, conversion, bit patterns

`Fp` is the value of a binary floating-point number in sign-magnitude form, the magnitude an exact
natural number of the common unit; signed zeros are distinct values and NaN is one value.

* IEEE comparison (`Fp.eq`, `Fp.lt`, `Fp.le`): false on NaN, the two zeros equal. On ordinary values
  it is the linear order of `Fp.key` (`Fp.lt_iff`, `Fp.le_iff`, `Fp.eq_iff`).
* `Format.convert`: round an `Fp` to a format, to infinity past the largest finite value; monotone
  for `key` (`Format.key_convert_mono`) and the identity on the format's own values
  (`Format.convert_of_mem`).
* `Format.decode` / `Format.encode`: bit patterns; `decode_encode` on the format's values, and
  `decode_inj`: distinct patterns that are not NaN denote distinct values.
-/

namespace SimpleOlap.Lib

/-- The value of a floating-point number: NaN, an infinity, or a signed magnitude. -/
inductive Fp
  | nan
  | inf (neg : Bool)
  | num (neg : Bool) (mag : ℕ)
  deriving DecidableEq, Repr

namespace Fp

/-- NaN test. -/
def isNan : Fp → Bool
  | nan => true
  | _ => false

/-- A signed magnitude as an integer number of units. -/
def signed (neg : Bool) (mag : ℕ) : ℤ := if neg then -(mag : ℤ) else mag

/-- The place of a value in the extended integers (NaN at an arbitrary place). -/
def key : Fp → WithBot (WithTop ℤ)
  | nan => ⊥
  | inf true => ⊥
  | inf false => ((⊤ : WithTop ℤ) : WithBot (WithTop ℤ))
  | num neg mag => ((signed neg mag : WithTop ℤ) : WithBot (WithTop ℤ))

/-- The exact value of an integer number of units. -/
def ofUnits (x : ℤ) : Fp := num (decide (x < 0)) x.natAbs

/-- An integer is its sign and its size. -/
@[simp] theorem signed_natAbs (x : ℤ) : signed (decide (x < 0)) x.natAbs = x := by
  unfold signed
  by_cases h : x < 0
  · simp only [h, decide_true, if_true]
    omega
  · simp only [h, decide_false, Bool.false_eq_true, if_false]
    omega

/-- Numbers are ordered as their signed values. -/
theorem key_num_le_iff {s t : Bool} {m n : ℕ} :
    (num s m).key ≤ (num t n).key ↔ signed s m ≤ signed t n := by
  simp [key]

/-- The place of an integer in the order. -/
@[simp] theorem key_ofUnits (x : ℤ) :
    (ofUnits x).key = ((x : WithTop ℤ) : WithBot (WithTop ℤ)) := by
  simp [ofUnits, key]

/-- An integer is not NaN. -/
@[simp] theorem isNan_ofUnits (x : ℤ) : (ofUnits x).isNan = false := rfl

/-- An integer is not NaN. -/
@[simp] theorem ofUnits_ne_nan (x : ℤ) : ofUnits x ≠ nan := by simp [ofUnits]

/-- The test for NaN. -/
theorem isNan_iff {a : Fp} : a.isNan = true ↔ a = nan := by cases a <;> simp [isNan]

/-- The test for NaN. -/
theorem isNan_eq_false_iff {a : Fp} : a.isNan = false ↔ a ≠ nan := by cases a <;> simp [isNan]

/-! ## IEEE comparison -/

-- the order of the integers is also found as a conditionally complete one, which does not compute

/-- The order of the keys can be decided. -/
instance : DecidableLT (WithBot (WithTop ℤ)) :=
  @WithBot.decidableLT (WithTop ℤ) WithTop.instLT (@WithTop.decidableLT ℤ Int.instLTInt Int.decLt)

/-- The order of the keys can be decided. -/
instance : DecidableLE (WithBot (WithTop ℤ)) :=
  @WithBot.decidableLE (WithTop ℤ) WithTop.instLE (@WithTop.decidableLE ℤ Int.instLEInt Int.decLe)

/-- IEEE `==`. -/
def eq (a b : Fp) : Bool := !a.isNan && !b.isNan && decide (a.key = b.key)

/-- IEEE `<`. -/
def lt (a b : Fp) : Bool := !a.isNan && !b.isNan && decide (a.key < b.key)

/-- IEEE `<=`. -/
def le (a b : Fp) : Bool := !a.isNan && !b.isNan && decide (a.key ≤ b.key)

/-- NaN is equal to nothing. -/
@[simp] theorem eq_nan_left (b : Fp) : eq nan b = false := rfl

/-- NaN is below nothing. -/
@[simp] theorem lt_nan_left (b : Fp) : lt nan b = false := rfl

/-- NaN is not at most anything. -/
@[simp] theorem le_nan_left (b : Fp) : le nan b = false := rfl

/-- Nothing is equal to NaN. -/
@[simp] theorem eq_nan_right (a : Fp) : eq a nan = false := by simp [eq, isNan]

/-- Nothing is below NaN. -/
@[simp] theorem lt_nan_right (a : Fp) : lt a nan = false := by simp [lt, isNan]

/-- Nothing is at most NaN. -/
@[simp] theorem le_nan_right (a : Fp) : le a nan = false := by simp [le, isNan]

/-- Equality is that of the keys. -/
theorem eq_iff {a b : Fp} (ha : a ≠ nan) (hb : b ≠ nan) : eq a b = true ↔ a.key = b.key := by
  simp [eq, isNan_eq_false_iff.mpr ha, isNan_eq_false_iff.mpr hb]

/-- The order is that of the keys. -/
theorem lt_iff {a b : Fp} (ha : a ≠ nan) (hb : b ≠ nan) : lt a b = true ↔ a.key < b.key := by
  simp [lt, isNan_eq_false_iff.mpr ha, isNan_eq_false_iff.mpr hb]

/-- The order is that of the keys. -/
theorem le_iff {a b : Fp} (ha : a ≠ nan) (hb : b ≠ nan) : le a b = true ↔ a.key ≤ b.key := by
  simp [le, isNan_eq_false_iff.mpr ha, isNan_eq_false_iff.mpr hb]

/-- A value with both zeros told apart is determined by its key, away from zero and NaN. -/
theorem eq_of_key_eq {a b : Fp} (ha : a ≠ nan) (hb : b ≠ nan)
    (h0 : a.key ≠ (((0 : ℤ) : WithTop ℤ) : WithBot (WithTop ℤ))) (h : a.key = b.key) : a = b := by
  rcases a with _ | s | ⟨s, m⟩ <;> rcases b with _ | t | ⟨t, n⟩
  · rfl
  · exact absurd rfl ha
  · exact absurd rfl ha
  · exact absurd rfl hb
  · cases s <;> cases t <;> simp_all [key]
  · cases s <;> simp_all [key]
  · exact absurd rfl hb
  · cases t <;> simp_all [key]
  · have hint : signed s m = signed t n := by simpa [key] using h
    have hne : signed s m ≠ 0 := by simpa [key] using h0
    cases s <;> cases t <;> simp [signed] at hint hne ⊢ <;> omega

end Fp

/-! ## Conversion to a format -/

namespace Format

variable (F : Format)

/-- The first magnitude past the format's finite range. -/
def overflow : ℕ := 2 ^ (F.emin + F.prec + 2 ^ F.width - 3)

/-- Round a signed magnitude, to infinity past the finite range. -/
def round (neg : Bool) (n : ℕ) : Fp :=
  if F.roundMag n < F.overflow then .num neg (F.roundMag n) else .inf neg

/-- Convert a value to the format: rounding to nearest even, overflow to infinity. -/
def convert : Fp → Fp
  | .nan => .nan
  | .inf neg => .inf neg
  | .num neg n => F.round neg n

/-- The values of the format. -/
def Mem : Fp → Prop
  | .num _ n => F.Rep n ∧ n < F.overflow
  | _ => True

/-- Whether a value is in a format can be decided. -/
instance : DecidablePred F.Mem := fun a =>
  match a with
  | .nan => inferInstanceAs (Decidable True)
  | .inf _ => inferInstanceAs (Decidable True)
  | .num _ _ => inferInstanceAs (Decidable (_ ∧ _))

/-- NaN is in every format. -/
@[simp] theorem mem_nan : F.Mem .nan := trivial

/-- The infinities are in every format. -/
@[simp] theorem mem_inf (neg : Bool) : F.Mem (.inf neg) := trivial

/-- What is rounded is in the format. -/
theorem mem_round (neg : Bool) (n : ℕ) : F.Mem (F.round neg n) := by
  unfold round
  split_ifs with h
  · exact ⟨F.rep_roundMag n, h⟩
  · trivial

/-- What is converted is in the format. -/
theorem mem_convert (a : Fp) : F.Mem (F.convert a) := by
  cases a with
  | nan => trivial
  | inf neg => trivial
  | num neg n => exact F.mem_round neg n

/-- Conversion fixes the format's own values. -/
theorem convert_of_mem {a : Fp} (h : F.Mem a) : F.convert a = a := by
  cases a with
  | nan => rfl
  | inf neg => rfl
  | num neg n =>
    have hr : F.roundMag n = n := F.roundMag_of_rep h.1
    simp [convert, round, hr, h.2]

/-- A conversion makes no NaN, and loses none. -/
@[simp] theorem isNan_convert (a : Fp) : (F.convert a).isNan = a.isNan := by
  cases a with
  | nan => rfl
  | inf neg => rfl
  | num neg n =>
    simp only [convert, round]
    split_ifs <;> rfl

/-- A conversion makes no NaN. -/
theorem convert_ne_nan {a : Fp} (h : a ≠ .nan) : F.convert a ≠ .nan := by
  rw [← Fp.isNan_eq_false_iff] at h ⊢
  rw [isNan_convert, h]

/-- **Conversion is monotone**: it never reverses the order of two values. -/
theorem key_convert_mono {a b : Fp} (ha : a ≠ .nan) (hb : b ≠ .nan) (h : a.key ≤ b.key) :
    (F.convert a).key ≤ (F.convert b).key := by
  rcases a with _ | s | ⟨s, m⟩ <;> rcases b with _ | t | ⟨t, n⟩
  · exact le_rfl
  · exact absurd rfl ha
  · exact absurd rfl ha
  · exact absurd rfl hb
  · exact h
  · cases s
    · simp [Fp.key] at h
    · exact bot_le
  · exact absurd rfl hb
  · cases t
    · have htop : (F.convert (.inf false)).key = ⊤ := rfl
      rw [htop]
      exact le_top
    · simp [Fp.key] at h
  · have hint : Fp.signed s m ≤ Fp.signed t n := Fp.key_num_le_iff.mp h
    cases s <;> cases t
    · -- two nonnegative magnitudes
      have hmn : m ≤ n := by simpa [Fp.signed] using hint
      have hr := F.roundMag_mono hmn
      simp only [convert, round]
      split_ifs
      · rw [Fp.key_num_le_iff]
        simpa [Fp.signed] using hr
      · exact le_top
      · omega
      · exact le_rfl
    · -- only a pair of zeros is ordered this way
      have hm : m = 0 := by simp [Fp.signed] at hint; omega
      have hn : n = 0 := by simp [Fp.signed] at hint; omega
      subst hm hn
      have h0 : F.roundMag 0 = 0 := F.roundMag_of_rep (by simp [Rep])
      have hpos : 0 < F.overflow := Nat.two_pow_pos _
      simp [convert, round, h0, hpos, Fp.key, Fp.signed]
    · simp only [convert, round]
      split_ifs
      · rw [Fp.key_num_le_iff]
        simp only [Fp.signed, if_true, Bool.false_eq_true, if_false]
        omega
      · exact le_top
      · exact bot_le
      · exact bot_le
    · have hmn : n ≤ m := by simp [Fp.signed] at hint; omega
      have hr := F.roundMag_mono hmn
      simp only [convert, round]
      split_ifs
      · rw [Fp.key_num_le_iff]
        simp only [Fp.signed, if_true]
        omega
      · omega
      · exact bot_le
      · exact le_rfl

/-- A value below a format value stays at or below it after conversion. -/
theorem key_convert_le {a b : Fp} (ha : a ≠ .nan) (hb : b ≠ .nan) (hF : F.Mem b)
    (h : a.key ≤ b.key) : (F.convert a).key ≤ b.key := by
  have := F.key_convert_mono ha hb h
  rwa [F.convert_of_mem hF] at this

/-- A value above a format value stays at or above it after conversion. -/
theorem le_key_convert {a b : Fp} (ha : a ≠ .nan) (hb : b ≠ .nan) (hF : F.Mem a)
    (h : a.key ≤ b.key) : a.key ≤ (F.convert b).key := by
  have := F.key_convert_mono ha hb h
  rwa [F.convert_of_mem hF] at this

/-- A wider format has all values of a narrower one. -/
theorem Mem.of_le {F G : Format} (hp : F.prec ≤ G.prec) (he : G.emin ≤ F.emin)
    (ho : F.emin + F.prec + 2 ^ F.width ≤ G.emin + G.prec + 2 ^ G.width) {a : Fp} (h : F.Mem a) :
    G.Mem a := by
  cases a with
  | nan => trivial
  | inf neg => trivial
  | num neg n =>
    exact ⟨h.1.of_le hp he, lt_of_lt_of_le h.2 (Nat.pow_le_pow_right (by decide) (by omega))⟩

/-- A format has the numbers whose significand is short enough and whose exponent is in range. -/
theorem mem_ofUnits {F : Format} {x : ℤ} {k e : ℕ} (hx : x.natAbs = k * 2 ^ e)
    (hk : k < 2 ^ F.prec) (he : F.emin ≤ e) (ho : e + 3 ≤ F.emin + 2 ^ F.width) :
    F.Mem (.ofUnits x) := by
  show F.Rep x.natAbs ∧ x.natAbs < F.overflow
  rw [hx]
  refine ⟨F.rep_mul_two_pow hk he, ?_⟩
  calc k * 2 ^ e < 2 ^ F.prec * 2 ^ e := Nat.mul_lt_mul_of_pos_right hk (Nat.two_pow_pos _)
    _ = 2 ^ (F.prec + e) := (pow_add 2 F.prec e).symm
    _ ≤ F.overflow := Nat.pow_le_pow_right (by decide) (by omega)

/-! ## Bit patterns -/

/-- The magnitude whose exponent and fraction fields together read `k`. -/
def magOfIndex (k : ℕ) : ℕ :=
  if k / 2 ^ (F.prec - 1) = 0 then k % 2 ^ (F.prec - 1) * 2 ^ F.emin
  else (2 ^ (F.prec - 1) + k % 2 ^ (F.prec - 1)) * 2 ^ (F.emin + (k / 2 ^ (F.prec - 1) - 1))

/-- The exponent and fraction fields of a represented magnitude, as one number. -/
def indexOfMag (n : ℕ) : ℕ :=
  (F.quantum n - F.emin) * 2 ^ (F.prec - 1) + n / 2 ^ F.quantum n

/-- The exponent field of the infinities and NaN, fraction zero. -/
def infIndex : ℕ := (2 ^ F.width - 1) * 2 ^ (F.prec - 1)

/-- The place of the sign bit. -/
def signBit : ℕ := 2 ^ (F.width + F.prec - 1)

/-- The value of a bit pattern. -/
def decode (b : ℕ) : Fp :=
  let neg := decide (F.signBit ≤ b)
  let k := b % F.signBit
  if k < F.infIndex then .num neg (F.magOfIndex k)
  else if k = F.infIndex then .inf neg
  else .nan

/-- The bit pattern of a value (NaN: the quiet one). -/
def encode : Fp → ℕ
  | .nan => F.infIndex + 2 ^ (F.prec - 2)
  | .inf neg => (if neg then F.signBit else 0) + F.infIndex
  | .num neg n => (if neg then F.signBit else 0) + F.indexOfMag n

/-- The sizes of a format fill one half of its encodings. -/
theorem infIndex_add : F.infIndex + 2 ^ (F.prec - 1) = F.signBit := by
  have hp := F.prec_ge
  have h1 : 1 ≤ 2 ^ F.width := Nat.one_le_two_pow
  have hexp : F.width + F.prec - 1 = F.width + (F.prec - 1) := by omega
  rw [infIndex, signBit, hexp, pow_add, Nat.sub_mul, one_mul]
  have : 2 ^ (F.prec - 1) ≤ 2 ^ F.width * 2 ^ (F.prec - 1) := Nat.le_mul_of_pos_left _ h1
  omega

/-- A normal significand at exponent `e` has quantum exponent `e`. -/
theorem quantum_normal {f e : ℕ} (hf : f < 2 ^ (F.prec - 1)) (he : F.emin ≤ e) :
    F.quantum ((2 ^ (F.prec - 1) + f) * 2 ^ e) = e := by
  have hp := F.prec_ge
  have hpos := Nat.two_pow_pos (F.prec - 1)
  have hlow : F.prec - 1 + e ≤ Nat.log2 ((2 ^ (F.prec - 1) + f) * 2 ^ e) := by
    rw [Nat.le_log2 (by positivity), pow_add]
    exact Nat.mul_le_mul_right _ (Nat.le_add_right _ _)
  have hup : Nat.log2 ((2 ^ (F.prec - 1) + f) * 2 ^ e) < F.prec + e := by
    have htwo : 2 ^ F.prec = 2 * 2 ^ (F.prec - 1) := by
      rw [← pow_succ']
      congr 1
      omega
    rw [Nat.log2_lt (by positivity), pow_add]
    exact Nat.mul_lt_mul_of_pos_right (by omega) (Nat.two_pow_pos _)
  unfold quantum
  omega

/-- A subnormal significand sits at the least quantum. -/
theorem quantum_subnormal {f : ℕ} (hf : f < 2 ^ (F.prec - 1)) :
    F.quantum (f * 2 ^ F.emin) = F.emin := by
  have hp := F.prec_ge
  rcases Nat.eq_zero_or_pos f with rfl | hpos
  · simp only [Nat.zero_mul, quantum, Nat.log2_zero]
    omega
  · have hup : Nat.log2 (f * 2 ^ F.emin) < F.prec - 1 + F.emin := by
      rw [Nat.log2_lt (by positivity), pow_add]
      exact Nat.mul_lt_mul_of_pos_right hf (Nat.two_pow_pos _)
    unfold quantum
    omega

/-- A size is read back from its index. -/
theorem indexOfMag_magOfIndex (k : ℕ) : F.indexOfMag (F.magOfIndex k) = k := by
  have hmod : k % 2 ^ (F.prec - 1) < 2 ^ (F.prec - 1) := Nat.mod_lt _ (Nat.two_pow_pos _)
  have hk := Nat.div_add_mod k (2 ^ (F.prec - 1))
  unfold magOfIndex
  split_ifs with h
  · rw [indexOfMag, F.quantum_subnormal hmod, Nat.sub_self,
      Nat.mul_div_cancel _ (Nat.two_pow_pos _)]
    rw [h] at hk
    omega
  · rw [indexOfMag, F.quantum_normal hmod (Nat.le_add_right _ _),
      Nat.mul_div_cancel _ (Nat.two_pow_pos _), Nat.add_sub_cancel_left, Nat.sub_mul, one_mul]
    have hle : 2 ^ (F.prec - 1) ≤ k / 2 ^ (F.prec - 1) * 2 ^ (F.prec - 1) :=
      Nat.le_mul_of_pos_left _ (Nat.pos_of_ne_zero h)
    rw [mul_comm] at hk
    omega

/-- An index is read back from its size. -/
theorem magOfIndex_indexOfMag {n : ℕ} (h : F.Rep n) : F.magOfIndex (F.indexOfMag n) = n := by
  have hp := F.prec_ge
  have hP := Nat.two_pow_pos (F.prec - 1)
  have htwo : 2 ^ F.prec = 2 * 2 ^ (F.prec - 1) := by
    rw [← pow_succ']
    congr 1
    omega
  obtain ⟨m, hm⟩ := h
  have hm' : n = m * 2 ^ F.quantum n := by rw [mul_comm]; exact hm
  have hdiv : n / 2 ^ F.quantum n = m :=
    Nat.div_eq_of_eq_mul_left (Nat.two_pow_pos _) hm'
  have hlt : m < 2 * 2 ^ (F.prec - 1) := by
    have h1 := F.lt_two_pow_quantum n
    rw [pow_add, htwo] at h1
    rw [hm'] at h1
    exact Nat.lt_of_mul_lt_mul_right (a := 2 ^ F.quantum n) (by rwa [← hm'] at h1 ⊢)
  rcases Nat.lt_or_ge m (2 ^ (F.prec - 1)) with hsub | hnorm
  · -- subnormal: only possible at the least quantum
    have hq : F.quantum n = F.emin := by
      by_contra hne
      have hgt : F.emin < F.quantum n :=
        lt_of_le_of_ne (F.emin_le_quantum n) (Ne.symm hne)
      have h1 := F.two_pow_le_of_emin_lt hgt
      have h2 : 2 ^ (F.prec - 1 + F.quantum n) ≤ m * 2 ^ F.quantum n := hm' ▸ h1
      rw [pow_add] at h2
      have h3 : 2 ^ (F.prec - 1) ≤ m := Nat.le_of_mul_le_mul_right h2 (Nat.two_pow_pos _)
      omega
    have hidx : F.indexOfMag n = m := by
      rw [indexOfMag, hdiv, hq, Nat.sub_self]
      omega
    rw [hidx, magOfIndex, if_pos (Nat.div_eq_of_lt hsub), Nat.mod_eq_of_lt hsub, ← hq]
    exact hm'.symm
  · have hidx : F.indexOfMag n =
        (F.quantum n - F.emin + 1) * 2 ^ (F.prec - 1) + (m - 2 ^ (F.prec - 1)) := by
      rw [indexOfMag, hdiv, Nat.add_mul, one_mul]
      omega
    have hrem : m - 2 ^ (F.prec - 1) < 2 ^ (F.prec - 1) := by omega
    have hdivP : F.indexOfMag n / 2 ^ (F.prec - 1) = F.quantum n - F.emin + 1 := by
      rw [hidx, mul_comm, Nat.mul_add_div hP, Nat.div_eq_of_lt hrem, Nat.add_zero]
    have hmodP : F.indexOfMag n % 2 ^ (F.prec - 1) = m - 2 ^ (F.prec - 1) := by
      rw [hidx, mul_comm, Nat.mul_add_mod, Nat.mod_eq_of_lt hrem]
    have hq := F.emin_le_quantum n
    have hexp : F.emin + (F.quantum n - F.emin + 1 - 1) = F.quantum n := by omega
    have hsig : 2 ^ (F.prec - 1) + (m - 2 ^ (F.prec - 1)) = m := by omega
    rw [magOfIndex, hdivP, hmodP, if_neg (Nat.succ_ne_zero _), hexp, hsig]
    exact hm'.symm

/-- Sizes below the overflow have indices below that of infinity. -/
theorem indexOfMag_lt {n : ℕ} (h : n < F.overflow) : F.indexOfMag n < F.infIndex := by
  have hp := F.prec_ge
  have hw : 4 ≤ 2 ^ F.width :=
    le_trans (by decide : 4 ≤ 2 ^ 2) (Nat.pow_le_pow_right (by decide) F.width_ge)
  have hP := Nat.two_pow_pos (F.prec - 1)
  have htwo : 2 ^ F.prec = 2 * 2 ^ (F.prec - 1) := by
    rw [← pow_succ']
    congr 1
    omega
  have hq : F.quantum n ≤ F.emin + (2 ^ F.width - 3) := by
    rcases Nat.eq_zero_or_pos n with rfl | hn
    · simp only [quantum, Nat.log2_zero]
      omega
    · have : Nat.log2 n < F.emin + F.prec + 2 ^ F.width - 3 :=
        (Nat.log2_lt (by omega)).mpr h
      unfold quantum
      omega
  have hm : n / 2 ^ F.quantum n < 2 * 2 ^ (F.prec - 1) := by
    rw [Nat.div_lt_iff_lt_mul (Nat.two_pow_pos _), ← htwo, ← pow_add]
    exact F.lt_two_pow_quantum n
  have hmul : (F.quantum n - F.emin) * 2 ^ (F.prec - 1) ≤ (2 ^ F.width - 3) * 2 ^ (F.prec - 1) :=
    Nat.mul_le_mul_right _ (by omega)
  have hsplit : F.infIndex = (2 ^ F.width - 3) * 2 ^ (F.prec - 1) + 2 * 2 ^ (F.prec - 1) := by
    rw [infIndex, ← Nat.add_mul]
    congr 1
    omega
  unfold indexOfMag
  omega

/-- An encoding fits in the width of the format. -/
theorem encode_lt {a : Fp} (h : F.Mem a) : F.encode a < 2 * F.signBit := by
  have hs := F.infIndex_add
  have hpow : 2 ^ (F.prec - 2) < 2 ^ (F.prec - 1) := by
    have := F.prec_ge
    exact Nat.pow_lt_pow_right (by decide) (by omega)
  cases a with
  | nan => simp only [encode]; omega
  | inf neg =>
    have hP := Nat.two_pow_pos (F.prec - 1)
    simp only [encode]
    split_ifs <;> omega
  | num neg n =>
    have hP := Nat.two_pow_pos (F.prec - 1)
    have := F.indexOfMag_lt h.2
    simp only [encode]
    split_ifs <;> omega

/-- **Patterns and values agree** on the format's own values. -/
theorem decode_encode {a : Fp} (h : F.Mem a) : F.decode (F.encode a) = a := by
  have hs := F.infIndex_add
  have hP := Nat.two_pow_pos (F.prec - 1)
  have hP2 := Nat.two_pow_pos (F.prec - 2)
  have hpow : 2 ^ (F.prec - 2) < 2 ^ (F.prec - 1) := by
    have := F.prec_ge
    exact Nat.pow_lt_pow_right (by decide) (by omega)
  -- the sign bit on top of an index below it
  have hneg : ∀ k < F.signBit, (F.signBit + k) % F.signBit = k := fun k hk => by
    rw [Nat.add_mod_left, Nat.mod_eq_of_lt hk]
  cases a with
  | nan =>
    have hlt : F.infIndex + 2 ^ (F.prec - 2) < F.signBit := by omega
    simp only [encode, decode, Nat.mod_eq_of_lt hlt]
    rw [if_neg (by omega), if_neg (by omega)]
  | inf neg =>
    have hlt : F.infIndex < F.signBit := by omega
    cases neg <;>
      simp [encode, decode, Nat.mod_eq_of_lt hlt, hneg _ hlt, Nat.not_le.mpr hlt]
  | num neg n =>
    have hidx := F.indexOfMag_lt h.2
    have hlt : F.indexOfMag n < F.signBit := by omega
    cases neg <;>
      simp [encode, decode, Nat.mod_eq_of_lt hlt, hneg _ hlt, Nat.not_le.mpr hlt, hidx,
        F.magOfIndex_indexOfMag h.1]

/-- A pattern that is not NaN is the pattern of its value. -/
theorem encode_decode {b : ℕ} (hb : b < 2 * F.signBit) (h : F.decode b ≠ .nan) :
    F.encode (F.decode b) = b := by
  have hdm := Nat.div_add_mod b F.signBit
  have hdiv : b / F.signBit < 2 := (Nat.div_lt_iff_lt_mul (Nat.two_pow_pos _)).mpr hb
  have hsign : (if decide (F.signBit ≤ b) then F.signBit else 0) + b % F.signBit = b := by
    by_cases hle : F.signBit ≤ b
    · have hone : b / F.signBit = 1 := by
        have := (Nat.one_le_div_iff (Nat.two_pow_pos (F.width + F.prec - 1))).mpr hle
        exact le_antisymm (Nat.lt_succ_iff.mp hdiv) this
      rw [hone] at hdm
      simp only [hle, decide_true, if_true]
      omega
    · simp [hle, Nat.mod_eq_of_lt (Nat.not_le.mp hle)]
  unfold decode at h ⊢
  simp only at h ⊢
  split_ifs at h ⊢ with h1 h2
  · rw [encode, F.indexOfMag_magOfIndex, hsign]
  · rw [encode, ← h2, hsign]
  · exact absurd rfl h

/-- Distinct patterns that are not NaN denote distinct values. -/
theorem decode_inj {b c : ℕ} (hb : b < 2 * F.signBit) (hc : c < 2 * F.signBit)
    (hn : F.decode b ≠ .nan) (h : F.decode b = F.decode c) : b = c := by
  rw [← F.encode_decode hb hn, h, F.encode_decode hc (h ▸ hn)]

/-- Every pattern denotes a value of the format. -/
theorem mem_decode {b : ℕ} : F.Mem (F.decode b) := by
  unfold decode
  simp only
  split_ifs with h1 h2
  · have hP := Nat.two_pow_pos (F.prec - 1)
    have hmod : b % F.signBit % 2 ^ (F.prec - 1) < 2 ^ (F.prec - 1) := Nat.mod_lt _ hP
    have hp := F.prec_ge
    have htwo : 2 ^ F.prec = 2 * 2 ^ (F.prec - 1) := by
      rw [← pow_succ']
      congr 1
      omega
    have hw : 4 ≤ 2 ^ F.width :=
      le_trans (by decide : 4 ≤ 2 ^ 2) (Nat.pow_le_pow_right (by decide) F.width_ge)
    have hE : b % F.signBit / 2 ^ (F.prec - 1) < 2 ^ F.width - 1 := by
      rw [Nat.div_lt_iff_lt_mul hP]
      exact h1
    unfold magOfIndex
    split_ifs with h0
    · refine ⟨F.rep_mul_two_pow (by omega) le_rfl, ?_⟩
      calc b % F.signBit % 2 ^ (F.prec - 1) * 2 ^ F.emin
          < 2 ^ (F.prec - 1) * 2 ^ F.emin := Nat.mul_lt_mul_of_pos_right hmod (Nat.two_pow_pos _)
        _ = 2 ^ (F.prec - 1 + F.emin) := by rw [pow_add]
        _ ≤ F.overflow := Nat.pow_le_pow_right (by decide) (by omega)
    · refine ⟨F.rep_mul_two_pow (by omega) (Nat.le_add_right _ _), ?_⟩
      calc (2 ^ (F.prec - 1) + b % F.signBit % 2 ^ (F.prec - 1))
            * 2 ^ (F.emin + (b % F.signBit / 2 ^ (F.prec - 1) - 1))
          < 2 ^ F.prec * 2 ^ (F.emin + (b % F.signBit / 2 ^ (F.prec - 1) - 1)) :=
            Nat.mul_lt_mul_of_pos_right (by omega) (Nat.two_pow_pos _)
        _ = 2 ^ (F.prec + (F.emin + (b % F.signBit / 2 ^ (F.prec - 1) - 1))) :=
            (pow_add 2 F.prec _).symm
        _ ≤ F.overflow := Nat.pow_le_pow_right (by decide) (by omega)
  · trivial
  · trivial

-- keeps powers such as `2 ^ 2098` from being computed during elaboration
attribute [irreducible] overflow

end Format

end SimpleOlap.Lib
