import SimpleOlap.Lib.Fp
import SimpleOlap.Lib.ZoneMap

/-!
# Floating-point values against integers

The value `1` is `u` units, for a fixed positive `u`.

* `Fp.cmp op a b`: one of the six comparisons under IEEE rules; on ordinary values it is
  `CmpOp.holds` on the keys (`Fp.cmp_iff`), and NaN satisfies `≠` only.
* `Fp.ofInt u z`, `Fp.floor u`, `Fp.ceil u`, `Fp.trunc u`: the exact value of an integer, rounding to
  an integral value either way, and truncation to an integer.
* `cmp_gt_ofInt_num` and the lemmas after it: comparing an integer with a finite value is comparing it
  with the value's floor or ceiling.
-/

namespace SimpleOlap.Lib

namespace Fp

/-! ## The six comparisons -/

/-- IEEE comparison by operator; `≠` is the negation of `==`. -/
def cmp (op : CmpOp) (a b : Fp) : Bool :=
  match op with
  | .eq => eq a b
  | .ne => !eq a b
  | .gt => lt b a
  | .ge => le b a
  | .lt => lt a b
  | .le => le a b

/-- A comparison of numbers is that of the keys. -/
theorem cmp_iff {op : CmpOp} {a b : Fp} (ha : a ≠ nan) (hb : b ≠ nan) :
    cmp op a b = true ↔ op.holds a.key b.key := by
  cases op with
  | eq => exact eq_iff ha hb
  | ne => simp [cmp, CmpOp.holds, Bool.eq_false_iff, eq_iff ha hb]
  | gt => exact lt_iff hb ha
  | ge => exact le_iff hb ha
  | lt => exact lt_iff ha hb
  | le => exact le_iff ha hb

/-- NaN is different from everything. -/
theorem cmp_nan_left (op : CmpOp) (b : Fp) : cmp op nan b = decide (op = .ne) := by
  cases op <;> simp [cmp]

/-- Everything is different from NaN. -/
theorem cmp_nan_right (op : CmpOp) (a : Fp) : cmp op a nan = decide (op = .ne) := by
  cases op <;> simp [cmp]

/-! ## Integers -/

variable (u : ℕ)

/-- The exact value of an integer. -/
def ofInt (z : ℤ) : Fp := ofUnits (z * u)

/-- The greatest integral value not above. -/
def floor : Fp → Fp
  | nan => nan
  | inf neg => inf neg
  | num neg mag => ofInt u (signed neg mag / u)

/-- The least integral value not below. -/
def ceil : Fp → Fp
  | nan => nan
  | inf neg => inf neg
  | num neg mag => ofInt u (-(-signed neg mag / u))

/-- Truncation towards zero (zero for what is not a finite number). -/
def trunc : Fp → ℤ
  | num neg mag => (signed neg mag).tdiv u
  | _ => 0

variable {u}

/-- An integer is not NaN. -/
@[simp] theorem ofInt_ne_nan (z : ℤ) : ofInt u z ≠ nan := ofUnits_ne_nan _

/-- An integer is not NaN. -/
@[simp] theorem isNan_ofInt (z : ℤ) : (ofInt u z).isNan = false := rfl

/-- The place of an integer in the order. -/
theorem key_ofInt (z : ℤ) :
    (ofInt u z).key = (((z * u : ℤ) : WithTop ℤ) : WithBot (WithTop ℤ)) := key_ofUnits _

/-- An integer is read back. -/
theorem trunc_ofInt (hu : 0 < u) (z : ℤ) : trunc u (ofInt u z) = z := by
  have h : (u : ℤ) ≠ 0 := by exact_mod_cast hu.ne'
  simp only [trunc, ofInt, ofUnits, signed_natAbs]
  exact Int.mul_tdiv_cancel z h

/-- Integers keep their order. -/
theorem key_ofInt_le_iff (hu : 0 < u) (y z : ℤ) : (ofInt u y).key ≤ (ofInt u z).key ↔ y ≤ z := by
  have h : (0 : ℤ) < u := by exact_mod_cast hu
  rw [key_ofInt, key_ofInt, WithBot.coe_le_coe, WithTop.coe_le_coe, mul_le_mul_iff_left₀ h]

/-- Integers keep their order. -/
theorem key_ofInt_lt_iff (hu : 0 < u) (y z : ℤ) : (ofInt u y).key < (ofInt u z).key ↔ y < z := by
  have h : (0 : ℤ) < u := by exact_mod_cast hu
  rw [key_ofInt, key_ofInt, WithBot.coe_lt_coe, WithTop.coe_lt_coe, mul_lt_mul_iff_left₀ h]

/-- Different integers are different. -/
theorem key_ofInt_inj (hu : 0 < u) (y z : ℤ) : (ofInt u y).key = (ofInt u z).key ↔ y = z := by
  have h : (u : ℤ) ≠ 0 := by exact_mod_cast hu.ne'
  rw [key_ofInt, key_ofInt, WithBot.coe_inj, WithTop.coe_inj, mul_left_inj' h]

/-- Integers compare as their exact values do. -/
theorem cmp_ofInt_ofInt (hu : 0 < u) (op : CmpOp) (y z : ℤ) :
    cmp op (ofInt u y) (ofInt u z) = true ↔ op.holds y z := by
  rw [cmp_iff (ofInt_ne_nan y) (ofInt_ne_nan z)]
  cases op with
  | eq => exact key_ofInt_inj hu y z
  | ne => exact (key_ofInt_inj hu y z).not
  | gt => exact key_ofInt_lt_iff hu z y
  | ge => exact key_ofInt_le_iff hu z y
  | lt => exact key_ofInt_lt_iff hu y z
  | le => exact key_ofInt_le_iff hu y z

/-! ## An integer against a finite value -/

section Neighbours

variable {s : Bool} {m : ℕ}

/-- No infinity lies between two integers. -/
theorem not_key_inf_between {neg : Bool} {y z : ℤ}
    (h : (ofInt u y).key ≤ (inf neg).key ∧ (inf neg).key < (ofInt u z).key) : False := by
  rw [key_ofInt, key_ofInt] at h
  cases neg with
  | false => exact absurd (WithBot.coe_lt_coe.mp h.2) not_top_lt
  | true => exact absurd (le_bot_iff.mp h.1) WithBot.coe_ne_bot

/-- The place of a number in the order. -/
theorem key_num (s : Bool) (m : ℕ) :
    (num s m).key = ((signed s m : WithTop ℤ) : WithBot (WithTop ℤ)) := rfl

/-- A finite value is integral when flooring leaves it alone. -/
theorem eq_floor_num_iff (s : Bool) (m : ℕ) :
    eq (floor u (num s m)) (num s m) = true ↔ (u : ℤ) ∣ signed s m := by
  rw [floor, eq_iff (ofInt_ne_nan _) (by simp), key_ofInt, key_num, WithBot.coe_inj,
    WithTop.coe_inj]
  exact ⟨fun h => h ▸ Dvd.intro_left _ rfl, Int.ediv_mul_cancel⟩

/-- An integral value is the exact value of its quotient. -/
theorem key_num_of_dvd (h : (u : ℤ) ∣ signed s m) :
    (num s m).key = (ofInt u (signed s m / u)).key := by
  rw [key_ofInt, Int.ediv_mul_cancel h, key_num]

/-- Truncating an integral value is exact. -/
theorem trunc_num_of_dvd (h : (u : ℤ) ∣ signed s m) : trunc u (num s m) = signed s m / u := by
  rw [trunc, Int.tdiv_eq_ediv_of_dvd h]

/-- The truncation is that of the place. -/
theorem trunc_eq_of_key_eq {a b : Fp} (ha : a ≠ nan) (hb : b ≠ nan) (h : a.key = b.key) :
    trunc u a = trunc u b := by
  rcases a with _ | s | ⟨s, m⟩ <;> rcases b with _ | t | ⟨t, n⟩
  · rfl
  · exact absurd rfl ha
  · exact absurd rfl ha
  · exact absurd rfl hb
  · rfl
  · cases s <;> simp [key] at h
  · exact absurd rfl hb
  · cases t <;> simp [key] at h
  · rw [key_num, key_num, WithBot.coe_inj, WithTop.coe_inj] at h
    rw [trunc, trunc, h]

/-- Rounding an integer to a format leaves an integer, or none. -/
theorem convert_ofInt (F : Format) (e : ℕ) (z : ℤ) :
    (∃ neg, F.convert (ofInt (2 ^ e) z) = inf neg) ∨
      ∃ j : ℤ, (F.convert (ofInt (2 ^ e) z)).key = (ofInt (2 ^ e) j).key ∧
        trunc (2 ^ e) (F.convert (ofInt (2 ^ e) z)) = j := by
  have hdvd : 2 ^ e ∣ (z * (2 ^ e : ℕ)).natAbs := by
    rw [Int.natAbs_mul, Int.natAbs_natCast]
    exact Dvd.intro_left _ rfl
  have hround := F.two_pow_dvd_roundMag hdvd
  rw [ofInt, ofUnits, Format.convert, Format.round]
  split_ifs
  · right
    have hsigned : ((2 ^ e : ℕ) : ℤ) ∣
        signed (decide (z * (2 ^ e : ℕ) < 0)) (F.roundMag (z * (2 ^ e : ℕ)).natAbs) := by
      unfold signed
      split_ifs
      · exact Int.dvd_neg.mpr (Int.natCast_dvd_natCast.mpr hround)
      · exact Int.natCast_dvd_natCast.mpr hround
    exact ⟨_, key_num_of_dvd hsigned, trunc_num_of_dvd hsigned⟩
  · exact .inl ⟨_, rfl⟩

/-- The floor, as an integer. -/
theorem trunc_floor_num (hu : 0 < u) : trunc u (floor u (num s m)) = signed s m / u :=
  trunc_ofInt hu _

/-- The ceiling, as an integer. -/
theorem trunc_ceil_num (hu : 0 < u) : trunc u (ceil u (num s m)) = -(-signed s m / u) :=
  trunc_ofInt hu _

/-- Above a finite value: above its floor. -/
theorem cmp_gt_ofInt_num (hu : 0 < u) (z : ℤ) :
    cmp .gt (ofInt u z) (num s m) = true ↔ signed s m / u < z := by
  have h : (0 : ℤ) < u := by exact_mod_cast hu
  rw [cmp_iff (ofInt_ne_nan z) (by simp), CmpOp.holds, key_ofInt, key_num, WithBot.coe_lt_coe,
    WithTop.coe_lt_coe, Int.ediv_lt_iff_lt_mul h]

/-- Below a finite value: below its ceiling. -/
theorem cmp_lt_ofInt_num (hu : 0 < u) (z : ℤ) :
    cmp .lt (ofInt u z) (num s m) = true ↔ z < -(-signed s m / u) := by
  have h : (0 : ℤ) < u := by exact_mod_cast hu
  have hdiv : -signed s m / u < -z ↔ -signed s m < -z * u := Int.ediv_lt_iff_lt_mul h
  rw [cmp_iff (ofInt_ne_nan z) (by simp), CmpOp.holds, key_ofInt, key_num, WithBot.coe_lt_coe,
    WithTop.coe_lt_coe, lt_neg, hdiv, neg_mul, neg_lt_neg_iff]

/-- No integer is equal to a fraction. -/
theorem cmp_eq_ofInt_num (h : ¬ (u : ℤ) ∣ signed s m) (z : ℤ) :
    cmp .eq (ofInt u z) (num s m) = false := by
  rw [Bool.eq_false_iff, ne_eq, cmp_iff (ofInt_ne_nan z) (by simp), CmpOp.holds, key_ofInt, key_num,
    WithBot.coe_inj, WithTop.coe_inj]
  exact fun hz => h (hz ▸ Dvd.intro_left z rfl)

/-- A value that is not integral differs from every integer, so `≥` is `>` there. -/
theorem cmp_ge_ofInt_num (h : ¬ (u : ℤ) ∣ signed s m) (z : ℤ) :
    cmp .ge (ofInt u z) (num s m) = cmp .gt (ofInt u z) (num s m) := by
  have hne := cmp_eq_ofInt_num h z
  rw [Bool.eq_false_iff, ne_eq, cmp_iff (ofInt_ne_nan z) (by simp)] at hne
  rw [Bool.eq_iff_iff, cmp_iff (ofInt_ne_nan z) (by simp), cmp_iff (ofInt_ne_nan z) (by simp)]
  exact ⟨fun hle => lt_of_le_of_ne hle (Ne.symm hne), le_of_lt⟩

/-- At most a fraction is below it. -/
theorem cmp_le_ofInt_num (h : ¬ (u : ℤ) ∣ signed s m) (z : ℤ) :
    cmp .le (ofInt u z) (num s m) = cmp .lt (ofInt u z) (num s m) := by
  have hne := cmp_eq_ofInt_num h z
  rw [Bool.eq_false_iff, ne_eq, cmp_iff (ofInt_ne_nan z) (by simp)] at hne
  rw [Bool.eq_iff_iff, cmp_iff (ofInt_ne_nan z) (by simp), cmp_iff (ofInt_ne_nan z) (by simp)]
  exact ⟨fun hle => lt_of_le_of_ne hle hne, le_of_lt⟩

end Neighbours

end Fp

end SimpleOlap.Lib
