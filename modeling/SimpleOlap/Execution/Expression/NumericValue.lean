import SimpleOlap.Execution.Expression.ExecExpression

/-!
# Exact coercion of numeric literals

A literal becomes a constant of a column type only where nothing is lost.

* `NumericConstant`, `tryCoerceExact`: the constants, and the coercion of a literal.
* `tryCoerceExact_eq_some`: a coerced literal has its value.

Source: `numeric_value.h`.
-/

namespace SimpleOlap

open Lib

/-- Source: `numeric_value.h` NumericConstant. -/
inductive NumericConstant
  | int32 (v : Int32)
  | int64 (v : Int64)
  | float (v : Single)
  | double (v : Double)
  deriving DecidableEq

/-- The alternative that is held. -/
def NumericConstant.dataType : NumericConstant → DataType
  | .int32 _ => .int32
  | .int64 _ => .int64
  | .float _ => .float
  | .double _ => .double

/-- The exact value. -/
def NumericConstant.value : NumericConstant → Fp
  | .int32 v => .ofInt unit v.toInt
  | .int64 v => .ofInt unit v.toInt
  | .float v => v.val
  | .double v => v.val

/-- Source: `numeric_value.h` DoubleToInt64Exact. -/
def doubleToInt64Exact (v : Double) : Option Int64 :=
  if v.val.isNan then none
  else if v.val.lt (Double.ofInt (-2 ^ 63)).val || (Double.ofInt (2 ^ 63)).val.le v.val then none
  else if !v.val.eq (Double.ofInt (ExecValue.toInt64 v.val).toInt).val then none
  else some (ExecValue.toInt64 v.val)

/-- Source: `numeric_value.h` CoerceFromInt64. -/
def coerceFromInt64 (src : Int64) (target : DataType) : Option NumericConstant :=
  match target with
  | .int32 => if -2 ^ 31 ≤ src.toInt ∧ src.toInt ≤ 2 ^ 31 - 1 then some (.int32 src.toInt32) else none
  | .int64 => some (.int64 src)
  | .float =>
    if -16777216 ≤ src.toInt ∧ src.toInt ≤ 16777216 then some (.float (toSingle (.ofInt unit src.toInt)))
    else none
  | .double =>
    let d := Double.ofInt src.toInt
    if (Double.ofInt (-2 ^ 63)).val.le d.val && d.val.lt (Double.ofInt (2 ^ 63)).val &&
        ExecValue.toInt64 d.val = src then some (.double d)
    else none
  | _ => none

/-- Source: `numeric_value.h` CoerceFromDouble. -/
def coerceFromDouble (src : Double) (target : DataType) : Option NumericConstant :=
  match target with
  | .float => if src.narrow.widen.val.eq src.val then some (.float src.narrow) else none
  | .double => some (.double src)
  | .int32 => do
    let i ← doubleToInt64Exact src
    if i.toInt < -2 ^ 31 ∨ 2 ^ 31 - 1 < i.toInt then none else some (.int32 i.toInt32)
  | .int64 => do
    let i ← doubleToInt64Exact src
    return .int64 i
  | _ => none

/-- Source: `numeric_value.h` TryCoerceExact. -/
def tryCoerceExact (value : ExecValue) (target : DataType) : Option NumericConstant :=
  match value with
  | .int32 v => coerceFromInt64 v.toInt64 target
  | .int64 v => coerceFromInt64 v target
  | .float v => coerceFromDouble v.widen target
  | .double v => coerceFromDouble v target
  | .string _ | .bool _ => none

/-! ## Nothing is lost -/

/-- Two values at the same place, NaN apart. -/
def SameNumber (a b : Fp) : Prop := a ≠ .nan → b ≠ .nan ∧ b.key = a.key

theorem SameNumber.refl (a : Fp) : SameNumber a a := fun h => ⟨h, rfl⟩

theorem int64_bounds :
    (Double.ofInt (-2 ^ 63)).val = .ofInt unit (-2 ^ 63) ∧
      (Double.ofInt (2 ^ 63)).val = .ofInt unit (2 ^ 63) :=
  ⟨Double.val_ofInt_two_pow (j := 63) (by decide) (by decide),
    Double.val_ofInt_two_pow (j := 63) (by decide) (by decide)⟩

/-- The cast of a double that came from an integer, within the range of the type. -/
theorem exists_toInt64_ofInt {z : ℤ} {v : Fp} (hv : v ≠ .nan) (hz : v.key = (Double.ofInt z).val.key)
    (hlo : ¬ v.key < (Fp.ofInt unit (-2 ^ 63)).key) (hhi : v.key < (Fp.ofInt unit (2 ^ 63)).key) :
    ∃ j : ℤ, v.key = (Fp.ofInt unit j).key ∧ (ExecValue.toInt64 v).toInt = j := by
  have hnan := Double.ofInt_ne_nan z
  have hconv := Fp.convert_ofInt binary64 unitLog z
  rw [← unit_eq] at hconv
  rcases hconv with ⟨neg, hinf⟩ | ⟨j, hj, htrunc⟩
  · have hval : (Double.ofInt z).val = .inf neg := hinf
    rw [hz, hval] at hlo hhi
    rw [Fp.key_ofInt] at hlo hhi
    cases neg with
    | true => exact absurd (WithBot.bot_lt_coe _) hlo
    | false => exact absurd (WithBot.coe_lt_coe.mp hhi) not_top_lt
  · have hkey : v.key = (Fp.ofInt unit j).key := hz.trans hj
    have htrunc' : v.trunc unit = j := (Fp.trunc_eq_of_key_eq hv hnan hz).trans htrunc
    rw [hkey, Fp.key_ofInt_lt_iff unit_pos] at hlo hhi
    have hrange : -2 ^ 63 ≤ j ∧ j < 2 ^ 63 := ⟨not_lt.mp hlo, hhi⟩
    refine ⟨j, hkey, ?_⟩
    rw [ExecValue.toInt64, htrunc', if_pos hrange, Int64.toInt_ofInt_of_le hrange.1 hrange.2]

theorem doubleToInt64Exact_eq_some {v : Double} {i : Int64} (h : doubleToInt64Exact v = some i) :
    v.val ≠ .nan ∧ v.val.key = (Fp.ofInt unit i.toInt).key := by
  rw [doubleToInt64Exact] at h
  split_ifs at h with hnan hrange heq
  obtain rfl := Option.some_inj.mp h
  have hv : v.val ≠ .nan := Fp.isNan_eq_false_iff.mp (Bool.eq_false_iff.mpr hnan)
  rw [Bool.or_eq_true, not_or, int64_bounds.1, int64_bounds.2, Fp.lt_iff hv (Fp.ofInt_ne_nan _),
    Fp.le_iff (Fp.ofInt_ne_nan _) hv, not_le] at hrange
  have hkey := (Fp.eq_iff hv (Double.ofInt_ne_nan _)).mp (by simpa using heq)
  obtain ⟨j, hj, hcast⟩ := exists_toInt64_ofInt hv hkey hrange.1 hrange.2
  exact ⟨hv, by rw [hcast, hj]⟩

theorem toInt_toInt32_of_le {v : Int64} (hlo : -2 ^ 31 ≤ v.toInt) (hhi : v.toInt ≤ 2 ^ 31 - 1) :
    v.toInt32.toInt = v.toInt := by
  rw [Int64.toInt_toInt32]
  exact Int.bmod_eq_of_le (by omega) (by omega)

theorem coerceFromInt64_eq_some {src : Int64} {target : DataType} {c : NumericConstant}
    (h : coerceFromInt64 src target = some c) :
    c.dataType = target ∧ SameNumber (.ofInt unit src.toInt) c.value := by
  unfold coerceFromInt64 at h
  split at h
  · split_ifs at h with hrange
    obtain rfl := Option.some_inj.mp h
    refine ⟨rfl, ?_⟩
    rw [NumericConstant.value, toInt_toInt32_of_le hrange.1 hrange.2]
    exact SameNumber.refl _
  · obtain rfl := Option.some_inj.mp h
    exact ⟨rfl, SameNumber.refl _⟩
  · split_ifs at h with hrange
    obtain rfl := Option.some_inj.mp h
    refine ⟨rfl, ?_⟩
    have hmem : binary32.Mem (.ofInt unit src.toInt) := by
      rcases Nat.lt_or_ge src.toInt.natAbs (2 ^ 24) with hlt | hge
      · exact Format.mem_ofUnits (natAbs_mul_unit _) hlt (by decide) (by decide)
      · have habs : (src.toInt * (unit : ℤ)).natAbs = 1 * 2 ^ (24 + unitLog) := by
          have hmax : src.toInt.natAbs = 2 ^ 24 := by omega
          rw [natAbs_mul_unit, hmax, one_mul, pow_add]
        exact Format.mem_ofUnits habs (by decide) (by decide) (by decide)
    have hval : (NumericConstant.float (toSingle (.ofInt unit src.toInt))).value =
        .ofInt unit src.toInt := binary32.convert_of_mem hmem
    rw [hval]
    exact SameNumber.refl _
  · simp only at h
    split_ifs at h with hrange
    obtain rfl := Option.some_inj.mp h
    refine ⟨rfl, fun _ => ⟨Double.ofInt_ne_nan _, ?_⟩⟩
    have hnan := Double.ofInt_ne_nan src.toInt
    rw [Bool.and_eq_true, Bool.and_eq_true, int64_bounds.1, int64_bounds.2,
      Fp.le_iff (Fp.ofInt_ne_nan _) hnan, Fp.lt_iff hnan (Fp.ofInt_ne_nan _),
      decide_eq_true_eq] at hrange
    obtain ⟨⟨hlo, hhi⟩, hcast⟩ := hrange
    obtain ⟨j, hj, hint⟩ := exists_toInt64_ofInt hnan rfl (not_lt.mpr hlo) hhi
    rw [NumericConstant.value, hj, ← hint, hcast]
  · cases h

theorem coerceFromDouble_eq_some {src : Double} {target : DataType} {c : NumericConstant}
    (h : coerceFromDouble src target = some c) :
    c.dataType = target ∧ SameNumber src.val c.value := by
  unfold coerceFromDouble at h
  split at h
  · split_ifs at h with heq
    obtain rfl := Option.some_inj.mp h
    rw [Single.val_widen] at heq
    refine ⟨rfl, fun hsrc => ?_⟩
    have hnarrow : src.narrow.val ≠ .nan := binary32.convert_ne_nan hsrc
    exact ⟨hnarrow, (Fp.eq_iff hnarrow hsrc).mp heq⟩
  · obtain rfl := Option.some_inj.mp h
    exact ⟨rfl, SameNumber.refl _⟩
  · obtain ⟨i, hi, hc⟩ := Option.bind_eq_some_iff.mp h
    split_ifs at hc with hrange
    obtain rfl := Option.some_inj.mp hc
    have hkey := (doubleToInt64Exact_eq_some hi).2
    refine ⟨rfl, fun _ => ⟨Fp.ofInt_ne_nan _, ?_⟩⟩
    rw [NumericConstant.value, toInt_toInt32_of_le (by omega) (by omega), hkey]
  · obtain ⟨i, hi, hc⟩ := Option.bind_eq_some_iff.mp h
    obtain rfl := Option.some_inj.mp hc
    exact ⟨rfl, fun _ => ⟨Fp.ofInt_ne_nan _, (doubleToInt64Exact_eq_some hi).2.symm⟩⟩
  · cases h

/-- NaN stays NaN. -/
theorem nan_of_tryCoerceExact {value : ExecValue} {target : DataType} {c : NumericConstant}
    (h : tryCoerceExact value target = some c) (hnan : value.asNumber = .ok .nan) : c.value = .nan := by
  have hdouble : ∀ {v : Double}, v.val = .nan → coerceFromDouble v target = some c → c.value = .nan := by
    intro v hv h
    have hint : doubleToInt64Exact v = none := by
      rw [doubleToInt64Exact, hv]
      rfl
    unfold coerceFromDouble at h
    split at h
    · rw [hv, Fp.eq_nan_right] at h
      cases h
    · obtain rfl := Option.some_inj.mp h
      exact hv
    · rw [hint] at h
      cases h
    · rw [hint] at h
      cases h
    · cases h
  cases value with
  | int32 v => exact absurd (Except.ok.inj hnan) (Fp.ofInt_ne_nan _)
  | int64 v => exact absurd (Except.ok.inj hnan) (Fp.ofInt_ne_nan _)
  | float v => exact hdouble ((Single.val_widen v).trans (Except.ok.inj hnan)) h
  | double v => exact hdouble (Except.ok.inj hnan) h
  | string v => cases hnan
  | bool v => cases h

/-- **A coerced literal is a constant of the type, with the literal's value.** -/
theorem tryCoerceExact_eq_some {value : ExecValue} {target : DataType} {c : NumericConstant}
    (h : tryCoerceExact value target = some c) :
    c.dataType = target ∧ ∃ a, value.asNumber = .ok a ∧ SameNumber a c.value := by
  cases value with
  | int32 v =>
    obtain ⟨htype, hsame⟩ := coerceFromInt64_eq_some h
    rw [Int32.toInt_toInt64] at hsame
    exact ⟨htype, _, rfl, hsame⟩
  | int64 v =>
    obtain ⟨htype, hsame⟩ := coerceFromInt64_eq_some h
    exact ⟨htype, _, rfl, hsame⟩
  | float v =>
    obtain ⟨htype, hsame⟩ := coerceFromDouble_eq_some h
    rw [Single.val_widen] at hsame
    exact ⟨htype, _, rfl, hsame⟩
  | double v =>
    obtain ⟨htype, hsame⟩ := coerceFromDouble_eq_some h
    exact ⟨htype, _, rfl, hsame⟩
  | string v => cases h
  | bool v => cases h

theorem ne_nan_of_coerceFromDouble {src : Double} {target : DataType} {c : NumericConstant}
    (htarget : target = .int32 ∨ target = .int64) (h : coerceFromDouble src target = some c) :
    src.val ≠ .nan := by
  rcases htarget with rfl | rfl
  · obtain ⟨i, hi, -⟩ := Option.bind_eq_some_iff.mp h
    exact (doubleToInt64Exact_eq_some hi).1
  · obtain ⟨i, hi, -⟩ := Option.bind_eq_some_iff.mp h
    exact (doubleToInt64Exact_eq_some hi).1

/-- NaN is no constant of an integer type. -/
theorem ne_nan_of_tryCoerceExact {value : ExecValue} {target : DataType} {c : NumericConstant}
    {number : Fp} (htarget : target = .int32 ∨ target = .int64)
    (h : tryCoerceExact value target = some c) (hnumber : value.asNumber = .ok number) :
    number ≠ .nan := by
  cases value with
  | int32 v =>
    cases hnumber
    exact Fp.ofInt_ne_nan _
  | int64 v =>
    cases hnumber
    exact Fp.ofInt_ne_nan _
  | float v =>
    cases hnumber
    have hwiden := ne_nan_of_coerceFromDouble htarget h
    rwa [Single.val_widen] at hwiden
  | double v =>
    cases hnumber
    exact ne_nan_of_coerceFromDouble htarget h
  | string v => cases h
  | bool v => cases h

end SimpleOlap
