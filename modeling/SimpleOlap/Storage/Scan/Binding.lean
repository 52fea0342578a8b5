import SimpleOlap.Storage.Scan.Predicate

/-!
# Binding is exact

What a prepared predicate says about a cell is the exact comparison of the cell's value with the
constant, as the column type sees the constant.

* `passes_setIntegerConstantPredicate`, `passes_setIntegerDoublePredicate`: integer columns compare
  with the mathematical value of the constant, fractional, out of range, infinite or NaN.
* `doubleToInt64_floor`, `doubleToInt64_ceil`: the casts the binding performs are in range.
* `passes_prepare`: all four column types and all three kinds of constants at once.
-/

namespace SimpleOlap

open Lib PreparedScanPredicates

/-- A double that is not integral is below `2 ^ 53`. -/
theorem Double.mag_lt_of_not_dvd {s : Bool} {m : ℕ} (h : binary64.Mem (.num s m))
    (hd : ¬ unit ∣ m) : m < 2 ^ 53 * unit := by
  have hq : binary64.quantum m < unitLog := by
    by_contra hge
    have hdvd : (2 : ℕ) ^ unitLog ∣ m := dvd_trans (pow_dvd_pow 2 (Nat.not_lt.mp hge)) h.1
    exact hd (unit_eq ▸ hdvd)
  calc m < 2 ^ (53 + binary64.quantum m) := binary64.lt_two_pow_quantum m
    _ ≤ 2 ^ (53 + unitLog) := Nat.pow_le_pow_right (by decide) (by omega)
    _ = 2 ^ 53 * unit := by rw [pow_add, unit_eq]

/-! ## Integer constants -/

/-- A cell of an integer column lies within the type's bounds. -/
theorem exists_cellValue_eq_ofInt {type : DataType} (h : type = .int32 ∨ type = .int64) (c : Bytes) :
    ∃ v : ℤ, cellValue type c = .ofInt unit v ∧
      (integerBounds type).1 ≤ v ∧ v ≤ (integerBounds type).2 := by
  rcases h with rfl | rfl
  · refine ⟨(Numeric.read c : Int32).toInt, rfl, ?_, ?_⟩
    · exact Int32.le_toInt _
    · exact Int.le_sub_one_of_lt (Int32.toInt_lt _)
  · refine ⟨(Numeric.read c : Int64).toInt, rfl, ?_, ?_⟩
    · exact Int64.le_toInt _
    · exact Int.le_sub_one_of_lt (Int64.toInt_lt _)

/-- Beyond the range of the column the result does not depend on the cell. -/
theorem passes_outOfRangeKind {p : PreparedStoragePredicate} {c : Bytes} {v : Fp} {op : CmpOp}
    {l : Fp} {below : Bool} (hv : v ≠ .nan) (hl : l ≠ .nan)
    (h : if below then l.key < v.key else v.key < l.key) :
    PreparedStoragePredicate.passes { p with kind := outOfRangeKind op below } c =
      Fp.cmp op v l := by
  rw [Bool.eq_iff_iff, Fp.cmp_iff hv hl]
  cases below with
  | true =>
    have hlt : l.key < v.key := by simpa using h
    cases op <;> simp [PreparedStoragePredicate.passes, outOfRangeKind, CmpOp.holds, hlt, hlt.ne',
      hlt.le, hlt.not_gt, hlt.not_ge]
  | false =>
    have hlt : v.key < l.key := by simpa using h
    cases op <;> simp [PreparedStoragePredicate.passes, outOfRangeKind, CmpOp.holds, hlt, hlt.ne,
      hlt.le, hlt.not_gt, hlt.not_ge]

/-- **An integer column against an integer constant.** -/
theorem passes_setIntegerConstantPredicate {p : PreparedStoragePredicate}
    (h : p.type = .int32 ∨ p.type = .int64) (op : CmpOp) (value : Int64) (c : Bytes) :
    (setIntegerConstantPredicate (integerBounds p.type).1 (integerBounds p.type).2 op value p).passes
      c = Fp.cmp op (cellValue p.type c) (.ofInt unit value.toInt) := by
  obtain ⟨v, hv, hlo, hhi⟩ := exists_cellValue_eq_ofInt h c
  unfold setIntegerConstantPredicate
  by_cases hout : value.toInt < (integerBounds p.type).1 ∨ (integerBounds p.type).2 < value.toInt
  · rw [if_pos hout, hv]
    apply passes_outOfRangeKind (Fp.ofInt_ne_nan v) (Fp.ofInt_ne_nan _)
    by_cases hlow : value.toInt < (integerBounds p.type).1
    · have hlt : value.toInt < v := lt_of_lt_of_le hlow hlo
      simpa only [hlow, decide_true, if_true] using (Fp.key_ofInt_lt_iff unit_pos _ _).mpr hlt
    · have hlt : v < value.toInt := lt_of_le_of_lt hhi (hout.resolve_left hlow)
      simpa only [hlow, decide_false, Bool.false_eq_true, if_false] using
        (Fp.key_ofInt_lt_iff unit_pos _ _).mpr hlt
  · rw [if_neg hout]
    rw [not_or, not_lt, not_lt] at hout
    rcases h with ht | ht
    · -- the cast to int32 is in range
      rw [ht] at hout
      have hcast : value.toInt32.toInt = value.toInt := by
        rw [Int64.toInt_toInt32]
        exact Int.bmod_eq_of_le hout.1 (Int.lt_of_le_sub_one hout.2)
      simp only [ht, if_true, PreparedStoragePredicate.passes, cellValue]
      rw [compareTypedValue_eq, ← hcast]
      rfl
    · simp only [ht, reduceCtorEq, if_false, PreparedStoragePredicate.passes, cellValue]
      rw [compareTypedValue_eq]
      rfl

/-! ## Double constants -/

/-- The bounds of an integer type, as doubles, are exact. -/
theorem val_integerBounds {type : DataType} (h : type = .int32 ∨ type = .int64) :
    (Double.ofInt (integerBounds type).1).val = .ofInt unit (integerBounds type).1 ∧
      (Double.ofInt ((integerBounds type).2 + 1)).val = .ofInt unit ((integerBounds type).2 + 1) := by
  rcases h with rfl | rfl
  · exact ⟨Double.val_ofInt_two_pow (j := 31) (by decide) (by decide),
      Double.val_ofInt_two_pow (j := 31) (by decide) (by decide)⟩
  · exact ⟨Double.val_ofInt_two_pow (j := 63) (by decide) (by decide),
      Double.val_ofInt_two_pow (j := 63) (by decide) (by decide)⟩

theorem integerBounds_le (type : DataType) :
    -2 ^ 63 ≤ (integerBounds type).1 ∧ (integerBounds type).2 < 2 ^ 63 := by
  cases type <;> decide

/-- A cast of an integral value of the int64 range is exact. -/
theorem toInt_doubleToInt64 {d : Fp} {z : ℤ} (hd : d.trunc unit = z) (hlo : -2 ^ 63 ≤ z)
    (hhi : z < 2 ^ 63) : (doubleToInt64 d).toInt = z := by
  rw [doubleToInt64, hd, Int64.toInt_ofInt_of_le hlo hhi]

section Finite

variable {s : Bool} {m : ℕ} {lo hi : ℤ}

/-- The floor of a value in the range is in the range. -/
theorem floor_mem_range (hlo : (Fp.ofInt unit lo).key ≤ (Fp.num s m).key)
    (hhi : (Fp.num s m).key < (Fp.ofInt unit (hi + 1)).key) :
    lo ≤ Fp.signed s m / unit ∧ Fp.signed s m / unit ≤ hi := by
  have hu : (0 : ℤ) < unit := by exact_mod_cast unit_pos
  rw [Fp.key_ofInt, Fp.key_num, WithBot.coe_le_coe, WithTop.coe_le_coe] at hlo
  rw [Fp.key_ofInt, Fp.key_num, WithBot.coe_lt_coe, WithTop.coe_lt_coe] at hhi
  exact ⟨(Int.le_ediv_iff_mul_le hu).mpr hlo,
    Int.le_of_lt_add_one ((Int.ediv_lt_iff_lt_mul hu).mpr hhi)⟩

/-- The ceiling of a double that is not integral is small. -/
theorem ceil_mem_range (h : binary64.Mem (.num s m)) (hd : ¬ (unit : ℤ) ∣ Fp.signed s m) :
    -2 ^ 63 ≤ -(-Fp.signed s m / unit) ∧ -(-Fp.signed s m / unit) < 2 ^ 63 := by
  have hu : (0 : ℤ) < unit := by exact_mod_cast unit_pos
  have hmag : m < 2 ^ 53 * unit := by
    apply Double.mag_lt_of_not_dvd h
    intro hdvd
    apply hd
    have : (unit : ℤ) ∣ (m : ℤ) := Int.natCast_dvd_natCast.mpr hdvd
    cases s
    · simpa [Fp.signed] using this
    · simpa [Fp.signed] using this
  have hmag' : (m : ℤ) < 2 ^ 53 * unit := by exact_mod_cast hmag
  have habs : |Fp.signed s m| < 2 ^ 53 * unit := by
    cases s <;> simpa [Fp.signed] using hmag'
  rw [abs_lt] at habs
  have hup : -Fp.signed s m / unit < 2 ^ 53 := (Int.ediv_lt_iff_lt_mul hu).mpr (by linarith)
  have hlow : -2 ^ 53 ≤ -Fp.signed s m / unit := (Int.le_ediv_iff_mul_le hu).mpr (by linarith)
  constructor <;> omega

end Finite

/-- A constant outside of the range lies on one side of all values of the range. -/
theorem key_outOfRange {a : Fp} {lo hi v : ℤ} (hnan : a ≠ .nan) (hlo : lo ≤ v) (hhi : v ≤ hi)
    (hout : ¬ ((Fp.ofInt unit lo).le a && a.lt (Fp.ofInt unit (hi + 1))) = true) :
    if !(Fp.ofInt unit (hi + 1)).le a then a.key < (Fp.ofInt unit v).key
    else (Fp.ofInt unit v).key < a.key := by
  by_cases hbig : (Fp.ofInt unit (hi + 1)).le a = true
  · have hle := (Fp.le_iff (Fp.ofInt_ne_nan _) hnan).mp hbig
    have hlt := (Fp.key_ofInt_lt_iff unit_pos v (hi + 1)).mpr (by omega)
    simpa [hbig] using lt_of_lt_of_le hlt hle
  · have hlt : a.key < (Fp.ofInt unit (hi + 1)).key :=
      not_le.mp fun hle => hbig ((Fp.le_iff (Fp.ofInt_ne_nan _) hnan).mpr hle)
    have hlt' := (Fp.lt_iff hnan (Fp.ofInt_ne_nan _)).mpr hlt
    have hnle : ¬ (Fp.ofInt unit lo).key ≤ a.key := by
      intro hle
      exact hout (by simp [(Fp.le_iff (Fp.ofInt_ne_nan _) hnan).mpr hle, hlt'])
    have hge := (Fp.key_ofInt_le_iff unit_pos lo v).mpr hlo
    simpa [hbig] using lt_of_lt_of_le (not_le.mp hnle) hge

section Constant

variable {p : PreparedStoragePredicate} {s : Bool} {m : ℕ}

/-- An integral constant is compared as an integer. -/
theorem passes_integral (h : p.type = .int32 ∨ p.type = .int64) (op : CmpOp) (c : Bytes)
    (hint : (unit : ℤ) ∣ Fp.signed s m) (hlo : -2 ^ 63 ≤ Fp.signed s m / unit)
    (hhi : Fp.signed s m / unit < 2 ^ 63) :
    (setIntegerConstantPredicate (integerBounds p.type).1 (integerBounds p.type).2 op
      (doubleToInt64 (Fp.num s m)) p).passes c = Fp.cmp op (cellValue p.type c) (.num s m) := by
  obtain ⟨v, hv, -, -⟩ := exists_cellValue_eq_ofInt h c
  have hcast : (doubleToInt64 (Fp.num s m)).toInt = Fp.signed s m / unit :=
    toInt_doubleToInt64 (Fp.trunc_num_of_dvd hint) hlo hhi
  have hnum : Fp.num s m ≠ .nan := nofun
  rw [passes_setIntegerConstantPredicate h, hcast, hv, Bool.eq_iff_iff,
    Fp.cmp_iff (Fp.ofInt_ne_nan v) (Fp.ofInt_ne_nan _), Fp.cmp_iff (Fp.ofInt_ne_nan v) hnum, Fp.key_num_of_dvd hint]

/-- Above a constant is above its floor. -/
theorem passes_gt_floor (h : p.type = .int32 ∨ p.type = .int64) (c : Bytes)
    (hlo : -2 ^ 63 ≤ Fp.signed s m / unit) (hhi : Fp.signed s m / unit < 2 ^ 63) :
    (setIntegerConstantPredicate (integerBounds p.type).1 (integerBounds p.type).2 .gt
      (doubleToInt64 ((Fp.num s m).floor unit)) p).passes c =
        Fp.cmp .gt (cellValue p.type c) (.num s m) := by
  obtain ⟨v, hv, -, -⟩ := exists_cellValue_eq_ofInt h c
  have hfloor : (doubleToInt64 ((Fp.num s m).floor unit)).toInt = Fp.signed s m / unit :=
    toInt_doubleToInt64 (Fp.trunc_floor_num unit_pos) hlo hhi
  rw [passes_setIntegerConstantPredicate h, hfloor, hv, Bool.eq_iff_iff,
    Fp.cmp_ofInt_ofInt unit_pos, Fp.cmp_gt_ofInt_num unit_pos]
  rfl

/-- Below a constant that is not integral is below its ceiling. -/
theorem passes_lt_ceil (h : p.type = .int32 ∨ p.type = .int64) (c : Bytes)
    (hmem : binary64.Mem (.num s m)) (hint : ¬ (unit : ℤ) ∣ Fp.signed s m) :
    (setIntegerConstantPredicate (integerBounds p.type).1 (integerBounds p.type).2 .lt
      (doubleToInt64 ((Fp.num s m).ceil unit)) p).passes c =
        Fp.cmp .lt (cellValue p.type c) (.num s m) := by
  obtain ⟨v, hv, -, -⟩ := exists_cellValue_eq_ofInt h c
  obtain ⟨hclo, hchi⟩ := ceil_mem_range hmem hint
  have hceil : (doubleToInt64 ((Fp.num s m).ceil unit)).toInt = -(-Fp.signed s m / unit) :=
    toInt_doubleToInt64 (Fp.trunc_ceil_num unit_pos) hclo hchi
  rw [passes_setIntegerConstantPredicate h, hceil, hv, Bool.eq_iff_iff,
    Fp.cmp_ofInt_ofInt unit_pos, Fp.cmp_lt_ofInt_num unit_pos]
  rfl

end Constant

/-- **An integer column against a double constant.** -/
theorem passes_setIntegerDoublePredicate {p : PreparedStoragePredicate}
    (h : p.type = .int32 ∨ p.type = .int64) (op : CmpOp) (d : Double) (c : Bytes) :
    (setIntegerDoublePredicate (integerBounds p.type).1 (integerBounds p.type).2
      (Double.ofInt (integerBounds p.type).1) (Double.ofInt ((integerBounds p.type).2 + 1)) op d
      p).passes c = Fp.cmp op (cellValue p.type c) d.val := by
  obtain ⟨v, hv, hlo, hhi⟩ := exists_cellValue_eq_ofInt h c
  obtain ⟨hloD, hhiD⟩ := val_integerBounds h
  have hb := integerBounds_le p.type
  obtain ⟨a, ha⟩ := d
  unfold setIntegerDoublePredicate
  simp only [hloD, hhiD]
  by_cases hnan : a = .nan
  · -- NaN satisfies `≠` only
    subst hnan
    rw [hv, Fp.cmp_nan_right]
    by_cases hop : op = .ne <;> simp [Fp.isNan, hop, PreparedStoragePredicate.passes]
  by_cases hin : ((Fp.ofInt unit (integerBounds p.type).1).le a &&
      a.lt (Fp.ofInt unit ((integerBounds p.type).2 + 1))) = true
  swap
  · -- out of range, infinities included
    rw [if_pos hin, if_neg (by simpa [Fp.isNan_iff] using hnan), hv]
    exact passes_outOfRangeKind (Fp.ofInt_ne_nan v) hnan (key_outOfRange hnan hlo hhi hin)
  rw [if_neg (not_not.mpr hin)]
  rw [Bool.and_eq_true, Fp.le_iff (Fp.ofInt_ne_nan _) hnan, Fp.lt_iff hnan (Fp.ofInt_ne_nan _)] at hin
  -- a value in the range is finite
  rcases a with _ | neg | ⟨s, m⟩
  · exact absurd rfl hnan
  · exact absurd hin Fp.not_key_inf_between
  obtain ⟨hq, hq'⟩ := floor_mem_range hin.1 hin.2
  have hqlo : -2 ^ 63 ≤ Fp.signed s m / unit := by omega
  have hqhi : Fp.signed s m / unit < 2 ^ 63 := by omega
  by_cases hint : (unit : ℤ) ∣ Fp.signed s m
  · rw [if_pos ((Fp.eq_floor_num_iff s m).mpr hint)]
    exact passes_integral h op c hint hqlo hqhi
  rw [if_neg fun heq => hint ((Fp.eq_floor_num_iff s m).mp heq)]
  have hgt := passes_gt_floor h c hqlo hqhi
  have hlt := passes_lt_ceil h c ha hint
  cases op with
  | eq => rw [hv, Fp.cmp_eq_ofInt_num hint]; rfl
  | ne =>
    have heq := Fp.cmp_eq_ofInt_num hint v
    rw [Fp.cmp] at heq
    rw [hv, Fp.cmp, heq]
    rfl
  | gt => exact hgt
  | ge => rw [hv, Fp.cmp_ge_ofInt_num hint, ← hv]; exact hgt
  | lt => exact hlt
  | le => rw [hv, Fp.cmp_le_ofInt_num hint, ← hv]; exact hlt

/-! ## All column types -/

/-- The constant of a typed comparison is of the column's type. -/
def PreparedStoragePredicate.WellTyped (p : PreparedStoragePredicate) : Prop :=
  p.kind = .typedCompare → p.value.dataType = p.type

theorem outOfRangeKind_ne (op : CmpOp) (below : Bool) :
    outOfRangeKind op below ≠ .typedCompare := by
  cases op <;> cases below <;> decide

/-- Binding an integer constant keeps slot and type. -/
theorem setIntegerConstantPredicate_spec {p : PreparedStoragePredicate}
    (h : p.type = .int32 ∨ p.type = .int64) (lo hi : ℤ) (op : CmpOp) (value : Int64) :
    (setIntegerConstantPredicate lo hi op value p).outputSlot = p.outputSlot ∧
      (setIntegerConstantPredicate lo hi op value p).type = p.type ∧
      (setIntegerConstantPredicate lo hi op value p).WellTyped := by
  unfold setIntegerConstantPredicate
  by_cases hout : value.toInt < lo ∨ hi < value.toInt
  · rw [if_pos hout]
    exact ⟨rfl, rfl, fun hk => absurd hk (outOfRangeKind_ne _ _)⟩
  · rw [if_neg hout]
    refine ⟨rfl, rfl, fun _ => ?_⟩
    rcases h with h | h <;> simp [h, TypedValue.dataType]

/-- Binding a double constant keeps slot and type. -/
theorem setIntegerDoublePredicate_spec {p : PreparedStoragePredicate}
    (h : p.type = .int32 ∨ p.type = .int64) (lo hi : ℤ) (loD hiExclD : Double) (op : CmpOp)
    (d : Double) :
    (setIntegerDoublePredicate lo hi loD hiExclD op d p).outputSlot = p.outputSlot ∧
      (setIntegerDoublePredicate lo hi loD hiExclD op d p).type = p.type ∧
      (setIntegerDoublePredicate lo hi loD hiExclD op d p).WellTyped := by
  have hconst : ∀ kind : PredicateKind, kind ≠ .typedCompare →
      PreparedStoragePredicate.WellTyped { p with kind := kind } := fun kind hk hk' => absurd hk' hk
  unfold setIntegerDoublePredicate
  by_cases hin : ¬ (loD.val.le d.val && d.val.lt hiExclD.val) = true
  · rw [if_pos hin]
    by_cases hnan : d.val.isNan = true
    · rw [if_pos hnan]
      exact ⟨rfl, rfl, hconst _ (by split_ifs <;> decide)⟩
    · rw [if_neg hnan]
      exact ⟨rfl, rfl, hconst _ (outOfRangeKind_ne _ _)⟩
  · rw [if_neg hin]
    by_cases hfl : (d.val.floor unit).eq d.val = true
    · rw [if_pos hfl]
      exact setIntegerConstantPredicate_spec h lo hi op _
    · rw [if_neg hfl]
      cases op with
      | eq => exact ⟨rfl, rfl, hconst _ (by decide)⟩
      | ne => exact ⟨rfl, rfl, hconst _ (by decide)⟩
      | gt => exact setIntegerConstantPredicate_spec h lo hi .gt _
      | ge => exact setIntegerConstantPredicate_spec h lo hi .gt _
      | lt => exact setIntegerConstantPredicate_spec h lo hi .lt _
      | le => exact setIntegerConstantPredicate_spec h lo hi .lt _

/-- A prepared predicate: the right slot and type, and answers that are the exact comparisons of the
cell with the constant. -/
structure Prepared (columns : List ColumnId) (schema : TableSchema) (cond : Condition)
    (p : PreparedStoragePredicate) : Prop where
  slot : columns.findIdx? (fun id => id == cond.column) = some p.outputSlot
  type : p.type = schema.typeOf cond.column
  numeric : p.type.IsNumeric
  literal : cond.value.IsNumeric
  wellTyped : p.WellTyped
  passes : ∀ c, p.passes c = Fp.cmp cond.op (cellValue p.type c) (boundLiteral p.type cond.value)

theorem bindIntegerPredicate_eq_ok {cond : Condition} {p q : PreparedStoragePredicate}
    (h : p.type = .int32 ∨ p.type = .int64)
    (hq : bindIntegerPredicate p.type cond.op cond p = .ok q) :
    q.outputSlot = p.outputSlot ∧ q.type = p.type ∧ q.WellTyped ∧ cond.value.IsNumeric ∧
      ∀ c, q.passes c = Fp.cmp cond.op (cellValue p.type c) (boundLiteral p.type cond.value) := by
  have hbound : boundLiteral p.type cond.value = literalValue cond.value := by
    rcases h with h | h <;> rw [h] <;> rfl
  unfold bindIntegerPredicate at hq
  rw [hbound]
  rcases hval : cond.value with v | v | d | s <;> simp only [hval] at hq
  · obtain ⟨hslot, htype, hwt⟩ := setIntegerConstantPredicate_spec h (integerBounds p.type).1
      (integerBounds p.type).2 cond.op v.toInt64
    cases hq
    refine ⟨hslot, htype, hwt, trivial, fun c => ?_⟩
    rw [passes_setIntegerConstantPredicate h, Int32.toInt_toInt64]
    rfl
  · obtain ⟨hslot, htype, hwt⟩ := setIntegerConstantPredicate_spec h (integerBounds p.type).1
      (integerBounds p.type).2 cond.op v
    cases hq
    exact ⟨hslot, htype, hwt, trivial, fun c => passes_setIntegerConstantPredicate h _ _ c⟩
  · obtain ⟨hslot, htype, hwt⟩ := setIntegerDoublePredicate_spec h (integerBounds p.type).1
      (integerBounds p.type).2 (Double.ofInt (integerBounds p.type).1)
      (Double.ofInt ((integerBounds p.type).2 + 1)) cond.op d
    cases hq
    exact ⟨hslot, htype, hwt, trivial, fun c => passes_setIntegerDoublePredicate h _ _ c⟩
  · cases hq

theorem bindFloatingPredicate_eq_ok {cond : Condition} {p q : PreparedStoragePredicate}
    (h : p.type = .float ∨ p.type = .double)
    (hq : bindFloatingPredicate p.type cond.op cond p = .ok q) :
    q.outputSlot = p.outputSlot ∧ q.type = p.type ∧ q.WellTyped ∧ cond.value.IsNumeric ∧
      ∀ c, q.passes c = Fp.cmp cond.op (cellValue p.type c) (boundLiteral p.type cond.value) := by
  have hnum : cond.value.IsNumeric := by
    by_contra hs
    rcases hval : cond.value with v | v | d | s <;> simp [hval, Literal.IsNumeric] at hs
    simp [bindFloatingPredicate, hval, SegmentReader.condValueAsDouble] at hq
  unfold bindFloatingPredicate at hq
  rw [condValueAsDouble_of_isNumeric hnum] at hq
  cases hq
  refine ⟨rfl, rfl, fun _ => ?_, hnum, fun c => ?_⟩
  · rcases h with h | h <;> simp [h, TypedValue.dataType]
  · rcases h with h | h <;>
      simp only [h, PreparedStoragePredicate.passes, cellValue, boundLiteral, compareTypedValue_eq,
        reduceCtorEq, if_true, if_false] <;> rfl

/-- **Preparing is exact.** -/
theorem prepare_eq_ok {columns : List ColumnId} {schema : TableSchema} {cond : Condition}
    {p : PreparedStoragePredicate} (h : prepare columns schema cond = .ok p) :
    Prepared columns schema cond p := by
  unfold prepare at h
  rcases hslot : columns.findIdx? (fun id => id == cond.column) with _ | slot
  · simp [hslot] at h
  simp only [hslot] at h
  rcases htype : schema.typeOf cond.column <;> simp only [htype, reduceCtorEq] at h
  · obtain ⟨h1, h2, h3, h4, h5⟩ := bindIntegerPredicate_eq_ok (p := ⟨_, slot, .int32, _, _⟩) (.inl rfl) h
    exact ⟨by rw [hslot, h1], by rw [h2, htype], .inl h2, h4, h3, by rw [h2]; exact h5⟩
  · obtain ⟨h1, h2, h3, h4, h5⟩ := bindIntegerPredicate_eq_ok (p := ⟨_, slot, .int64, _, _⟩) (.inr rfl) h
    exact ⟨by rw [hslot, h1], by rw [h2, htype], .inr (.inl h2), h4, h3, by rw [h2]; exact h5⟩
  · obtain ⟨h1, h2, h3, h4, h5⟩ := bindFloatingPredicate_eq_ok (p := ⟨_, slot, .float, _, _⟩) (.inl rfl) h
    exact ⟨by rw [hslot, h1], by rw [h2, htype], .inr (.inr (.inl h2)), h4, h3, by rw [h2]; exact h5⟩
  · obtain ⟨h1, h2, h3, h4, h5⟩ := bindFloatingPredicate_eq_ok (p := ⟨_, slot, .double, _, _⟩) (.inr rfl) h
    exact ⟨by rw [hslot, h1], by rw [h2, htype], .inr (.inr (.inr h2)), h4, h3, by rw [h2]; exact h5⟩

/-- All predicates are prepared, one for one. -/
theorem build_eq_ok {options : ScanOptions} {schema : TableSchema}
    {ps : List PreparedStoragePredicate} (h : build options schema = .ok ps) :
    List.Forall₂ (Prepared options.columns schema) options.predicates ps := by
  unfold build at h
  generalize options.predicates = conds at h ⊢
  induction conds generalizing ps with
  | nil =>
    cases h
    exact .nil
  | cons cond conds ih =>
    rw [List.mapM_cons] at h
    rcases hp : prepare options.columns schema cond with e | p
    · rw [hp] at h
      cases h
    · rcases hps : conds.mapM (prepare options.columns schema) with e | qs
      · rw [hp, hps] at h
        cases h
      · rw [hp, hps] at h
        cases h
        exact .cons (prepare_eq_ok hp) (ih hps)

end SimpleOlap
