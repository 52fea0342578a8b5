import SimpleOlap.Execution.Aggregate.HashAggregateState
import Mathlib.Data.Sum.Order
import Mathlib.Data.List.Lex

/-!
# One aggregate call, as a mergeable summary

* `ExecValue.Exact`, `ExecValue.rank`: the values on which numbers are exact, and their order.
* `AggCallSpec.ExactSums`: rows whose sums `long double` holds.
* `CallSums`: what the state of a call says of the rows it has seen; `CallSums.update` and
  `CallSums.combine` show that updating and combining keep it.
* `CallSums.result_eq`: two states for the same rows give the same result.
-/

namespace SimpleOlap

open Lib

/-! ## Exact values -/

namespace ExecValue

/-- Neither NaN nor infinite, and no negative zero. -/
def Exact : ExecValue → Prop
  | .float v => ∃ z, v.val = .ofUnits z
  | .double v => ∃ z, v.val = .ofUnits z
  | _ => True

/-- Whether a value is a string. -/
def isString : ExecValue → Bool
  | .string _ => true
  | _ => false

/-- The number, in units. -/
def units (v : ExecValue) : ℤ :=
  match v.asNumber with
  | .ok (.num neg mag) => Fp.signed neg mag
  | _ => 0

/-- Numbers by their value, strings by their bytes. -/
def rank : ExecValue → ℤ ⊕ₗ List ℕ
  | .string v => toLex (.inr (v.map UInt8.toNat))
  | v => toLex (.inl v.units)

/-- The units of a number. -/
theorem units_of_asNumber {v : ExecValue} {z : ℤ} (h : v.asNumber = .ok (.ofUnits z)) : v.units = z := by
  rw [units, h]
  exact Fp.signed_natAbs z

/-- An exact value that is no string is its units. -/
theorem Exact.asNumber {v : ExecValue} (h : v.Exact) (hs : v.isString = false) :
    v.asNumber = .ok (.ofUnits v.units) := by
  have hz : ∃ z, v.asNumber = .ok (.ofUnits z) := by
    cases v with
    | int32 v => exact ⟨_, rfl⟩
    | int64 v => exact ⟨_, rfl⟩
    | float v => exact h.imp fun z hz => congrArg Except.ok hz
    | double v => exact h.imp fun z hz => congrArg Except.ok hz
    | string v => cases hs
    | bool v => exact ⟨_, rfl⟩
  obtain ⟨z, hz⟩ := hz
  rw [hz, units_of_asNumber hz]

/-- The rank of a number. -/
theorem rank_of_number {v : ExecValue} (hs : v.isString = false) : v.rank = toLex (.inl v.units) := by
  cases v <;> first | rfl | cases hs

/-- The order of byte strings is that of the byte values. -/
theorem toNat_lt_iff (a b : Bytes) : a.map UInt8.toNat < b.map UInt8.toNat ↔ a < b := by
  have hmono : ∀ {a b : Bytes}, a < b → a.map UInt8.toNat < b.map UInt8.toNat :=
    List.map_lt fun x y hxy => UInt8.lt_iff_toNat_lt.mp hxy
  constructor
  · intro h
    by_contra hab
    rcases List.le_iff_lt_or_eq.mp (List.not_lt.mp hab) with hlt | heq
    · exact lt_asymm h (hmono hlt)
    · exact lt_irrefl _ (heq ▸ h)
  · exact hmono

/-- The comparison of exact values of one kind is that of the ranks. -/
theorem compare_exact {a b : ExecValue} (ha : a.Exact) (hb : b.Exact) (hab : a.isString = b.isString) :
    ∃ c, a.compare b = .ok c ∧ (c < 0 ↔ a.rank < b.rank) ∧ (0 < c ↔ b.rank < a.rank) := by
  by_cases hs : a.isString
  · obtain ⟨x, rfl⟩ : ∃ x, a = .string x := by cases a <;> first | exact ⟨_, rfl⟩ | cases hs
    obtain ⟨y, rfl⟩ : ∃ y, b = .string y := by
      cases b <;> first | exact ⟨_, rfl⟩ | cases hab
    refine ⟨_, rfl, ?_⟩
    simp only [rank, Sum.Lex.inr_lt_inr_iff, toNat_lt_iff]
    have hasymm : x < y → ¬ y < x := fun h h' => lt_asymm ((toNat_lt_iff x y).mpr h)
      ((toNat_lt_iff y x).mpr h')
    split_ifs <;> grind
  · rw [Bool.not_eq_true] at hs
    have hs' : b.isString = false := hab ▸ hs
    rw [compare_of_asNumber (ha.asNumber hs) (hb.asNumber hs'), rank_of_number hs, rank_of_number hs']
    refine ⟨_, rfl, ?_⟩
    obtain ⟨hneg, hpos⟩ := compareNumbers_cases (Fp.ofUnits_ne_nan a.units) (Fp.ofUnits_ne_nan b.units)
    rw [hneg, hpos]
    simp only [Sum.Lex.inl_lt_inl_iff, Fp.key_ofUnits, WithBot.coe_lt_coe, WithTop.coe_lt_coe,
      and_self]

/-- Exact values of the same rank are written alike. -/
theorem write_of_rank_eq {a b : ExecValue} (ha : a.Exact) (hb : b.Exact) (h : a.rank = b.rank)
    (type : DataType) : writeExecValue type a = writeExecValue type b := by
  by_cases hs : a.isString
  · obtain ⟨x, rfl⟩ : ∃ x, a = .string x := by cases a <;> first | exact ⟨_, rfl⟩ | cases hs
    obtain ⟨y, rfl⟩ : ∃ y, b = .string y := by cases b <;> first | exact ⟨_, rfl⟩ | cases h
    have hmap : x.map UInt8.toNat = y.map UInt8.toNat := by simpa [rank] using h
    rw [List.map_injective_iff.mpr (fun _ _ => UInt8.toNat_inj.mp) hmap]
  · rw [Bool.not_eq_true] at hs
    have hs' : b.isString = false := by
      rw [rank_of_number hs] at h
      cases b <;> first | rfl | cases h
    have hunits : a.units = b.units := by
      rw [rank_of_number hs, rank_of_number hs'] at h
      simpa using h
    have hnumber : a.asNumber = b.asNumber := by
      rw [ha.asNumber hs, hb.asNumber hs', hunits]
    cases type with
    | varchar =>
      cases a <;> cases b <;> first
        | rfl
        | exact Bool.noConfusion (hs : true = false)
        | exact Bool.noConfusion (hs' : true = false)
    | invalid => rfl
    | _ => simp only [writeExecValue, hnumber]

end ExecValue

/-! ## The rows that a call has seen -/

/-- A physical row of a batch. -/
abbrev RowRef := VectorBatch × ℕ

namespace AggCallSpec

/-- The value of the argument at a row; any value where there is none. -/
def argValue (call : AggCallSpec) (row : RowRef) : ExecValue :=
  match call.arg with
  | some arg => (arg.eval row.1 row.2).toOption.getD (.int32 0)
  | none => .int32 0

/-- The argument has a value at a row. -/
def Evaluates (call : AggCallSpec) (row : RowRef) : Prop :=
  call.arg.map (fun arg => arg.eval row.1 row.2) = some (.ok (call.argValue row))

/-- A value that MIN and MAX can compare: a string, where `strings` says so, or else an exact number. -/
def Ranked (call : AggCallSpec) (strings : AggCallSpec → Bool) (value : ExecValue) : Prop :=
  value.Exact ∧ value.isString = strings call

/-- A row that the call aggregates: the argument does not throw, and its value is an exact number, or one
that MIN and MAX can compare. -/
def Fits (call : AggCallSpec) (strings : AggCallSpec → Bool) (row : RowRef) : Prop :=
  match call.type with
  | .count => call.arg = none ∨ call.Evaluates row
  | .sum | .avg =>
    call.Evaluates row ∧ (call.argValue row).Exact ∧ (call.argValue row).isString = false
  | .min | .max =>
    call.Evaluates row ∧ call.Ranked strings (call.argValue row)
  | .invalid => False

/-- A call other than COUNT adds the value. -/
theorem update_of_evaluates {call : AggCallSpec} {row : RowRef} (hcount : call.type ≠ .count)
    (h : call.Evaluates row) (state : AggState) :
    updateAggregate call state row.1 row.2 = state.add call.type (call.argValue row) := by
  rw [Evaluates] at h
  rw [updateAggregate, if_neg hcount]
  cases harg : call.arg with
  | none => rw [harg] at h; cases h
  | some arg =>
    rw [harg, Option.map_some, Option.some_inj] at h
    simp only [h]
    rfl

/-- COUNT adds one. -/
theorem update_count {call : AggCallSpec} {row : RowRef} (hcount : call.type = .count)
    (h : call.arg = none ∨ call.Evaluates row) (state : AggState) :
    updateAggregate call state row.1 row.2 = .ok { state with count := state.count + 1 } := by
  rw [updateAggregate, if_pos hcount]
  rcases h with h | h
  · rw [h]
    rfl
  · rw [Evaluates] at h
    cases harg : call.arg with
    | none => rfl
    | some arg =>
      rw [harg, Option.map_some, Option.some_inj] at h
      simp only [h]
      rfl

/-- `long double` holds every sum of some of the rows' values. -/
def ExactSums (call : AggCallSpec) (m : Multiset RowRef) : Prop :=
  ∀ values ≤ m.map call.argValue, binary80.Mem (.ofUnits (values.map ExecValue.units).sum)

/-- Fewer rows. -/
theorem ExactSums.mono {call : AggCallSpec} {m m' : Multiset RowRef} (h : call.ExactSums m) (hle : m' ≤ m) :
    call.ExactSums m' :=
  fun values hvalues => h values (hvalues.trans (Multiset.map_le_map hle))

/-- The call sums its values. -/
def IsSum (call : AggCallSpec) : Prop := call.type = .sum ∨ call.type = .avg

/-- Whether a call sums can be decided. -/
instance (call : AggCallSpec) : Decidable call.IsSum := inferInstanceAs (Decidable (_ ∨ _))

end AggCallSpec

/-- The sum of the rows' values, where `long double` holds it and all the sums before it. -/
def SumOf (call : AggCallSpec) (sum : Fp) (m : Multiset RowRef) : Prop :=
  call.ExactSums m → sum = .ofUnits ((m.map call.argValue).map ExecValue.units).sum

/-- What the state of a call says of the rows. -/
def CallSums (strings : AggCallSpec → Bool) (call : AggCallSpec) (state : AggState)
    (m : Multiset RowRef) : Prop :=
  match call.type with
  | .count => state.count = m.card
  | .sum => SumOf call state.sum m
  | .avg => SumOf call state.sum m ∧ state.count = m.card
  | .min => Best ExecValue.rank state.hasValue state.minValue (m.map call.argValue) ∧
      ∀ row ∈ m, call.Ranked strings (call.argValue row)
  | .max => Best (fun v => OrderDual.toDual v.rank) state.hasValue state.maxValue
        (m.map call.argValue) ∧
      ∀ row ∈ m, call.Ranked strings (call.argValue row)
  | .invalid => True

/-! ## Combining -/

/-- The state of one row. -/
def AggState.single (type : AggType) (value : ExecValue) : AggState :=
  match type with
  | .count => { count := 1 }
  | .sum => { sum := .ofUnits value.units, hasValue := true }
  | .avg => { sum := .ofUnits value.units, count := 1, hasValue := true }
  | .min => { minValue := value, hasValue := true }
  | .max => { maxValue := value, hasValue := true }
  | .invalid => {}

section

variable {strings : AggCallSpec → Bool} {call : AggCallSpec} {row : RowRef} {state src : AggState}
  {m m' : Multiset RowRef}

/-- **A row is aggregated as the state of that row is combined.** -/
theorem update_eq_combine (h : call.Fits strings row) (state : AggState) :
    updateAggregate call state row.1 row.2 =
      combineAggregate call state (.single call.type (call.argValue row)) := by
  cases htype : call.type with
  | count =>
    rw [AggCallSpec.Fits, htype] at h
    rw [AggCallSpec.update_count htype h]
    simp only [combineAggregate, htype, AggState.single]
  | sum =>
    rw [AggCallSpec.Fits, htype] at h
    rw [AggCallSpec.update_of_evaluates (by simp [htype]) h.1]
    simp only [htype, AggState.add, h.2.1.asNumber h.2.2, combineAggregate, AggState.single,
      Bool.or_true]
    rfl
  | avg =>
    rw [AggCallSpec.Fits, htype] at h
    rw [AggCallSpec.update_of_evaluates (by simp [htype]) h.1]
    simp only [htype, AggState.add, h.2.1.asNumber h.2.2, combineAggregate, AggState.single,
      Bool.or_true]
    rfl
  | min =>
    rw [AggCallSpec.Fits, htype] at h
    rw [AggCallSpec.update_of_evaluates (by simp [htype]) h.1]
    simp only [htype, AggState.add, combineAggregate, AggState.single, if_true]
  | max =>
    rw [AggCallSpec.Fits, htype] at h
    rw [AggCallSpec.update_of_evaluates (by simp [htype]) h.1]
    simp only [htype, AggState.add, combineAggregate, AggState.single, if_true]
  | invalid => rw [AggCallSpec.Fits, htype] at h; exact h.elim

/-- The state of one row. -/
theorem callSums_single (h : call.Fits strings row) :
    CallSums strings call (.single call.type (call.argValue row)) {row} := by
  cases htype : call.type with
  | count => simp [CallSums, htype, AggState.single]
  | sum => simp [CallSums, htype, AggState.single, SumOf]
  | avg => simp [CallSums, htype, AggState.single, SumOf]
  | min =>
    rw [AggCallSpec.Fits, htype] at h
    simp only [CallSums, htype, AggState.single, Multiset.map_singleton, Multiset.mem_singleton,
      forall_eq]
    exact ⟨Best.singleton, h.2⟩
  | max =>
    rw [AggCallSpec.Fits, htype] at h
    simp only [CallSums, htype, AggState.single, Multiset.map_singleton, Multiset.mem_singleton,
      forall_eq]
    exact ⟨Best.singleton, h.2⟩
  | invalid => rw [AggCallSpec.Fits, htype] at h; exact h.elim

/-- The state before any row. -/
theorem callSums_initial : CallSums strings call {} 0 := by
  cases htype : call.type <;> simp [CallSums, htype, Best.none, SumOf]

/-- The value that is kept can be compared. -/
theorem ranked_best {κ : Type*} [LE κ] {rank : ExecValue → κ} {best : ExecValue}
    (h : Best rank true best (m.map call.argValue))
    (hm : ∀ row ∈ m, call.Ranked strings (call.argValue row)) : call.Ranked strings best := by
  obtain ⟨row, hrow, heq⟩ := Multiset.mem_map.mp (h.mem rfl)
  exact heq ▸ hm row hrow

/-- Two states that keep the first of their values in some order: what is kept of both, where `better` reads the
order off a comparison. -/
theorem exists_combine_best {κ : Type*} [LinearOrder κ] {rank : ExecValue → κ} {kept : AggState → ExecValue}
    (keep : AggState → ExecValue → AggState) {better : ℤ → Prop} [DecidablePred better]
    (hkept : ∀ s v, kept (keep s v) = v ∧ (keep s v).hasValue = s.hasValue)
    (hpresent : ∀ s v, kept { keep s v with hasValue := true } = v)
    (hbetter : ∀ a b, call.Ranked strings a → call.Ranked strings b →
      ∃ c, a.compare b = .ok c ∧ (better c ↔ rank a < rank b))
    (h : Best rank state.hasValue (kept state) (m.map call.argValue) ∧
      ∀ row ∈ m, call.Ranked strings (call.argValue row))
    (h' : Best rank src.hasValue (kept src) (m'.map call.argValue) ∧
      ∀ row ∈ m', call.Ranked strings (call.argValue row)) :
    ∃ t, (if src.hasValue then
          if state.hasValue then do
            let cmp ← (kept src).compare (kept state)
            return keep state (if better cmp then kept src else kept state)
          else .ok { keep state (kept src) with hasValue := true }
        else (.ok state : Except String AggState)) = .ok t ∧
      Best rank t.hasValue (kept t) ((m + m').map call.argValue) ∧
      ∀ row ∈ m + m', call.Ranked strings (call.argValue row) := by
  have hall : ∀ row ∈ m + m', call.Ranked strings (call.argValue row) := fun row hrow =>
    (Multiset.mem_add.mp hrow).elim (h.2 row) (h'.2 row)
  cases hsrc : src.hasValue with
  | false =>
    rw [hsrc] at h'
    have hzero : m' = 0 := by simpa using h'.1.eq_zero
    refine ⟨state, rfl, ?_, hall⟩
    rw [hzero, add_zero]
    exact h.1
  | true =>
    rw [hsrc] at h'
    cases hdst : state.hasValue with
    | false =>
      rw [hdst] at h
      have hzero : m = 0 := by simpa using h.1.eq_zero
      refine ⟨_, rfl, ?_, hall⟩
      rw [hzero, zero_add, hpresent]
      exact h'.1
    | true =>
      rw [hdst] at h
      obtain ⟨c, hc, hlt⟩ := hbetter _ _ (ranked_best h'.1 h'.2) (ranked_best h.1 h.2)
      refine ⟨_, by rw [if_pos rfl, if_pos rfl, hc]; rfl, ?_, hall⟩
      rw [Multiset.map_add, (hkept _ _).1, (hkept _ _).2, hdst]
      exact h.1.pick h'.1 hlt

/-- An addition that `long double` holds. -/
theorem SumOf.add (h : SumOf call state.sum m) (h' : SumOf call src.sum m') :
    SumOf call (state.addToSum src.sum) (m + m') := by
  intro hexact
  have hleft := h (hexact.mono (Multiset.le_add_right m m'))
  have hright := h' (hexact.mono (Multiset.le_add_left m' m))
  have hmem := hexact ((m + m').map call.argValue) le_rfl
  rw [Multiset.map_add, Multiset.map_add, Multiset.sum_add] at hmem ⊢
  rw [AggState.addToSum, hleft, hright, Fp.add_ofUnits, binary80.convert_of_mem hmem]

/-- **Combining the states of rows is the state of all the rows.** -/
theorem CallSums.combine (hvalid : call.type ≠ .invalid) (h : CallSums strings call state m)
    (h' : CallSums strings call src m') :
    ∃ t, combineAggregate call state src = .ok t ∧ CallSums strings call t (m + m') := by
  cases htype : call.type with
  | count =>
    simp only [CallSums, htype] at h h'
    refine ⟨_, by simp only [combineAggregate, htype]; rfl, ?_⟩
    simp [CallSums, htype, h, h']
  | sum =>
    simp only [CallSums, htype] at h h'
    refine ⟨_, by simp only [combineAggregate, htype]; rfl, ?_⟩
    simp only [CallSums, htype]
    exact h.add h'
  | avg =>
    simp only [CallSums, htype] at h h'
    refine ⟨_, by simp only [combineAggregate, htype]; rfl, ?_⟩
    simp only [CallSums, htype]
    refine ⟨h.1.add h'.1, ?_⟩
    rw [h.2, h'.2, Multiset.card_add, Nat.cast_add]
  | min =>
    simp only [CallSums, htype, combineAggregate] at h h' ⊢
    refine exists_combine_best (fun s v => { s with minValue := v }) (fun _ _ => ⟨rfl, rfl⟩) (fun _ _ => rfl)
      (fun a b ha hb => ?_) h h'
    obtain ⟨c, hc, hneg, -⟩ := ExecValue.compare_exact ha.1 hb.1 (ha.2.trans hb.2.symm)
    exact ⟨c, hc, hneg⟩
  | max =>
    simp only [CallSums, htype, combineAggregate] at h h' ⊢
    refine exists_combine_best (fun s v => { s with maxValue := v }) (fun _ _ => ⟨rfl, rfl⟩) (fun _ _ => rfl)
      (fun a b ha hb => ?_) h h'
    obtain ⟨c, hc, -, hpos⟩ := ExecValue.compare_exact ha.1 hb.1 (ha.2.trans hb.2.symm)
    exact ⟨c, hc, hpos.trans OrderDual.toDual_lt_toDual.symm⟩
  | invalid => exact absurd htype hvalid

/-- One more row. -/
theorem CallSums.update (h : CallSums strings call state m) (hfit : call.Fits strings row) :
    ∃ t, updateAggregate call state row.1 row.2 = .ok t ∧ CallSums strings call t (row ::ₘ m) := by
  have hvalid : call.type ≠ .invalid := by
    intro htype
    rw [AggCallSpec.Fits, htype] at hfit
    exact hfit
  rw [update_eq_combine hfit, ← Multiset.singleton_add, add_comm]
  exact h.combine hvalid (callSums_single hfit)

/-! ## The result -/

/-- The result of a call, as an output column of a type holds it. -/
def callResult (call : AggCallSpec) (type : DataType) (state : AggState) : Except String ExecValue := do
  writeExecValue type (← finalizeAggregate call state)

/-- **States for the same rows give the same result**, where the sums of the rows are exact. -/
theorem CallSums.result_eq (h : CallSums strings call state m) (h' : CallSums strings call src m)
    (hexact : call.IsSum → call.ExactSums m) (type : DataType) :
    callResult call type state = callResult call type src := by
  cases htype : call.type with
  | count =>
    simp only [CallSums, htype] at h h'
    simp only [callResult, finalizeAggregate, htype, h, h']
  | sum =>
    simp only [CallSums, htype] at h h'
    have hsums := hexact (.inl htype)
    simp only [callResult, finalizeAggregate, htype, h hsums, h' hsums]
  | avg =>
    simp only [CallSums, htype] at h h'
    have hsums := hexact (.inr htype)
    simp only [callResult, finalizeAggregate, htype, AggState.average, h.1 hsums, h'.1 hsums, h.2, h'.2]
  | min =>
    simp only [CallSums, htype] at h h'
    have hpresent : state.hasValue = src.hasValue := by
      rw [Bool.eq_iff_iff, h.1.present_iff, h'.1.present_iff]
    simp only [callResult, finalizeAggregate, htype, ← hpresent]
    cases hhas : state.hasValue with
    | false => rfl
    | true =>
      rw [hhas] at h
      rw [← hpresent, hhas] at h'
      exact ExecValue.write_of_rank_eq (ranked_best h.1 h.2).1 (ranked_best h'.1 h'.2).1
        (h.1.rank_eq h'.1) type
  | max =>
    simp only [CallSums, htype] at h h'
    have hpresent : state.hasValue = src.hasValue := by
      rw [Bool.eq_iff_iff, h.1.present_iff, h'.1.present_iff]
    simp only [callResult, finalizeAggregate, htype, ← hpresent]
    cases hhas : state.hasValue with
    | false => rfl
    | true =>
      rw [hhas] at h
      rw [← hpresent, hhas] at h'
      exact ExecValue.write_of_rank_eq (ranked_best h.1 h.2).1 (ranked_best h'.1 h'.2).1
        (OrderDual.toDual_inj.mp (h.1.rank_eq h'.1)) type
  | invalid => simp only [callResult, finalizeAggregate, htype]

end

end SimpleOlap
