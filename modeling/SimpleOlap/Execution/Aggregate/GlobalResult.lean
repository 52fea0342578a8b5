import SimpleOlap.Execution.Aggregate.ParallelAggregate
import SimpleOlap.Execution.GroupOutputs

/-!
# The row of a global aggregate

A global aggregate has one row, also where there is no input. MIN and MAX are then the number zero, which a
string column does not take.

* `AggCallSpec.Steady`, `CallHolds`: rows on which a call does not throw, and what its state keeps of them.
* `answers_iff`: when the result of a call can be written.
* `kind_of_eval`: values have the types that the binder derives.
* `yieldsOneRow_iff`: when a global aggregate yields its row, serial or merged.

Source: `hash_aggregate_state.cpp`, `exec_expression.cpp`, `binder.cpp` BindAggFunc.
-/

namespace SimpleOlap

open Lib

namespace ExecValue

/-- The value is a string where the type is, and there is such a type. -/
def HasKind (value : ExecValue) (type : DataType) : Prop :=
  type ≠ .invalid ∧ (value.isString = true ↔ type = .varchar)

/-- What is no string is a number. -/
theorem asNumber_of_isString {value : ExecValue} (h : value.isString = false) :
    ∃ number, value.asNumber = .ok number := by
  cases value with
  | string => cases h
  | _ => exact ⟨_, rfl⟩

/-- A number is no string. -/
theorem isString_of_asNumber {value : ExecValue} {number : Fp} (h : value.asNumber = .ok number) :
    value.isString = false := by
  cases value with
  | string => cases h
  | _ => rfl

/-- Strings are compared with strings, and numbers with numbers. -/
theorem compare_of_isString_eq {a b : ExecValue} (h : a.isString = b.isString) :
    ∃ cmp, a.compare b = .ok cmp := by
  cases hstring : a.isString with
  | false =>
    obtain ⟨x, hx⟩ := asNumber_of_isString hstring
    obtain ⟨y, hy⟩ := asNumber_of_isString (h ▸ hstring)
    exact ⟨_, compare_of_asNumber hx hy⟩
  | true =>
    cases a with
    | string =>
      cases b with
      | string => exact ⟨_, rfl⟩
      | _ => cases h
    | _ => cases hstring

/-- A cast gives no string. -/
theorem isString_castNumber (number : Fp) (type : DataType) : (castNumber number type).isString = false := by
  cases type <;> rfl

/-- A number has the kind of every numeric type. -/
theorem hasKind_of_number {value : ExecValue} {type : DataType} (h : value.isString = false)
    (hvalid : type ≠ .invalid) (hvarchar : type ≠ .varchar) : value.HasKind type :=
  ⟨hvalid, iff_of_false (by rw [h]; nofun) hvarchar⟩

/-- A string has the kind VARCHAR. -/
theorem hasKind_string (text : Bytes) : (ExecValue.string text).HasKind .varchar := ⟨nofun, iff_of_true rfl rfl⟩

/-- When a value can be written. -/
theorem exists_write_iff {value : ExecValue} {type : DataType} (h : value.HasKind type) :
    (∃ written, writeExecValue type value = .ok written) ↔
      ∀ text, value = .string text → text.length ≤ kVarcharInlineMax := by
  obtain ⟨hvalid, hstring⟩ := h
  by_cases hvarchar : type = .varchar
  · subst hvarchar
    cases value with
    | string text =>
      by_cases hlong : text.length > kVarcharInlineMax
      · refine iff_of_false ?_ fun hall => absurd (hall text rfl) (by omega)
        rintro ⟨written, hwrite⟩
        rw [writeExecValue, if_pos hlong] at hwrite
        cases hwrite
      · refine iff_of_true ⟨_, by rw [writeExecValue, if_neg hlong]⟩ ?_
        rintro text' htext
        cases htext
        omega
    | _ => cases hstring.mpr rfl
  · have hno : value.isString = false := Bool.eq_false_iff.mpr fun hyes => hvarchar (hstring.mp hyes)
    obtain ⟨number, hnumber⟩ := asNumber_of_isString hno
    refine iff_of_true ?_ ?_
    · cases type with
      | invalid => exact absurd rfl hvalid
      | varchar => exact absurd rfl hvarchar
      | _ => exact ⟨_, by rw [writeExecValue, hnumber]; rfl⟩
    · rintro text rfl
      cases hno

end ExecValue

/-! ## What a state keeps -/

/-- The value that is kept is one that was seen, and there is one if any was seen. -/
def Held (hasValue : Bool) (value : ExecValue) (seen : Multiset ExecValue) : Prop :=
  if hasValue = true then value ∈ seen else seen = 0

namespace AggCallSpec

/-- A row on which the call does not throw: its argument has a value, a number for SUM and AVG, and one of the
type of the call for MIN and MAX. -/
def Steady (call : AggCallSpec) (row : RowRef) : Prop :=
  match call.type with
  | .count => call.arg = none ∨ call.Evaluates row
  | .sum | .avg => call.Evaluates row ∧ (call.argValue row).isString = false
  | .min | .max => call.Evaluates row ∧ (call.argValue row).HasKind call.resultType
  | .invalid => False

end AggCallSpec

/-- What the state of a call keeps of the rows. -/
structure CallHolds (call : AggCallSpec) (state : AggState) (m : Multiset RowRef) : Prop where
  steady : ∀ row ∈ m, call.Steady row
  min : call.type = .min → Held state.hasValue state.minValue (m.map call.argValue)
  max : call.type = .max → Held state.hasValue state.maxValue (m.map call.argValue)

section

variable {call : AggCallSpec} {state src : AggState} {m m' : Multiset RowRef} {row : RowRef}

/-- Before any row. -/
theorem callHolds_initial : CallHolds call {} 0 where
  steady := by simp
  min _ := rfl
  max _ := rfl

/-- What is kept is the new value or the old one. -/
theorem mem_pick {seen : Multiset ExecValue} {value kept : ExecValue} (h : kept ∈ seen) (better : Prop)
    [Decidable better] : (if better then value else kept) ∈ value ::ₘ seen := by
  split_ifs
  · exact Multiset.mem_cons_self value seen
  · exact Multiset.mem_cons_of_mem h

/-- MIN or MAX, and the value that a state keeps for it. -/
inductive Keeps : AggType → (AggState → ExecValue) → Prop
  | min : Keeps .min AggState.minValue
  | max : Keeps .max AggState.maxValue

/-- MIN and MAX keep a value. -/
theorem Keeps.type_eq {type : AggType} {kept : AggState → ExecValue} (h : Keeps type kept) :
    type = .min ∨ type = .max := by
  cases h
  · exact .inl rfl
  · exact .inr rfl

/-- One more value for MIN or MAX. -/
theorem held_add {type : AggType} {kept : AggState → ExecValue} {seen : Multiset ExecValue} {value : ExecValue}
    (hkeeps : Keeps type kept) (h : Held state.hasValue (kept state) seen)
    (hkind : ∀ v ∈ seen, value.isString = v.isString) :
    ∃ state', state.add type value = .ok state' ∧ state'.hasValue = true ∧ kept state' ∈ value ::ₘ seen := by
  unfold Held at h
  cases hkeeps
  all_goals
    unfold AggState.add
    split_ifs at h ⊢ with hvalue
    · obtain ⟨cmp, hcmp⟩ := ExecValue.compare_of_isString_eq (hkind _ h)
      simp only [hcmp]
      exact ⟨_, rfl, hvalue, mem_pick h _⟩
    · exact ⟨_, rfl, rfl, Multiset.mem_cons_self value seen⟩

/-- A value that was seen is held. -/
theorem held_of_mem {value : ExecValue} {seen : Multiset ExecValue} (h : value ∈ seen) : Held true value seen := by
  rw [Held, if_pos rfl]
  exact h

/-- The values of a call of MIN or MAX are all strings or all numbers. -/
theorem AggCallSpec.Steady.hasKind (hcall : call.type = .min ∨ call.type = .max) (h : call.Steady row) :
    (call.argValue row).HasKind call.resultType := by
  rcases hcall with htype | htype
  all_goals
    rw [Steady, htype] at h
    exact h.2

/-- All values of a MIN or MAX are strings, or none is. -/
theorem isString_eq (hcall : call.type = .min ∨ call.type = .max) (h : ∀ row ∈ m, call.Steady row)
    (hrow : call.Steady row) : ∀ v ∈ m.map call.argValue, (call.argValue row).isString = v.isString := by
  intro v hv
  obtain ⟨other, hother, rfl⟩ := Multiset.mem_map.mp hv
  rw [Bool.eq_iff_iff, (hrow.hasKind hcall).2, ((h other hother).hasKind hcall).2]

/-- One more row for MIN or MAX. -/
theorem exists_update_held {kept : AggState → ExecValue} (hkeeps : Keeps call.type kept)
    (h : Held state.hasValue (kept state) (m.map call.argValue)) (hsteady : ∀ row ∈ m, call.Steady row)
    (hrow : call.Steady row) :
    ∃ state', updateAggregate call state row.1 row.2 = .ok state' ∧
      Held state'.hasValue (kept state') ((row ::ₘ m).map call.argValue) := by
  have hcall := hkeeps.type_eq
  obtain ⟨state', hadd, hvalue, hmem⟩ := held_add hkeeps h (isString_eq hcall hsteady hrow)
  have heval : call.Evaluates row := by
    rw [AggCallSpec.Steady] at hrow
    rcases hcall with htype | htype
    all_goals
      rw [htype] at hrow
      exact hrow.1
  have hcount : call.type ≠ .count := by
    rcases hcall with htype | htype
    all_goals simp [htype]
  refine ⟨state', (AggCallSpec.update_of_evaluates hcount heval state).trans hadd, ?_⟩
  rw [hvalue, Multiset.map_cons]
  exact held_of_mem hmem

/-- What two states keep for MIN or MAX. -/
theorem exists_combine_held {kept : AggState → ExecValue} (hkeeps : Keeps call.type kept)
    (h : Held state.hasValue (kept state) (m.map call.argValue))
    (h' : Held src.hasValue (kept src) (m'.map call.argValue)) (hsteady : ∀ row ∈ m, call.Steady row)
    (hsteady' : ∀ row ∈ m', call.Steady row) :
    ∃ t, combineAggregate call state src = .ok t ∧ Held t.hasValue (kept t) ((m + m').map call.argValue) := by
  have hcall := hkeeps.type_eq
  have hcombine : combineAggregate call state src =
      if src.hasValue then state.add call.type (kept src) else .ok state := by
    unfold combineAggregate
    generalize call.type = type at hkeeps
    cases hkeeps
    · rfl
    · rfl
  rw [hcombine]
  unfold Held at h'
  split_ifs at h' ⊢ with hvalue
  · obtain ⟨row, hrow, hsame⟩ := Multiset.mem_map.mp h'
    have hkind := isString_eq hcall hsteady (hsteady' row hrow)
    obtain ⟨t, hadd, hkept, hmem⟩ := held_add hkeeps h hkind
    rw [hsame] at hadd hmem
    refine ⟨t, hadd, ?_⟩
    rw [hkept, Multiset.map_add]
    refine held_of_mem ((Multiset.mem_cons.mp hmem).elim (fun heq => ?_) fun hmem => ?_)
    · rw [heq]
      exact Multiset.mem_add.mpr (.inr h')
    · exact Multiset.mem_add.mpr (.inl hmem)
  · refine ⟨state, rfl, ?_⟩
    rw [Multiset.map_add, h', add_zero]
    exact h

/-- **A row does not make the call throw**, and its state keeps what it has to. -/
theorem CallHolds.update (h : CallHolds call state m) (hrow : call.Steady row) :
    ∃ state', updateAggregate call state row.1 row.2 = .ok state' ∧ CallHolds call state' (row ::ₘ m) := by
  have hsteady : ∀ r ∈ row ::ₘ m, call.Steady r := Multiset.forall_mem_cons.mpr ⟨hrow, h.steady⟩
  cases htype : call.type with
  | count =>
    rw [AggCallSpec.Steady, htype] at hrow
    refine ⟨_, AggCallSpec.update_count htype hrow state, hsteady, ?_, ?_⟩ <;> simp [htype]
  | sum =>
    rw [AggCallSpec.Steady, htype] at hrow
    obtain ⟨number, hnumber⟩ := ExecValue.asNumber_of_isString hrow.2
    rw [AggCallSpec.update_of_evaluates (by simp [htype]) hrow.1]
    refine ⟨{ state with sum := state.addToSum number, hasValue := true }, ?_, hsteady, ?_, ?_⟩
    · simp only [htype, AggState.add, hnumber]
      rfl
    all_goals simp [htype]
  | avg =>
    rw [AggCallSpec.Steady, htype] at hrow
    obtain ⟨number, hnumber⟩ := ExecValue.asNumber_of_isString hrow.2
    rw [AggCallSpec.update_of_evaluates (by simp [htype]) hrow.1]
    refine ⟨{ state with sum := state.addToSum number, count := state.count + 1, hasValue := true }, ?_, hsteady,
      ?_, ?_⟩
    · simp only [htype, AggState.add, hnumber]
      rfl
    all_goals simp [htype]
  | min =>
    obtain ⟨state', hupdate, hheld⟩ := exists_update_held (htype ▸ .min) (h.min htype) h.steady hrow
    exact ⟨state', hupdate, hsteady, fun _ => hheld, by simp [htype]⟩
  | max =>
    obtain ⟨state', hupdate, hheld⟩ := exists_update_held (htype ▸ .max) (h.max htype) h.steady hrow
    exact ⟨state', hupdate, hsteady, by simp [htype], fun _ => hheld⟩
  | invalid =>
    rw [AggCallSpec.Steady, htype] at hrow
    exact hrow.elim

/-- **Combining does not throw**, and keeps what both states do. -/
theorem CallHolds.combine (hvalid : call.type ≠ .invalid) (h : CallHolds call state m)
    (h' : CallHolds call src m') :
    ∃ t, combineAggregate call state src = .ok t ∧ CallHolds call t (m + m') := by
  have hsteady : ∀ r ∈ m + m', call.Steady r := fun r hr =>
    (Multiset.mem_add.mp hr).elim (h.steady r) (h'.steady r)
  cases htype : call.type with
  | count | sum | avg =>
    refine ⟨_, by simp only [combineAggregate, htype]; rfl, hsteady, ?_, ?_⟩ <;> simp [htype]
  | min =>
    obtain ⟨t, hcombine, hheld⟩ :=
      exists_combine_held (htype ▸ .min) (h.min htype) (h'.min htype) h.steady h'.steady
    exact ⟨t, hcombine, hsteady, fun _ => hheld, by simp [htype]⟩
  | max =>
    obtain ⟨t, hcombine, hheld⟩ :=
      exists_combine_held (htype ▸ .max) (h.max htype) (h'.max htype) h.steady h'.steady
    exact ⟨t, hcombine, hsteady, by simp [htype], fun _ => hheld⟩
  | invalid => exact absurd htype hvalid

end

/-! ## The state of all calls -/

/-- What the states of the calls keep, over rows. -/
def statesHeld (calls : List AggCallSpec) (hvalid : ∀ call ∈ calls, call.type ≠ .invalid) :
    Summary (List AggState) RowRef String where
  initial := calls.map fun _ => {}
  update states row := updateStates calls states row.1 row.2
  combine := combineStates calls
  Good row := ∀ call ∈ calls, call.Steady row
  Sums states m := List.Forall₂ (fun call state => CallHolds call state m) calls states
  sums_initial := by
    rw [List.forall₂_map_right_iff, List.forall₂_same]
    exact fun call _ => callHolds_initial
  sums_update := by
    intro states m row hsum hsteady
    exact mapM_zip_ok hsum fun call hcall state hstate => hstate.update (hsteady call hcall)
  sums_combine := by
    intro s t m m' hs ht
    exact mapM_zip_ok (forall₂_zip hs ht) fun call hcall _ hp => hp.1.combine (hvalid call hcall) hp.2

/-- A batch that keeps its invariant, with rows on which no call throws. -/
structure AggregateSpec.SteadyBatch (spec : AggregateSpec) (batch : VectorBatch) : Prop where
  strong : batch.Strong
  rows : ∀ row ∈ batch.rowRefs, ∀ call ∈ spec.aggCalls, call.Steady row

/-- What a global state keeps, over batches. -/
def StateHolds (spec : AggregateSpec) (s : HashAggregateState) (m : Multiset VectorBatch) : Prop :=
  List.Forall₂ (fun call state => CallHolds call state (m.bind fun batch => ↑batch.rowRefs)) spec.aggCalls
    s.globalStates

section

variable {spec : AggregateSpec} {order : GroupTable → GroupTable} {s t : HashAggregateState}
  {m m' : Multiset VectorBatch} {batch : VectorBatch}

/-- The state before any batch. -/
theorem StateHolds.initial (hglobal : spec.isGlobal = true)
    (hvalid : ∀ call ∈ spec.aggCalls, call.type ≠ .invalid) : StateHolds spec spec.initial 0 := by
  rw [StateHolds, AggregateSpec.initial, if_pos hglobal, Multiset.zero_bind]
  exact (statesHeld spec.aggCalls hvalid).sums_initial

/-- A batch is consumed. -/
theorem StateHolds.consume (hglobal : spec.isGlobal = true)
    (hvalid : ∀ call ∈ spec.aggCalls, call.type ≠ .invalid) (h : StateHolds spec s m)
    (hbatch : spec.SteadyBatch batch) :
    ∃ s', HashAggregateState.consume spec s batch = .ok s' ∧ StateHolds spec s' (batch ::ₘ m) := by
  obtain ⟨states, hstates, hsum⟩ := ((statesHeld spec.aggCalls hvalid).batched
    VectorBatch.rowRefs).sums_update h hbatch.rows
  have hfold : batch.activeIndices.foldlM
      (fun states row => updateStates spec.aggCalls states batch row) s.globalStates = .ok states := by
    rw [← hstates, Summary.batched]
    simp only [VectorBatch.rowRefs, List.foldlM_map]
    rfl
  rw [HashAggregateState.consume, if_pos hglobal,
    HashAggregateState.consumeGlobal_eq h.length_eq.symm hbatch.strong,
    HashAggregateState.consumeGlobalRows, hfold]
  exact ⟨_, rfl, hsum⟩

/-- So is a batch with its active rows. -/
theorem StateHolds.consumeActive (hglobal : spec.isGlobal = true)
    (hvalid : ∀ call ∈ spec.aggCalls, call.type ≠ .invalid) (h : StateHolds spec s m)
    (hbatch : spec.SteadyBatch batch) :
    ∃ s', spec.consumeActive s batch = .ok s' ∧ StateHolds spec s' (batch ::ₘ m) := by
  rw [AggregateSpec.consumeActive]
  split_ifs with hsize
  · exact h.consume hglobal hvalid hbatch
  · -- a batch without active rows
    have hnil : batch.rowRefs = [] := by
      have hlen := VectorBatch.length_activeIndices hbatch.strong
      rw [VectorBatch.rowRefs, List.eq_nil_of_length_eq_zero (hlen.trans (by omega)), List.map_nil]
    refine ⟨s, rfl, ?_⟩
    rwa [StateHolds, Multiset.cons_bind, hnil, Multiset.coe_nil, zero_add]

/-- Two states are merged. -/
theorem StateHolds.merge (hglobal : spec.isGlobal = true)
    (hvalid : ∀ call ∈ spec.aggCalls, call.type ≠ .invalid) (h : StateHolds spec s m)
    (h' : StateHolds spec t m') :
    ∃ u, HashAggregateState.merge spec order s t = .ok u ∧ StateHolds spec u (m + m') := by
  obtain ⟨states, hstates, hsum⟩ := (statesHeld spec.aggCalls hvalid).sums_combine h h'
  have hcombine : combineStates spec.aggCalls s.globalStates t.globalStates = .ok states := hstates
  refine ⟨{ s with globalStates := states }, ?_, ?_⟩
  · rw [HashAggregateState.merge, if_pos hglobal, hcombine]
    rfl
  · rw [StateHolds, Multiset.add_bind]
    exact hsum

/-- What a global state keeps, over batches and merges. -/
def globalHeld (spec : AggregateSpec) (hglobal : spec.isGlobal = true)
    (hvalid : ∀ call ∈ spec.aggCalls, call.type ≠ .invalid) (order : GroupTable → GroupTable) :
    Summary HashAggregateState VectorBatch String where
  initial := spec.initial
  update := HashAggregateState.consume spec
  combine := HashAggregateState.merge spec order
  Good := spec.SteadyBatch
  Sums := StateHolds spec
  sums_initial := StateHolds.initial hglobal hvalid
  sums_update := StateHolds.consume hglobal hvalid
  sums_combine := StateHolds.merge hglobal hvalid

/-- The same for workers, which skip batches without active rows. -/
def workerHeld (spec : AggregateSpec) (hglobal : spec.isGlobal = true)
    (hvalid : ∀ call ∈ spec.aggCalls, call.type ≠ .invalid) (order : GroupTable → GroupTable) :
    Summary HashAggregateState VectorBatch String :=
  { globalHeld spec hglobal hvalid order with
    update := spec.consumeActive
    sums_update := StateHolds.consumeActive hglobal hvalid }

end

/-! ## The kinds of values -/

section

variable {b : VectorBatch} {row : ℕ} {value : ExecValue}

/-- AND, OR and comparisons give truth values, additions and subtractions numbers, of a number on the left. -/
theorem eval_binary_cases {op : PlanBinaryOp} {left right : ExecExpression} {type : DataType}
    (h : (ExecExpression.binary op left right type).eval b row = .ok value) :
    ((op ≠ .add ∧ op ≠ .sub) ∧ ∃ truth, value = .bool truth) ∨
      (op = .add ∨ op = .sub) ∧ (∃ number, value = .castNumber number type) ∧
        ∃ lhs, left.eval b row = .ok lhs ∧ lhs.isString = false := by
  by_cases hand : op = .and
  · subst hand
    obtain ⟨lhs, -, h⟩ := bind_eq_ok h
    obtain ⟨truth, -, h⟩ := bind_eq_ok h
    split at h
    · obtain ⟨rhs, -, h⟩ := bind_eq_ok h
      obtain ⟨truth', -, h⟩ := bind_eq_ok h
      exact .inl ⟨⟨nofun, nofun⟩, _, (Except.ok.inj h).symm⟩
    · exact .inl ⟨⟨nofun, nofun⟩, _, (Except.ok.inj h).symm⟩
  by_cases hor : op = .or
  · subst hor
    obtain ⟨lhs, -, h⟩ := bind_eq_ok h
    obtain ⟨truth, -, h⟩ := bind_eq_ok h
    split at h
    · exact .inl ⟨⟨nofun, nofun⟩, _, (Except.ok.inj h).symm⟩
    · obtain ⟨rhs, -, h⟩ := bind_eq_ok h
      obtain ⟨truth', -, h⟩ := bind_eq_ok h
      exact .inl ⟨⟨nofun, nofun⟩, _, (Except.ok.inj h).symm⟩
  rw [ExecExpression.eval.eq_5 b row op left right type hand hor] at h
  obtain ⟨lhs, hlhs, h⟩ := bind_eq_ok h
  obtain ⟨rhs, -, h⟩ := bind_eq_ok h
  unfold evalOperator at h
  split at h
  · rename_i hcmp
    obtain ⟨sign, -, h⟩ := bind_eq_ok h
    refine .inl ⟨⟨?_, ?_⟩, _, (Except.ok.inj h).symm⟩
    all_goals
      rintro rfl
      cases hcmp
  · obtain ⟨x, hx, h⟩ := bind_eq_ok h
    obtain ⟨y, -, h⟩ := bind_eq_ok h
    have hleft : ∃ lhs, left.eval b row = .ok lhs ∧ lhs.isString = false :=
      ⟨lhs, hlhs, ExecValue.isString_of_asNumber hx⟩
    split at h
    · exact .inr ⟨.inl rfl, ⟨_, (Except.ok.inj h).symm⟩, hleft⟩
    · exact .inr ⟨.inr rfl, ⟨_, (Except.ok.inj h).symm⟩, hleft⟩
    · cases h

/-- A string that an expression gives is that of a slot, or the literal. -/
theorem length_of_eval_string {expr : ExecExpression} {text : Bytes} (h : expr.eval b row = .ok (.string text)) :
    text.length ≤ kVarcharInlineMax ∨ ∃ type, expr = .literal (.string text) type := by
  cases expr with
  | columnRef slot type =>
    left
    rw [ExecExpression.eval] at h
    split at h
    · cases h
    · unfold readExecValue at h
      split_ifs at h
      split at h
      all_goals cases h
      unfold readVarcharSlot readVarcharLength
      rw [List.length_take]
      omega
  | literal v type =>
    cases h
    exact .inr ⟨type, rfl⟩
  | binary op left right type =>
    rcases eval_binary_cases h with ⟨-, truth, htruth⟩ | ⟨-, ⟨number, hnumber⟩, -⟩
    · cases htruth
    · have hstring := ExecValue.isString_castNumber number type
      rw [← hnumber] at hstring
      cases hstring

/-- Every slot that shows a column has its type. -/
def ExecSchema.OfTable (table : BoundTable) (schema : ExecSchema) : Prop :=
  ∀ slot ∈ schema, ∀ binding, slot.source = some binding → slot.type = table.columnType binding.columnIdx

/-- The columns of the batch have the types of the schema. -/
def VectorBatch.HasSchema (b : VectorBatch) (schema : ExecSchema) : Prop :=
  b.columns.map ColumnData.type = schema.map ExecSlot.type

/-- A cell has the kind of its column. -/
theorem hasKind_readExecValue {column : ColumnData} (h : readExecValue column row = .ok value) :
    value.HasKind column.type := by
  unfold readExecValue at h
  split_ifs at h
  split at h
  all_goals
    rename_i htype
    cases h
  all_goals
    rw [htype]
    first
      | exact ExecValue.hasKind_of_number rfl nofun nofun
      | exact ExecValue.hasKind_string _

/-- A column in the batch has the type that the binder has for it. -/
theorem type_of_findInputSlot {table : BoundTable} {schema : ExecSchema} {binding : ColumnBinding} {slot : ℕ}
    {column : ColumnData} (hschema : schema.OfTable table) (hb : b.HasSchema schema)
    (hfind : findInputSlot schema binding = some slot) (hcolumn : b.columns[slot]? = some column) :
    column.type = table.columnType binding.columnIdx := by
  obtain ⟨hlt, hsource, -⟩ := List.findIdx?_eq_some_iff_getElem.mp hfind
  have htypes := congrArg (fun types => types[slot]?) hb
  simp only [List.getElem?_map, hcolumn, List.getElem?_eq_getElem hlt, Option.map_some] at htypes
  rw [Option.some.inj htypes]
  exact hschema schema[slot] (List.getElem_mem hlt) binding (beq_iff_eq.mp hsource)

/-- The value of a column has its type. -/
theorem kind_of_columnRef {table : BoundTable} {schema : ExecSchema} {tableOid colIdx : ℕ} {type : DataType}
    {expr : ExecExpression} (hschema : schema.OfTable table) (hb : b.HasSchema schema)
    (htype : type = table.columnType colIdx)
    (hexpr : compileExecExpr schema (.columnRef tableOid colIdx type) = .ok expr) (h : expr.eval b row = .ok value) :
    value.HasKind type := by
  rw [compileExecExpr] at hexpr
  rcases hfind : findInputSlot schema ⟨tableOid, colIdx⟩ with _ | slot
  · rw [hfind] at hexpr
    cases hexpr
  · rw [hfind] at hexpr
    cases hexpr
    rw [ExecExpression.eval] at h
    rcases hcolumn : b.columns[slot]? with _ | column
    · rw [hcolumn] at h
      cases h
    · rw [hcolumn] at h
      have hkind := hasKind_readExecValue h
      rw [type_of_findInputSlot hschema hb hfind hcolumn] at hkind
      exact htype ▸ hkind

/-- A sum or a difference is of type DOUBLE, or of the type of its left operand. -/
theorem binaryType_of_arithmetic {parsed : BinaryOp} (hop : toPlanBinaryOp parsed = .add ∨ toPlanBinaryOp parsed = .sub)
    (left right : DataType) :
    Binder.binaryType parsed left right = .double ∨ Binder.binaryType parsed left right = left := by
  have hparsed : parsed = .add ∨ parsed = .sub := by
    cases parsed with
    | add => exact .inl rfl
    | sub => exact .inr rfl
    | _ => rcases hop with hop | hop <;> cases hop
  rcases hparsed with rfl | rfl
  all_goals
    unfold Binder.binaryType
    simp only
    split_ifs
    · exact .inl rfl
    · exact .inr rfl

/-- Any other operation is of type INT32. -/
theorem binaryType_of_not_arithmetic {parsed : BinaryOp} (hadd : toPlanBinaryOp parsed ≠ .add)
    (hsub : toPlanBinaryOp parsed ≠ .sub) (left right : DataType) :
    Binder.binaryType parsed left right = .int32 := by
  cases parsed with
  | add => exact absurd rfl hadd
  | sub => exact absurd rfl hsub
  | _ => rfl

/-- **Values have the types that the binder derives**, at least as strings or numbers. -/
theorem kind_of_eval {table : BoundTable} {schema : ExecSchema} {p : PlanExpr} {expr : ExecExpression}
    (hschema : schema.OfTable table) (hb : b.HasSchema schema) (hp : p.Typed table)
    (hexpr : compileExecExpr schema p = .ok expr) (h : expr.eval b row = .ok value) :
    value.HasKind p.returnType := by
  induction p generalizing expr value with
  | columnRef tableOid colIdx type =>
    exact kind_of_columnRef hschema hb hp hexpr h
  | literal v type =>
    cases hexpr
    cases h
    rw [PlanExpr.returnType, show type = _ from hp]
    cases v with
    | string text => exact ExecValue.hasKind_string text
    | int32 v =>
      have hkind : (ExecValue.int32 v).HasKind .int32 :=
        ExecValue.hasKind_of_number rfl (by decide) (by decide)
      exact hkind
    | double v =>
      have hkind : (ExecValue.double v).HasKind .double :=
        ExecValue.hasKind_of_number rfl (by decide) (by decide)
      exact hkind
  | binary op left right type ihl ihr =>
    obtain ⟨⟨hleft, -⟩, parsed, rfl, rfl⟩ := hp
    obtain ⟨l, hl, hexpr⟩ := bind_eq_ok hexpr
    obtain ⟨r, -, hexpr⟩ := bind_eq_ok hexpr
    cases hexpr
    rcases eval_binary_cases h with ⟨⟨hadd, hsub⟩, truth, rfl⟩ | ⟨hop, ⟨number, rfl⟩, lhs, hlhs, hstring⟩
    · rw [PlanExpr.returnType, binaryType_of_not_arithmetic hadd hsub]
      exact ExecValue.hasKind_of_number rfl (by decide) (by decide)
    · obtain ⟨hvalid, hkind⟩ := ihl hleft hl hlhs
      have hvarchar : left.returnType ≠ .varchar := by
        intro hvarchar
        rw [hkind.mpr hvarchar] at hstring
        cases hstring
      rw [PlanExpr.returnType]
      rcases binaryType_of_arithmetic hop left.returnType right.returnType with htype | htype
      · rw [htype]
        exact ExecValue.hasKind_of_number (ExecValue.isString_castNumber _ _) (by decide) (by decide)
      · rw [htype]
        exact ExecValue.hasKind_of_number (ExecValue.isString_castNumber _ _) hvalid hvarchar
  | agg aggType arg type ih => cases hexpr
  | aggStar aggType type => cases hexpr

end

/-! ## The result of a call -/

namespace AggCallSpec

/-- The argument is a string that no slot holds. -/
def LongLiteral (call : AggCallSpec) : Prop :=
  ∃ text type, call.arg = some (.literal (.string text) type) ∧ kVarcharInlineMax < text.length

/-- The result type is that of the aggregate. -/
def Declared (call : AggCallSpec) : Prop :=
  match call.type with
  | .count => call.resultType = .int64
  | .sum | .avg => call.resultType = .double
  | .min | .max => True
  | .invalid => False

/-- The result of MIN and MAX is a number, or the value of a row that was seen and a slot holds. -/
def Answers (call : AggCallSpec) (seen : Prop) : Prop :=
  call.type = .min ∨ call.type = .max →
    Binder.isNumeric call.resultType = true ∨ seen ∧ ¬ call.LongLiteral

end AggCallSpec

section

variable {call : AggCallSpec} {state : AggState} {m : Multiset RowRef}

/-- What an argument evaluates to. -/
theorem AggCallSpec.Evaluates.eval_eq {arg : ExecExpression} {row : RowRef} (harg : call.arg = some arg)
    (h : call.Evaluates row) : arg.eval row.1 row.2 = .ok (call.argValue row) := by
  unfold Evaluates at h
  rw [harg] at h
  exact Option.some.inj h

/-- The value of a row can be written but for a literal that is too long. -/
theorem exists_write_argValue_iff {row : RowRef} (hcall : call.type = .min ∨ call.type = .max)
    (h : call.Steady row) :
    (∃ written, writeExecValue call.resultType (call.argValue row) = .ok written) ↔
      Binder.isNumeric call.resultType = true ∨ ¬ call.LongLiteral := by
  have hkind := h.hasKind hcall
  have heval : call.Evaluates row := by
    rcases hcall with htype | htype
    all_goals
      rw [AggCallSpec.Steady, htype] at h
      exact h.1
  rw [ExecValue.exists_write_iff hkind]
  constructor
  · intro hshort
    by_contra hnot
    obtain ⟨-, text, type, harg, hlong⟩ := (not_or.mp hnot).imp id not_not.mp
    have hvalue := Except.ok.inj (heval.eval_eq harg)
    exact absurd (hshort text hvalue.symm) (by omega)
  · rintro hor text htext
    have hvarchar : call.resultType = .varchar := hkind.2.mp (by rw [htext]; rfl)
    rcases hor with hnumeric | hlong
    · rw [hvarchar] at hnumeric
      cases hnumeric
    · cases harg : call.arg with
      | none =>
        unfold AggCallSpec.Evaluates at heval
        rw [harg] at heval
        cases heval
      | some arg =>
        have hstring := heval.eval_eq harg
        rw [htext] at hstring
        rcases length_of_eval_string hstring with hshort | ⟨type, rfl⟩
        · exact hshort
        · exact Nat.le_of_not_lt fun hlt => hlong ⟨text, type, harg, hlt⟩

/-- The zero of an untouched state is no string. -/
theorem exists_write_zero_iff (number : Fp) (type : DataType) :
    (∃ written, writeExecValue type (.castNumber number type) = .ok written) ↔
      Binder.isNumeric type = true := by
  cases type with
  | varchar | invalid => exact iff_of_false nofun nofun
  | _ => exact iff_of_true ⟨_, rfl⟩ rfl

/-- The value that MIN or MAX keeps can be written, or the zero where it keeps none. -/
theorem exists_write_held_iff {hasValue : Bool} {value : ExecValue} (hcall : call.type = .min ∨ call.type = .max)
    (hsteady : ∀ row ∈ m, call.Steady row) (h : Held hasValue value (m.map call.argValue)) (number : Fp) :
    (∃ written, writeExecValue call.resultType
        (if hasValue = true then value else .castNumber number call.resultType) = .ok written) ↔
      call.Answers (m ≠ 0) := by
  have hanswers : call.Answers (m ≠ 0) ↔ Binder.isNumeric call.resultType = true ∨ m ≠ 0 ∧ ¬ call.LongLiteral :=
    ⟨fun h => h hcall, fun h _ => h⟩
  rw [hanswers]
  unfold Held at h
  cases hasValue with
  | false =>
    rw [if_neg nofun] at h ⊢
    have hzero : m = 0 := Multiset.map_eq_zero.mp h
    rw [exists_write_zero_iff]
    exact ⟨.inl, fun hor => hor.resolve_right fun hseen => hseen.1 hzero⟩
  | true =>
    rw [if_pos rfl] at h ⊢
    obtain ⟨row, hrow, rfl⟩ := Multiset.mem_map.mp h
    have hseen : m ≠ 0 := fun hzero => by
      rw [hzero] at hrow
      exact absurd hrow (Multiset.notMem_zero row)
    rw [exists_write_argValue_iff hcall (hsteady row hrow)]
    exact or_congr_right ⟨fun hlong => ⟨hseen, hlong⟩, And.right⟩

/-- **When the result of a call can be written.** -/
theorem answers_iff (h : CallHolds call state m) (hdecl : call.Declared) :
    (∃ written, callResult call call.resultType state = .ok written) ↔ call.Answers (m ≠ 0) := by
  unfold callResult finalizeAggregate
  cases htype : call.type with
  | count | sum | avg =>
    rw [AggCallSpec.Declared, htype] at hdecl
    refine iff_of_true ⟨_, by simp only [hdecl]; rfl⟩ ?_
    unfold AggCallSpec.Answers
    simp [htype]
  | min => exact exists_write_held_iff (.inl htype) h.steady (h.min htype) _
  | max => exact exists_write_held_iff (.inr htype) h.steady (h.max htype) _
  | invalid =>
    rw [AggCallSpec.Declared, htype] at hdecl
    exact hdecl.elim

end

/-! ## From the statement to its calls -/

/-- SUM and AVG are of numbers, and doubles. -/
theorem Expr.aggregateType?_of_sum {aggType : AggType} {type result : DataType}
    (hsum : aggType = .sum ∨ aggType = .avg) (h : aggregateType? aggType type = some result) :
    Binder.isNumeric type = true ∧ result = .double := by
  rcases hsum with rfl | rfl
  all_goals
    rw [aggregateType?] at h
    split_ifs at h with hnumeric
    exact ⟨hnumeric, (Option.some.inj h).symm⟩

/-- The call that the builder makes of an aggregate that the binder accepts. -/
inductive CallFor (table : BoundTable) (schema : ExecSchema) : BoundExpr → AggCallSpec → Prop
  | star : CallFor table schema (.aggStar .count .int64) ⟨.count, none, .int64⟩
  | func {aggType : AggType} {arg : BoundExpr} {type : DataType} {p : PlanExpr} {compiled : ExecExpression}
      (htyped : p.Typed table) (hreturn : p.returnType = arg.returnType)
      (htype : Expr.aggregateType? aggType arg.returnType = some type) (hp : buildPlanExpr arg = .ok p)
      (hcompiled : compileExecExpr schema p = .ok compiled) :
      CallFor table schema (.aggFunc aggType arg type) ⟨aggType, some compiled, type⟩

/-- The result of the aggregate is a number, or the value of a row that a slot holds. -/
def BoundExpr.Answers (seen : Prop) : BoundExpr → Prop
  | .aggFunc aggType arg _ =>
    aggType = .min ∨ aggType = .max →
      Binder.isNumeric arg.returnType = true ∨
        seen ∧ ∀ text type, arg = .literal (.string text) type → text.length ≤ kVarcharInlineMax
  | _ => True

namespace CallFor

variable {table : BoundTable} {schema : ExecSchema} {bound : BoundExpr} {call : AggCallSpec}

/-- A call that was compiled from a bound one is declared. -/
theorem declared (h : CallFor table schema bound call) : call.Declared := by
  cases h with
  | star => rfl
  | @func aggType arg type p compiled htyped hreturn htype hp hcompiled =>
    cases aggType with
    | count => exact (Option.some.inj htype).symm
    | sum => exact (Expr.aggregateType?_of_sum (.inl rfl) htype).2
    | avg => exact (Expr.aggregateType?_of_sum (.inr rfl) htype).2
    | min | max => trivial
    | invalid => cases htype

/-- Its type is valid. -/
theorem type_ne_invalid (h : CallFor table schema bound call) : call.type ≠ .invalid := by
  intro htype
  have hdecl := h.declared
  rw [AggCallSpec.Declared, htype] at hdecl
  exact hdecl

/-- A literal argument is compiled to the literal. -/
theorem longLiteral_iff {arg : BoundExpr} {p : PlanExpr} {compiled : ExecExpression} {aggType : AggType}
    {type : DataType} (hp : buildPlanExpr arg = .ok p) (hcompiled : compileExecExpr schema p = .ok compiled) :
    ¬ (⟨aggType, some compiled, type⟩ : AggCallSpec).LongLiteral ↔
      ∀ text type, arg = .literal (.string text) type → text.length ≤ kVarcharInlineMax := by
  constructor
  · rintro hnot text type' rfl
    cases hp
    cases hcompiled
    exact Nat.le_of_not_lt fun hlt => hnot ⟨text, type', rfl, hlt⟩
  · rintro hshort ⟨text, type', harg, hlong⟩
    obtain rfl := Option.some.inj harg
    cases p with
    | literal value u =>
      cases arg with
      | literal value' t =>
        cases hp
        cases value with
        | string text' =>
          cases hcompiled
          exact absurd (hshort text _ rfl) (by omega)
        | int32 | double => cases hcompiled
      | binaryOp op left right t =>
        obtain ⟨l, -, hp⟩ := bind_eq_ok hp
        obtain ⟨r, -, hp⟩ := bind_eq_ok hp
        cases hp
      | aggFunc aggType' arg' t =>
        obtain ⟨a, -, hp⟩ := bind_eq_ok hp
        cases hp
      | columnRef | aggStar | cast => cases hp
    | columnRef oid colIdx u =>
      rw [compileExecExpr] at hcompiled
      split at hcompiled <;> cases hcompiled
    | binary op left right u =>
      obtain ⟨l, -, hcompiled⟩ := bind_eq_ok hcompiled
      obtain ⟨r, -, hcompiled⟩ := bind_eq_ok hcompiled
      cases hcompiled
    | agg | aggStar => cases hcompiled

/-- It answers where the bound call does. -/
theorem answers_iff (h : CallFor table schema bound call) (seen : Prop) :
    call.Answers seen ↔ bound.Answers seen := by
  cases h with
  | star => exact iff_of_true nofun trivial
  | @func aggType arg type p compiled htyped hreturn htype hp hcompiled =>
    have hiff : ¬ (⟨aggType, some compiled, type⟩ : AggCallSpec).LongLiteral ↔ _ := longLiteral_iff hp hcompiled
    have hnumeric : aggType = .min ∨ aggType = .max → type = arg.returnType := by
      rintro (rfl | rfl) <;> exact (Option.some.inj htype).symm
    unfold AggCallSpec.Answers BoundExpr.Answers
    refine forall_congr' fun hcall => ?_
    rw [hiff, hnumeric hcall]

/-- **A row on which the argument has a value does not make the call throw.** -/
theorem steady (h : CallFor table schema bound call) (hschema : schema.OfTable table) {row : RowRef}
    (hb : row.1.HasSchema schema)
    (heval : ∀ arg ∈ call.arg, ∃ value, arg.eval row.1 row.2 = .ok value) : call.Steady row := by
  cases h with
  | star => exact .inl rfl
  | @func aggType arg type p compiled htyped hreturn htype hp hcompiled =>
    obtain ⟨value, hvalue⟩ := heval compiled rfl
    have hkind := kind_of_eval hschema hb htyped hcompiled hvalue
    rw [hreturn] at hkind
    have hargValue : (⟨aggType, some compiled, type⟩ : AggCallSpec).argValue row = value := by
      simp only [AggCallSpec.argValue, hvalue]
      rfl
    have hevaluates : (⟨aggType, some compiled, type⟩ : AggCallSpec).Evaluates row := by
      rw [AggCallSpec.Evaluates, hargValue]
      exact congrArg some hvalue
    have hnumber : aggType = .sum ∨ aggType = .avg → value.isString = false := by
      intro hsum
      obtain ⟨hnumeric, -⟩ := Expr.aggregateType?_of_sum hsum htype
      apply Bool.eq_false_iff.mpr
      intro hstring
      rw [hkind.2.mp hstring] at hnumeric
      cases hnumeric
    cases aggType with
    | count => exact .inr hevaluates
    | sum =>
      refine ⟨hevaluates, ?_⟩
      rw [hargValue]
      exact hnumber (.inl rfl)
    | avg =>
      refine ⟨hevaluates, ?_⟩
      rw [hargValue]
      exact hnumber (.inr rfl)
    | min | max =>
      refine ⟨hevaluates, ?_⟩
      rw [hargValue, ← Option.some.inj htype]
      exact hkind
    | invalid => cases htype

end CallFor

section

variable {table : BoundTable} {schema : ExecSchema} {stmt : SelectStatement} {bound : BoundSelectStatement}

/-- An aggregate as the binder gives it. -/
def BoundExpr.IsAggregate (table : BoundTable) (b : BoundExpr) : Prop :=
  b = .aggStar .count .int64 ∨
    ∃ aggType arg type, b = .aggFunc aggType arg type ∧ arg.Typed table ∧
      Expr.aggregateType? aggType arg.returnType = some type

/-- A call is bound to an aggregate. -/
theorem Binder.bindExpr_isCall {e : Expr} {b : BoundExpr} (hcall : e.isCall = true)
    (h : bindExpr table e = .ok b) : b.IsAggregate table := by
  cases e with
  | aggFunc aggType arg =>
    obtain ⟨a, ha, h⟩ := bind_eq_ok h
    rcases @bindAggFunc_spec aggType a with ⟨type, hbind, -, htype⟩ | ⟨⟨message, hbind⟩, -⟩
    · rw [hbind] at h
      cases h
      exact .inr ⟨aggType, a, type, rfl, typed_bindExpr ha, htype⟩
    · rw [hbind] at h
      cases h
  | aggStar aggType =>
    rw [bindExpr] at h
    split_ifs at h
    · exact .inl (Except.ok.inj h).symm
    · cases h
  | columnRef | literal | binaryOp => cases hcall

/-- One output that is the call of an aggregate. -/
theorem callFor_of_addAggregateOutput {b : BoundExpr} {p : PlanExpr} {groups : List PlanExpr}
    {calls : List AggCallSpec} {result : List AggCallSpec × AggregateOutputSpec}
    (hb : b.IsAggregate table) (hp : buildPlanExpr b = .ok p)
    (h : addAggregateOutput groups schema calls p = .ok result) :
    ∃ call, CallFor table schema b call ∧ result = (calls ++ [call], ⟨false, calls.length, call.resultType⟩) := by
  rcases hb with rfl | ⟨aggType, arg, type, rfl, htyped, htype⟩
  · cases hp
    cases h
    exact ⟨_, .star, rfl⟩
  · obtain ⟨q, hq, hp⟩ := bind_eq_ok hp
    cases hp
    obtain ⟨compiled, hcompiled, h⟩ := bind_eq_ok h
    cases h
    obtain ⟨hqtyped, hreturn⟩ := PlanExpr.typed_buildPlanExpr htyped hq
    exact ⟨_, .func hqtyped hreturn htype hq hcompiled, rfl⟩

/-- Outputs that are calls of aggregates, one after the other. -/
theorem callsFor_of_addAggregateOutputs {items : List BoundSelectItem} {outputs : List NamedPlanExpr}
    {groups : List PlanExpr} {calls : List AggCallSpec} {result : List AggCallSpec × List AggregateOutputSpec}
    (hitems : List.Forall₂ (fun item output =>
      item.expr.IsAggregate table ∧ buildPlanExpr item.expr = .ok output.expr) items outputs)
    (h : addAggregateOutputs groups schema calls outputs = .ok result) :
    ∃ more, result = (calls ++ more, (more.zipIdx calls.length).map fun c => ⟨false, c.2, c.1.resultType⟩) ∧
      List.Forall₂ (fun item call => CallFor table schema item.expr call) items more := by
  induction hitems generalizing calls result with
  | nil =>
    cases h
    exact ⟨[], by simp, .nil⟩
  | cons hitem _ ih =>
    obtain ⟨first, hfirst, h⟩ := bind_eq_ok h
    obtain ⟨rest, hrest, h⟩ := bind_eq_ok h
    cases h
    obtain ⟨call, hcall, rfl⟩ := callFor_of_addAggregateOutput hitem.1 hitem.2 hfirst
    obtain ⟨more, rfl, hmore⟩ := ih hrest
    refine ⟨call :: more, ?_, .cons hcall hmore⟩
    simp

/-- **The spec of a list of aggregates**: its calls, and its outputs in their order. -/
theorem callsFor_of_buildAggregateSpec {outputs : List NamedPlanExpr} {spec : AggregateSpec}
    (hbind : Binder.bindSelect (some table) stmt = .ok bound)
    (hcalls : ∀ item ∈ stmt.selectList, item.expr.isCall = true)
    (houtputs : buildOutputs bound.selectList = .ok outputs)
    (hspec : buildAggregateSpec [] outputs schema = .ok spec) :
    spec.groupExprs = [] ∧
      spec.outputs = (spec.aggCalls.zipIdx).map (fun c => ⟨false, c.2, c.1.resultType⟩) ∧
      List.Forall₂ (fun item call => CallFor table schema item.expr call) bound.selectList spec.aggCalls := by
  obtain ⟨hselect, -⟩ := Binder.bindSelect_eq_ok hbind
  have hstar : Binder.isStar stmt.selectList = false := by
    apply Bool.eq_false_iff.mpr
    intro hstar
    obtain ⟨item, hlist, hplain⟩ := Binder.isStar_eq_true hstar
    have hcall := hcalls item (hlist ▸ List.mem_singleton_self item)
    cases hexpr : item.expr with
    | aggFunc | aggStar =>
      rw [hexpr] at hplain
      cases hplain
    | columnRef | literal | binaryOp =>
      rw [hexpr] at hcall
      cases hcall
  have hitems : ∀ item ∈ bound.selectList, item.expr.IsAggregate table := by
    intro item hitem
    obtain ⟨parsed, hparsed, hb⟩ := (Binder.mem_bindSelectList hstar hselect).2 item hitem
    exact Binder.bindExpr_isCall (hcalls parsed hparsed) hb
  have hbuilt : List.Forall₂ (fun item output => buildPlanExpr item.expr = .ok output.expr) bound.selectList
      outputs := by
    refine (forall₂_of_mapM houtputs).imp ?_
    intro item output houtput
    obtain ⟨p, hp, houtput⟩ := bind_eq_ok houtput
    cases houtput
    exact hp
  obtain ⟨exprs, hexprs, hspec⟩ := bind_eq_ok hspec
  obtain ⟨result, hresult, hspec⟩ := bind_eq_ok hspec
  cases hexprs
  cases hspec
  obtain ⟨more, rfl, hmore⟩ := callsFor_of_addAggregateOutputs ((List.forall₂_and_left _ _).mpr ⟨hitems, hbuilt⟩)
    hresult
  exact ⟨rfl, rfl, hmore⟩

end

/-! ## One row -/

namespace AggregateSpec

variable {spec : AggregateSpec} {s : HashAggregateState} {m : Multiset VectorBatch}

/-- The run does not throw, and its state gives one row and then no more. -/
def YieldsOneRow (spec : AggregateSpec) (run : Except String HashAggregateState) : Prop :=
  ∃ s row rest, run = .ok s ∧ spec.nextResult (s.outputGroups spec) = .ok (some ([row], rest)) ∧
    spec.nextResult rest = .ok none

/-- The one batch of a global state holds its row. -/
theorem yieldsOneRow_ok_iff (hglobal : spec.isGlobal = true) :
    spec.YieldsOneRow (.ok s) ↔ ∃ row, spec.outputRow ([], s.globalStates) = .ok row := by
  have hnext : spec.nextResult (s.outputGroups spec) = do
      let row ← spec.outputRow ([], s.globalStates)
      return some ([row], []) := by
    rw [HashAggregateState.outputGroups, if_pos hglobal]
    show ([([], s.globalStates)].mapM spec.outputRow).bind _ = _
    rw [List.mapM_cons]
    cases spec.outputRow ([], s.globalStates) <;> rfl
  constructor
  · rintro ⟨s', row, rest, hs, hrow, -⟩
    cases hs
    rw [hnext] at hrow
    obtain ⟨row', hrow', -⟩ := bind_eq_ok hrow
    exact ⟨row', hrow'⟩
  · rintro ⟨row, hrow⟩
    refine ⟨s, row, [], rfl, ?_, rfl⟩
    rw [hnext, hrow]
    rfl

/-- The state of a call, by its place. -/
theorem exists_state (h : StateHolds spec s m) {i : ℕ} {call : AggCallSpec}
    (hcall : spec.aggCalls[i]? = some call) :
    ∃ state, s.globalStates[i]? = some state ∧ CallHolds call state (m.bind fun batch => ↑batch.rowRefs) := by
  obtain ⟨hlt, rfl⟩ := List.getElem?_eq_some_iff.mp hcall
  have hlen : i < s.globalStates.length := h.length_eq ▸ hlt
  exact ⟨s.globalStates[i], List.getElem?_eq_getElem hlen, h.get hlt hlen⟩

/-- **When a global state gives its row.** -/
theorem yieldsOneRow_iff_answers (hglobal : spec.isGlobal = true)
    (hdecl : ∀ call ∈ spec.aggCalls, call.Declared)
    (houtputs : spec.outputs = (spec.aggCalls.zipIdx).map fun c => ⟨false, c.2, c.1.resultType⟩)
    (h : StateHolds spec s m) :
    spec.YieldsOneRow (.ok s) ↔
      ∀ call ∈ spec.aggCalls, call.Answers ((m.bind fun batch => (↑batch.rowRefs : Multiset RowRef)) ≠ 0) := by
  have hvalue : ∀ {i : ℕ} {call : AggCallSpec}, spec.aggCalls[i]? = some call →
      ((∃ value, spec.outputValue ([], s.globalStates) ⟨false, i, call.resultType⟩ = .ok value) ↔
        call.Answers ((m.bind fun batch => (↑batch.rowRefs : Multiset RowRef)) ≠ 0)) := by
    intro i call hcall
    obtain ⟨state, hstate, hholds⟩ := exists_state h hcall
    have hresult : spec.outputValue ([], s.globalStates) ⟨false, i, call.resultType⟩ =
        callResult call call.resultType state := by
      simp only [outputValue, hcall, hstate, Bool.false_eq_true, if_false]
      rfl
    rw [hresult, answers_iff hholds (hdecl call (List.mem_of_getElem? hcall))]
  rw [yieldsOneRow_ok_iff hglobal, outputRow, exists_mapM_eq_ok_iff, houtputs]
  constructor
  · intro hall call hmem
    obtain ⟨i, hcall⟩ := List.mem_iff_getElem?.mp hmem
    exact (hvalue hcall).mp (hall _ (List.mem_map.mpr ⟨(call, i), List.mk_mem_zipIdx_iff_getElem?.mpr hcall, rfl⟩))
  · intro hall output houtput
    obtain ⟨⟨call, i⟩, hmem, rfl⟩ := List.mem_map.mp houtput
    have hcall := List.mk_mem_zipIdx_iff_getElem?.mp hmem
    exact (hvalue hcall).mpr (hall call (List.mem_of_getElem? hcall))

/-- A batch of the schema on whose active rows the arguments have values. -/
structure Evaluable (spec : AggregateSpec) (schema : ExecSchema) (batch : VectorBatch) : Prop where
  strong : batch.Strong
  hasSchema : batch.HasSchema schema
  arguments : ∀ row ∈ batch.rowRefs, ∀ call ∈ spec.aggCalls, ∀ arg ∈ call.arg,
    ∃ value, arg.eval row.1 row.2 = .ok value

/-- Some batch has an active row. -/
def AnyRow (batches : List VectorBatch) : Prop := ∃ batch ∈ batches, 0 < batch.size

/-- There is a row where some batch has an active one. -/
theorem anyRow_iff {batches : List VectorBatch} (h : ∀ batch ∈ batches, batch.Strong) :
    ((↑batches : Multiset VectorBatch).bind fun batch => (↑batch.rowRefs : Multiset RowRef)) ≠ 0 ↔
      AnyRow batches := by
  have hlength : ∀ batch ∈ batches, batch.rowRefs.length = batch.size := by
    intro batch hbatch
    rw [VectorBatch.rowRefs, List.length_map, VectorBatch.length_activeIndices (h batch hbatch)]
  constructor
  · intro hne
    obtain ⟨row, hrow⟩ := Multiset.exists_mem_of_ne_zero hne
    obtain ⟨batch, hbatch, hrow⟩ := Multiset.mem_bind.mp hrow
    refine ⟨batch, hbatch, ?_⟩
    rw [← hlength batch hbatch]
    exact List.length_pos_of_mem hrow
  · rintro ⟨batch, hbatch, hpos⟩ hzero
    rw [← hlength batch hbatch] at hpos
    obtain ⟨row, hrow⟩ := List.exists_mem_of_length_pos hpos
    have hmem : row ∈ (↑batches : Multiset VectorBatch).bind fun batch => (↑batch.rowRefs : Multiset RowRef) :=
      Multiset.mem_bind.mpr ⟨batch, hbatch, hrow⟩
    rw [hzero] at hmem
    exact absurd hmem (Multiset.notMem_zero row)

/-- **A global aggregate yields its one row**, serial or merged, exactly where each MIN and MAX of strings has
seen a row, and is not of a literal that no slot holds. -/
theorem yieldsOneRow_iff {table : BoundTable} {schema : ExecSchema} {stmt : SelectStatement}
    {bound : BoundSelectStatement} {outputs : List NamedPlanExpr} {groups : List PlanExpr}
    (hbind : Binder.bindSelect (some table) stmt = .ok bound) (hgroup : stmt.groupBy = [])
    (hcalls : ∀ item ∈ stmt.selectList, item.expr.isCall = true)
    (houtputs : buildOutputs bound.selectList = .ok outputs)
    (hgroups : bound.groupBy.mapM buildPlanExpr = .ok groups)
    (hspec : buildAggregateSpec groups outputs schema = .ok spec) (hschema : schema.OfTable table)
    (order : GroupTable → GroupTable) (batches : List VectorBatch)
    (hbatches : ∀ batch ∈ batches, spec.Evaluable schema batch) :
    (∀ tree : MergeTree VectorBatch, tree.inputs.Perm batches →
      (spec.YieldsOneRow (tree.eval spec.initial (HashAggregateState.consume spec)
          (HashAggregateState.merge spec order)) ↔
        ∀ item ∈ bound.selectList, item.expr.Answers (AnyRow batches))) ∧
      ∀ workers : List (List VectorBatch), workers.flatten.Perm batches →
        (spec.YieldsOneRow (spec.executeAggregate order workers) ↔
          ∀ item ∈ bound.selectList, item.expr.Answers (AnyRow batches)) := by
  obtain ⟨-, -, hbound, -⟩ := Binder.bindSelect_eq_ok hbind
  rw [hgroup] at hbound
  rw [← Except.ok.inj hbound] at hgroups
  obtain rfl := Except.ok.inj hgroups
  obtain ⟨hexprs, hplaces, hfor⟩ := callsFor_of_buildAggregateSpec hbind hcalls houtputs hspec
  have hglobal : spec.isGlobal = true := by
    rw [isGlobal, hexprs]
    rfl
  have hmade : ∀ call ∈ spec.aggCalls, ∃ item ∈ bound.selectList, CallFor table schema item.expr call :=
    fun call hcall => exists_of_mem_right hfor hcall
  have hdecl : ∀ call ∈ spec.aggCalls, call.Declared := fun call hcall => by
    obtain ⟨item, -, hitem⟩ := hmade call hcall
    exact hitem.declared
  have hvalid : ∀ call ∈ spec.aggCalls, call.type ≠ .invalid := fun call hcall => by
    obtain ⟨item, -, hitem⟩ := hmade call hcall
    exact hitem.type_ne_invalid
  have hsteady : ∀ batch ∈ batches, spec.SteadyBatch batch := by
    intro batch hbatch
    have heval := hbatches batch hbatch
    refine ⟨heval.strong, fun row hrow call hcall => ?_⟩
    obtain ⟨item, -, hitem⟩ := hmade call hcall
    have hschemaOf : row.1.HasSchema schema := by
      obtain ⟨i, -, rfl⟩ := List.mem_map.mp hrow
      exact heval.hasSchema
    exact hitem.steady hschema hschemaOf (heval.arguments row hrow call hcall)
  have hanswers : ∀ {seen : Prop}, (∀ call ∈ spec.aggCalls, call.Answers seen) ↔
      ∀ item ∈ bound.selectList, item.expr.Answers seen := by
    intro seen
    constructor
    · intro hall item hitem
      obtain ⟨call, hcall, hrel⟩ := exists_of_mem_left hfor hitem
      exact (hrel.answers_iff seen).mp (hall call hcall)
    · intro hall call hcall
      obtain ⟨item, hitem, hrel⟩ := hmade call hcall
      exact (hrel.answers_iff seen).mpr (hall item hitem)
  have hyields : ∀ {s : HashAggregateState} {inputs : List VectorBatch}, inputs.Perm batches →
      StateHolds spec s ↑inputs →
      (spec.YieldsOneRow (.ok s) ↔ ∀ item ∈ bound.selectList, item.expr.Answers (AnyRow batches)) := by
    intro s inputs hperm hholds
    rw [Multiset.coe_eq_coe.mpr hperm] at hholds
    rw [yieldsOneRow_iff_answers hglobal hdecl hplaces hholds, hanswers,
      anyRow_iff fun batch hbatch => (hbatches batch hbatch).strong]
  constructor
  · intro tree hperm
    obtain ⟨s, hs, hholds⟩ := (globalHeld spec hglobal hvalid order).sums_eval tree
      fun batch hbatch => hsteady batch (hperm.mem_iff.mp hbatch)
    have heval : tree.eval spec.initial (HashAggregateState.consume spec)
        (HashAggregateState.merge spec order) = .ok s := hs
    rw [heval]
    exact hyields hperm hholds
  · intro workers hperm
    obtain ⟨states, s, hstates, hs, hholds⟩ := (workerHeld spec hglobal hvalid order).sums_workers workers
      fun batch hbatch => hsteady batch (hperm.mem_iff.mp hbatch)
    have hmap : workers.mapM (fun batches => batches.foldlM spec.consumeActive spec.initial) = .ok states :=
      hstates
    have hrun : spec.executeAggregate order workers = .ok s := by
      rw [executeAggregate, hmap]
      exact hs
    rw [hrun]
    exact hyields hperm hholds

/-! ### The least of no strings -/

/-- One column `n`, of a type. -/
def columnN (type : DataType) : BoundTable := ⟨7, [⟨0, ascii ['n'], type⟩]⟩

/-- `SELECT MIN(n) FROM t`. -/
def selectMin : SelectStatement where
  tableName := ascii ['t']
  selectList := [⟨.aggFunc .min (.columnRef (ascii ['n'])), []⟩]
  whereClause := none
  groupBy := []

/-- The statement, bound. -/
def boundMin (type : DataType) : BoundSelectStatement where
  tableOid := 7
  selectList := [⟨.aggFunc .min (.columnRef 7 0 type) type, []⟩]
  whereClause := none
  groupBy := []

/-- What the builder makes of it. -/
def minSpec (type : DataType) : AggregateSpec where
  groupExprs := []
  aggCalls := [⟨.min, some (.columnRef 0 type), type⟩]
  outputs := [⟨false, 0, type⟩]

/-- The statement is bound. -/
theorem bindSelect_selectMin (type : DataType) :
    Binder.bindSelect (some (columnN type)) selectMin = .ok (boundMin type) := rfl

/-- The plan is compiled. -/
theorem buildAggregateSpec_selectMin (type : DataType) :
    buildAggregateSpec [] [⟨.agg .min (.columnRef 7 0 type) type, []⟩] [⟨type, some ⟨7, 0⟩⟩] =
      .ok (minSpec type) := rfl

/-- **Over strings the binder accepts it, and without rows it throws**, serial or merged. -/
theorem selectMin_throws :
    Binder.bindSelect (some (columnN .varchar)) selectMin = .ok (boundMin .varchar) ∧
      buildAggregateSpec [] [⟨.agg .min (.columnRef 7 0 .varchar) .varchar, []⟩] [⟨.varchar, some ⟨7, 0⟩⟩] =
        .ok (minSpec .varchar) ∧
      (minSpec .varchar).nextResult ((minSpec .varchar).initial.outputGroups (minSpec .varchar)) =
        .error "execution: non-string value for VARCHAR output column" ∧
      (minSpec .varchar).executeAggregate id [[], []] = .ok (minSpec .varchar).initial :=
  ⟨rfl, rfl, rfl, rfl⟩

/-- The least of one integer. -/
theorem yieldsOneRow_iff_seven :
    (minSpec .int32).YieldsOneRow ((minSpec .int32).executeAggregate id [[sevenBatch], []]) ↔
      ∀ item ∈ (boundMin .int32).selectList, item.expr.Answers (AnyRow [sevenBatch]) := by
  have hschema : ExecSchema.OfTable (columnN .int32) [⟨.int32, some ⟨7, 0⟩⟩] := by
    intro slot hslot binding hbinding
    obtain rfl := List.mem_singleton.mp hslot
    cases hbinding
    rfl
  have hbatches : ∀ batch ∈ [sevenBatch], (minSpec .int32).Evaluable [⟨.int32, some ⟨7, 0⟩⟩] batch := by
    intro batch hbatch
    obtain rfl := List.mem_singleton.mp hbatch
    refine ⟨⟨SelectionMask.WF.setAll 1, by decide, by decide⟩, rfl, fun row hrow call hcall arg harg => ?_⟩
    obtain rfl : row = (sevenBatch, 0) := by
      have hindices : sevenBatch.activeIndices = [0] := by decide
      rw [VectorBatch.rowRefs, hindices] at hrow
      exact List.mem_singleton.mp hrow
    obtain rfl := List.mem_singleton.mp hcall
    obtain rfl := Option.some.inj harg
    exact ⟨_, rfl⟩
  exact (yieldsOneRow_iff (bindSelect_selectMin .int32) rfl (by decide) rfl rfl
    (buildAggregateSpec_selectMin .int32) hschema id [sevenBatch] hbatches).2 [[sevenBatch], []] (List.Perm.refl _)

end AggregateSpec

end SimpleOlap
