import SimpleOlap.Execution.Aggregate.CallSummary
import SimpleOlap.Lib.Results

/-!
# All calls of a plan, over rows and batches

* `AggregateSpec.Aggregable`: the batches on which nothing throws and all values are exact.
* `statesSummary`, `groupSummary`: the states of all calls and the group table, over rows.
* `consumeGlobal_eq`: counting whole batches is counting row by row.
* `aggregateSummary`: the state of a plan, over batches.

Source: `hash_aggregate_state.cpp`.
-/

namespace SimpleOlap

open Lib

/-! ## The rows that a plan aggregates -/

namespace ExecValue

/-- Exact values are equal where the code finds them so. -/
theorem eqv_iff {a b : ExecValue} (ha : a.Exact) (hb : b.Exact) : a.eqv b = true ↔ a = b := by
  have hunits : ∀ x y : ℤ, (Fp.ofUnits x).eq (.ofUnits y) = true ↔ Fp.ofUnits x = Fp.ofUnits y := by
    intro x y
    rw [Fp.eq_iff (Fp.ofUnits_ne_nan x) (Fp.ofUnits_ne_nan y)]
    constructor
    · intro h
      rw [Fp.key_ofUnits, Fp.key_ofUnits, WithBot.coe_inj, WithTop.coe_inj] at h
      rw [h]
    · exact congrArg Fp.key
  cases a <;> cases b <;> try simp [eqv]
  · obtain ⟨x, hx⟩ := ha
    obtain ⟨y, hy⟩ := hb
    rw [hx, hy, hunits, ← hx, ← hy, Subtype.val_inj]
  · obtain ⟨x, hx⟩ := ha
    obtain ⟨y, hy⟩ := hb
    rw [hx, hy, hunits, ← hx, ← hy, Subtype.val_inj]

end ExecValue

/-- A key of exact values. -/
def GroupKey.Exact (key : GroupKey) : Prop := ∀ value ∈ key, value.Exact

/-- So are keys of exact values. -/
theorem GroupKey.eqv_iff (k k' : GroupKey) (hk : k.Exact) (hk' : k'.Exact) :
    GroupKey.eqv k k' = true ↔ k = k' := by
  induction k generalizing k' with
  | nil => cases k' <;> simp [GroupKey.eqv]
  | cons a as ih =>
    cases k' with
    | nil => simp [GroupKey.eqv]
    | cons b bs =>
      rw [GroupKey.Exact, List.forall_mem_cons] at hk hk'
      rw [GroupKey.eqv, Bool.and_eq_true, ExecValue.eqv_iff hk.1 hk'.1, ih bs hk.2 hk'.2,
        List.cons.injEq]

/-- The active rows of a batch. -/
def VectorBatch.rowRefs (batch : VectorBatch) : List RowRef :=
  batch.activeIndices.map fun row => (batch, row)

/-- A batch has as many active rows as its size. -/
theorem VectorBatch.length_activeIndices {batch : VectorBatch} (h : batch.Strong) :
    batch.activeIndices.length = batch.size := by
  rw [activeIndices]
  split_ifs
  · exact List.length_range
  · rw [SelectionMask.setBits_eq h.selection, ← List.countP_eq_length_filter, h.size,
      SelectionMask.count_eq h.selection]

namespace AggregateSpec

/-- The group key of a row; any key where an expression throws. -/
def keyOf (spec : AggregateSpec) (row : RowRef) : GroupKey :=
  (spec.evalGroupKey row.1 row.2).toOption.getD []

/-- A row on which nothing throws, and whose values are exact. -/
structure Fits (spec : AggregateSpec) (strings : AggCallSpec → Bool) (row : RowRef) : Prop where
  key : spec.evalGroupKey row.1 row.2 = .ok (spec.keyOf row)
  exact : (spec.keyOf row).Exact
  calls : ∀ call ∈ spec.aggCalls, call.Fits strings row

/-- Every call of SUM or AVG finds values in each group of the rows whose sums `long double` holds. -/
def SumsExact (spec : AggregateSpec) (rows : Multiset RowRef) : Prop :=
  ∀ call ∈ spec.aggCalls, call.IsSum → ∀ key, call.ExactSums (rows.filter fun row => spec.keyOf row = key)

/-- Without group expressions all rows are one group. -/
theorem keyOf_of_isGlobal {spec : AggregateSpec} (h : spec.isGlobal = true) (row : RowRef) : spec.keyOf row = [] := by
  rw [isGlobal, List.isEmpty_iff] at h
  rw [keyOf, evalGroupKey, h]
  rfl

/-- Without GROUP BY all rows are summed together. -/
theorem SumsExact.global {spec : AggregateSpec} {rows : Multiset RowRef} (h : spec.SumsExact rows)
    (hglobal : spec.isGlobal = true) : ∀ call ∈ spec.aggCalls, call.IsSum → call.ExactSums rows := by
  intro call hcall hsum
  have hall := h call hcall hsum []
  rwa [Multiset.filter_eq_self.mpr fun row _ => keyOf_of_isGlobal hglobal row] at hall

/-- It depends on the keys and the values only. -/
theorem SumsExact.of_map_eq {spec : AggregateSpec} {rows rows' : Multiset RowRef} (h : spec.SumsExact rows)
    (hsame : ∀ call ∈ spec.aggCalls, rows'.map (fun row => (spec.keyOf row, call.argValue row)) =
      rows.map fun row => (spec.keyOf row, call.argValue row)) : spec.SumsExact rows' := by
  have hgroup : ∀ (rows : Multiset RowRef) (call : AggCallSpec) (key : GroupKey),
      (rows.filter fun row => spec.keyOf row = key).map call.argValue =
        ((rows.map fun row => (spec.keyOf row, call.argValue row)).filter fun p => p.1 = key).map Prod.snd := by
    intro rows call key
    rw [Multiset.filter_map, Multiset.map_map]
    rfl
  intro call hcall hsum key
  have hexact := h call hcall hsum key
  rw [AggCallSpec.ExactSums, hgroup] at hexact ⊢
  rwa [hsame call hcall]

/-- A batch that keeps its invariant and whose active rows fit. -/
structure Aggregable (spec : AggregateSpec) (strings : AggCallSpec → Bool) (batch : VectorBatch) :
    Prop where
  strong : batch.Strong
  rows : ∀ row ∈ batch.rowRefs, spec.Fits strings row

end AggregateSpec

/-! ## The states of all calls -/

/-- What the states of the calls say of the rows. -/
abbrev StatesSum (strings : AggCallSpec → Bool) (calls : List AggCallSpec) (states : List AggState)
    (m : Multiset RowRef) : Prop :=
  List.Forall₂ (fun call state => CallSums strings call state m) calls states

/-- The states of the calls, over rows. -/
def statesSummary (strings : AggCallSpec → Bool) (calls : List AggCallSpec)
    (hvalid : ∀ call ∈ calls, call.type ≠ .invalid) : Summary (List AggState) RowRef String where
  initial := calls.map fun _ => {}
  update states row := updateStates calls states row.1 row.2
  combine := combineStates calls
  Good row := ∀ call ∈ calls, call.Fits strings row
  Sums := StatesSum strings calls
  sums_initial := by
    rw [StatesSum, List.forall₂_map_right_iff, List.forall₂_same]
    exact fun call _ => callSums_initial
  sums_update := by
    intro states m row hsum hfit
    exact mapM_zip_ok hsum fun call hcall state hstate => hstate.update (hfit call hcall)
  sums_combine := by
    intro s t m m' hs ht
    exact mapM_zip_ok (forall₂_zip hs ht) fun call hcall _ hp => hp.1.combine (hvalid call hcall) hp.2

/-- The group table, over rows. -/
def groupSummary (strings : AggCallSpec → Bool) (spec : AggregateSpec)
    (hvalid : ∀ call ∈ spec.aggCalls, call.type ≠ .invalid)
    (order : GroupTable → GroupTable) (horder : ∀ groups, (order groups).Perm groups) :
    Summary GroupTable RowRef String where
  initial := []
  update groups row := do
    let key ← spec.evalGroupKey row.1 row.2
    groups.modify key spec.makeStates fun states => updateStates spec.aggCalls states row.1 row.2
  combine s t := (order t).foldlM (fun (groups : GroupTable) entry =>
    groups.modify entry.1 spec.makeStates fun states => combineStates spec.aggCalls states entry.2) s
  Good := spec.Fits strings
  Sums groups m := Grouped (StatesSum strings spec.aggCalls) spec.keyOf groups m ∧
    ∀ row ∈ m, (spec.keyOf row).Exact
  sums_initial := ⟨Grouped.empty, by simp⟩
  sums_update := by
    rintro groups m row ⟨hgroups, hexact⟩ hfit
    have hchange : ∀ states,
        StatesSum strings spec.aggCalls states (m.filter fun a => spec.keyOf a = spec.keyOf row) →
        ∃ states', updateStates spec.aggCalls states row.1 row.2 = .ok states' ∧
          StatesSum strings spec.aggCalls states'
            ((m.filter fun a => spec.keyOf a = spec.keyOf row) + {row}) := by
      intro states hsum
      rw [add_comm, Multiset.singleton_add]
      exact (statesSummary strings spec.aggCalls hvalid).sums_update hsum hfit.calls
    obtain ⟨groups', hok, hgroups'⟩ := Grouped.modify GroupKey.eqv_iff hgroups hexact hfit.exact
      (by simp) (by simp) (statesSummary strings spec.aggCalls hvalid).sums_initial hchange
    refine ⟨groups', ?_, ?_, ?_⟩
    · rw [hfit.key]
      exact hok
    · rwa [add_comm, Multiset.singleton_add] at hgroups'
    · intro row' hrow'
      rcases Multiset.mem_cons.mp hrow' with rfl | hrow'
      · exact hfit.exact
      · exact hexact row' hrow'
  sums_combine := by
    rintro s t m m' ⟨hs, hexact⟩ ⟨ht, hexact'⟩
    obtain ⟨u, hu, hsum⟩ := Grouped.merge GroupKey.eqv_iff
      (statesSummary strings spec.aggCalls hvalid).sums_initial
      (statesSummary strings spec.aggCalls hvalid).sums_combine hs (ht.perm (horder t)) hexact hexact'
    refine ⟨u, hu, hsum, ?_⟩
    intro row hrow
    exact (Multiset.mem_add.mp hrow).elim (hexact row) (hexact' row)

/-! ## Whole batches -/

/-- The states with so many more rows counted in the calls of `COUNT(*)`. -/
def countRows (calls : List AggCallSpec) (states : List AggState) (n : ℕ) : List AggState :=
  (calls.zip states).map fun c =>
    if c.1.isCountStar then { c.2 with count := c.2.count + n } else c.2

/-- No rows are counted. -/
theorem countRows_zero {calls : List AggCallSpec} {states : List AggState}
    (h : states.length = calls.length) : countRows calls states 0 = states := by
  have hsnd : ∀ c ∈ calls.zip states,
      (if c.1.isCountStar then { c.2 with count := c.2.count + (0 : ℕ) } else c.2) = c.2 := by
    intro c _
    simp
  rw [countRows, List.map_congr_left hsnd]
  exact List.map_snd_zip h.le

/-- The first call, then the others. -/
theorem countRows_cons (call : AggCallSpec) (calls : List AggCallSpec) (state : AggState)
    (states : List AggState) (n : ℕ) :
    countRows (call :: calls) (state :: states) n =
      (if call.isCountStar then { state with count := state.count + n } else state) ::
        countRows calls states n := rfl

/-- The first call, then the others. -/
theorem updateStates_cons (call : AggCallSpec) (calls : List AggCallSpec) (state : AggState)
    (states : List AggState) (batch : VectorBatch) (row : ℕ) :
    updateStates (call :: calls) (state :: states) batch row = (do
      let state' ← updateAggregate call state batch row
      return state' :: (← updateStates calls states batch row)) := by
  rw [updateStates, List.zip_cons_cons, List.mapM_cons]
  rfl

/-- The first call, then the others. -/
theorem updateRowCalls_cons (call : AggCallSpec) (calls : List AggCallSpec) (state : AggState)
    (states : List AggState) (batch : VectorBatch) (row : ℕ) :
    updateRowCalls (call :: calls) (state :: states) batch row = (do
      let state' ← (if call.isCountStar then .ok state else updateAggregate call state batch row)
      return state' :: (← updateRowCalls calls states batch row)) := by
  rw [updateRowCalls, List.zip_cons_cons, List.mapM_cons]
  rfl

/-- A row, with the rows counted before or after it. -/
theorem updateRowCalls_countRows (calls : List AggCallSpec) {states : List AggState}
    (h : states.length = calls.length) (batch : VectorBatch) (row n : ℕ) :
    updateRowCalls calls (countRows calls states (n + 1)) batch row =
      (updateStates calls states batch row).map fun states' => countRows calls states' n := by
  induction calls generalizing states with
  | nil => rfl
  | cons call calls ih =>
    match states, h with
    | state :: states, h =>
      rw [countRows_cons, updateRowCalls_cons, updateStates_cons, ih (Nat.succ.inj h)]
      by_cases hstar : call.isCountStar = true
      · have hcall : call.type = .count ∧ call.arg = none := by
          simpa [AggCallSpec.isCountStar] using hstar
        have hupdate : updateAggregate call state batch row =
            .ok { state with count := state.count + 1 } := by
          rw [updateAggregate, if_pos hcall.1, hcall.2]
          rfl
        have hcount : state.count + ((n + 1 : ℕ) : ℤ) = state.count + 1 + n := by omega
        rw [if_pos hstar, if_pos hstar, hupdate, hcount]
        cases updateStates calls states batch row with
        | error e => rfl
        | ok rest =>
          show Except.ok _ = Except.ok (countRows (call :: calls) (_ :: rest) n)
          rw [countRows_cons, if_pos hstar]
      · rw [if_neg hstar, if_neg hstar]
        cases updateAggregate call state batch row with
        | error e => rfl
        | ok state' =>
          cases updateStates calls states batch row with
          | error e => rfl
          | ok rest =>
            show Except.ok _ = Except.ok (countRows (call :: calls) (state' :: rest) n)
            rw [countRows_cons, if_neg hstar]

/-- As many states as calls. -/
theorem length_updateStates {calls : List AggCallSpec} {states states' : List AggState}
    {batch : VectorBatch} {row : ℕ} (h : states.length = calls.length)
    (hok : updateStates calls states batch row = .ok states') : states'.length = calls.length := by
  rw [length_of_mapM_eq_ok hok, List.length_zip, h, Nat.min_self]

/-- Counting all rows first. -/
theorem foldlM_countRows (calls : List AggCallSpec) {states : List AggState}
    (h : states.length = calls.length) (batch : VectorBatch) (rows : List ℕ) :
    rows.foldlM (fun states row => updateRowCalls calls states batch row)
        (countRows calls states rows.length) =
      rows.foldlM (fun states row => updateStates calls states batch row) states := by
  induction rows generalizing states with
  | nil => exact congrArg Except.ok (countRows_zero h)
  | cons row rows ih =>
    rw [List.foldlM_cons, List.foldlM_cons, List.length_cons, updateRowCalls_countRows calls h]
    cases hrow : updateStates calls states batch row with
    | error e => rfl
    | ok states' => exact ih (length_updateStates h hrow)

/-- Without calls besides `COUNT(*)` a row changes nothing more. -/
theorem updateRowCalls_of_all {calls : List AggCallSpec} (hall : calls.all AggCallSpec.isCountStar)
    {states : List AggState} (h : states.length = calls.length) (batch : VectorBatch) (row : ℕ) :
    updateRowCalls calls states batch row = .ok states := by
  have hsnd : ∀ c ∈ calls.zip states,
      (if c.1.isCountStar then .ok c.2 else updateAggregate c.1 c.2 batch row) =
        (.ok c.2 : Except String AggState) := by
    intro c hc
    rw [if_pos (List.all_eq_true.mp hall c.1 (List.of_mem_zip hc).1)]
  rw [updateRowCalls, mapM_eq_ok (f := _) hsnd]
  exact congrArg Except.ok (List.map_snd_zip h.le)

namespace HashAggregateState

/-- The global state with every call updated row by row. -/
def consumeGlobalRows (spec : AggregateSpec) (s : HashAggregateState) (batch : VectorBatch) :
    Except String HashAggregateState := do
  let states ← batch.activeIndices.foldlM
    (fun states row => updateStates spec.aggCalls states batch row) s.globalStates
  return { s with globalStates := states }

/-- **Counting whole batches is counting row by row**, and fails where that fails. -/
theorem consumeGlobal_eq {spec : AggregateSpec} {s : HashAggregateState} {batch : VectorBatch}
    (hs : s.globalStates.length = spec.aggCalls.length) (hbatch : batch.Strong) :
    consumeGlobal spec s batch = consumeGlobalRows spec s batch := by
  have hsize := VectorBatch.length_activeIndices hbatch
  rw [consumeGlobalRows, ← foldlM_countRows spec.aggCalls hs, hsize, consumeGlobal]
  by_cases h : batch.size = 0 ∨ spec.aggCalls.all AggCallSpec.isCountStar
  · rw [if_pos h]
    have hcounted : (countRows spec.aggCalls s.globalStates batch.size).length =
        spec.aggCalls.length := by
      simp [countRows, hs]
    suffices hfold : batch.activeIndices.foldlM
        (fun states row => updateRowCalls spec.aggCalls states batch row)
        (countRows spec.aggCalls s.globalStates batch.size) =
          .ok (countRows spec.aggCalls s.globalStates batch.size) by
      rw [hfold]
      rfl
    rcases h with h | h
    · rw [List.eq_nil_of_length_eq_zero (hsize.trans h)]
      rfl
    · generalize batch.activeIndices = rows
      induction rows with
      | nil => rfl
      | cons row rows ih =>
        rw [List.foldlM_cons, updateRowCalls_of_all h hcounted]
        exact ih
  · rw [if_neg h]
    rfl

end HashAggregateState

/-! ## The state of a plan, over batches -/

/-- What the state says of the rows of the batches. -/
def StateSums (strings : AggCallSpec → Bool) (spec : AggregateSpec) (s : HashAggregateState)
    (m : Multiset VectorBatch) : Prop :=
  if spec.isGlobal then
    StatesSum strings spec.aggCalls s.globalStates (m.bind fun batch => ↑batch.rowRefs)
  else
    Grouped (StatesSum strings spec.aggCalls) spec.keyOf s.groups (m.bind fun batch => ↑batch.rowRefs) ∧
      ∀ row ∈ m.bind fun batch => (↑batch.rowRefs : Multiset RowRef), (spec.keyOf row).Exact

section

variable {strings : AggCallSpec → Bool} {spec : AggregateSpec} {order : GroupTable → GroupTable}
  {s t : HashAggregateState} {m m' : Multiset VectorBatch} {batch : VectorBatch}

/-- The state before any batch. -/
theorem StateSums.initial (hvalid : ∀ call ∈ spec.aggCalls, call.type ≠ .invalid) :
    StateSums strings spec spec.initial 0 := by
  rw [StateSums, AggregateSpec.initial, Multiset.zero_bind]
  split_ifs with hglobal
  · exact (statesSummary strings spec.aggCalls hvalid).sums_initial
  · exact ⟨Grouped.empty, by simp⟩

/-- A batch is consumed. -/
theorem StateSums.consume (hvalid : ∀ call ∈ spec.aggCalls, call.type ≠ .invalid)
    (h : StateSums strings spec s m) (hbatch : spec.Aggregable strings batch) :
    ∃ s', HashAggregateState.consume spec s batch = .ok s' ∧
      StateSums strings spec s' (batch ::ₘ m) := by
  rw [HashAggregateState.consume]
  by_cases hglobal : spec.isGlobal = true
  · rw [StateSums, if_pos hglobal] at h
    obtain ⟨states, hstates, hsum⟩ := ((statesSummary strings spec.aggCalls hvalid).batched
      VectorBatch.rowRefs).sums_update h fun row hrow => (hbatch.rows row hrow).calls
    have hfold : batch.activeIndices.foldlM
        (fun states row => updateStates spec.aggCalls states batch row) s.globalStates =
          .ok states := by
      rw [← hstates, Summary.batched]
      simp only [VectorBatch.rowRefs, List.foldlM_map]
      rfl
    rw [if_pos hglobal, HashAggregateState.consumeGlobal_eq h.length_eq.symm hbatch.strong,
      HashAggregateState.consumeGlobalRows, hfold]
    refine ⟨_, rfl, ?_⟩
    rw [StateSums, if_pos hglobal]
    exact hsum
  · rw [StateSums, if_neg hglobal] at h
    obtain ⟨groups, hgroups, hsum⟩ := ((groupSummary strings spec hvalid id fun _ => .refl _).batched
      VectorBatch.rowRefs).sums_update h fun row hrow => hbatch.rows row hrow
    have hfold : HashAggregateState.consumeGrouped spec s batch = (do
        let groups ← ((groupSummary strings spec hvalid id fun _ => .refl _).batched
          VectorBatch.rowRefs).update s.groups batch
        return { s with groups := groups }) := by
      rw [Summary.batched]
      simp only [VectorBatch.rowRefs, List.foldlM_map]
      rfl
    rw [hgroups] at hfold
    rw [if_neg hglobal, hfold]
    refine ⟨_, rfl, ?_⟩
    rw [StateSums, if_neg hglobal]
    exact hsum

/-- Two states are merged. -/
theorem StateSums.merge (hvalid : ∀ call ∈ spec.aggCalls, call.type ≠ .invalid)
    (horder : ∀ groups, (order groups).Perm groups) (h : StateSums strings spec s m)
    (h' : StateSums strings spec t m') :
    ∃ u, HashAggregateState.merge spec order s t = .ok u ∧ StateSums strings spec u (m + m') := by
  rw [HashAggregateState.merge]
  by_cases hglobal : spec.isGlobal = true
  · rw [StateSums, if_pos hglobal] at h h'
    obtain ⟨states, hstates, hsum⟩ := (statesSummary strings spec.aggCalls hvalid).sums_combine h h'
    refine ⟨{ s with globalStates := states }, ?_, ?_⟩
    · rw [if_pos hglobal, show combineStates _ _ _ = .ok states from hstates]
      rfl
    · rw [StateSums, if_pos hglobal, Multiset.add_bind]
      exact hsum
  · rw [StateSums, if_neg hglobal] at h h'
    obtain ⟨groups, hgroups, hsum⟩ := (groupSummary strings spec hvalid order horder).sums_combine h h'
    refine ⟨{ s with groups := groups }, ?_, ?_⟩
    · have hmerge : HashAggregateState.mergeGrouped spec order s t = (do
          let groups ← (groupSummary strings spec hvalid order horder).combine s.groups t.groups
          return { s with groups := groups }) := rfl
      rw [if_neg hglobal, hmerge, hgroups]
      rfl
    · rw [StateSums, if_neg hglobal, Multiset.add_bind]
      exact hsum

/-- The state of a plan, over batches. -/
def aggregateSummary (strings : AggCallSpec → Bool) (spec : AggregateSpec)
    (hvalid : ∀ call ∈ spec.aggCalls, call.type ≠ .invalid)
    (order : GroupTable → GroupTable) (horder : ∀ groups, (order groups).Perm groups) :
    Summary HashAggregateState VectorBatch String where
  initial := spec.initial
  update := HashAggregateState.consume spec
  combine := HashAggregateState.merge spec order
  Good := spec.Aggregable strings
  Sums := StateSums strings spec
  sums_initial := StateSums.initial hvalid
  sums_update := StateSums.consume hvalid
  sums_combine := StateSums.merge hvalid horder

end

end SimpleOlap
