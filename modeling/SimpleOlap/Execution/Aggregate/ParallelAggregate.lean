import SimpleOlap.Execution.Aggregate.BatchSummary
import SimpleOlap.Execution.Expression.VectorExpression

/-!
# Parallel aggregation is serial aggregation

* `SameResult`: two states have the same groups with the same output rows.
* `Emits`: the output gives each group once, in batches of at most 1024 rows, whatever the order in which
  the hash table is gone through.
* `executeAggregate`, `parallel_eq_serial`: any distribution of the batches over workers, and any order
  of merging, comes to the result of one state that consumes all batches.

Source: `hash_aggregate_state.cpp`, `parallel_executor.cpp` ExecuteAggregate.
-/

namespace SimpleOlap

open Lib

namespace AggregateSpec

variable {strings : AggCallSpec → Bool} {spec : AggregateSpec} {s t : HashAggregateState}
  {m : Multiset VectorBatch}

/-! ## Output rows -/

/-- The groups with their output rows. -/
def resultRows (spec : AggregateSpec) (s : HashAggregateState) :
    List (GroupKey × Except String (List ExecValue)) :=
  (s.outputGroups spec).map fun group => (group.1, spec.outputRow group)

/-- The same groups, each with the same output row. -/
def SameResult (spec : AggregateSpec) (s t : HashAggregateState) : Prop :=
  (spec.resultRows s).Perm (spec.resultRows t)

/-- Each group is output once, in batches of at most 1024 rows, in any order of the table. -/
structure Emits (spec : AggregateSpec) (s : HashAggregateState) : Prop where
  distinct : ((s.outputGroups spec).map Prod.fst).Nodup
  rows : ∀ emit : GroupTable, emit.Perm (s.outputGroups spec) →
    (spec.drain emit).map List.flatten = emit.mapM spec.outputRow
  pages : ∀ emit : GroupTable, emit.Perm (s.outputGroups spec) → ∀ pages, spec.drain emit = .ok pages →
    ∀ page ∈ pages, 0 < page.length ∧ page.length ≤ kVectorBatchSize

/-- The batches hold the rows of all groups that are left, in order. -/
theorem drain_flatten (spec : AggregateSpec) (rest : GroupTable) :
    (spec.drain rest).map List.flatten = rest.mapM spec.outputRow := by
  induction rest using drain.induct with
  | case1 => rw [drain, if_pos rfl]; rfl
  | case2 rest hrest ih =>
    have hsplit : rest.mapM spec.outputRow = (do
        let rows ← (rest.take kVectorBatchSize).mapM spec.outputRow
        return rows ++ (← (rest.drop kVectorBatchSize).mapM spec.outputRow)) := by
      rw [← List.mapM_append, List.take_append_drop]
    rw [drain, if_neg hrest, hsplit, ← ih]
    cases (rest.take kVectorBatchSize).mapM spec.outputRow with
    | error e => rfl
    | ok rows => cases spec.drain (rest.drop kVectorBatchSize) <;> rfl

/-- No batch is empty or has more than 1024 rows. -/
theorem length_of_mem_drain (spec : AggregateSpec) (rest : GroupTable) {pages : List (List (List ExecValue))}
    (h : spec.drain rest = .ok pages) :
    ∀ page ∈ pages, 0 < page.length ∧ page.length ≤ kVectorBatchSize := by
  induction rest using drain.induct generalizing pages with
  | case1 =>
    rw [drain, if_pos rfl] at h
    cases h
    simp
  | case2 rest hrest ih =>
    rw [drain, if_neg hrest] at h
    cases hrows : (rest.take kVectorBatchSize).mapM spec.outputRow with
    | error e => rw [hrows] at h; cases h
    | ok rows =>
      cases hmore : spec.drain (rest.drop kVectorBatchSize) with
      | error e => rw [hrows, hmore] at h; cases h
      | ok more =>
        rw [hrows, hmore] at h
        cases h
        have hpos := List.length_pos_iff.mpr hrest
        have hlen := length_of_mapM_eq_ok hrows
        rw [List.length_take] at hlen
        intro page hpage
        rcases List.mem_cons.mp hpage with rfl | hpage
        · simp only [kVectorBatchSize] at hlen ⊢
          omega
        · exact ih hmore page hpage

theorem emits_of_nodup (h : ((s.outputGroups spec).map Prod.fst).Nodup) : spec.Emits s where
  distinct := h
  rows emit _ := spec.drain_flatten emit
  pages emit _ _ hok := spec.length_of_mem_drain emit hok

/-! ## Equal results -/

/-- The output of a group depends on the rows it stands for. -/
theorem outputRow_eq {key : GroupKey} {states states' : List AggState} {rows : Multiset RowRef}
    (h : StatesSum strings spec.aggCalls states rows) (h' : StatesSum strings spec.aggCalls states' rows)
    (hexact : ∀ call ∈ spec.aggCalls, call.IsSum → call.ExactSums rows) :
    spec.outputRow (key, states) = spec.outputRow (key, states') := by
  rw [outputRow, outputRow]
  congr 1
  funext output
  rw [outputValue, outputValue]
  cases output.isGroupKey with
  | true => rfl
  | false =>
    have hlen := h.length_eq
    have hlen' := h'.length_eq
    by_cases hi : output.index < spec.aggCalls.length
    · have hresult := (h.get hi (hlen ▸ hi)).result_eq (h'.get hi (hlen' ▸ hi))
        (hexact _ (List.get_mem _ _)) output.type
      simp only [List.get_eq_getElem, callResult] at hresult
      simpa [hi, hlen ▸ hi, hlen' ▸ hi] using hresult
    · simp [Nat.not_lt.mp hi]

/-- The groups of a state are distinct. -/
theorem distinct_of_stateSums (h : StateSums strings spec s m) :
    ((s.outputGroups spec).map Prod.fst).Nodup := by
  rw [StateSums] at h
  rw [HashAggregateState.outputGroups]
  split_ifs at h ⊢ with hglobal
  · simp
  · exact h.1.nodup

/-- A group of one state is in the other, with the same output. -/
theorem mem_resultRows (h : StateSums strings spec s m) (h' : StateSums strings spec t m)
    (hexact : spec.SumsExact (m.bind fun batch => ↑batch.rowRefs)) :
    ∀ r ∈ spec.resultRows s, r ∈ spec.resultRows t := by
  intro r hr
  rw [StateSums] at h h'
  rw [resultRows, HashAggregateState.outputGroups] at hr ⊢
  split_ifs at h h' hr ⊢ with hglobal
  · simp only [List.map_cons, List.map_nil, List.mem_singleton] at hr ⊢
    rw [hr, outputRow_eq h h' (hexact.global hglobal)]
  · obtain ⟨group, hgroup, rfl⟩ := List.mem_map.mp hr
    have hkey := (h.1.mem_keys group.1).mp (List.mem_map_of_mem hgroup)
    obtain ⟨group', hgroup', heq⟩ := List.mem_map.mp ((h'.1.mem_keys group.1).mpr hkey)
    have hstates := h'.1.sums group' hgroup'
    rw [heq] at hstates
    refine List.mem_map.mpr ⟨group', hgroup', ?_⟩
    obtain ⟨key', states'⟩ := group'
    obtain rfl : key' = group.1 := heq
    exact Prod.ext rfl (outputRow_eq hstates (h.1.sums group hgroup) fun call hcall hsum =>
      hexact call hcall hsum group.1)

/-- **States for the same rows have the same result**, where the sums of the rows are exact. -/
theorem sameResult_of_stateSums (h : StateSums strings spec s m) (h' : StateSums strings spec t m)
    (hexact : spec.SumsExact (m.bind fun batch => ↑batch.rowRefs)) : spec.SameResult s t := by
  have hnodup : ∀ u, StateSums strings spec u m → (spec.resultRows u).Nodup := by
    intro u hu
    refine List.Nodup.of_map Prod.fst ?_
    rw [resultRows, List.map_map]
    exact distinct_of_stateSums hu
  rw [SameResult, List.perm_ext_iff_of_nodup (hnodup s h) (hnodup t h')]
  exact fun r => ⟨mem_resultRows h h' hexact r, mem_resultRows h' h hexact r⟩

/-- The output of states with the same result, each in an order of its own: the same rows. -/
theorem SameResult.drain {emit emit' : GroupTable} (h : spec.SameResult s t)
    (he : emit.Perm (s.outputGroups spec)) (he' : emit'.Perm (t.outputGroups spec))
    {pages : List (List (List ExecValue))} (hok : spec.drain emit = .ok pages) :
    ∃ pages', spec.drain emit' = .ok pages' ∧ pages.flatten.Perm pages'.flatten := by
  have hrows : (emit.map spec.outputRow).Perm (emit'.map spec.outputRow) := by
    have hsnd := h.map Prod.snd
    rw [resultRows, resultRows, List.map_map, List.map_map] at hsnd
    exact (he.map _).trans (hsnd.trans (he'.map _).symm)
  have hflat := spec.drain_flatten emit
  rw [hok] at hflat
  obtain ⟨ws, hws, hperm⟩ := mapM_perm hrows hflat.symm
  have hflat' := spec.drain_flatten emit'
  rw [hws] at hflat'
  cases hpages : spec.drain emit' with
  | error e => rw [hpages] at hflat'; cases hflat'
  | ok pages' =>
    rw [hpages] at hflat'
    exact ⟨pages', rfl, (Except.ok.inj hflat') ▸ hperm⟩

/-! ## Workers -/

/-- A batch in the loop of a worker. Source: `parallel_executor.cpp` ExecuteAggregate. -/
def consumeActive (spec : AggregateSpec) (s : HashAggregateState) (batch : VectorBatch) :
    Except String HashAggregateState :=
  if 0 < batch.size then HashAggregateState.consume spec s batch else .ok s

/-- The state that is output: that of each worker, merged in order into an empty one. Source:
`parallel_executor.cpp` ExecuteAggregate. -/
def executeAggregate (spec : AggregateSpec) (order : GroupTable → GroupTable)
    (workers : List (List VectorBatch)) : Except String HashAggregateState := do
  let states ← workers.mapM fun batches => batches.foldlM spec.consumeActive spec.initial
  states.foldlM (HashAggregateState.merge spec order) spec.initial

theorem StateSums.consumeActive {batch : VectorBatch}
    (hvalid : ∀ call ∈ spec.aggCalls, call.type ≠ .invalid) (h : StateSums strings spec s m)
    (hbatch : spec.Aggregable strings batch) :
    ∃ s', spec.consumeActive s batch = .ok s' ∧ StateSums strings spec s' (batch ::ₘ m) := by
  rw [AggregateSpec.consumeActive]
  split_ifs with hsize
  · exact StateSums.consume hvalid h hbatch
  · -- a batch without active rows
    have hnil : batch.rowRefs = [] := by
      have hlen := VectorBatch.length_activeIndices hbatch.strong
      rw [VectorBatch.rowRefs, List.eq_nil_of_length_eq_zero (hlen.trans (by omega)), List.map_nil]
    refine ⟨s, rfl, ?_⟩
    rwa [StateSums, Multiset.cons_bind, hnil, Multiset.coe_nil, zero_add]

/-- The state of a worker, over batches. -/
def workerSummary (strings : AggCallSpec → Bool) (spec : AggregateSpec)
    (hvalid : ∀ call ∈ spec.aggCalls, call.type ≠ .invalid)
    (order : GroupTable → GroupTable) (horder : ∀ groups, (order groups).Perm groups) :
    Summary HashAggregateState VectorBatch String :=
  { aggregateSummary strings spec hvalid order horder with
    update := spec.consumeActive
    sums_update := StateSums.consumeActive hvalid }

/-- **Parallel aggregation is serial aggregation.** On batches whose values are exact and on which no
expression throws, one state that consumes them all succeeds; however they are distributed and the
states merged, the merged state is there and outputs each group once, in batches of at most 1024 rows, and
its groups and their output rows are the same, where the running sums of SUM and AVG, which are rounded to
`long double`, are exact in each group. Counting whole batches counts what counting row by row does. -/
theorem parallel_eq_serial (strings : AggCallSpec → Bool) (spec : AggregateSpec)
    (hvalid : ∀ call ∈ spec.aggCalls, call.type ≠ .invalid)
    (order : GroupTable → GroupTable) (horder : ∀ groups, (order groups).Perm groups)
    (batches : List VectorBatch) (hbatches : ∀ batch ∈ batches, spec.Aggregable strings batch) :
    ∃ serial, batches.foldlM (HashAggregateState.consume spec) spec.initial = .ok serial ∧
      spec.Emits serial ∧
      (∀ tree : MergeTree VectorBatch, tree.inputs.Perm batches →
        ∃ merged, tree.eval spec.initial spec.consumeActive (HashAggregateState.merge spec order) =
            .ok merged ∧
          (spec.SumsExact ↑(batches.flatMap VectorBatch.rowRefs) → spec.SameResult merged serial) ∧
          spec.Emits merged) ∧
      (∀ workers : List (List VectorBatch), workers.flatten.Perm batches →
        ∃ merged, spec.executeAggregate order workers = .ok merged ∧
          (spec.SumsExact ↑(batches.flatMap VectorBatch.rowRefs) → spec.SameResult merged serial) ∧
          spec.Emits merged) ∧
      ∀ batch ∈ batches, ∀ s : HashAggregateState, s.globalStates.length = spec.aggCalls.length →
        HashAggregateState.consumeGlobal spec s batch =
          HashAggregateState.consumeGlobalRows spec s batch := by
  obtain ⟨serial, hserial, hsum⟩ := (aggregateSummary strings spec hvalid order horder).sums_foldlM
    (StateSums.initial hvalid) batches hbatches
  rw [zero_add] at hsum
  have hsame : ∀ {merged}, StateSums strings spec merged ↑batches →
      spec.SumsExact ↑(batches.flatMap VectorBatch.rowRefs) → spec.SameResult merged serial := by
    intro merged hmsum hexact
    refine sameResult_of_stateSums hmsum hsum ?_
    rwa [Multiset.coe_bind]
  refine ⟨serial, hserial, emits_of_nodup (distinct_of_stateSums hsum), ?_, ?_, ?_⟩
  · intro tree hperm
    obtain ⟨merged, hmerged, hmsum⟩ := (workerSummary strings spec hvalid order horder).sums_eval tree
      fun batch hbatch => hbatches batch (hperm.mem_iff.mp hbatch)
    rw [Multiset.coe_eq_coe.mpr hperm] at hmsum
    exact ⟨merged, hmerged, hsame hmsum, emits_of_nodup (distinct_of_stateSums hmsum)⟩
  · intro workers hperm
    obtain ⟨states, merged, hstates, hmerged, hmsum⟩ :=
      (workerSummary strings spec hvalid order horder).sums_workers workers
        fun batch hbatch => hbatches batch (hperm.mem_iff.mp hbatch)
    rw [Multiset.coe_eq_coe.mpr hperm] at hmsum
    refine ⟨merged, ?_, hsame hmsum, emits_of_nodup (distinct_of_stateSums hmsum)⟩
    have hmap : workers.mapM (fun batches => batches.foldlM spec.consumeActive spec.initial) =
        .ok states := hstates
    rw [executeAggregate, hmap]
    exact hmerged
  · exact fun batch hbatch s hs => HashAggregateState.consumeGlobal_eq hs (hbatches batch hbatch).strong

/-! ## Sums of integers -/

/-- Sums of integers that stay within 64 bits are exact. -/
theorem exactSums_of_integers {call : AggCallSpec} {rows : Multiset RowRef} {bound : ℕ}
    (hvalues : ∀ row ∈ rows, ∃ z : ℤ, (call.argValue row).units = z * unit ∧ z.natAbs ≤ bound)
    (hcard : rows.card * bound ≤ 2 ^ 64) : call.ExactSums rows := by
  intro values hle
  have hsum : ∀ values : Multiset ExecValue, (∀ v ∈ values, ∃ z : ℤ, v.units = z * unit ∧ z.natAbs ≤ bound) →
      ∃ z : ℤ, (values.map ExecValue.units).sum = z * unit ∧ z.natAbs ≤ values.card * bound := by
    intro values
    induction values using Multiset.induction with
    | empty => exact fun _ => ⟨0, by simp, by simp⟩
    | cons v values ih =>
      intro hall
      obtain ⟨z, hz, hzle⟩ := hall v (Multiset.mem_cons_self v values)
      obtain ⟨w, hw, hwle⟩ := ih fun u hu => hall u (Multiset.mem_cons_of_mem hu)
      refine ⟨z + w, ?_, ?_⟩
      · rw [Multiset.map_cons, Multiset.sum_cons, hz, hw, add_mul]
      · rw [Multiset.card_cons, Nat.succ_mul]
        omega
  obtain ⟨z, hz, hzle⟩ := hsum values fun v hv => by
    obtain ⟨row, hrow, rfl⟩ := Multiset.mem_map.mp (Multiset.mem_of_le hle hv)
    exact hvalues row hrow
  have hfew : values.card ≤ rows.card := (Multiset.card_le_card hle).trans_eq (Multiset.card_map _ _)
  rw [hz]
  exact mem_binary80_int (hzle.trans ((Nat.mul_le_mul_right bound hfew).trans hcard))

/-! ## A batch of one row, in two workers -/

/-- One row with one cell. -/
def sevenBatch : VectorBatch := ⟨[⟨.int32, [7, 0, 0, 0], 1⟩], 1, SelectionMask.setAll 1⟩

/-- `SELECT c, SUM(c), MIN(c) … GROUP BY c`. -/
def sumByColumn : AggregateSpec where
  groupExprs := [.columnRef 0 .int32]
  aggCalls := [⟨.sum, some (.columnRef 0 .int32), .int64⟩, ⟨.min, some (.columnRef 0 .int32), .int32⟩]
  outputs := [⟨true, 0, .int32⟩, ⟨false, 0, .int64⟩, ⟨false, 1, .int32⟩]

theorem aggregable_sevenBatch : sumByColumn.Aggregable (fun _ => false) sevenBatch where
  strong := ⟨SelectionMask.WF.setAll 1, by decide, by decide⟩
  rows row hrow := by
    obtain rfl : row = (sevenBatch, 0) := by
      have hindices : sevenBatch.activeIndices = [0] := by decide
      rw [VectorBatch.rowRefs, hindices] at hrow
      exact List.mem_singleton.mp hrow
    refine ⟨by rfl, ?_, ?_⟩
    · intro value hvalue
      obtain rfl : value = .int32 (Numeric.read [7, 0, 0, 0]) := List.mem_singleton.mp hvalue
      trivial
    · intro call hcall
      rw [sumByColumn] at hcall
      rcases List.mem_cons.mp hcall with rfl | hcall
      · exact ⟨by rfl, trivial, rfl⟩
      · rw [List.mem_singleton.mp hcall]
        exact ⟨by rfl, trivial, rfl⟩

/-- The sums of the two rows are exact. -/
theorem sumsExact_sevenBatch : sumByColumn.SumsExact ↑([sevenBatch, sevenBatch].flatMap VectorBatch.rowRefs) := by
  intro call hcall hsum key
  refine AggCallSpec.ExactSums.mono ?_ (Multiset.filter_le _ _)
  have hrows : [sevenBatch, sevenBatch].flatMap VectorBatch.rowRefs = [(sevenBatch, 0), (sevenBatch, 0)] := by rfl
  rw [hrows]
  refine exactSums_of_integers (fun row hrow => ⟨7, ?_, le_rfl⟩) (by decide)
  obtain rfl : row = (sevenBatch, 0) := by simpa using hrow
  rcases List.mem_cons.mp hcall with rfl | hcall
  · rfl
  · rw [List.mem_singleton.mp hcall]
    rfl

theorem parallel_eq_serial_sevenBatch :
    ∃ serial, [sevenBatch, sevenBatch].foldlM (HashAggregateState.consume sumByColumn)
        sumByColumn.initial = .ok serial ∧
      ∃ merged, sumByColumn.executeAggregate List.reverse [[sevenBatch], [sevenBatch]] = .ok merged ∧
        sumByColumn.SameResult merged serial ∧ sumByColumn.Emits merged := by
  obtain ⟨serial, hserial, -, -, hworkers, -⟩ := parallel_eq_serial (fun _ => false) sumByColumn
    (by decide) List.reverse List.reverse_perm [sevenBatch, sevenBatch]
    fun batch hbatch => by
      obtain rfl : batch = sevenBatch := by simpa using hbatch
      exact aggregable_sevenBatch
  obtain ⟨merged, hmerged, hsame, hemits⟩ := hworkers [[sevenBatch], [sevenBatch]] (List.Perm.refl _)
  exact ⟨serial, hserial, merged, hmerged, hsame sumsExact_sevenBatch, hemits⟩

end AggregateSpec

end SimpleOlap
