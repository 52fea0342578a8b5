import SimpleOlap.Storage.Scan.Binding

/-!
# The row filter

`StorageRowFilter::Apply` evaluates the prepared predicates of a scan on a physical batch, one
kernel call for each predicate that the zone map did not decide, and joins the masks.

* `rowPasses prepared mask row`: the row satisfies every predicate the mask marks.
* `apply_spec`: on an identity-selected batch whose columns have the predicates' types, the filter
  succeeds and leaves exactly the rows that pass active.
* `strong_apply`: it keeps the batch invariant, whatever the predicates are.
-/

namespace SimpleOlap

open Lib

/-- A predicate's answer on a row of output cells. -/
def PreparedStoragePredicate.passesRow (p : PreparedStoragePredicate) (row : Row) : Bool :=
  p.passes (row.getD p.outputSlot [])

/-- The row satisfies every predicate that the mask marks; a predicate past the end of the mask is
evaluated. -/
def rowPasses : List PreparedStoragePredicate → List Bool → Row → Bool
  | [], _, _ => true
  | p :: ps, [], row => p.passesRow row && rowPasses ps [] row
  | p :: ps, flag :: mask, row => (!flag || p.passesRow row) && rowPasses ps mask row

namespace StorageRowFilter

/-- Run the kernel of the predicate's type on the predicate's column. A constant of another type
stands for the exception of `std::get`. Source: RunTypedCompare. -/
def runTypedCompare (p : PreparedStoragePredicate) (batch : VectorBatch) (count : ℕ) :
    Except String SelectionMask :=
  let data := match batch.columns[p.outputSlot]? with
    | some col => col.buffer
    | none => []
  match p.type, p.value with
  | .int32, .int32 v => .ok (compareConst data count p.op v)
  | .int64, .int64 v => .ok (compareConst data count p.op v)
  | .float, .float v => .ok (compareConst data count p.op v)
  | .double, .double v => .ok (compareConst data count p.op v)
  | .int32, _ | .int64, _ | .float, _ | .double, _ => .error "bad variant access"
  | _, _ => .error "SIMD row filter encountered unsupported column type"

/-- The loop over the predicates, with the mask so far. -/
def applyLoop (batch : VectorBatch) (count : ℕ) :
    List PreparedStoragePredicate → List Bool → SelectionMask → Except String SelectionMask
  | [], _, finalMask => .ok finalMask
  | p :: ps, mask, finalMask =>
    -- a predicate that the metadata have proved is not evaluated
    if mask.head? = some false then applyLoop batch count ps mask.tail finalMask
    else
      match p.kind with
      | .alwaysTrue => applyLoop batch count ps mask.tail finalMask
      | .alwaysFalse => .ok (SelectionMask.setNone count)
      | .typedCompare =>
        match runTypedCompare p batch count with
        | .error e => .error e
        | .ok current =>
          let next := finalMask.and current
          if next.isEmpty then .ok next else applyLoop batch count ps mask.tail next

/-- Source: StorageRowFilter::Apply. -/
def apply (prepared : List PreparedStoragePredicate) (mask : List Bool) (batch : VectorBatch) :
    Except String VectorBatch :=
  let physicalCount := batch.physicalSize
  if prepared = [] ∨ physicalCount = 0 then .ok (batch.setIdentitySelection physicalCount)
  else if kVectorBatchSize < physicalCount then
    .error "SIMD row filter: batch larger than SelectionMask capacity"
  else
    match applyLoop batch physicalCount prepared mask (SelectionMask.setAll physicalCount) with
    | .error e => .error e
    | .ok finalMask =>
      if finalMask.isAll then .ok (batch.setIdentitySelection physicalCount)
      else .ok (batch.setSelection finalMask)

/-- The predicate can be evaluated on the batch: its slot holds a column of its type, and its
constant is of that type. -/
structure Evaluable (batch : VectorBatch) (p : PreparedStoragePredicate) : Prop where
  numeric : p.type.IsNumeric
  wellTyped : p.WellTyped
  slot : ∃ col, batch.columns[p.outputSlot]? = some col ∧ col.type = p.type

variable {batch : VectorBatch} {p : PreparedStoragePredicate} {count : ℕ}

theorem getD_physicalRow {col : ColumnData} {i : ℕ} (h : batch.columns[i]? = some col) (r : ℕ) :
    (batch.physicalRow r).getD i [] = col.cellAt r := by
  simp [VectorBatch.physicalRow, h]

/-- One kernel call: the bit of each row is the predicate's answer on it. -/
theorem runTypedCompare_spec (he : Evaluable batch p) (hk : p.kind = .typedCompare)
    (hcount : count ≤ kVectorBatchSize) :
    ∃ m, runTypedCompare p batch count = .ok m ∧ m.WF ∧ m.rowCount = count ∧
      ∀ r, m.bit r = (decide (r < count) && p.passesRow (batch.physicalRow r)) := by
  obtain ⟨col, hcol, htype⟩ := he.slot
  have hwt := he.wellTyped hk
  have hcell : ∀ r, (batch.physicalRow r).getD p.outputSlot [] =
      cell (typeElemSize p.type) r col.buffer := by
    intro r
    rw [getD_physicalRow hcol, ColumnData.cellAt, htype]
  unfold runTypedCompare
  rw [hcol]
  simp only [PreparedStoragePredicate.passesRow, hcell, PreparedStoragePredicate.passes, hk]
  rcases hv : p.value with v | v | v | v <;>
    rw [hv, TypedValue.dataType] at hwt <;>
    rw [← hwt] <;>
    exact ⟨_, rfl, SelectionMask.WF.compareConst _ hcount _ _, rowCount_compareConst _ hcount _ _,
      bit_compareConst _ hcount _ _⟩

/-- The loop joins the answers of the marked predicates. -/
theorem applyLoop_spec (hcount : count ≤ kVectorBatchSize) :
    ∀ (ps : List PreparedStoragePredicate) (mask : List Bool) {m : SelectionMask},
      (∀ p ∈ ps, Evaluable batch p) → m.WF → m.rowCount = count →
      ∃ m', applyLoop batch count ps mask m = .ok m' ∧ m'.WF ∧ m'.rowCount = count ∧
        ∀ r, m'.bit r = (m.bit r && rowPasses ps mask (batch.physicalRow r))
  | [], mask, m, _, hm, hc => ⟨m, rfl, hm, hc, fun r => by simp [rowPasses]⟩
  | p :: ps, mask, m, he, hm, hc => by
    have he' : ∀ q ∈ ps, Evaluable batch q := fun q hq => he q (List.mem_cons_of_mem p hq)
    have hrow : ∀ row, rowPasses (p :: ps) mask row =
        ((decide (mask.head? = some false) || p.passesRow row) && rowPasses ps mask.tail row) := by
      intro row
      rcases mask with _ | ⟨flag, mask⟩
      · simp [rowPasses]
      · cases flag <;> simp [rowPasses]
    unfold applyLoop
    by_cases hskip : mask.head? = some false
    · rw [if_pos hskip]
      obtain ⟨m', hok, hwf, hrc, hbit⟩ := applyLoop_spec hcount ps mask.tail he' hm hc
      exact ⟨m', hok, hwf, hrc, fun r => by rw [hbit, hrow]; simp [hskip]⟩
    · rw [if_neg hskip]
      rcases hk : p.kind
      · obtain ⟨cur, hrun, hcwf, hcrc, hcbit⟩ :=
          runTypedCompare_spec (he p List.mem_cons_self) hk hcount
        have hand : ∀ r, (m.and cur).bit r = (m.bit r && p.passesRow (batch.physicalRow r)) := by
          intro r
          rw [SelectionMask.bit_and hm hcwf, hcbit]
          by_cases hr : r < count
          · simp [hr]
          · simp [hm.unused r (by omega)]
        have hrc' : (m.and cur).rowCount = count := by
          rw [SelectionMask.rowCount_and, hc, hcrc, Nat.min_self]
        simp only [hrun]
        by_cases hempty : (m.and cur).isEmpty = true
        · -- nothing is left: the predicates that follow cannot bring a row back
          rw [if_pos hempty]
          refine ⟨_, rfl, hm.and, hrc', fun r => ?_⟩
          have hnone := (SelectionMask.isEmpty_iff _).mp hempty r
          have hcur := hand r
          rw [hnone] at hcur ⊢
          rw [hrow, decide_eq_false hskip, Bool.false_or, ← Bool.and_assoc, ← hcur, Bool.false_and]
        · rw [if_neg hempty]
          obtain ⟨m', hok, hwf, hrc, hbit⟩ := applyLoop_spec hcount ps mask.tail he' hm.and hrc'
          refine ⟨m', hok, hwf, hrc, fun r => ?_⟩
          rw [hbit, hand, hrow, decide_eq_false hskip, Bool.false_or, Bool.and_assoc]
      · obtain ⟨m', hok, hwf, hrc, hbit⟩ := applyLoop_spec hcount ps mask.tail he' hm hc
        refine ⟨m', hok, hwf, hrc, fun r => ?_⟩
        have hp : p.passesRow (batch.physicalRow r) = true := by
          simp [PreparedStoragePredicate.passesRow, PreparedStoragePredicate.passes, hk]
        rw [hbit, hrow, hp, Bool.or_true, Bool.true_and]
      · refine ⟨_, rfl, SelectionMask.WF.setNone count, by simpa using hcount, fun r => ?_⟩
        have hp : p.passesRow (batch.physicalRow r) = false := by
          simp [PreparedStoragePredicate.passesRow, PreparedStoragePredicate.passes, hk]
        rw [SelectionMask.bit_setNone, hrow, hp, decide_eq_false hskip]
        simp

/-- A batch whose selection is the identity on its `n` rows. -/
structure Identity (batch : VectorBatch) (n : ℕ) : Prop where
  size : batch.size = n
  selection : batch.selection = SelectionMask.setAll n
  counts : ∀ col ∈ batch.columns, col.count = n

/-- What a batch of `n` physical rows looks like when those that pass are active. -/
structure Filtered (prepared : List PreparedStoragePredicate) (mask : List Bool)
    (batch : VectorBatch) (n : ℕ) (out : VectorBatch) : Prop where
  columns : out.columns = batch.columns
  strong : out.Strong
  physical : out.selection.rowCount = n
  activeRows : out.activeRows =
    ((List.range n).map batch.physicalRow).filter (rowPasses prepared mask)

theorem strong_setIdentitySelection {n : ℕ} (hn : n ≤ kVectorBatchSize)
    (hcounts : ∀ col ∈ batch.columns, col.count = n) : (batch.setIdentitySelection n).Strong where
  selection := SelectionMask.WF.setAll n
  counts col hcol := by
    rw [hcounts col hcol]
    simp [VectorBatch.setIdentitySelection, Nat.min_eq_left hn]
  size := by
    have hall : (List.range n).countP (SelectionMask.setAll n).bit = n := by
      rw [List.countP_eq_length.mpr, List.length_range]
      intro r hr
      rw [SelectionMask.bit_setAll, Nat.min_eq_left hn]
      simpa using hr
    show n = (SelectionMask.setAll n).count
    rw [SelectionMask.count_eq (SelectionMask.WF.setAll n), SelectionMask.rowCount_setAll,
      Nat.min_eq_left hn, hall]

/-- The rows under the identity selection, when all of them pass. -/
theorem filtered_setIdentitySelection {prepared : List PreparedStoragePredicate} {mask : List Bool}
    {n : ℕ} (hn : n ≤ kVectorBatchSize) (hcounts : ∀ col ∈ batch.columns, col.count = n)
    (hall : ∀ r < n, rowPasses prepared mask (batch.physicalRow r) = true) :
    Filtered prepared mask batch n (batch.setIdentitySelection n) where
  columns := rfl
  strong := strong_setIdentitySelection hn hcounts
  physical := by simp [VectorBatch.setIdentitySelection, Nat.min_eq_left hn]
  activeRows := by
    rw [VectorBatch.activeRows_setIdentitySelection batch hn, List.filter_eq_self.mpr]
    intro row hrow
    obtain ⟨r, hr, rfl⟩ := List.mem_map.mp hrow
    exact hall r (List.mem_range.mp hr)

/-- **The row filter keeps exactly the rows that pass.** -/
theorem apply_spec {prepared : List PreparedStoragePredicate} (mask : List Bool) {n : ℕ}
    (hb : Identity batch n) (hpos : 0 < n) (hn : n ≤ kVectorBatchSize)
    (he : ∀ p ∈ prepared, Evaluable batch p) :
    ∃ out, apply prepared mask batch = .ok out ∧ Filtered prepared mask batch n out := by
  have hrc : batch.selection.rowCount = n := by
    rw [hb.selection, SelectionMask.rowCount_setAll, Nat.min_eq_left hn]
  have hphys : batch.physicalSize = n := by
    rw [VectorBatch.physicalSize, if_pos (Or.inl (by omega)), hrc]
  unfold apply
  simp only [hphys]
  by_cases hnil : prepared = []
  · rw [if_pos (Or.inl hnil)]
    exact ⟨_, rfl, filtered_setIdentitySelection hn hb.counts fun r _ => by simp [hnil, rowPasses]⟩
  rw [if_neg (by simp [hnil]; omega), if_neg (by omega)]
  obtain ⟨m, hok, hwf, hmrc, hbit⟩ := applyLoop_spec hn prepared mask he (SelectionMask.WF.setAll n)
    (by rw [SelectionMask.rowCount_setAll, Nat.min_eq_left hn])
  have hbit' : ∀ r < n, m.bit r = rowPasses prepared mask (batch.physicalRow r) := by
    intro r hr
    rw [hbit, SelectionMask.bit_setAll, Nat.min_eq_left hn, decide_eq_true hr, Bool.true_and]
  rw [hok]
  simp only
  by_cases hall : m.isAll = true
  · rw [if_pos hall]
    refine ⟨_, rfl, filtered_setIdentitySelection hn hb.counts fun r hr => ?_⟩
    rw [← hbit' r hr]
    exact (SelectionMask.isAll_iff m).mp hall r (by omega)
  · rw [if_neg hall]
    refine ⟨_, rfl, rfl, ⟨hwf, fun col hcol => ?_, rfl⟩, hmrc, ?_⟩
    · rw [hb.counts col hcol]
      exact hmrc.symm
    · rw [VectorBatch.activeRows_setSelection, hmrc, List.filter_map]
      congr 1
      apply List.filter_congr
      intro r hr
      exact hbit' r (List.mem_range.mp hr)

/-! ## Any predicates

Nothing is asked of the predicates here: where a column or a constant does not fit, the filter fails. -/

/-- A kernel call, where it succeeds, gives a mask on the rows of the batch. -/
theorem wf_runTypedCompare {m : SelectionMask} (hcount : count ≤ kVectorBatchSize)
    (h : runTypedCompare p batch count = .ok m) : m.WF ∧ m.rowCount = count := by
  unfold runTypedCompare at h
  dsimp only at h
  split at h
  any_goals
    rw [← Except.ok.inj h]
    exact ⟨SelectionMask.WF.compareConst _ hcount _ _, rowCount_compareConst _ hcount _ _⟩
  all_goals cases h

/-- The loop, where it succeeds, gives a mask on the rows of the batch. -/
theorem wf_applyLoop {m m' : SelectionMask} (hcount : count ≤ kVectorBatchSize)
    (ps : List PreparedStoragePredicate) (mask : List Bool) (hm : m.WF) (hrc : m.rowCount = count)
    (h : applyLoop batch count ps mask m = .ok m') : m'.WF ∧ m'.rowCount = count := by
  induction ps generalizing mask m with
  | nil =>
    obtain rfl := Except.ok.inj h
    exact ⟨hm, hrc⟩
  | cons p ps ih =>
    unfold applyLoop at h
    by_cases hskip : mask.head? = some false
    · rw [if_pos hskip] at h
      exact ih mask.tail hm hrc h
    rw [if_neg hskip] at h
    rcases hkind : p.kind with _ | _ | _
    · rw [hkind] at h
      rcases hrun : runTypedCompare p batch count with e | current
      · simp [hrun] at h
      simp only [hrun] at h
      obtain ⟨-, hcurrent⟩ := wf_runTypedCompare hcount hrun
      have hnext : (m.and current).rowCount = count := by
        rw [SelectionMask.rowCount_and, hrc, hcurrent, Nat.min_self]
      split_ifs at h with hempty
      · obtain rfl := Except.ok.inj h
        exact ⟨hm.and, hnext⟩
      · exact ih mask.tail hm.and hnext h
    · rw [hkind] at h
      exact ih mask.tail hm hrc h
    · rw [hkind] at h
      obtain rfl := Except.ok.inj h
      exact ⟨SelectionMask.WF.setNone count, by simpa using hcount⟩

/-- **The row filter keeps the batch invariant**, whatever the predicates are. -/
theorem strong_apply {prepared : List PreparedStoragePredicate} {mask : List Bool} {n : ℕ}
    {out : VectorBatch} (hb : Identity batch n) (hn : n ≤ kVectorBatchSize)
    (h : apply prepared mask batch = .ok out) : out.Strong := by
  have hrc : batch.selection.rowCount = n := by
    rw [hb.selection, SelectionMask.rowCount_setAll, Nat.min_eq_left hn]
  have hphys : batch.physicalSize = n := by
    unfold VectorBatch.physicalSize
    split_ifs with hrows
    · exact hrc
    · -- without rows in the mask the columns are asked
      obtain ⟨col, cols, hcols⟩ := List.exists_cons_of_ne_nil fun hnil => hrows (.inr hnil)
      rw [hcols]
      exact hb.counts col (hcols ▸ List.mem_cons_self)
  unfold apply at h
  simp only [hphys] at h
  split_ifs at h with hnone hlarge
  · rw [← Except.ok.inj h]
    exact strong_setIdentitySelection hn hb.counts
  · rcases hloop : applyLoop batch n prepared mask (SelectionMask.setAll n) with e | m
    · simp [hloop] at h
    simp only [hloop] at h
    obtain ⟨hwf, hmrc⟩ := wf_applyLoop hn prepared mask (SelectionMask.WF.setAll n)
      (by rw [SelectionMask.rowCount_setAll, Nat.min_eq_left hn]) hloop
    split_ifs at h with hall
    · rw [← Except.ok.inj h]
      exact strong_setIdentitySelection hn hb.counts
    · rw [← Except.ok.inj h]
      exact ⟨hwf, fun col hcol => (hb.counts col hcol).trans hmrc.symm, rfl⟩

end StorageRowFilter

/-! ## Rows and masks -/

/-- With every predicate marked, or no mask at all, all of them have to hold. -/
theorem rowPasses_nil (ps : List PreparedStoragePredicate) (row : Row) :
    rowPasses ps [] row = ps.all fun p => p.passesRow row := by
  induction ps with
  | nil => rfl
  | cons p ps ih => rw [rowPasses, ih, List.all_cons]

/-- A mask that leaves out only predicates the row satisfies makes no difference. -/
theorem rowPasses_eq_of_sound {row : Row} :
    ∀ (ps : List PreparedStoragePredicate) (mask : List Bool),
      (∀ (i : ℕ) (p : PreparedStoragePredicate), mask[i]? = some false → ps[i]? = some p →
        p.passesRow row = true) →
      rowPasses ps mask row = rowPasses ps [] row
  | [], _, _ => by simp [rowPasses]
  | _ :: _, [], _ => rfl
  | p :: ps, flag :: mask, h => by
    have htail := rowPasses_eq_of_sound ps mask fun i q hi hq =>
      h (i + 1) q (by simpa using hi) (by simpa using hq)
    rw [rowPasses, rowPasses, htail]
    cases flag with
    | true => rfl
    | false =>
      have := h 0 p rfl rfl
      simp [this]

end SimpleOlap
