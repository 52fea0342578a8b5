import SimpleOlap.Storage.Scan.RowFilter
import Mathlib.Data.List.Forall2

/-!
# Scanning one segment

`TableStorage::ScanSegment` reads the next batch of a segment: it decides once about the whole segment,
reads the next physical rows, and filters them by the predicates the decision left open. The serial and
the parallel scan share it.

* `decidedRows`: the rows of a segment that a scan hands out under a decision; `rowsFrom` those from an
  offset on.
* `SoundDecision`: a decision that only says what is so; under it these are the rows that satisfy all
  predicates (`SoundDecision.decidedRows_eq`).
* `scanSegment_spec`: one call hands out the first of the rows left and leaves the others, and it ends
  when no row is left.
-/

namespace SimpleOlap

open Lib

/-! ## Cursors -/

/-- Source: `datastructs.h` SegmentScanCursor. -/
structure SegmentScanCursor where
  offset : ℕ
  decisionValid : Bool
  rowFilterMask : List Bool
  preparedPredicates : Option (List PreparedStoragePredicate)
  deriving DecidableEq

/-- A cursor at the start of a segment. -/
def SegmentScanCursor.start (prepared : Option (List PreparedStoragePredicate)) : SegmentScanCursor :=
  ⟨0, false, [], prepared⟩

/-- A way to decide about a segment and a conjunction; the program's own is
`SegmentReader.evaluatePredicates`. -/
abbrev DecisionRule := SegmentReader → List Condition → SegmentFilterDecision

/-- The rows of a batch that pass the predicates left open. Source: ScanSegment, the third layer. -/
def filterBatch (cursor : SegmentScanCursor) (output : VectorBatch) : Except String VectorBatch :=
  if cursor.rowFilterMask.any id then
    match cursor.preparedPredicates with
    | none => .error "scan predicates not prepared before ScanSegment"
    | some prepared => StorageRowFilter.apply prepared cursor.rowFilterMask output
  else .ok output

/-- The next batch of a segment, none at its end or when it is skipped. Source: ScanSegment. -/
def scanSegment (decideSegment : DecisionRule) (reader : SegmentReader) (options : ScanOptions)
    (cursor : SegmentScanCursor) : Except String (SegmentScanCursor × Option VectorBatch) :=
  let decision := decideSegment reader options.predicates
  if cursor.decisionValid = false ∧ decision.skipSegment then .ok (cursor, none)
  else
    let decided := if cursor.decisionValid then cursor else
      { cursor with rowFilterMask := decision.rowFilterMask, decisionValid := true }
    match reader.getVectorBatch options decided.offset with
    | none => .ok (decided, none)
    | some output =>
      if output.size = 0 then .ok (decided, none)
      else
        -- the cursor advances by the rows read, not by those that pass
        let advanced := { decided with offset := decided.offset + output.physicalSize }
        match filterBatch advanced output with
        | .error e => .error e
        | .ok filtered => .ok (advanced, some filtered)

/-! ## The rows of a segment -/

section Rows

variable (options : ScanOptions) (prepared : List PreparedStoragePredicate) (reader : SegmentReader)
  (d : SegmentFilterDecision)

/-- Row `j` of a segment as a scan outputs it. -/
def outputRow (j : ℕ) : Row := reader.rowAt (reader.outColumns options.columns) j

/-- The rows from an offset on that a scan hands out under a decision. -/
def rowsFrom (offset : ℕ) : List Row :=
  if d.skipSegment then []
  else
    ((List.range' offset (reader.rowCount - offset)).map (outputRow options reader)).filter
      (rowPasses prepared d.rowFilterMask)

/-- The rows of a segment that a scan hands out under a decision. -/
def decidedRows : List Row := rowsFrom options prepared reader d 0

/-- The rows of a segment that satisfy all predicates. -/
def segmentRows : List Row :=
  ((List.range reader.rowCount).map (outputRow options reader)).filter (rowPasses prepared [])

/-- A decision either skips the segment or says of each predicate whether it is left open. -/
def SegmentFilterDecision.Fits : Prop :=
  d.skipSegment = false → d.rowFilterMask.length = prepared.length

/-- A decision that skips only what has no row that passes, and closes only predicates that every row
satisfies. -/
structure SoundDecision : Prop where
  fits : d.Fits prepared
  skip : d.skipSegment = true →
    ∀ j < reader.rowCount, rowPasses prepared [] (outputRow options reader j) = false
  mask : d.skipSegment = false → ∀ (i : ℕ) (p : PreparedStoragePredicate),
    d.rowFilterMask[i]? = some false → prepared[i]? = some p →
      ∀ j < reader.rowCount, p.passesRow (outputRow options reader j) = true

/-- The segment has the columns that the predicates were prepared for. -/
def HasPredicateColumns : Prop :=
  ∀ p ∈ prepared, p.type.IsNumeric ∧ p.WellTyped ∧
    ∃ id, (reader.outColumns options.columns)[p.outputSlot]? = some id ∧
      (reader.openColumn id).metadata.type = p.type

variable {options prepared reader d}

/-- The rule that leaves every predicate open. -/
def openRule : DecisionRule := fun _ conds => ⟨false, conds.map fun _ => true⟩

/-- Leaving every predicate open is sound. -/
theorem soundDecision_openRule {conds : List Condition} (h : conds.length = prepared.length) :
    SoundDecision options prepared reader (openRule reader conds) where
  fits _ := by simpa [openRule] using h
  skip hskip := absurd hskip Bool.false_ne_true
  mask _ i p hmask := by
    rw [openRule, List.getElem?_map] at hmask
    cases hcond : conds[i]? <;> simp [hcond] at hmask

/-- The program's own rule says something of each predicate. -/
theorem fits_evaluatePredicates {conds : List Condition} (h : conds.length = prepared.length) :
    (reader.evaluatePredicates conds).Fits prepared := by
  intro hskip
  rw [SegmentReader.rowFilterMask_evaluatePredicates reader hskip, List.length_map, h]

/-- **Under a sound decision a scan hands out the rows that satisfy all predicates.** -/
theorem SoundDecision.decidedRows_eq (h : SoundDecision options prepared reader d) :
    decidedRows options prepared reader d = segmentRows options prepared reader := by
  unfold decidedRows rowsFrom segmentRows
  by_cases hskip : d.skipSegment = true
  · rw [if_pos hskip, eq_comm, List.filter_eq_nil_iff]
    intro row hrow
    obtain ⟨j, hj, rfl⟩ := List.mem_map.mp hrow
    rw [h.skip hskip j (List.mem_range.mp hj)]
    exact Bool.false_ne_true
  · rw [if_neg hskip, Nat.sub_zero, ← List.range_eq_range']
    apply List.filter_congr
    intro row hrow
    obtain ⟨j, hj, rfl⟩ := List.mem_map.mp hrow
    exact rowPasses_eq_of_sound _ _ fun i p hi hp =>
      h.mask (Bool.eq_false_iff.mpr hskip) i p hi hp j (List.mem_range.mp hj)

theorem rowsFrom_of_skip (h : d.skipSegment = true) (offset : ℕ) :
    rowsFrom options prepared reader d offset = [] := if_pos h

theorem rowsFrom_of_le {offset : ℕ} (h : reader.rowCount ≤ offset) :
    rowsFrom options prepared reader d offset = [] := by
  rw [rowsFrom, Nat.sub_eq_zero_of_le h]
  exact ite_self _

/-- The first rows from an offset on, and the others. -/
theorem rowsFrom_eq_append (hskip : d.skipSegment = false) {offset n : ℕ}
    (h : offset + n ≤ reader.rowCount) : rowsFrom options prepared reader d offset =
      ((List.range n).map fun i => outputRow options reader (offset + i)).filter
        (rowPasses prepared d.rowFilterMask) ++ rowsFrom options prepared reader d (offset + n) := by
  have hlen : reader.rowCount - offset = n + (reader.rowCount - (offset + n)) := by omega
  have hne : ¬ d.skipSegment = true := Bool.eq_false_iff.mp hskip
  rw [rowsFrom, rowsFrom, if_neg hne, if_neg hne, hlen, ← List.range'_append_1, List.map_append,
    List.filter_append, List.range'_eq_map_range, List.map_map]
  rfl

/-- A mask without an open predicate lets every row pass. -/
theorem rowPasses_of_closed {row : Row} :
    ∀ {ps : List PreparedStoragePredicate} {mask : List Bool}, mask.length = ps.length →
      mask.any id = false → rowPasses ps mask row = true
  | [], _, _, _ => by simp [rowPasses]
  | p :: ps, flag :: mask, hlen, hclosed => by
    obtain ⟨rfl, hrest⟩ : flag = false ∧ mask.any id = false := by simpa using hclosed
    rw [rowPasses, rowPasses_of_closed (Nat.succ.inj hlen) hrest]
    rfl

end Rows

/-- A scan's own columns hold the predicates' columns when the segment has the schema's types. -/
theorem hasPredicateColumns {options : ScanOptions} {schema : TableSchema}
    {prepared : List PreparedStoragePredicate} {reader : SegmentReader}
    (hbuild : PreparedScanPredicates.build options schema = .ok prepared)
    (htypes : ∀ cond ∈ options.predicates,
      (reader.openColumn cond.column).metadata.type = schema.typeOf cond.column) :
    HasPredicateColumns options prepared reader := by
  intro p hp
  have hall := build_eq_ok hbuild
  obtain ⟨i, hi, rfl⟩ := List.getElem_of_mem hp
  have hi' : i < options.predicates.length := hall.length_eq.symm ▸ hi
  have hprep := hall.get hi' hi
  simp only [List.get_eq_getElem] at hprep
  obtain ⟨hlt, heq, -⟩ := List.findIdx?_eq_some_iff_getElem.mp hprep.slot
  have hne : options.columns ≠ [] := List.ne_nil_of_length_pos (Nat.zero_lt_of_lt hlt)
  refine ⟨hprep.numeric, hprep.wellTyped, options.columns[prepared[i].outputSlot], ?_, ?_⟩
  · rw [SegmentReader.outColumns, if_neg hne]
    exact List.getElem?_eq_getElem hlt
  · rw [show options.columns[prepared[i].outputSlot] = options.predicates[i].column by simpa using heq,
      htypes _ (List.getElem_mem hi'), hprep.type]

/-! ## One call -/

section Spec

variable {decideSegment : DecisionRule} {options : ScanOptions}
  {prepared : List PreparedStoragePredicate} {reader : SegmentReader}

/-- The cursor carries the decision about the segment, if it carries one, and the predicates. -/
structure SegmentScanCursor.Ok (decideSegment : DecisionRule) (options : ScanOptions)
    (prepared : List PreparedStoragePredicate) (reader : SegmentReader) (c : SegmentScanCursor) :
    Prop where
  decided : c.decisionValid = true →
    (decideSegment reader options.predicates).skipSegment = false ∧
      c.rowFilterMask = (decideSegment reader options.predicates).rowFilterMask
  prepared : c.preparedPredicates = some prepared ∨ prepared = []

/-- A cursor at the start of a segment carries no decision. -/
theorem SegmentScanCursor.Ok.start {plan : Option (List PreparedStoragePredicate)}
    (h : plan = some prepared ∨ prepared = []) :
    (SegmentScanCursor.start plan).Ok decideSegment options prepared reader :=
  ⟨fun h => absurd h Bool.false_ne_true, h⟩

/-- What one call does: at the end no row is left; otherwise the batch holds the first of the rows
left and the cursor is before the others. -/
inductive SegmentStep (options : ScanOptions) (prepared : List PreparedStoragePredicate)
    (reader : SegmentReader) (d : SegmentFilterDecision) (c c' : SegmentScanCursor) :
    Option VectorBatch → Prop
  | ended (h : rowsFrom options prepared reader d c.offset = []) :
      SegmentStep options prepared reader d c c' none
  | batch {b : VectorBatch} (hstrong : b.Strong) (hsmall : b.selection.rowCount ≤ kVectorBatchSize)
      (hrows : rowsFrom options prepared reader d c.offset =
        b.activeRows ++ rowsFrom options prepared reader d c'.offset) :
      SegmentStep options prepared reader d c c' (some b)

/-- The batch read is identity-selected. -/
theorem identity_getVectorBatch {offset : ℕ} {b : VectorBatch}
    (h : reader.getVectorBatch options offset = some b) : StorageRowFilter.Identity b b.size := by
  obtain ⟨-, -, hsel, hcols⟩ := SegmentReader.getVectorBatch_eq_some h
  refine ⟨rfl, hsel, fun col hcol => ?_⟩
  rw [hcols] at hcol
  obtain ⟨id, -, rfl⟩ := List.mem_map.mp hcol
  rfl

/-- The predicates can be evaluated on the batch read. -/
theorem evaluable_getVectorBatch (hcols : HasPredicateColumns options prepared reader) {offset : ℕ}
    {b : VectorBatch} (h : reader.getVectorBatch options offset = some b) :
    ∀ p ∈ prepared, StorageRowFilter.Evaluable b p := by
  intro p hp
  obtain ⟨hnum, hwt, id, hid, htype⟩ := hcols p hp
  refine ⟨hnum, hwt, ⟨(reader.openColumn id).metadata.type, (reader.openColumn id).data.drop
    (offset * typeElemSize (reader.openColumn id).metadata.type), b.size⟩, ?_, htype⟩
  rw [(SegmentReader.getVectorBatch_eq_some h).2.2.2, List.getElem?_map, hid]
  rfl

/-- **The third layer leaves the rows that pass**, whether the decision left a predicate open or not. -/
theorem filterBatch_spec (hcols : HasPredicateColumns options prepared reader)
    {d : SegmentFilterDecision} (hfits : d.Fits prepared) (hkeep : d.skipSegment = false)
    {c : SegmentScanCursor} (hmask : c.rowFilterMask = d.rowFilterMask)
    (hplan : c.preparedPredicates = some prepared ∨ prepared = []) {offset : ℕ} {b : VectorBatch}
    (hbatch : reader.getVectorBatch options offset = some b) :
    ∃ out, filterBatch c b = .ok out ∧ out.Strong ∧ out.selection.rowCount = b.size ∧
      out.activeRows = ((List.range b.size).map fun i => outputRow options reader (offset + i)).filter
        (rowPasses prepared d.rowFilterMask) := by
  have hid := identity_getVectorBatch hbatch
  have hle := SegmentReader.size_getVectorBatch_le hbatch
  unfold filterBatch
  rw [hmask]
  by_cases hopen : d.rowFilterMask.any id = true
  · rw [if_pos hopen]
    have hsome : c.preparedPredicates = some prepared := by
      refine hplan.resolve_right fun hnil => ?_
      have hmasknil := hfits hkeep
      rw [hnil, List.length_nil, List.length_eq_zero_iff] at hmasknil
      simp [hmasknil] at hopen
    obtain ⟨out, happly, hout⟩ := StorageRowFilter.apply_spec d.rowFilterMask hid
      (SegmentReader.size_getVectorBatch_pos hbatch) hle (evaluable_getVectorBatch hcols hbatch)
    simp only [hsome, happly]
    refine ⟨out, rfl, hout.strong, hout.physical, ?_⟩
    rw [hout.activeRows]
    exact congrArg _ (List.map_congr_left fun i _ =>
      SegmentReader.physicalRow_getVectorBatch hbatch i)
  · rw [if_neg hopen]
    have hself : b = b.setIdentitySelection b.size := by
      rw [VectorBatch.setIdentitySelection, ← (SegmentReader.getVectorBatch_eq_some hbatch).2.2.1]
    refine ⟨b, rfl, ?_, SegmentReader.rowCount_selection_getVectorBatch hbatch, ?_⟩
    · rw [hself]
      exact StorageRowFilter.strong_setIdentitySelection hle hid.counts
    · rw [SegmentReader.activeRows_getVectorBatch hbatch, List.filter_eq_self.mpr]
      · rfl
      · exact fun row _ => rowPasses_of_closed (hfits hkeep) (Bool.eq_false_iff.mpr hopen)

/-- **One call hands out the first of the rows left and leaves the others.** -/
theorem scanSegment_spec (hcols : HasPredicateColumns options prepared reader)
    (hfits : (decideSegment reader options.predicates).Fits prepared)
    {c : SegmentScanCursor} (hc : c.Ok decideSegment options prepared reader) :
    ∃ c' out, scanSegment decideSegment reader options c = .ok (c', out) ∧
      c'.Ok decideSegment options prepared reader ∧
      c'.preparedPredicates = c.preparedPredicates ∧
      SegmentStep options prepared reader (decideSegment reader options.predicates) c c' out := by
  unfold scanSegment
  set d := decideSegment reader options.predicates with hd
  by_cases hskip : c.decisionValid = false ∧ d.skipSegment = true
  · rw [if_pos hskip]
    exact ⟨c, none, rfl, hc, rfl, .ended (rowsFrom_of_skip hskip.2 _)⟩
  rw [if_neg hskip]
  have hkeep : d.skipSegment = false := by
    cases hv : c.decisionValid with
    | false => simpa [hv] using hskip
    | true => exact (hc.decided hv).1
  -- the decided cursor differs from the given one in the decision only
  obtain ⟨decided, hdecided, hoff, hplan, hmask⟩ : ∃ decided : SegmentScanCursor,
      (if c.decisionValid = true then c else
        { c with rowFilterMask := d.rowFilterMask, decisionValid := true }) = decided ∧
      decided.offset = c.offset ∧ decided.preparedPredicates = c.preparedPredicates ∧
      decided.rowFilterMask = d.rowFilterMask := by
    cases hv : c.decisionValid with
    | false => exact ⟨_, rfl, rfl, rfl, rfl⟩
    | true => exact ⟨c, rfl, rfl, rfl, (hc.decided hv).2⟩
  simp only [hdecided]
  have hprep : decided.preparedPredicates = some prepared ∨ prepared = [] := hplan ▸ hc.prepared
  have hok : ∀ n, ({ decided with offset := n } : SegmentScanCursor).Ok decideSegment options prepared
      reader := fun n => ⟨fun _ => ⟨hkeep, hmask⟩, hprep⟩
  rcases hbatch : reader.getVectorBatch options decided.offset with _ | b
  · have hle := SegmentReader.getVectorBatch_eq_none_iff.mp hbatch
    exact ⟨decided, none, rfl, hok decided.offset, hplan, .ended (rowsFrom_of_le (hoff ▸ hle))⟩
  · have hpos := SegmentReader.size_getVectorBatch_pos hbatch
    obtain ⟨hlt, hsize, -⟩ := SegmentReader.getVectorBatch_eq_some hbatch
    obtain ⟨out, hfilter, hstrong, hrc, hrows⟩ := filterBatch_spec hcols hfits hkeep
      (c := { decided with offset := decided.offset + b.physicalSize }) hmask hprep hbatch
    have hsplit := @rowsFrom_eq_append options prepared reader d hkeep decided.offset b.size
      (by omega)
    simp only [if_neg (Nat.ne_of_gt hpos), hfilter]
    refine ⟨_, some out, rfl, hok _, hplan, .batch hstrong ?_ ?_⟩
    · exact hrc ▸ SegmentReader.size_getVectorBatch_le hbatch
    · rw [← hoff, hsplit, hrows, SegmentReader.physicalSize_getVectorBatch hbatch]

/-- A call that hands out a batch has moved the offset. -/
theorem scanSegment_offset_lt {c c' : SegmentScanCursor} {b : VectorBatch}
    (h : scanSegment decideSegment reader options c = .ok (c', some b)) :
    c.offset < reader.rowCount ∧ c.offset < c'.offset := by
  unfold scanSegment at h
  by_cases hskip : c.decisionValid = false ∧
      (decideSegment reader options.predicates).skipSegment = true
  · simp [if_pos hskip] at h
  rw [if_neg hskip] at h
  generalize hdecided : (if c.decisionValid = true then c else _) = decided at h
  have hoff : decided.offset = c.offset := by
    rw [← hdecided]
    split_ifs <;> rfl
  rcases hbatch : reader.getVectorBatch options decided.offset with _ | out
  · simp [hbatch] at h
  · have hpos := SegmentReader.size_getVectorBatch_pos hbatch
    simp only [hbatch, if_neg (Nat.ne_of_gt hpos)] at h
    rcases hfilter : filterBatch { decided with offset := decided.offset + out.physicalSize } out
      with e | filtered
    · simp [hfilter] at h
    · simp only [hfilter, Except.ok.injEq, Prod.mk.injEq] at h
      rw [← h.1, ← hoff]
      refine ⟨(SegmentReader.getVectorBatch_eq_some hbatch).1, ?_⟩
      show decided.offset < decided.offset + out.physicalSize
      rw [SegmentReader.physicalSize_getVectorBatch hbatch]
      omega

/-- The third layer keeps the batch invariant, whatever the cursor says. -/
theorem strong_filterBatch {c : SegmentScanCursor} {offset : ℕ} {b out : VectorBatch}
    (hbatch : reader.getVectorBatch options offset = some b) (h : filterBatch c b = .ok out) :
    out.Strong := by
  have hid := identity_getVectorBatch hbatch
  have hle := SegmentReader.size_getVectorBatch_le hbatch
  unfold filterBatch at h
  split_ifs at h with hopen
  · rcases hplan : c.preparedPredicates with _ | prepared
    · simp [hplan] at h
    · rw [hplan] at h
      exact StorageRowFilter.strong_apply hid hle h
  · obtain rfl := Except.ok.inj h
    have hself : b = b.setIdentitySelection b.size := by
      rw [VectorBatch.setIdentitySelection, ← hid.selection]
    rw [hself]
    exact StorageRowFilter.strong_setIdentitySelection hle hid.counts

/-- **A batch of a segment satisfies the batch invariant**, whatever the cursor and the predicates are. -/
theorem strong_scanSegment {c c' : SegmentScanCursor} {b : VectorBatch}
    (h : scanSegment decideSegment reader options c = .ok (c', some b)) : b.Strong := by
  unfold scanSegment at h
  by_cases hskip : c.decisionValid = false ∧
      (decideSegment reader options.predicates).skipSegment = true
  · simp [if_pos hskip] at h
  rw [if_neg hskip] at h
  generalize (if c.decisionValid = true then c else _) = decided at h
  rcases hbatch : reader.getVectorBatch options decided.offset with _ | out
  · simp [hbatch] at h
  · have hpos := SegmentReader.size_getVectorBatch_pos hbatch
    simp only [hbatch, if_neg (Nat.ne_of_gt hpos)] at h
    rcases hfilter : filterBatch { decided with offset := decided.offset + out.physicalSize } out
      with e | filtered
    · simp [hfilter] at h
    · simp only [hfilter, Except.ok.injEq, Prod.mk.injEq, Option.some.injEq] at h
      exact h.2 ▸ strong_filterBatch hbatch hfilter

end Spec

end SimpleOlap
