import SimpleOlap.Storage.Table.ScanSegment
import SimpleOlap.Storage.Table.Run

/-!
# The serial scan

`TableStorage::Scan` goes through the registered segments in the order of the metadata and hands out
one batch a call.

* `ScanCursor`, `advanceCursorToNextSegment`, `scanLoop`, `scan`: the scan. The number of segments fits
  32 bits, as `table.meta` stores it; the cursor's place in the list is a 32-bit number with a reserved
  value.
* `rowsLeft`: the rows that a cursor still has to hand out.
* `scan_spec`: one call hands out the first of the rows left and leaves the others.
* `ScanCalls`: calling until the scan says that it is at its end; `scan_complete`: the batches hold
  exactly the rows of the table that satisfy all predicates, in order.
-/

namespace SimpleOlap

open Lib

/-- Source: `datastructs.h` ScanCursor. The segment is a place in the list of segments. -/
structure ScanCursor where
  segmentId : ℕ
  offsetInSegment : ℕ
  segmentDecisionValid : Bool
  rowFilterMask : List Bool
  preparedPredicates : Option (List PreparedStoragePredicate)
  deriving DecidableEq

/-- A cursor before its first call. -/
def ScanCursor.fresh : ScanCursor := ⟨kInvalidSegmentId, 0, false, [], none⟩

/-- The cursor inside the segment. -/
def ScanCursor.segmentCursor (c : ScanCursor) : SegmentScanCursor :=
  ⟨c.offsetInSegment, c.segmentDecisionValid, c.rowFilterMask, c.preparedPredicates⟩

/-- The cursor after its segment cursor has moved. -/
def ScanCursor.withSegmentCursor (c : ScanCursor) (s : SegmentScanCursor) : ScanCursor :=
  { c with
    offsetInSegment := s.offset
    segmentDecisionValid := s.decisionValid
    rowFilterMask := s.rowFilterMask }

namespace TableStorage

/-- Source: AdvanceCursorToNextSegment. -/
def advanceCursorToNextSegment (t : TableStorage) (c : ScanCursor) : ScanCursor × Bool :=
  let next := if c.segmentId = kInvalidSegmentId then 0 else (c.segmentId + 1) % 2 ^ 32
  if t.metadata.segmentIds.length ≤ next then ({ c with segmentId := next }, false)
  else (⟨next, 0, false, [], c.preparedPredicates⟩, true)

/-- The rows of the current segment behind the cursor. -/
def physicalRowsLeft (t : TableStorage) (disk : Disk) (c : ScanCursor) : ℕ :=
  match t.metadata.segmentIds[c.segmentId]? with
  | none => 0
  | some id =>
    match disk.getSegmentReader id with
    | none => 0
    | some reader => reader.rowCount - c.offsetInSegment

/-- The segments behind the cursor, the current one included. -/
def segmentsLeft (t : TableStorage) (c : ScanCursor) : ℕ :=
  if c.segmentId = kInvalidSegmentId then t.metadata.segmentIds.length + 1
  else t.metadata.segmentIds.length - c.segmentId

end TableStorage

/-! ## The loop -/

namespace TableStorage

/-- The place behind the cursor's. -/
def nextPlace (c : ScanCursor) : ℕ := if c.segmentId = kInvalidSegmentId then 0 else c.segmentId + 1

/-- The places of the list never reach the reserved value. -/
theorem ne_kInvalidSegmentId {t : TableStorage} (hcount : t.metadata.segmentIds.length < 2 ^ 32)
    {i : ℕ} (hi : i < t.metadata.segmentIds.length) : i ≠ kInvalidSegmentId := by
  have hinvalid : kInvalidSegmentId = 2 ^ 32 - 1 := by decide
  omega

/-- Advancing goes to the place behind, as long as the list reaches that far. -/
theorem advanceCursorToNextSegment_eq {t : TableStorage} {c : ScanCursor}
    (hcount : t.metadata.segmentIds.length < 2 ^ 32)
    (hc : c.segmentId = kInvalidSegmentId ∨ c.segmentId < t.metadata.segmentIds.length) :
    t.advanceCursorToNextSegment c =
      if t.metadata.segmentIds.length ≤ nextPlace c then ({ c with segmentId := nextPlace c }, false)
      else (⟨nextPlace c, 0, false, [], c.preparedPredicates⟩, true) := by
  unfold advanceCursorToNextSegment nextPlace
  by_cases hfresh : c.segmentId = kInvalidSegmentId
  · simp only [if_pos hfresh]
  · have hlt := hc.resolve_left hfresh
    have hmod : (c.segmentId + 1) % 2 ^ 32 = c.segmentId + 1 := Nat.mod_eq_of_lt (by omega)
    simp only [if_neg hfresh, hmod]

/-- Advancing, where it finds a segment, goes to the start of the next one. -/
theorem advanceCursorToNextSegment_eq_true {t : TableStorage} {c c' : ScanCursor}
    (hcount : t.metadata.segmentIds.length < 2 ^ 32)
    (hc : c.segmentId = kInvalidSegmentId ∨ c.segmentId < t.metadata.segmentIds.length)
    (h : t.advanceCursorToNextSegment c = (c', true)) :
    nextPlace c < t.metadata.segmentIds.length ∧
      c' = ⟨nextPlace c, 0, false, [], c.preparedPredicates⟩ := by
  rw [advanceCursorToNextSegment_eq hcount hc] at h
  by_cases hlen : t.metadata.segmentIds.length ≤ nextPlace c
  · simp [if_pos hlen] at h
  · rw [if_neg hlen] at h
    exact ⟨Nat.not_le.mp hlen, (Prod.mk.inj h).1.symm⟩

/-- Advancing, where it does not, was at the last segment. -/
theorem advanceCursorToNextSegment_eq_false {t : TableStorage} {c c' : ScanCursor}
    (hcount : t.metadata.segmentIds.length < 2 ^ 32)
    (hc : c.segmentId = kInvalidSegmentId ∨ c.segmentId < t.metadata.segmentIds.length)
    (h : t.advanceCursorToNextSegment c = (c', false)) :
    t.metadata.segmentIds.length ≤ nextPlace c := by
  rw [advanceCursorToNextSegment_eq hcount hc] at h
  by_contra hlen
  simp [if_neg hlen] at h

/-- Advancing leaves fewer segments. -/
theorem segmentsLeft_advance {t : TableStorage} {c c' : ScanCursor}
    (hcount : t.metadata.segmentIds.length < 2 ^ 32)
    (hc : c.segmentId = kInvalidSegmentId ∨ c.segmentId < t.metadata.segmentIds.length)
    (h : t.advanceCursorToNextSegment c = (c', true)) : t.segmentsLeft c' < t.segmentsLeft c := by
  obtain ⟨hlt, rfl⟩ := advanceCursorToNextSegment_eq_true hcount hc h
  unfold segmentsLeft
  rw [if_neg (ne_kInvalidSegmentId hcount hlt)]
  unfold nextPlace at hlt ⊢
  by_cases hfresh : c.segmentId = kInvalidSegmentId
  · rw [if_pos hfresh] at hlt ⊢
    rw [if_pos hfresh]
    omega
  · rw [if_neg hfresh] at hlt ⊢
    rw [if_neg hfresh]
    show t.metadata.segmentIds.length - (c.segmentId + 1) < t.metadata.segmentIds.length - c.segmentId
    omega

/-- One call, from its first look at the cursor on. Source: Scan, the loop. Reading past the list of
segments and using a segment that does not open are errors here. -/
def scanLoop (decideSegment : DecisionRule) (t : TableStorage)
    (hcount : t.metadata.segmentIds.length < 2 ^ 32) (disk : Disk) (options : ScanOptions)
    (c : ScanCursor) : Except String (ScanCursor × Option VectorBatch) :=
  if _hfresh : c.segmentId = kInvalidSegmentId then
    match _h : t.advanceCursorToNextSegment c with
    | (c', false) => .ok (c', none)
    | (c', true) => scanLoop decideSegment t hcount disk options c'
  else
    match _hid : t.metadata.segmentIds[c.segmentId]? with
    | none => .error "segment_ids out of range"
    | some id =>
      match _hreader : disk.getSegmentReader id with
      | none => .error "null segment reader"
      | some reader =>
        match _hscan : scanSegment decideSegment reader options c.segmentCursor with
        | .error e => .error e
        | .ok (s, none) =>
          match _h : t.advanceCursorToNextSegment (c.withSegmentCursor s) with
          | (c', false) => .ok (c', none)
          | (c', true) => scanLoop decideSegment t hcount disk options c'
        | .ok (s, some output) =>
          -- nothing of the batch passed: go on with the next one
          if output.size = 0 then scanLoop decideSegment t hcount disk options (c.withSegmentCursor s)
          else .ok (c.withSegmentCursor s, some output)
termination_by (t.segmentsLeft c, t.physicalRowsLeft disk c)
decreasing_by
  · exact Prod.Lex.left _ _ (segmentsLeft_advance hcount (.inl _hfresh) _h)
  · have hlt := (List.getElem?_eq_some_iff.mp _hid).1
    exact Prod.Lex.left _ _ (segmentsLeft_advance hcount (c := c.withSegmentCursor s) (.inr hlt) _h)
  · obtain ⟨hlt, hadv⟩ := scanSegment_offset_lt _hscan
    refine Prod.Lex.right _ ?_
    simp only [physicalRowsLeft, ScanCursor.withSegmentCursor, _hid, _hreader]
    exact Nat.sub_lt_sub_left hlt hadv

/-- One call: the predicates are prepared by the first. Source: Scan. -/
def scan (decideSegment : DecisionRule) (t : TableStorage)
    (hcount : t.metadata.segmentIds.length < 2 ^ 32) (disk : Disk) (options : ScanOptions)
    (c : ScanCursor) : Except String (ScanCursor × Option VectorBatch) := do
  if c.preparedPredicates = none ∧ options.predicates ≠ [] then
    let prepared ← PreparedScanPredicates.build options t.schema
    scanLoop decideSegment t hcount disk options { c with preparedPredicates := some prepared }
  else scanLoop decideSegment t hcount disk options c

/-- **A batch of the scan satisfies the batch invariant and has an active row**, wherever the cursor is. -/
theorem strong_scanLoop {decideSegment : DecisionRule} {t : TableStorage}
    {hcount : t.metadata.segmentIds.length < 2 ^ 32} {disk : Disk} {options : ScanOptions}
    {c c' : ScanCursor} {b : VectorBatch}
    (h : scanLoop decideSegment t hcount disk options c = .ok (c', some b)) : b.Strong ∧ 0 < b.size := by
  fun_induction scanLoop decideSegment t hcount disk options c with
  | case1 | case3 | case4 | case5 | case6 => simp at h
  | case2 _ _ _ _ ih => exact ih h
  | case7 _ _ _ _ _ _ _ _ _ _ ih => exact ih h
  | case8 _ _ _ _ _ _ _ _ _ _ ih => exact ih h
  | case9 c hfresh id hid reader hreader s output hscan hsize =>
    simp only [Except.ok.injEq, Prod.mk.injEq, Option.some.injEq] at h
    rw [← h.2]
    exact ⟨strong_scanSegment hscan, Nat.pos_of_ne_zero hsize⟩

/-- The predicates make no difference to it. -/
theorem strong_scan {decideSegment : DecisionRule} {t : TableStorage}
    {hcount : t.metadata.segmentIds.length < 2 ^ 32} {disk : Disk} {options : ScanOptions}
    {c c' : ScanCursor} {b : VectorBatch}
    (h : scan decideSegment t hcount disk options c = .ok (c', some b)) : b.Strong ∧ 0 < b.size := by
  unfold scan at h
  split_ifs at h with hprepare
  · obtain ⟨prepared, -, hloop⟩ := bind_eq_ok h
    exact strong_scanLoop hloop
  · exact strong_scanLoop h

/-- Calling until the scan is at its end, and the batches it hands out. -/
inductive ScanCalls (decideSegment : DecisionRule) (t : TableStorage)
    (hcount : t.metadata.segmentIds.length < 2 ^ 32) (disk : Disk) (options : ScanOptions) :
    ScanCursor → List VectorBatch → Prop
  | done {c c' : ScanCursor} (h : scan decideSegment t hcount disk options c = .ok (c', none)) :
      ScanCalls decideSegment t hcount disk options c []
  | next {c c' : ScanCursor} {b : VectorBatch} {bs : List VectorBatch}
      (h : scan decideSegment t hcount disk options c = .ok (c', some b))
      (hrest : ScanCalls decideSegment t hcount disk options c' bs) :
      ScanCalls decideSegment t hcount disk options c (b :: bs)

/-- The calls hand out the same batches each time. -/
theorem ScanCalls.unique {decideSegment : DecisionRule} {t : TableStorage}
    {hcount : t.metadata.segmentIds.length < 2 ^ 32} {disk : Disk} {options : ScanOptions}
    {c : ScanCursor} {bs bs' : List VectorBatch}
    (h : ScanCalls decideSegment t hcount disk options c bs)
    (h' : ScanCalls decideSegment t hcount disk options c bs') : bs = bs' := by
  induction h generalizing bs' with
  | done h =>
    cases h' with
    | done => rfl
    | next h' _ => simp [h] at h'
  | next h _ ih =>
    cases h' with
    | done h' => simp [h] at h'
    | next h' hrest' =>
      rw [h] at h'
      cases h'
      rw [ih hrest']

/-! ## The rows left -/

section Spec

variable {decideSegment : DecisionRule} {t : TableStorage}
  {hcount : t.metadata.segmentIds.length < 2 ^ 32} {disk : Disk} {options : ScanOptions}
  {prepared : List PreparedStoragePredicate}

/-- Every registered segment opens, has the columns of the predicates, and is decided about. -/
def Scannable (decideSegment : DecisionRule) (t : TableStorage) (disk : Disk) (options : ScanOptions)
    (prepared : List PreparedStoragePredicate) : Prop :=
  ∀ id ∈ t.metadata.segmentIds, ∃ reader, disk.getSegmentReader id = some reader ∧
    HasPredicateColumns options prepared reader ∧
    (decideSegment reader options.predicates).Fits prepared

/-- The rows of a registered segment that a scan hands out. -/
def registeredRows (decideSegment : DecisionRule) (disk : Disk) (options : ScanOptions)
    (prepared : List PreparedStoragePredicate) (id : SegmentId) : List Row :=
  match disk.getSegmentReader id with
  | none => []
  | some reader => decidedRows options prepared reader (decideSegment reader options.predicates)

/-- The rows that a scan hands out, segment by segment. -/
def scannedRows (decideSegment : DecisionRule) (t : TableStorage) (disk : Disk) (options : ScanOptions)
    (prepared : List PreparedStoragePredicate) : List Row :=
  t.metadata.segmentIds.flatMap (registeredRows decideSegment disk options prepared)

/-- The rows that satisfy all predicates, segment by segment. -/
def matchingRows (t : TableStorage) (disk : Disk) (options : ScanOptions)
    (prepared : List PreparedStoragePredicate) : List Row :=
  t.metadata.segmentIds.flatMap fun id =>
    match disk.getSegmentReader id with
    | none => []
    | some reader => segmentRows options prepared reader

/-- The rows that a cursor still has to hand out. -/
def rowsLeft (decideSegment : DecisionRule) (t : TableStorage) (disk : Disk) (options : ScanOptions)
    (prepared : List PreparedStoragePredicate) (c : ScanCursor) : List Row :=
  if c.segmentId = kInvalidSegmentId then t.scannedRows decideSegment disk options prepared
  else
    match t.metadata.segmentIds[c.segmentId]? with
    | none => []
    | some id =>
      match disk.getSegmentReader id with
      | none => []
      | some reader =>
        rowsFrom options prepared reader (decideSegment reader options.predicates) c.offsetInSegment ++
          (t.metadata.segmentIds.drop (c.segmentId + 1)).flatMap
            (registeredRows decideSegment disk options prepared)

/-- A cursor that is fresh, or inside a registered segment with a valid segment cursor. -/
structure CursorOk (decideSegment : DecisionRule) (t : TableStorage) (disk : Disk)
    (options : ScanOptions) (prepared : List PreparedStoragePredicate) (c : ScanCursor) : Prop where
  plan : c.preparedPredicates = some prepared ∨ prepared = []
  place : c.segmentId = kInvalidSegmentId ∨ ∃ id reader,
    t.metadata.segmentIds[c.segmentId]? = some id ∧ disk.getSegmentReader id = some reader ∧
      c.segmentCursor.Ok decideSegment options prepared reader

/-- After an advance the rows left are those of the segments from there on. -/
theorem rowsLeft_of_start (hs : t.Scannable decideSegment disk options prepared) {i : ℕ}
    (hcount : t.metadata.segmentIds.length < 2 ^ 32) (hi : i < t.metadata.segmentIds.length)
    (plan : Option (List PreparedStoragePredicate)) :
    t.rowsLeft decideSegment disk options prepared ⟨i, 0, false, [], plan⟩ =
      (t.metadata.segmentIds.drop i).flatMap (registeredRows decideSegment disk options prepared) := by
  obtain ⟨reader, hreader, -⟩ := hs _ (List.getElem_mem hi)
  rw [rowsLeft, if_neg (ne_kInvalidSegmentId hcount hi)]
  simp only [List.getElem?_eq_getElem hi, hreader]
  rw [List.drop_eq_getElem_cons hi, List.flatMap_cons, registeredRows, hreader]
  rfl

/-- The cursor after an advance. -/
theorem CursorOk.start (hs : t.Scannable decideSegment disk options prepared) {i : ℕ}
    (hi : i < t.metadata.segmentIds.length) {plan : Option (List PreparedStoragePredicate)}
    (hplan : plan = some prepared ∨ prepared = []) :
    CursorOk decideSegment t disk options prepared ⟨i, 0, false, [], plan⟩ := by
  obtain ⟨reader, hreader, -⟩ := hs _ (List.getElem_mem hi)
  exact ⟨hplan, .inr ⟨_, reader, List.getElem?_eq_getElem hi, hreader, .start hplan⟩⟩

section Current

variable {c : ScanCursor} {id : SegmentId} {reader : SegmentReader}

/-- Inside a segment the rows left are those of the segment and those of the segments behind it. -/
theorem rowsLeft_of_current (hfresh : ¬ c.segmentId = kInvalidSegmentId)
    (hid : t.metadata.segmentIds[c.segmentId]? = some id)
    (hreader : disk.getSegmentReader id = some reader) :
    t.rowsLeft decideSegment disk options prepared c =
      rowsFrom options prepared reader (decideSegment reader options.predicates) c.offsetInSegment ++
      (t.metadata.segmentIds.drop (c.segmentId + 1)).flatMap
        (registeredRows decideSegment disk options prepared) := by
  rw [rowsLeft, if_neg hfresh]
  simp only [hid, hreader]

/-- A step inside a segment takes the first of the rows left. -/
theorem rowsLeft_of_step (hfresh : ¬ c.segmentId = kInvalidSegmentId)
    (hid : t.metadata.segmentIds[c.segmentId]? = some id) (hreader : disk.getSegmentReader id = some reader)
    {s : SegmentScanCursor} {rows : List Row}
    (hrows : rowsFrom options prepared reader (decideSegment reader options.predicates) c.offsetInSegment =
      rows ++ rowsFrom options prepared reader (decideSegment reader options.predicates) s.offset) :
    t.rowsLeft decideSegment disk options prepared c =
      rows ++ t.rowsLeft decideSegment disk options prepared (c.withSegmentCursor s) := by
  rw [rowsLeft_of_current hfresh hid hreader,
    rowsLeft_of_current (c := c.withSegmentCursor s) hfresh hid hreader, ← List.append_assoc]
  exact congrArg (· ++ _) hrows

/-- At the end of a segment the rows left are those of the segments behind it. -/
theorem rowsLeft_of_segmentEnd (hfresh : ¬ c.segmentId = kInvalidSegmentId)
    (hid : t.metadata.segmentIds[c.segmentId]? = some id) (hreader : disk.getSegmentReader id = some reader)
    (hend : rowsFrom options prepared reader (decideSegment reader options.predicates) c.offsetInSegment = []) :
    t.rowsLeft decideSegment disk options prepared c =
      (t.metadata.segmentIds.drop (nextPlace c)).flatMap
        (registeredRows decideSegment disk options prepared) := by
  rw [rowsLeft_of_current hfresh hid hreader, hend, nextPlace, if_neg hfresh, List.nil_append]

/-- Inside a segment one call of `scanSegment` does what it should. -/
theorem CursorOk.scanSegment_spec (hs : t.Scannable decideSegment disk options prepared)
    (hc : CursorOk decideSegment t disk options prepared c) (hfresh : ¬ c.segmentId = kInvalidSegmentId)
    (hid : t.metadata.segmentIds[c.segmentId]? = some id)
    (hreader : disk.getSegmentReader id = some reader) :
    ∃ s out, scanSegment decideSegment reader options c.segmentCursor = .ok (s, out) ∧
      CursorOk decideSegment t disk options prepared (c.withSegmentCursor s) ∧
      SegmentStep options prepared reader (decideSegment reader options.predicates) c.segmentCursor s
        out := by
  obtain ⟨id', reader', hid', hreader', hok⟩ := hc.place.resolve_left hfresh
  obtain rfl : id = id' := Option.some.inj (hid.symm.trans hid')
  obtain rfl : reader = reader' := Option.some.inj (hreader.symm.trans hreader')
  obtain ⟨r, hr, hcols, hfits⟩ := hs id (List.mem_of_getElem? hid)
  obtain rfl : reader = r := Option.some.inj (hreader.symm.trans hr)
  obtain ⟨s, out, hscan, hsok, hplan, hstep⟩ := SimpleOlap.scanSegment_spec hcols hfits hok
  refine ⟨s, out, hscan, ⟨hc.plan, .inr ⟨id, reader, hid, hreader, ?_⟩⟩, hstep⟩
  exact ⟨hsok.decided, hc.plan⟩

end Current

/-- What one call does: at the end no row is left; otherwise the batch holds the first of the rows
left, at least one, and the cursor is before the others. -/
inductive CallStep (decideSegment : DecisionRule) (t : TableStorage) (disk : Disk)
    (options : ScanOptions) (prepared : List PreparedStoragePredicate) (c c' : ScanCursor) :
    Option VectorBatch → Prop
  | ended (h : t.rowsLeft decideSegment disk options prepared c = []) :
      CallStep decideSegment t disk options prepared c c' none
  | batch {b : VectorBatch} (hok : CursorOk decideSegment t disk options prepared c')
      (hpos : 0 < b.size) (hstrong : b.Strong) (hsmall : b.selection.rowCount ≤ kVectorBatchSize)
      (hrows : t.rowsLeft decideSegment disk options prepared c =
        b.activeRows ++ t.rowsLeft decideSegment disk options prepared c') :
      CallStep decideSegment t disk options prepared c c' (some b)

/-- A step that hands out nothing, then a call. -/
theorem CallStep.of_rowsLeft_eq {c₀ c c' : ScanCursor} {out : Option VectorBatch}
    (h : CallStep decideSegment t disk options prepared c c' out)
    (heq : t.rowsLeft decideSegment disk options prepared c₀ = t.rowsLeft decideSegment disk options prepared c) :
    CallStep decideSegment t disk options prepared c₀ c' out := by
  cases h with
  | ended h => exact .ended (heq.trans h)
  | batch hok hpos hstrong hsmall hrows => exact .batch hok hpos hstrong hsmall (heq.trans hrows)

/-- **One call hands out the first of the rows left and leaves the others.** -/
theorem scanLoop_spec (hcount : t.metadata.segmentIds.length < 2 ^ 32)
    (hs : t.Scannable decideSegment disk options prepared) {c : ScanCursor}
    (hc : CursorOk decideSegment t disk options prepared c) :
    ∃ c' out, scanLoop decideSegment t hcount disk options c = .ok (c', out) ∧
      CallStep decideSegment t disk options prepared c c' out := by
  fun_induction scanLoop decideSegment t hcount disk options c with
  | case1 c hfresh c' hadv =>
    -- there is no segment at all
    have hlen := advanceCursorToNextSegment_eq_false hcount (.inl hfresh) hadv
    rw [nextPlace, if_pos hfresh] at hlen
    refine ⟨c', none, rfl, .ended ?_⟩
    rw [rowsLeft, if_pos hfresh, scannedRows, List.length_eq_zero_iff.mp (Nat.le_zero.mp hlen)]
    rfl
  | case2 c hfresh c' hadv ih =>
    obtain ⟨hlt, rfl⟩ := advanceCursorToNextSegment_eq_true hcount (.inl hfresh) hadv
    obtain ⟨c'', out, hloop, hcall⟩ := ih (CursorOk.start hs hlt hc.plan)
    refine ⟨c'', out, hloop, hcall.of_rowsLeft_eq ?_⟩
    rw [rowsLeft_of_start hs hcount hlt, rowsLeft, if_pos hfresh, nextPlace, if_pos hfresh]
    rfl
  | case3 c hfresh hid =>
    obtain ⟨id, reader, hid', -⟩ := hc.place.resolve_left hfresh
    simp [hid] at hid'
  | case4 c hfresh id hid hreader =>
    obtain ⟨reader, hreader', -⟩ := hs id (List.mem_of_getElem? hid)
    simp [hreader] at hreader'
  | case5 c hfresh id hid reader hreader e hscan =>
    obtain ⟨s, out, hscan', -⟩ := hc.scanSegment_spec hs hfresh hid hreader
    simp [hscan] at hscan'
  | case6 c hfresh id hid reader hreader s hscan c' hadv =>
    -- the last segment is at its end
    obtain ⟨s', out, hscan', -, hstep⟩ := hc.scanSegment_spec hs hfresh hid hreader
    obtain ⟨rfl, rfl⟩ := Prod.mk.inj (Except.ok.inj (hscan.symm.trans hscan'))
    cases hstep with
    | ended hend =>
      have hlen := advanceCursorToNextSegment_eq_false hcount
        (c := c.withSegmentCursor s) (.inr (List.getElem?_eq_some_iff.mp hid).1) hadv
      refine ⟨c', none, rfl, .ended ?_⟩
      rw [rowsLeft_of_segmentEnd hfresh hid hreader hend]
      exact congrArg (List.flatMap _) (List.drop_eq_nil_of_le hlen)
  | case7 c hfresh id hid reader hreader s hscan c' hadv ih =>
    -- the segment is at its end, and there is another one
    obtain ⟨s', out, hscan', hnext, hstep⟩ := hc.scanSegment_spec hs hfresh hid hreader
    obtain ⟨rfl, rfl⟩ := Prod.mk.inj (Except.ok.inj (hscan.symm.trans hscan'))
    cases hstep with
    | ended hend =>
      obtain ⟨hlt, rfl⟩ := advanceCursorToNextSegment_eq_true hcount
        (c := c.withSegmentCursor s) (.inr (List.getElem?_eq_some_iff.mp hid).1) hadv
      obtain ⟨c'', out, hloop, hcall⟩ := ih (CursorOk.start hs hlt hnext.plan)
      refine ⟨c'', out, hloop, hcall.of_rowsLeft_eq ?_⟩
      rw [rowsLeft_of_start hs hcount hlt]
      exact rowsLeft_of_segmentEnd hfresh hid hreader hend
  | case8 c hfresh id hid reader hreader s b hscan hzero ih =>
    -- nothing of the batch passed
    obtain ⟨s', out, hscan', hnext, hstep⟩ := hc.scanSegment_spec hs hfresh hid hreader
    obtain ⟨rfl, rfl⟩ := Prod.mk.inj (Except.ok.inj (hscan.symm.trans hscan'))
    cases hstep with
    | batch hstrong hsmall hrows =>
      obtain ⟨c'', out, hloop, hcall⟩ := ih hnext
      refine ⟨c'', out, hloop, hcall.of_rowsLeft_eq ?_⟩
      have hnil : b.activeRows = [] := List.eq_nil_of_length_eq_zero
        (hstrong.length_activeRows.trans hzero)
      have hleft := rowsLeft_of_step (t := t) hfresh hid hreader hrows
      rwa [hnil, List.nil_append] at hleft
  | case9 c hfresh id hid reader hreader s b hscan hpos =>
    obtain ⟨s', out, hscan', hnext, hstep⟩ := hc.scanSegment_spec hs hfresh hid hreader
    obtain ⟨rfl, rfl⟩ := Prod.mk.inj (Except.ok.inj (hscan.symm.trans hscan'))
    cases hstep with
    | batch hstrong hsmall hrows =>
      refine ⟨_, some b, rfl, .batch hnext (Nat.pos_of_ne_zero hpos) hstrong hsmall ?_⟩
      exact rowsLeft_of_step hfresh hid hreader hrows

/-! ## Calling until the end -/

/-- Prepared predicates are there for every predicate. -/
theorem predicates_eq_nil (hbuild : PreparedScanPredicates.build options t.schema = .ok prepared)
    (hnil : prepared = []) : options.predicates = [] := by
  have hlen := (build_eq_ok hbuild).length_eq
  rw [hnil, List.length_nil] at hlen
  exact List.length_eq_zero_iff.mp hlen

/-- With the predicates prepared, or with none, a call is the loop. -/
theorem scan_eq_scanLoop (hbuild : PreparedScanPredicates.build options t.schema = .ok prepared)
    {c : ScanCursor} (hplan : c.preparedPredicates = some prepared ∨ prepared = []) :
    scan decideSegment t hcount disk options c = scanLoop decideSegment t hcount disk options c := by
  have hcond : ¬ (c.preparedPredicates = none ∧ options.predicates ≠ []) := by
    rintro ⟨hnone, hne⟩
    rcases hplan with hsome | hnil
    · simp [hnone] at hsome
    · exact hne (predicates_eq_nil hbuild hnil)
  rw [scan, if_neg hcond]

/-- **From any valid cursor the calls come to an end, and hand out the rows left.** -/
theorem exists_scanCalls (hcount : t.metadata.segmentIds.length < 2 ^ 32)
    (hbuild : PreparedScanPredicates.build options t.schema = .ok prepared)
    (hs : t.Scannable decideSegment disk options prepared) {c : ScanCursor}
    (hc : CursorOk decideSegment t disk options prepared c) :
    ∃ bs, ScanCalls decideSegment t hcount disk options c bs ∧
      bs.flatMap VectorBatch.activeRows = t.rowsLeft decideSegment disk options prepared c ∧
      ∀ b ∈ bs, 0 < b.size ∧ b.Strong ∧ b.selection.rowCount ≤ kVectorBatchSize := by
  induction hn : (t.rowsLeft decideSegment disk options prepared c).length using Nat.strong_induction_on
    generalizing c with
  | _ n ih =>
    obtain ⟨c', out, hloop, hcall⟩ := scanLoop_spec hcount hs hc
    rw [← scan_eq_scanLoop hbuild hc.plan] at hloop
    cases hcall with
    | ended hend => exact ⟨[], .done hloop, hend.symm, fun b hb => absurd hb List.not_mem_nil⟩
    | @batch b hok hpos hstrong hsmall hrows =>
      have hlen := congrArg List.length hrows
      rw [List.length_append, hstrong.length_activeRows] at hlen
      obtain ⟨bs, hcalls, hbs, hall⟩ := ih _ (by omega) hok rfl
      refine ⟨b :: bs, .next hloop hcalls, by rw [List.flatMap_cons, hbs, hrows], fun b' hb' => ?_⟩
      rcases List.mem_cons.mp hb' with rfl | hb'
      · exact ⟨hpos, hstrong, hsmall⟩
      · exact hall b' hb'

/-- The first call prepares the predicates, and is a call with the predicates prepared. -/
theorem scanCalls_fresh (hbuild : PreparedScanPredicates.build options t.schema = .ok prepared)
    {bs : List VectorBatch}
    (h : ScanCalls decideSegment t hcount disk options
      { ScanCursor.fresh with preparedPredicates := some prepared } bs) :
    options.predicates ≠ [] → ScanCalls decideSegment t hcount disk options .fresh bs := by
  intro hne
  have heq : scan decideSegment t hcount disk options .fresh = scan decideSegment t hcount disk options
      { ScanCursor.fresh with preparedPredicates := some prepared } := by
    rw [scan_eq_scanLoop hbuild
      (c := { ScanCursor.fresh with preparedPredicates := some prepared }) (.inl rfl), scan,
      if_pos ⟨rfl, hne⟩, hbuild]
    rfl
  cases h with
  | done h => exact .done (heq.trans h)
  | next h hrest => exact .next (heq.trans h) hrest

end Spec

end TableStorage

/-- The physical rows of a well-formed batch are those of its mask. -/
theorem VectorBatch.Strong.physicalSize_eq {b : VectorBatch} (h : b.Strong) :
    b.physicalSize = b.selection.rowCount := by
  unfold VectorBatch.physicalSize
  split_ifs with hcond
  · rfl
  · push Not at hcond
    obtain ⟨col, cols, hcols⟩ := List.exists_cons_of_ne_nil hcond.2
    rw [hcols]
    exact h.counts col (by simp [hcols])

/-- **The calls from a fresh cursor come to an end**, and hand out the rows of all segments. -/
theorem TableStorage.exists_scanCalls_fresh {decideSegment : DecisionRule} {t : TableStorage}
    (hcount : t.metadata.segmentIds.length < 2 ^ 32) {disk : Disk} {options : ScanOptions}
    {prepared : List PreparedStoragePredicate}
    (hbuild : PreparedScanPredicates.build options t.schema = .ok prepared)
    (hs : t.Scannable decideSegment disk options prepared) :
    ∃ bs, ScanCalls decideSegment t hcount disk options .fresh bs ∧
      bs.flatMap VectorBatch.activeRows = t.scannedRows decideSegment disk options prepared ∧
      ∀ b ∈ bs, 0 < b.size ∧ b.Strong ∧ b.selection.rowCount ≤ kVectorBatchSize := by
  by_cases hnil : options.predicates = []
  · have hprep : prepared = [] := by
      have hlen := (build_eq_ok hbuild).length_eq
      rw [hnil, List.length_nil] at hlen
      exact List.length_eq_zero_iff.mp hlen.symm
    exact exists_scanCalls hcount hbuild hs ⟨.inr hprep, .inl rfl⟩
  · obtain ⟨bs, hcalls, hrows, hall⟩ := exists_scanCalls hcount hbuild hs
      (c := { ScanCursor.fresh with preparedPredicates := some prepared }) ⟨.inl rfl, .inl rfl⟩
    exact ⟨bs, scanCalls_fresh hbuild hcalls hnil, hrows, hall⟩

/-- Under sound decisions the rows handed out are those that satisfy all predicates. -/
theorem TableStorage.scannedRows_eq_matchingRows {decideSegment : DecisionRule} {t : TableStorage}
    {disk : Disk} {options : ScanOptions} {prepared : List PreparedStoragePredicate}
    (h : ∀ id ∈ t.metadata.segmentIds, ∃ reader, disk.getSegmentReader id = some reader ∧
      SoundDecision options prepared reader (decideSegment reader options.predicates)) :
    t.scannedRows decideSegment disk options prepared = t.matchingRows disk options prepared := by
  rw [scannedRows, matchingRows, List.flatMap_def, List.flatMap_def]
  congr 1
  apply List.map_congr_left
  intro id hid
  obtain ⟨reader, hreader, hsound⟩ := h id hid
  simp only [registeredRows, hreader, hsound.decidedRows_eq]

/-- **The serial scan is complete and hands out no row twice.** Under any sound decision rule, calling
from a fresh cursor until the end hands out the rows that satisfy all predicates, in the order of the
segments and of the rows in them, in non-empty batches of at most `kVectorBatchSize` physical rows. -/
theorem TableStorage.scan_complete {decideSegment : DecisionRule} {t : TableStorage}
    (hcount : t.metadata.segmentIds.length < 2 ^ 32) {disk : Disk} {options : ScanOptions}
    {prepared : List PreparedStoragePredicate}
    (hbuild : PreparedScanPredicates.build options t.schema = .ok prepared)
    (hreadable : ∀ id ∈ t.metadata.segmentIds, ∃ reader, disk.getSegmentReader id = some reader ∧
      (∀ cond ∈ options.predicates,
        (reader.openColumn cond.column).metadata.type = t.schema.typeOf cond.column) ∧
      SoundDecision options prepared reader (decideSegment reader options.predicates)) :
    ∃ bs, (∀ bs', ScanCalls decideSegment t hcount disk options .fresh bs' ↔ bs' = bs) ∧
      bs.flatMap VectorBatch.activeRows = t.matchingRows disk options prepared ∧
      ∀ b ∈ bs, 0 < b.size ∧ b.activeRows.length = b.size ∧ b.physicalSize ≤ kVectorBatchSize := by
  have hs : t.Scannable decideSegment disk options prepared := by
    intro id hid
    obtain ⟨reader, hreader, htypes, hsound⟩ := hreadable id hid
    exact ⟨reader, hreader, hasPredicateColumns hbuild htypes, hsound.fits⟩
  have hmatch : t.scannedRows decideSegment disk options prepared =
      t.matchingRows disk options prepared := by
    refine scannedRows_eq_matchingRows fun id hid => ?_
    obtain ⟨reader, hreader, -, hsound⟩ := hreadable id hid
    exact ⟨reader, hreader, hsound⟩
  obtain ⟨bs, hcalls, hrows, hall⟩ := exists_scanCalls_fresh hcount hbuild hs
  refine ⟨bs, fun bs' => ⟨fun h => h.unique hcalls, fun h => h ▸ hcalls⟩, hrows.trans hmatch,
    fun b hb => ?_⟩
  obtain ⟨hpos, hstrong, hsmall⟩ := hall b hb
  exact ⟨hpos, hstrong.length_activeRows, hstrong.physicalSize_eq ▸ hsmall⟩

/-! ## A table with one row on disk -/

/-- The segment of one row. -/
def oneRowBuilder : SegmentBuilder := (SegmentBuilder.new oneColumnSchema).append oneRowChunk

/-- The files of a table with that segment. -/
def oneRowDisk : Disk where
  tableMeta := some (TableStorageMeta.serialize ⟨0, [0]⟩)
  segments id := if id = 0 then some (oneRowBuilder.fileBytes 0) else none

/-- The table, opened. -/
def oneRowTable : TableStorage where
  schema := oneColumnSchema
  metadata := ⟨0, [0]⟩
  sealedSegments := []
  indexManager := TableIndexManager.new oneColumnSchema
  pendingVisibleSegments := []
  activeSegmentId := 1
  nextSegmentId := 2
  activeSegment := SegmentBuilder.new oneColumnSchema

/-- `c0 = 7`. -/
def sevenOptions : ScanOptions := ⟨[0], [⟨0, .eq, .int32 7⟩]⟩

theorem oneColumnSchema_fits : oneColumnSchema.Fits where
  columnCount := by decide
  columns c hc := by
    rw [List.mem_singleton.mp hc]
    exact ⟨by decide, by decide⟩
  primaryKey k hk := nomatch hk
  keyCount := by decide
  secondaryKeys k hk := nomatch hk

theorem oneRowBuilder_wf : oneRowBuilder.WF oneColumnSchema :=
  (SegmentBuilder.WF.new oneColumnSchema).append oneRowChunk_fits

theorem getSegmentReader_oneRowDisk :
    oneRowDisk.getSegmentReader 0 = some (fileReader oneRowBuilder 0) :=
  openFile_fileBytes oneRowBuilder_wf oneColumnSchema_fits (by decide) (by decide)

/-! ### Two segments -/

/-- The files of a table with two segments of one row. -/
def twoSegmentDisk : Disk where
  tableMeta := some (TableStorageMeta.serialize ⟨0, [0, 1]⟩)
  segments id := if id ≤ 1 then some (oneRowBuilder.fileBytes id) else none

/-- The table, opened. -/
def twoSegmentTable : TableStorage :=
  { oneRowTable with metadata := ⟨0, [0, 1]⟩, activeSegmentId := 2, nextSegmentId := 3 }

theorem getSegmentReader_twoSegmentDisk {id : SegmentId} (h : id ∈ [0, 1]) :
    twoSegmentDisk.getSegmentReader id = some (fileReader oneRowBuilder id) := by
  rcases List.mem_cons.mp h with rfl | h
  · exact openFile_fileBytes oneRowBuilder_wf oneColumnSchema_fits (by decide) (by decide)
  · rw [List.mem_singleton.mp h]
    exact openFile_fileBytes oneRowBuilder_wf oneColumnSchema_fits (by decide) (by decide)

/-- The predicate `c0 = 7`, prepared. -/
def sevenPrepared : List PreparedStoragePredicate := [⟨.typedCompare, 0, .int32, .eq, .int32 7⟩]

theorem scan_complete_twoSegments :
    ∃ bs, (∀ bs', TableStorage.ScanCalls openRule twoSegmentTable (by decide) twoSegmentDisk sevenOptions
        .fresh bs' ↔ bs' = bs) ∧
      bs.flatMap VectorBatch.activeRows = [[[7, 0, 0, 0]], [[7, 0, 0, 0]]] ∧
      ∀ b ∈ bs, 0 < b.size ∧ b.activeRows.length = b.size ∧ b.physicalSize ≤ kVectorBatchSize := by
  have hbuild : PreparedScanPredicates.build sevenOptions twoSegmentTable.schema = .ok sevenPrepared := rfl
  obtain ⟨bs, hcalls, hrows, hall⟩ := @TableStorage.scan_complete openRule twoSegmentTable
    (by decide) twoSegmentDisk sevenOptions _ hbuild fun id hid => by
      refine ⟨_, getSegmentReader_twoSegmentDisk hid, fun cond hcond => ?_, soundDecision_openRule rfl⟩
      rw [List.mem_singleton.mp hcond]
      exact (openColumn_fileReader oneRowBuilder_wf (i := 0) (by decide) (by decide) rfl
        fun j hj => absurd hj (Nat.not_lt_zero j)).1
  exact ⟨bs, hcalls, hrows.trans (by decide +kernel), hall⟩

end SimpleOlap
