import SimpleOlap.Storage.Table.Scan
import Mathlib.Algebra.BigOperators.Group.Finset.Piecewise
import Mathlib.Tactic.Abel

/-!
# The parallel scan

Workers share the list of segments and a counter; each claims a segment, scans it to its end with a
cursor of its own, and claims the next. Source: `parallel_scan_state.h`, and CreateParallelScanState and
ScanParallel of `table_storage.cpp`.

* `ParallelScanGlobalState.claimSegment`: the atomic step of the counter.
* `ParallelScan`: the shared state, the workers, and who claimed which place of the list;
  `ParallelStep`: one step of one worker, at the granularity of the shared accesses.
* `ParallelScan.Inv`: what the workers received, what is left of their segments and what is not claimed
  yet make up the rows of the table, in every interleaving.
* `parallelScan_eq_scan`: every segment is claimed once, and when all workers are at the end they have
  received what the serial scan hands out.
-/

namespace SimpleOlap

open Lib

/-! ## States -/

/-- Source: ParallelScanGlobalState. -/
structure ParallelScanGlobalState where
  segmentIds : List SegmentId
  nextSegment : ℕ
  preparedPredicates : Option (List PreparedStoragePredicate)
  cancelled : Bool

/-- Take the next segment. Source: ClaimSegment. -/
def ParallelScanGlobalState.claimSegment (g : ParallelScanGlobalState) :
    ParallelScanGlobalState × Option SegmentId :=
  if g.cancelled then (g, none)
  else ({ g with nextSegment := g.nextSegment + 1 }, g.segmentIds[g.nextSegment]?)

/-- Source: ParallelScanLocalState. -/
structure ParallelScanLocalState where
  segmentId : SegmentId
  reader : Option SegmentReader
  cursor : SegmentScanCursor
  hasSegment : Bool

/-- A worker without a segment. Source: ResetSegment, and the initial values. -/
def ParallelScanLocalState.reset : ParallelScanLocalState :=
  ⟨kInvalidSegmentId, none, .start none, false⟩

/-- The state that the workers of a query share. Source: CreateParallelScanState. -/
def TableStorage.createParallelScanState (t : TableStorage) (options : ScanOptions) :
    Except String ParallelScanGlobalState :=
  if options.predicates = [] then .ok ⟨t.metadata.segmentIds, 0, none, false⟩
  else (fun prepared => ⟨t.metadata.segmentIds, 0, some prepared, false⟩) <$>
    PreparedScanPredicates.build options t.schema

/-- Where a worker is: not in a call of ScanParallel, at the head of its loop, before ScanSegment, or
behind a call that returned false. -/
inductive WorkerPhase
  | outside | loopHead | scanning | finished
  deriving DecidableEq

/-- A worker and the rows of the batches it received. -/
structure Worker where
  state : ParallelScanLocalState
  phase : WorkerPhase
  received : List Row

/-- All workers, and the places of the list with the workers that claimed them. -/
structure ParallelScan (W : Type) where
  global : ParallelScanGlobalState
  workers : W → Worker
  claims : List (ℕ × W)

/-- The beginning of a query. -/
def ParallelScan.start {W : Type} (g : ParallelScanGlobalState) : ParallelScan W :=
  ⟨g, fun _ => ⟨.reset, .outside, []⟩, []⟩

section Steps

variable {W : Type} [DecidableEq W]

/-- Change one worker. -/
def ParallelScan.set (s : ParallelScan W) (w : W) (worker : Worker) : ParallelScan W :=
  { s with workers := Function.update s.workers w worker }

/-- One step of one worker, when the query is not cancelled and the segments open. Source: ScanParallel,
the loop. -/
inductive ParallelStep (decideSegment : DecisionRule) (disk : Disk) (options : ScanOptions) :
    ParallelScan W → ParallelScan W → Prop
  /-- the worker calls ScanParallel -/
  | call {s : ParallelScan W} {w : W}
      (hphase : (s.workers w).phase = .outside ∨ (s.workers w).phase = .finished) :
      ParallelStep decideSegment disk options s (s.set w { s.workers w with phase := .loopHead })
  /-- the worker goes on with its segment -/
  | keep {s : ParallelScan W} {w : W} (hphase : (s.workers w).phase = .loopHead)
      (hrunning : s.global.cancelled = false) (hhas : (s.workers w).state.hasSegment = true) :
      ParallelStep decideSegment disk options s (s.set w { s.workers w with phase := .scanning })
  /-- the worker claims a segment -/
  | claim {s : ParallelScan W} {w : W} {g : ParallelScanGlobalState} {id : SegmentId}
      {reader : SegmentReader} (hphase : (s.workers w).phase = .loopHead)
      (hrunning : s.global.cancelled = false) (hhas : (s.workers w).state.hasSegment = false)
      (hclaim : s.global.claimSegment = (g, some id))
      (hreader : disk.getSegmentReader id = some reader) :
      ParallelStep decideSegment disk options s
        ⟨g, Function.update s.workers w
          ⟨⟨id, some reader, .start g.preparedPredicates, true⟩, .scanning, (s.workers w).received⟩,
          s.claims ++ [(s.global.nextSegment, w)]⟩
  /-- there is no segment to claim: the call returns false -/
  | exhausted {s : ParallelScan W} {w : W} {g : ParallelScanGlobalState}
      (hphase : (s.workers w).phase = .loopHead) (hrunning : s.global.cancelled = false)
      (hhas : (s.workers w).state.hasSegment = false) (hclaim : s.global.claimSegment = (g, none)) :
      ParallelStep decideSegment disk options s
        { s.set w { s.workers w with phase := .finished } with global := g }
  /-- the segment is at its end, or skipped -/
  | ended {s : ParallelScan W} {w : W} {reader : SegmentReader} {c : SegmentScanCursor}
      (hphase : (s.workers w).phase = .scanning) (hreader : (s.workers w).state.reader = some reader)
      (hscan : scanSegment decideSegment reader options (s.workers w).state.cursor = .ok (c, none)) :
      ParallelStep decideSegment disk options s
        (s.set w ⟨.reset, .loopHead, (s.workers w).received⟩)
  /-- nothing of the batch passed -/
  | filtered {s : ParallelScan W} {w : W} {reader : SegmentReader} {c : SegmentScanCursor}
      {b : VectorBatch} (hphase : (s.workers w).phase = .scanning)
      (hreader : (s.workers w).state.reader = some reader)
      (hscan : scanSegment decideSegment reader options (s.workers w).state.cursor = .ok (c, some b))
      (hzero : b.size = 0) :
      ParallelStep decideSegment disk options s
        (s.set w ⟨{ (s.workers w).state with cursor := c }, .loopHead, (s.workers w).received⟩)
  /-- the call returns a batch -/
  | batch {s : ParallelScan W} {w : W} {reader : SegmentReader} {c : SegmentScanCursor}
      {b : VectorBatch} (hphase : (s.workers w).phase = .scanning)
      (hreader : (s.workers w).state.reader = some reader)
      (hscan : scanSegment decideSegment reader options (s.workers w).state.cursor = .ok (c, some b))
      (hpos : b.size ≠ 0) :
      ParallelStep decideSegment disk options s
        (s.set w ⟨{ (s.workers w).state with cursor := c }, .outside,
          (s.workers w).received ++ b.activeRows⟩)

end Steps

/-! ## The invariant -/

section Invariant

variable {W : Type} [DecidableEq W] [Fintype W] {decideSegment : DecisionRule} {t : TableStorage}
  {disk : Disk} {options : ScanOptions} {prepared : List PreparedStoragePredicate}

/-- The rows left of the segment that a worker holds. -/
def Worker.pending (decideSegment : DecisionRule) (options : ScanOptions)
    (prepared : List PreparedStoragePredicate) (v : Worker) : List Row :=
  match v.state.hasSegment, v.state.reader with
  | true, some reader => rowsFrom options prepared reader (decideSegment reader options.predicates)
      v.state.cursor.offset
  | _, _ => []

/-- The rows that a worker has received or is about to. -/
def Worker.account (decideSegment : DecisionRule) (options : ScanOptions)
    (prepared : List PreparedStoragePredicate) (v : Worker) : Multiset Row :=
  v.received + v.pending decideSegment options prepared

/-- A worker holds a registered segment with a valid cursor when it is scanning, and none when it is at
the end of the scan. -/
structure Worker.Ok (decideSegment : DecisionRule) (t : TableStorage) (disk : Disk)
    (options : ScanOptions) (prepared : List PreparedStoragePredicate) (exhausted : Prop)
    (v : Worker) : Prop where
  holds : v.state.hasSegment = true → ∃ id ∈ t.metadata.segmentIds, ∃ reader,
    disk.getSegmentReader id = some reader ∧ v.state.reader = some reader ∧
      v.state.cursor.Ok decideSegment options prepared reader
  scanning : v.phase = .scanning → v.state.hasSegment = true
  finished : v.phase = .finished → exhausted ∧ v.state.hasSegment = false

/-- The invariant of the parallel scan. -/
structure ParallelScan.Inv (decideSegment : DecisionRule) (t : TableStorage) (disk : Disk)
    (options : ScanOptions) (prepared : List PreparedStoragePredicate) (s : ParallelScan W) :
    Prop where
  snapshot : s.global.segmentIds = t.metadata.segmentIds
  plan : s.global.preparedPredicates = some prepared ∨ prepared = []
  running : s.global.cancelled = false
  workers : ∀ w, (s.workers w).Ok decideSegment t disk options prepared
    (t.metadata.segmentIds.length ≤ s.global.nextSegment)
  claims : s.claims.map Prod.fst =
    List.range (min s.global.nextSegment t.metadata.segmentIds.length)
  rows : ∑ w, (s.workers w).account decideSegment options prepared +
    ((t.metadata.segmentIds.drop s.global.nextSegment).flatMap
      (TableStorage.registeredRows decideSegment disk options prepared) : Multiset Row) =
    (t.scannedRows decideSegment disk options prepared : Multiset Row)

omit [DecidableEq W] in
/-- A sum over the workers when one of them changes. -/
theorem sum_update {M : Type} [AddCommMonoid M] [DecidableEq W] (f : Worker → M)
    (workers : W → Worker) (w : W) (v : Worker) :
    ∑ u, f (Function.update workers w v u) + f (workers w) = ∑ u, f (workers u) + f v := by
  have hupdate : (fun u => f (Function.update workers w v u)) =
      Function.update (fun u => f (workers u)) w (f v) := by
    funext u
    by_cases h : u = w
    · subst h
      simp
    · simp [h]
  rw [hupdate, Finset.sum_update_of_mem (Finset.mem_univ w),
    ← Finset.add_sum_erase _ (fun u => f (workers u)) (Finset.mem_univ w),
    Finset.sdiff_singleton_eq_erase]
  abel

/-- A step of one worker that leaves its account as it is keeps the rows in balance. -/
theorem sum_account_update {s : ParallelScan W} {w : W} {v : Worker}
    (h : v.account decideSegment options prepared =
      (s.workers w).account decideSegment options prepared) :
    ∑ u, (Function.update s.workers w v u).account decideSegment options prepared =
      ∑ u, (s.workers u).account decideSegment options prepared := by
  have hsum := sum_update (Worker.account decideSegment options prepared) s.workers w v
  rw [h] at hsum
  exact add_right_cancel hsum

/-- A query starts with the snapshot of the list and nothing claimed. -/
theorem createParallelScanState_eq_ok {g : ParallelScanGlobalState}
    (hbuild : PreparedScanPredicates.build options t.schema = .ok prepared)
    (h : t.createParallelScanState options = .ok g) :
    g.segmentIds = t.metadata.segmentIds ∧ g.nextSegment = 0 ∧
      (g.preparedPredicates = some prepared ∨ prepared = []) ∧ g.cancelled = false := by
  unfold TableStorage.createParallelScanState at h
  by_cases hnil : options.predicates = []
  · rw [if_pos hnil] at h
    cases h
    have hlen := (build_eq_ok hbuild).length_eq
    rw [hnil, List.length_nil] at hlen
    exact ⟨rfl, rfl, .inr (List.length_eq_zero_iff.mp hlen.symm), rfl⟩
  · rw [if_neg hnil, hbuild] at h
    cases h
    exact ⟨rfl, rfl, .inl rfl, rfl⟩

omit [DecidableEq W] in
/-- At the beginning all rows are those of segments that nobody has claimed. -/
theorem ParallelScan.Inv.start {g : ParallelScanGlobalState}
    (hbuild : PreparedScanPredicates.build options t.schema = .ok prepared)
    (h : t.createParallelScanState options = .ok g) :
    (ParallelScan.start g : ParallelScan W).Inv decideSegment t disk options prepared := by
  obtain ⟨hids, hnext, hplan, hrunning⟩ := createParallelScanState_eq_ok hbuild h
  refine ⟨hids, hplan, hrunning, fun w => ⟨?_, ?_, ?_⟩, ?_, ?_⟩
  · exact fun hhas => absurd hhas Bool.false_ne_true
  · exact fun hphase => nomatch hphase
  · exact fun hphase => nomatch hphase
  · simp [ParallelScan.start, hnext]
  · have hzero : ∑ w : W, ((ParallelScan.start g : ParallelScan W).workers w).account decideSegment
        options prepared = 0 := Finset.sum_eq_zero fun _ _ => rfl
    rw [hzero, zero_add, show (ParallelScan.start g : ParallelScan W).global.nextSegment = 0 from hnext,
      List.drop_zero]
    rfl

/-- Changing one worker, with its account as it was, keeps the invariant. -/
theorem ParallelScan.Inv.set {s : ParallelScan W}
    (h : s.Inv decideSegment t disk options prepared) {w : W} {v : Worker}
    (hok : v.Ok decideSegment t disk options prepared
      (t.metadata.segmentIds.length ≤ s.global.nextSegment))
    (haccount : v.account decideSegment options prepared =
      (s.workers w).account decideSegment options prepared) :
    (s.set w v).Inv decideSegment t disk options prepared := by
  refine ⟨h.snapshot, h.plan, h.running, fun u => ?_, h.claims, ?_⟩
  · by_cases hu : u = w
    · subst hu
      simpa [ParallelScan.set] using hok
    · simpa [ParallelScan.set, hu] using h.workers u
  · rw [← h.rows, ← sum_account_update haccount]
    rfl

/-- A claim takes the next place of the list and the segment there. -/
theorem claimSegment_eq {g g' : ParallelScanGlobalState} {claimed : Option SegmentId}
    (hrunning : g.cancelled = false) (h : g.claimSegment = (g', claimed)) :
    g' = { g with nextSegment := g.nextSegment + 1 } ∧ g.segmentIds[g.nextSegment]? = claimed := by
  rw [ParallelScanGlobalState.claimSegment, if_neg (Bool.eq_false_iff.mp hrunning)] at h
  exact ⟨(Prod.mk.inj h).1.symm, (Prod.mk.inj h).2⟩

/-- What is left of the segment that a worker holds. -/
theorem Worker.pending_eq {v : Worker} {reader : SegmentReader} (hhas : v.state.hasSegment = true)
    (hreader : v.state.reader = some reader) : v.pending decideSegment options prepared =
      rowsFrom options prepared reader (decideSegment reader options.predicates)
        v.state.cursor.offset := by
  simp only [Worker.pending, hhas, hreader]

/-- One call of `scanSegment` by a worker does what it should. -/
theorem Worker.Ok.scanSegment_spec (hs : t.Scannable decideSegment disk options prepared)
    {exhausted : Prop} {v : Worker} (h : v.Ok decideSegment t disk options prepared exhausted)
    (hphase : v.phase = .scanning) {reader : SegmentReader} (hreader : v.state.reader = some reader)
    {c : SegmentScanCursor} {out : Option VectorBatch}
    (hscan : scanSegment decideSegment reader options v.state.cursor = .ok (c, out)) :
    v.pending decideSegment options prepared =
        rowsFrom options prepared reader (decideSegment reader options.predicates)
          v.state.cursor.offset ∧
      (∃ id ∈ t.metadata.segmentIds, disk.getSegmentReader id = some reader ∧
        c.Ok decideSegment options prepared reader) ∧
      SegmentStep options prepared reader (decideSegment reader options.predicates) v.state.cursor c
        out := by
  have hhas := h.scanning hphase
  obtain ⟨id, hid, reader', hget, hreader', hok⟩ := h.holds hhas
  obtain rfl : reader = reader' := Option.some.inj (hreader.symm.trans hreader')
  obtain ⟨r, hr, hcols, hfits⟩ := hs id hid
  obtain rfl : reader = r := Option.some.inj (hget.symm.trans hr)
  obtain ⟨c', out', hscan', hcok, -, hstep⟩ := SimpleOlap.scanSegment_spec hcols hfits hok
  obtain ⟨rfl, rfl⟩ := Prod.mk.inj (Except.ok.inj (hscan.symm.trans hscan'))
  exact ⟨Worker.pending_eq hhas hreader, ⟨id, hid, hget, hcok⟩, hstep⟩

/-- Claiming a segment moves its rows from those not claimed to the worker's. -/
theorem ParallelScan.Inv.claim {s : ParallelScan W}
    (h : s.Inv decideSegment t disk options prepared) {w : W} {id : SegmentId} {reader : SegmentReader}
    (hhas : (s.workers w).state.hasSegment = false)
    (hid : t.metadata.segmentIds[s.global.nextSegment]? = some id)
    (hreader : disk.getSegmentReader id = some reader) :
    (⟨{ s.global with nextSegment := s.global.nextSegment + 1 }, Function.update s.workers w
      ⟨⟨id, some reader, .start s.global.preparedPredicates, true⟩, .scanning,
        (s.workers w).received⟩, s.claims ++ [(s.global.nextSegment, w)]⟩ : ParallelScan W).Inv
      decideSegment t disk options prepared := by
  obtain ⟨hlt, hget⟩ := List.getElem?_eq_some_iff.mp hid
  refine ⟨h.snapshot, h.plan, h.running, fun u => ?_, ?_, ?_⟩
  · by_cases hu : u = w
    · subst hu
      simp only [Function.update_self]
      exact ⟨fun _ => ⟨id, List.mem_of_getElem? hid, reader, hreader, rfl, .start h.plan⟩,
        fun _ => rfl, nofun⟩
    · simp only [Function.update_of_ne hu]
      have hok := h.workers u
      refine ⟨hok.holds, hok.scanning, fun hphase => ?_⟩
      obtain ⟨hle, hno⟩ := hok.finished hphase
      exact ⟨le_trans hle (Nat.le_succ _), hno⟩
  · rw [List.map_append, h.claims, Nat.min_eq_left (le_of_lt hlt), Nat.min_eq_left hlt,
      List.range_succ]
    rfl
  · have hsum := sum_update (Worker.account decideSegment options prepared) s.workers w
      ⟨⟨id, some reader, .start s.global.preparedPredicates, true⟩, .scanning, (s.workers w).received⟩
    have hpending : (s.workers w).pending decideSegment options prepared = [] := by
      simp only [Worker.pending, hhas]
    have hold : (s.workers w).account decideSegment options prepared =
        ((s.workers w).received : Multiset Row) := by
      rw [Worker.account, hpending, Multiset.coe_nil, add_zero]
    have hnew : Worker.account decideSegment options prepared
        ⟨⟨id, some reader, .start s.global.preparedPredicates, true⟩, .scanning,
          (s.workers w).received⟩ = ((s.workers w).received : Multiset Row) +
        (TableStorage.registeredRows decideSegment disk options prepared id : Multiset Row) := by
      rw [TableStorage.registeredRows, hreader]
      rfl
    rw [hold, hnew, ← add_assoc, add_right_comm, add_left_inj] at hsum
    rw [← h.rows, List.drop_eq_getElem_cons hlt, List.flatMap_cons, ← Multiset.coe_add, hget]
    simp only [hsum]
    rw [add_assoc]

/-- A claim behind the end of the list takes nothing. -/
theorem ParallelScan.Inv.exhausted {s : ParallelScan W}
    (h : s.Inv decideSegment t disk options prepared) {w : W}
    (hhas : (s.workers w).state.hasSegment = false)
    (hlen : t.metadata.segmentIds.length ≤ s.global.nextSegment) :
    { s.set w { s.workers w with phase := .finished } with
      global := { s.global with nextSegment := s.global.nextSegment + 1 } }.Inv decideSegment t disk
      options prepared := by
  have hset := h.set (w := w) (v := { s.workers w with phase := .finished })
    ⟨(h.workers w).holds, nofun, fun _ => ⟨hlen, hhas⟩⟩ rfl
  refine ⟨hset.snapshot, hset.plan, hset.running, fun u => ?_, ?_, ?_⟩
  · have hok := hset.workers u
    refine ⟨hok.holds, hok.scanning, fun hphase => ?_⟩
    obtain ⟨hle, hno⟩ := hok.finished hphase
    exact ⟨le_trans hle (Nat.le_succ _), hno⟩
  · rw [Nat.min_eq_right (le_trans hlen (Nat.le_succ _)), ← Nat.min_eq_right hlen]
    exact hset.claims
  · rw [List.drop_eq_nil_of_le (le_trans hlen (Nat.le_succ _)), ← List.drop_eq_nil_of_le hlen]
    exact hset.rows

/-- **Every step of every worker keeps the invariant.** -/
theorem ParallelScan.Inv.step (hs : t.Scannable decideSegment disk options prepared)
    {s s' : ParallelScan W} (h : s.Inv decideSegment t disk options prepared)
    (hst : ParallelStep decideSegment disk options s s') :
    s'.Inv decideSegment t disk options prepared := by
  cases hst with
  | @call w hphase =>
    have hok := h.workers w
    exact h.set ⟨hok.holds, nofun, nofun⟩ rfl
  | @keep w hphase hrunning hhas =>
    have hok := h.workers w
    exact h.set ⟨hok.holds, fun _ => hhas, nofun⟩ rfl
  | @claim w g id reader hphase hrunning hhas hclaim hreader =>
    obtain ⟨rfl, hid⟩ := claimSegment_eq hrunning hclaim
    exact h.claim hhas (h.snapshot ▸ hid) hreader
  | @exhausted w g hphase hrunning hhas hclaim =>
    obtain ⟨rfl, hid⟩ := claimSegment_eq hrunning hclaim
    exact h.exhausted hhas (h.snapshot ▸ List.getElem?_eq_none_iff.mp hid)
  | @ended w reader c hphase hreader hscan =>
    obtain ⟨hpending, -, hstep⟩ := (h.workers w).scanSegment_spec hs hphase hreader hscan
    cases hstep with
    | ended hend =>
      refine h.set ⟨nofun, nofun, nofun⟩ ?_
      rw [Worker.account, Worker.account, hpending, hend]
      rfl
  | @filtered w reader c b hphase hreader hscan hzero =>
    have hhas := (h.workers w).scanning hphase
    obtain ⟨hpending, ⟨id, hid, hget, hcok⟩, hstep⟩ :=
      (h.workers w).scanSegment_spec hs hphase hreader hscan
    cases hstep with
    | batch hstrong hsmall hrows =>
      refine h.set ⟨fun _ => ⟨id, hid, reader, hget, hreader, hcok⟩, nofun, nofun⟩ ?_
      have hnil : b.activeRows = [] := List.eq_nil_of_length_eq_zero
        (hstrong.length_activeRows.trans hzero)
      rw [Worker.account, Worker.account, hpending, hrows, hnil, Worker.pending_eq
        (v := ⟨{ (s.workers w).state with cursor := c }, .loopHead, _⟩) hhas hreader]
      rfl
  | @batch w reader c b hphase hreader hscan hpos =>
    have hhas := (h.workers w).scanning hphase
    obtain ⟨hpending, ⟨id, hid, hget, hcok⟩, hstep⟩ :=
      (h.workers w).scanSegment_spec hs hphase hreader hscan
    cases hstep with
    | batch hstrong hsmall hrows =>
      refine h.set ⟨fun _ => ⟨id, hid, reader, hget, hreader, hcok⟩, nofun, nofun⟩ ?_
      rw [Worker.account, Worker.account, hpending, hrows, Worker.pending_eq
        (v := ⟨{ (s.workers w).state with cursor := c }, .outside, _⟩) hhas hreader,
        Multiset.coe_add, Multiset.coe_add, List.append_assoc]

/-- No worker is ever stuck. -/
theorem ParallelScan.Inv.exists_step (hs : t.Scannable decideSegment disk options prepared)
    {s : ParallelScan W} (h : s.Inv decideSegment t disk options prepared) (w : W) :
    ∃ s', ParallelStep decideSegment disk options s s' ∧ (s'.workers w).phase ≠ (s.workers w).phase := by
  have hok := h.workers w
  rcases hphase : (s.workers w).phase
  · exact ⟨_, .call (.inl hphase), by simp [ParallelScan.set]⟩
  · by_cases hhas : (s.workers w).state.hasSegment = true
    · exact ⟨_, .keep hphase h.running hhas, by simp [ParallelScan.set]⟩
    · have hhas' := Bool.eq_false_iff.mpr hhas
      rcases hclaim : s.global.claimSegment with ⟨g, _ | id⟩
      · exact ⟨_, .exhausted hphase h.running hhas' hclaim, by simp [ParallelScan.set]⟩
      · have hid := (claimSegment_eq h.running hclaim).2
        rw [h.snapshot] at hid
        obtain ⟨reader, hreader, -⟩ := hs id (List.mem_of_getElem? hid)
        exact ⟨_, .claim hphase h.running hhas' hclaim hreader, by simp⟩
  · obtain ⟨id, hid, reader, hget, hreader, hcok⟩ := hok.holds (hok.scanning hphase)
    obtain ⟨r, hr, hcols, hfits⟩ := hs id hid
    obtain rfl : reader = r := Option.some.inj (hget.symm.trans hr)
    obtain ⟨c, out, hscan, -⟩ := SimpleOlap.scanSegment_spec hcols hfits hcok
    rcases out with _ | b
    · exact ⟨_, .ended hphase hreader hscan, by simp [ParallelScan.set]⟩
    · by_cases hzero : b.size = 0
      · exact ⟨_, .filtered hphase hreader hscan hzero, by simp [ParallelScan.set]⟩
      · exact ⟨_, .batch hphase hreader hscan hzero, by simp [ParallelScan.set]⟩
  · exact ⟨_, .call (.inr hphase), by simp [ParallelScan.set]⟩

/-- The invariant holds in every interleaving. -/
theorem ParallelScan.inv_of_reachable
    (hbuild : PreparedScanPredicates.build options t.schema = .ok prepared)
    (hs : t.Scannable decideSegment disk options prepared) {g : ParallelScanGlobalState}
    (hcreate : t.createParallelScanState options = .ok g) {s : ParallelScan W}
    (h : Reachable (· = ParallelScan.start g) (ParallelStep decideSegment disk options) s) :
    s.Inv decideSegment t disk options prepared := by
  refine Reachable.invariant (P := fun s => s.Inv decideSegment t disk options prepared) ?_ ?_ h
  · rintro _ rfl
    exact .start hbuild hcreate
  · exact fun _ _ hinv hst => hinv.step hs hst

omit [DecidableEq W] in
/-- At the end every place of the list was claimed by one worker. -/
theorem ParallelScan.Inv.claimed_once {s : ParallelScan W}
    (h : s.Inv decideSegment t disk options prepared)
    (hlen : t.metadata.segmentIds.length ≤ s.global.nextSegment) {i : ℕ}
    (hi : i < t.metadata.segmentIds.length) : ∃! w, (i, w) ∈ s.claims := by
  have hclaims := h.claims
  rw [Nat.min_eq_right hlen] at hclaims
  have hmem : i ∈ s.claims.map Prod.fst := hclaims ▸ List.mem_range.mpr hi
  obtain ⟨⟨j, w⟩, hw, rfl⟩ := List.mem_map.mp hmem
  refine ⟨w, hw, fun u hu => ?_⟩
  have hnodup : (s.claims.map Prod.fst).Nodup := hclaims ▸ List.nodup_range
  have heq := List.inj_on_of_nodup_map hnodup hu hw rfl
  exact congrArg Prod.snd heq

omit [DecidableEq W] in
/-- At the end the workers have received the rows of the table. -/
theorem ParallelScan.Inv.received_eq [Nonempty W] {s : ParallelScan W}
    (h : s.Inv decideSegment t disk options prepared)
    (hfinished : ∀ w, (s.workers w).phase = .finished) :
    t.metadata.segmentIds.length ≤ s.global.nextSegment ∧
      ∑ w, ((s.workers w).received : Multiset Row) =
        (t.scannedRows decideSegment disk options prepared : Multiset Row) := by
  have hlen := ((h.workers (Classical.arbitrary W)).finished (hfinished _)).1
  refine ⟨hlen, ?_⟩
  rw [← h.rows, List.drop_eq_nil_of_le hlen, List.flatMap_nil, Multiset.coe_nil, add_zero]
  refine Finset.sum_congr rfl fun w _ => ?_
  have hno := ((h.workers w).finished (hfinished w)).2
  have hpending : (s.workers w).pending decideSegment options prepared = [] := by
    simp only [Worker.pending, hno]
  rw [Worker.account, hpending, Multiset.coe_nil, add_zero]

end Invariant

/-- **The parallel scan reads every segment exactly once.** In every interleaving of any number of
workers, no place of the list of segments is claimed twice; and once all workers are at the end every
place was claimed by one worker and the workers together have received the rows that the serial scan
hands out. -/
theorem parallelScan_eq_scan {W : Type} [DecidableEq W] [Fintype W] [Nonempty W] {t : TableStorage}
    (hcount : t.metadata.segmentIds.length < 2 ^ 32) {disk : Disk} {options : ScanOptions}
    {prepared : List PreparedStoragePredicate}
    (hbuild : PreparedScanPredicates.build options t.schema = .ok prepared)
    (hreadable : ∀ id ∈ t.metadata.segmentIds, ∃ reader, disk.getSegmentReader id = some reader ∧
      ∀ cond ∈ options.predicates,
        (reader.openColumn cond.column).metadata.type = t.schema.typeOf cond.column)
    {g : ParallelScanGlobalState} (hcreate : t.createParallelScanState options = .ok g)
    {s : ParallelScan W}
    (h : Reachable (· = ParallelScan.start g)
      (ParallelStep SegmentReader.evaluatePredicates disk options) s) :
    (s.claims.map Prod.fst).Nodup ∧
    ((∀ w, (s.workers w).phase = .finished) →
      (∀ i < t.metadata.segmentIds.length, ∃! w, (i, w) ∈ s.claims) ∧
      ∃ bs, TableStorage.ScanCalls SegmentReader.evaluatePredicates t hcount disk options .fresh bs ∧
        ∑ w, ((s.workers w).received : Multiset Row) =
          (bs.flatMap VectorBatch.activeRows : Multiset Row)) := by
  have hs : t.Scannable SegmentReader.evaluatePredicates disk options prepared := by
    intro id hid
    obtain ⟨reader, hreader, htypes⟩ := hreadable id hid
    exact ⟨reader, hreader, hasPredicateColumns hbuild htypes,
      fits_evaluatePredicates (build_eq_ok hbuild).length_eq⟩
  have hinv := ParallelScan.inv_of_reachable hbuild hs hcreate h
  refine ⟨hinv.claims ▸ List.nodup_range, fun hfinished => ?_⟩
  obtain ⟨hlen, hreceived⟩ := hinv.received_eq hfinished
  obtain ⟨bs, hcalls, hrows, -⟩ := TableStorage.exists_scanCalls_fresh hcount hbuild hs
  exact ⟨fun i hi => hinv.claimed_once hlen hi, bs, hcalls, by rw [hreceived, hrows]⟩

/-! ## Two segments and two workers -/

/-- A worker without a segment calls, takes the next segment, returns its one batch, calls again and comes to the
end of the segment. -/
theorem reachable_takeSegment {W : Type} [DecidableEq W] {decideSegment : DecisionRule} {disk : Disk}
    {options : ScanOptions} {init : ParallelScan W → Prop} {s : ParallelScan W} {w : W} {received : List Row}
    {id : SegmentId} {reader : SegmentReader} {c c' : SegmentScanCursor} {b : VectorBatch}
    (h : Reachable init (ParallelStep decideSegment disk options) s)
    (hw : s.workers w = ⟨.reset, .outside, received⟩) (hrunning : s.global.cancelled = false)
    (hid : s.global.segmentIds[s.global.nextSegment]? = some id)
    (hreader : disk.getSegmentReader id = some reader)
    (hfirst : scanSegment decideSegment reader options (.start s.global.preparedPredicates) = .ok (c, some b))
    (hpos : b.size ≠ 0) (hlast : scanSegment decideSegment reader options c = .ok (c', none)) :
    Reachable init (ParallelStep decideSegment disk options)
      ⟨{ s.global with nextSegment := s.global.nextSegment + 1 },
        Function.update s.workers w ⟨.reset, .loopHead, received ++ b.activeRows⟩,
        s.claims ++ [(s.global.nextSegment, w)]⟩ := by
  have hclaim : s.global.claimSegment = ({ s.global with nextSegment := s.global.nextSegment + 1 }, some id) := by
    simp [ParallelScanGlobalState.claimSegment, hrunning, hid]
  have hcalled := h.next (.call (w := w) (.inl (by rw [hw])))
  have hclaimed := hcalled.next (.claim (w := w) (by simp [ParallelScan.set]) hrunning
    (by simp [ParallelScan.set, hw, ParallelScanLocalState.reset]) hclaim hreader)
  have hbatch := hclaimed.next (.batch (w := w) (by simp)
    (show _ = some reader by simp) (by simpa using hfirst) hpos)
  have hagain := hbatch.next (.call (w := w) (.inl (by simp [ParallelScan.set])))
  have hkept := hagain.next (.keep (w := w) (by simp [ParallelScan.set]) hrunning (by simp [ParallelScan.set]))
  have hended := hkept.next (.ended (w := w) (by simp [ParallelScan.set])
    (show _ = some reader by simp [ParallelScan.set])
    (by simpa [ParallelScan.set] using hlast))
  simpa [ParallelScan.set, hw] using hended

/-- The one batch of each segment. -/
theorem scanSegment_twoSegment {id : SegmentId} (h : id ∈ [0, 1]) : ∃ c c' b,
    scanSegment SegmentReader.evaluatePredicates (fileReader oneRowBuilder id) sevenOptions
      (.start (some sevenPrepared)) = .ok (c, some b) ∧ b.size ≠ 0 ∧ b.activeRows = [[[7, 0, 0, 0]]] ∧
    scanSegment SegmentReader.evaluatePredicates (fileReader oneRowBuilder id) sevenOptions c = .ok (c', none) := by
  have hscan : ∀ id ∈ [0, 1], (scanSegment SegmentReader.evaluatePredicates (fileReader oneRowBuilder id) sevenOptions
      (.start (some sevenPrepared))).toOption.any (fun first =>
        first.2.any (fun b => decide (b.size ≠ 0) && decide (b.activeRows = [[[7, 0, 0, 0]]])) &&
          (scanSegment SegmentReader.evaluatePredicates (fileReader oneRowBuilder id) sevenOptions first.1).toOption.any
            fun last => last.2.isNone) = true := by decide +kernel
  have hok : ∀ {x : Except String (SegmentScanCursor × Option VectorBatch)} {p}, x.toOption = some p → x = .ok p := by
    intro x p hx
    cases x with
    | error e => cases hx
    | ok q => exact congrArg Except.ok (Option.some.inj hx)
  obtain ⟨⟨c, output⟩, hfirst, hid⟩ := (Option.any_eq_true _ _).mp (hscan id h)
  rw [Bool.and_eq_true] at hid
  obtain ⟨hbatch, hrest⟩ := hid
  obtain ⟨⟨c', last⟩, hlast, hnone⟩ := (Option.any_eq_true _ _).mp hrest
  obtain ⟨b, rfl, hb⟩ := (Option.any_eq_true _ _).mp hbatch
  rw [Bool.and_eq_true, decide_eq_true_eq, decide_eq_true_eq] at hb
  obtain rfl := Option.isNone_iff_eq_none.mp hnone
  exact ⟨c, c', b, hok hfirst, hb.1, hb.2, hok hlast⟩

/-- Two workers take one segment each, and both come to the end. -/
theorem parallelScan_eq_scan_twoWorkers : ∃ s : ParallelScan Bool,
    Reachable (· = ParallelScan.start ⟨[0, 1], 0, some sevenPrepared, false⟩)
      (ParallelStep SegmentReader.evaluatePredicates twoSegmentDisk sevenOptions) s ∧
    (∀ w, (s.workers w).phase = .finished) ∧ s.claims = [(0, true), (1, false)] ∧
    (∀ i < 2, ∃! w, (i, w) ∈ s.claims) ∧
    ∃ bs, TableStorage.ScanCalls SegmentReader.evaluatePredicates twoSegmentTable (by decide) twoSegmentDisk
        sevenOptions .fresh bs ∧
      ∑ w, ((s.workers w).received : Multiset Row) = (bs.flatMap VectorBatch.activeRows : Multiset Row) ∧
      ∑ w, ((s.workers w).received : Multiset Row) = {[[7, 0, 0, 0]], [[7, 0, 0, 0]]} := by
  obtain ⟨c, c', b, hfirst, hpos, hrows, hlast⟩ := scanSegment_twoSegment (List.mem_cons_self : 0 ∈ [0, 1])
  obtain ⟨d, d', b', hfirst', hpos', hrows', hlast'⟩ := scanSegment_twoSegment (by decide : 1 ∈ [0, 1])
  have hstart : Reachable (· = ParallelScan.start (W := Bool) ⟨[0, 1], 0, some sevenPrepared, false⟩)
      (ParallelStep SegmentReader.evaluatePredicates twoSegmentDisk sevenOptions) _ := .start rfl
  have hleft := reachable_takeSegment (w := true) hstart rfl rfl rfl
    (getSegmentReader_twoSegmentDisk (by decide)) hfirst hpos hlast
  have hright := reachable_takeSegment (w := false) hleft rfl rfl rfl
    (getSegmentReader_twoSegmentDisk (by decide)) hfirst' hpos' hlast'
  have hdone := hright.next (.exhausted (w := true) rfl rfl rfl rfl)
  have hall := hdone.next (.exhausted (w := false) rfl rfl rfl rfl)
  have hbuild : PreparedScanPredicates.build sevenOptions twoSegmentTable.schema = .ok sevenPrepared := rfl
  have hscan := (parallelScan_eq_scan (t := twoSegmentTable) (by decide) hbuild (fun id hid =>
    ⟨_, getSegmentReader_twoSegmentDisk hid, fun cond hcond => by
      rw [List.mem_singleton.mp hcond]
      exact (openColumn_fileReader oneRowBuilder_wf (i := 0) (by decide) (by decide) rfl
        fun j hj => absurd hj (Nat.not_lt_zero j)).1⟩) rfl hall).2
  obtain ⟨honce, bs, hcalls, hsum⟩ := hscan fun w => by cases w <;> rfl
  refine ⟨_, hall, fun w => by cases w <;> rfl, rfl, honce, bs, hcalls, hsum, ?_⟩
  rw [show (Finset.univ : Finset Bool) = {true, false} from rfl, Finset.sum_pair (by decide)]
  simp only [ParallelScan.set, ParallelScan.start, Function.update_self, hrows, hrows', List.nil_append]
  rfl

end SimpleOlap
