import SimpleOlap.Storage.Table.Append

/-!
# What a flush does

* `written`: the ids of the segments that a flush wrote; `flushedMeta`: the metadata it saves.
* `flush_metadata`, `flush_index`, `flush_pending`: the table after a flush.
* `flush_tableMeta`, `flush_segments_of_mem`, `flush_segments_of_notMem`: the files after a flush.
* `Shape.flush`: nothing but the active segment stays in memory, whatever became of the writes.
-/

namespace SimpleOlap

open Lib

namespace TableStorage

/-- The segments whose write was reported as successful. -/
def written (io : FlushIO) : List SegmentId :=
  (io.order.filter fun s => (io.segment s.1).okClosed).map Prod.fst

/-- The metadata with the segments written by a flush. -/
def flushedMeta (t : TableStorage) (io : FlushIO) : TableStorageMeta :=
  { t.metadata with segmentIds := t.metadata.segmentIds ++ written io }

theorem mem_written {io : FlushIO} {id : SegmentId} :
    id ∈ written io ↔ ∃ b, (id, b) ∈ io.order ∧ io.segment id = .complete := by
  simp only [written, List.mem_map, List.mem_filter, WriteOutcome.okClosed_iff, Prod.exists]
  constructor
  · rintro ⟨i, b, ⟨hmem, hok⟩, rfl⟩
    exact ⟨b, hmem, hok⟩
  · rintro ⟨b, hmem, hok⟩
    exact ⟨id, b, ⟨hmem, hok⟩, rfl⟩

/-! ## The loop -/

/-- The loop registers the segments written. -/
theorem flushSegments_table (outcome : SegmentId → WriteOutcome) :
    ∀ (order : List (SegmentId × SegmentBuilder)) (t : TableStorage) (disk : Disk),
      (flushSegments outcome order t disk).1 = { t with
        metadata := { t.metadata with segmentIds := t.metadata.segmentIds ++
          (order.filter fun s => (outcome s.1).okClosed).map Prod.fst }
        pendingVisibleSegments := t.pendingVisibleSegments ++
          (order.filter fun s => (outcome s.1).okClosed).map Prod.fst }
  | [], t, _ => by simp [flushSegments]
  | (id, b) :: rest, t, disk => by
    rw [flushSegments, Disk.flushSegment]
    by_cases hok : (outcome id).okClosed = true
    · simp only [hok, flushSegments_table outcome rest, List.filter_cons, List.map_cons,
        List.append_assoc, List.singleton_append, if_true]
    · simp only [hok, flushSegments_table outcome rest, List.filter_cons, Bool.false_eq_true,
        if_false]

/-- The loop does not touch `table.meta`. -/
theorem flushSegments_tableMeta (outcome : SegmentId → WriteOutcome) :
    ∀ (order : List (SegmentId × SegmentBuilder)) (t : TableStorage) (disk : Disk),
      (flushSegments outcome order t disk).2.tableMeta = disk.tableMeta
  | [], _, _ => rfl
  | (id, b) :: rest, t, disk => by
    rw [flushSegments, Disk.flushSegment]
    cases (outcome id).okClosed <;> simp only [flushSegments_tableMeta outcome rest]

/-- The loop does not touch the files of other segments. -/
theorem flushSegments_of_notMem (outcome : SegmentId → WriteOutcome) :
    ∀ (order : List (SegmentId × SegmentBuilder)) (t : TableStorage) (disk : Disk) {id : SegmentId},
      id ∉ order.map Prod.fst → (flushSegments outcome order t disk).2.segments id = disk.segments id
  | [], _, _, _, _ => rfl
  | (id', b) :: rest, t, disk, id, h => by
    obtain ⟨hne, hrest⟩ : id ≠ id' ∧ id ∉ rest.map Prod.fst := by simpa using h
    rw [flushSegments, Disk.flushSegment]
    cases (outcome id').okClosed <;>
      simp only [flushSegments_of_notMem outcome rest _ _ hrest, Function.update_of_ne hne]

/-- The file of a sealed segment is what its write made of it. -/
theorem flushSegments_of_mem (outcome : SegmentId → WriteOutcome) :
    ∀ {order : List (SegmentId × SegmentBuilder)} (t : TableStorage) (disk : Disk),
      (order.map Prod.fst).Nodup → ∀ {id : SegmentId} {b : SegmentBuilder}, (id, b) ∈ order →
      (flushSegments outcome order t disk).2.segments id =
        (outcome id).apply (disk.segments id) (b.fileBytes id)
  | (id', b') :: rest, t, disk, hnd, id, b, h => by
    obtain ⟨hid', hrest⟩ := List.nodup_cons.mp hnd
    rw [flushSegments, Disk.flushSegment]
    rcases List.mem_cons.mp h with heq | hmem
    · obtain ⟨rfl, rfl⟩ := Prod.mk.inj heq
      cases (outcome id).okClosed <;>
        simp only [flushSegments_of_notMem outcome rest _ _ hid', Function.update_self]
    · have hne : id ≠ id' := fun heq => hid' (List.mem_map.mpr ⟨(id, b), hmem, heq⟩)
      cases (outcome id').okClosed <;>
        simp only [flushSegments_of_mem outcome _ _ hrest hmem, Function.update_of_ne hne]

/-! ## The table after a flush -/

section Flush

variable (t : TableStorage) (disk : Disk) (io : FlushIO)

/-- Sealing the active segment touches the segments in memory only. -/
theorem sameRegistered_sealPending : SameRegistered t t.sealPending := by
  unfold sealPending
  split_ifs
  · exact ⟨rfl, rfl, rfl, rfl, Nat.le_succ _⟩
  · exact .refl t

/-- The result of a flush, component by component. -/
theorem flush_eq : t.flush disk io =
    ({ t.sealPending with
        metadata := t.flushedMeta io
        sealedSegments := []
        indexManager := if io.tableMeta.ok then
            t.indexManager.markSegmentsVisible (t.pendingVisibleSegments ++ written io)
          else t.indexManager
        pendingVisibleSegments :=
          if io.tableMeta.ok then [] else t.pendingVisibleSegments ++ written io },
      { (flushSegments io.segment io.order t.sealPending disk).2 with
        tableMeta := io.tableMeta.apply disk.tableMeta (t.flushedMeta io).serialize },
      io.tableMeta.ok) := by
  have hsame := t.sameRegistered_sealPending
  unfold flush Disk.saveMeta
  simp only [flushSegments_table, flushSegments_tableMeta, hsame.metadata, hsame.pending,
    hsame.indexManager]
  cases io.tableMeta.ok <;> rfl

@[simp] theorem flush_saved : (t.flush disk io).2.2 = io.tableMeta.ok := by rw [flush_eq]

@[simp] theorem flush_schema : (t.flush disk io).1.schema = t.schema := by
  rw [flush_eq]
  exact t.sameRegistered_sealPending.schema

@[simp] theorem flush_metadata : (t.flush disk io).1.metadata = t.flushedMeta io := by rw [flush_eq]

@[simp] theorem flush_sealed : (t.flush disk io).1.sealedSegments = [] := by rw [flush_eq]

/-- Only a saved flush reveals. -/
theorem flush_index : (t.flush disk io).1.indexManager =
    if io.tableMeta.ok then
      t.indexManager.markSegmentsVisible (t.pendingVisibleSegments ++ written io)
    else t.indexManager := by rw [flush_eq]

/-- Segments that were written and not revealed stay pending. -/
theorem flush_pending : (t.flush disk io).1.pendingVisibleSegments =
    if io.tableMeta.ok then [] else t.pendingVisibleSegments ++ written io := by rw [flush_eq]

theorem flush_nextSegmentId : (t.flush disk io).1.nextSegmentId = t.sealPending.nextSegmentId := by
  rw [flush_eq]

/-- The active segment is the only one in memory. -/
theorem flush_segmentsInMemory : (t.flush disk io).1.segmentsInMemory =
    [(t.sealPending.activeSegmentId, t.sealPending.activeSegment)] := by
  rw [flush_eq]
  rfl

/-- After a flush the active segment is empty. -/
theorem rowCount_active_sealPending : t.sealPending.activeSegment.rowCount = 0 := by
  unfold sealPending
  split_ifs with h
  · rfl
  · exact Nat.eq_zero_of_not_pos h

/-- Sealing leaves nothing more to be sealed. -/
theorem sealPending_sealPending : t.sealPending.sealPending = t.sealPending := by
  have hzero : ¬ 0 < t.sealPending.activeSegment.rowCount := by
    rw [rowCount_active_sealPending]
    exact lt_irrefl 0
  exact if_neg hzero

/-- The destructor flushes like `Flush`, if there is anything to flush. -/
theorem destroy_eq : t.destroy disk io =
    if t.sealPending.sealedSegments = [] then disk else (t.flush disk io).2.1 := by
  have hflush : t.sealPending.flush disk io = t.flush disk io := by
    unfold flush
    rw [sealPending_sealPending]
  rw [destroy, hflush]

/-! ## The files after a flush -/

@[simp] theorem flush_tableMeta : (t.flush disk io).2.1.tableMeta =
    io.tableMeta.apply disk.tableMeta (t.flushedMeta io).serialize := by rw [flush_eq]

variable {t io}

theorem flush_segments_of_notMem {id : SegmentId} (h : id ∉ io.order.map Prod.fst) :
    (t.flush disk io).2.1.segments id = disk.segments id := by
  rw [flush_eq]
  exact flushSegments_of_notMem _ _ _ _ h

theorem flush_segments_of_mem (hnd : (io.order.map Prod.fst).Nodup) {id : SegmentId}
    {b : SegmentBuilder} (h : (id, b) ∈ io.order) : (t.flush disk io).2.1.segments id =
      (io.segment id).apply (disk.segments id) (b.fileBytes id) := by
  rw [flush_eq]
  exact flushSegments_of_mem _ _ _ hnd h

end Flush

/-! ## Shape -/

variable {t : TableStorage}

/-- Sealing keeps the shape. -/
theorem Shape.sealPending (h : t.Shape) : t.sealPending.Shape := by
  unfold TableStorage.sealPending
  split_ifs with hpos
  · exact h.next hpos
  · exact h

/-- Sealing moves no row. -/
theorem Shape.holdsAt_sealPending (h : t.Shape) {l : RowLocation} {row : Row} (hl : t.HoldsAt l row) :
    t.sealPending.HoldsAt l row := by
  unfold TableStorage.sealPending
  split_ifs
  · exact h.holdsAt_next hl
  · exact hl

/-- Sealing brings in no row. -/
theorem Shape.holdsAt_of_sealPending (h : t.Shape) {l : RowLocation} {row : Row}
    (hl : t.sealPending.HoldsAt l row) : t.HoldsAt l row := by
  unfold TableStorage.sealPending at hl
  split_ifs at hl
  · obtain ⟨b, hb, hlt, hrow⟩ := hl
    rw [h.segmentsInMemory_next, List.mem_append, List.mem_singleton] at hb
    rcases hb with hb | hb
    · exact ⟨b, hb, hlt, hrow⟩
    · obtain ⟨-, rfl⟩ := Prod.mk.inj hb
      exact absurd hlt (Nat.not_lt_zero _)
  · exact hl

/-- A row in memory is in a sealed segment once the active one is sealed. -/
theorem mem_sealed_of_holdsAt_sealPending {l : RowLocation} {row : Row}
    (hl : t.sealPending.HoldsAt l row) : ∃ b, (l.segmentId, b) ∈ t.sealPending.sealedSegments ∧
      l.rowOffset < b.rowCount ∧ b.rowAt l.rowOffset = row := by
  obtain ⟨b, hb, hlt, hrow⟩ := hl
  rcases List.mem_append.mp hb with hb | hb
  · exact ⟨b, hb, hlt, hrow⟩
  · obtain ⟨-, rfl⟩ := Prod.mk.inj (List.mem_singleton.mp hb)
    rw [rowCount_active_sealPending] at hlt
    exact absurd hlt (Nat.not_lt_zero _)

/-- The ids of the sealed segments are distinct. -/
theorem Shape.nodup_sealed (h : t.Shape) : (t.sealedSegments.map Prod.fst).Nodup := by
  have hsorted := (List.pairwise_append.mp h.sorted).1
  exact List.pairwise_map.mpr (hsorted.imp fun hab => ne_of_lt hab)

/-- **A flush keeps the shape**, with nothing but an empty active segment. -/
theorem Shape.flush (h : t.Shape) (disk : Disk) (io : FlushIO) : (t.flush disk io).1.Shape := by
  have hactive := t.sealPending.active_mem_segmentsInMemory
  have hsealed := h.sealPending
  have hschema : t.sealPending.schema = t.schema := t.sameRegistered_sealPending.schema
  constructor
  · rw [flush_segmentsInMemory]
    exact List.pairwise_singleton _ _
  case nonempty =>
    rw [flush_sealed]
    exact fun s hs => absurd hs List.not_mem_nil
  all_goals
    rw [flush_segmentsInMemory]
    intro s hs
    rw [List.mem_singleton.mp hs]
  · rw [flush_nextSegmentId]
    exact hsealed.below _ hactive
  · rw [flush_schema, ← hschema]
    exact hsealed.builders _ hactive
  · exact hsealed.capacity _ hactive

end TableStorage

end SimpleOlap
