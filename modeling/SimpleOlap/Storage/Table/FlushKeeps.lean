import SimpleOlap.Storage.Table.Consistency

/-!
# What a flush keeps

* `Tracked.FlushKeeps`: after a flush the accepted rows are in memory or in a written segment that the
  table lists; and if the flush reports success, `table.meta` lists their segments.
* `Tracked.flushKeeps_iff`: a flush does so exactly when all its segment writes succeed, and
  `table.meta`, if its write is reported as successful, is whole. The segments whose write failed are
  cleared from memory with the others.
-/

namespace SimpleOlap

open Lib TableIndexManager

namespace Tracked

/-- The system after a flush. -/
def flushed (s : Tracked) (io : FlushIO) : System :=
  ⟨(s.system.table.flush s.system.disk io).1, (s.system.table.flush s.system.disk io).2.1⟩

/-- The accepted rows survive the flush, and are durable if it reports success. -/
structure FlushKeeps (schema : TableSchema) (s : Tracked) (io : FlushIO) : Prop where
  held : ∀ r ∈ s.accepted, (s.flushed io).StoredAt schema r.2 r.1
  saved : (s.system.table.flush s.system.disk io).2.2 = true → ∀ r ∈ s.accepted,
    ∃ metadata, (s.flushed io).disk.readMeta = some metadata ∧
      r.2.segmentId ∈ metadata.segmentIds ∧ (s.flushed io).disk.HasRow schema r.2 r.1

/-- All segment writes of a flush succeed. -/
def WritesSegments : Event → Prop
  | .flush io => ∀ b ∈ io.order, io.segment b.1 = .complete
  | _ => True

/-- Runs of events that are faithful and whose segment writes succeed, from a clean table. -/
def ReachedWriting (tableId : TableId) (schema : TableSchema) : Tracked → Prop :=
  Reachable (fun s => Start tableId schema s ∧ s.system.Clean schema)
    fun s s' => ∃ e, Step schema s e s' ∧ s.system.Faithful e ∧ WritesSegments e

/-- The table is sound and holds all accepted rows. -/
def Keeps (tableId : TableId) (schema : TableSchema) (s : Tracked) : Prop :=
  (∃ stored, s.system.Sound tableId schema stored ∧ stored.map placed = s.accepted) ∧
    ∀ r ∈ s.accepted, s.system.StoredAt schema r.2 r.1

variable {tableId : TableId} {schema : TableSchema} {s s' : Tracked}

/-- The loaded rows are in the files they were loaded from. -/
theorem Start.keeps (hs : schema.Bound) (htable : Fits32 tableId) (h : Start tableId schema s)
    (hclean : s.system.Clean schema) : Keeps tableId schema s := by
  refine ⟨⟨_, h.opened.sound hs.toKeysBound htable hclean, h.loaded.symm⟩, ?_⟩
  rw [h.loaded]
  intro r hr
  obtain ⟨⟨row, e⟩, hmem, rfl⟩ := List.mem_map.mp hr
  obtain ⟨-, hreg, hrow⟩ := mem_loadedRows.mp hmem
  exact .inr ⟨hreg, hrow⟩

section Flush

variable {io : FlushIO}

/-- **Flushed rows stay when all segment writes succeed.** -/
theorem Keeps.storedAt_flushed (hs : schema.Bound) (h : Keeps tableId schema s)
    (hio : io.Visits s.system.table) (hnext : s.system.table.sealPending.nextSegmentId < 2 ^ 32)
    (hwrites : WritesSegments (.flush io)) :
    ∀ r ∈ s.accepted, (s.flushed io).StoredAt schema r.2 r.1 := by
  obtain ⟨⟨stored, hcons, -⟩, hheld⟩ := h
  intro r hr
  right
  show r.2.segmentId ∈ (s.system.table.flush s.system.disk io).1.metadata.segmentIds ∧ _
  rw [TableStorage.flush_metadata]
  rcases hheld r hr with hmem | ⟨hreg, hrow⟩
  · obtain ⟨b, hb, -⟩ := hcons.shape.mem_order_of_holdsAt hio hmem
    have hwritten := TableStorage.mem_written.mpr ⟨b, hb, hwrites _ hb⟩
    exact ⟨List.mem_append_right _ hwritten, hcons.shape.hasRow_flush_of_holdsAt hcons.schema_eq hs
      hio s.system.disk (hcons.shape.fits32_of_mem_written hio hnext hwritten) hwritten hmem⟩
  · have hnot := hcons.shape.notMem_order_of_precedes hio (hcons.ids _ hreg)
    exact ⟨List.mem_append_left _ hreg,
      (TableStorage.hasRow_flush_of_notMem s.system.disk hnot r.1).mpr hrow⟩

/-- A segment whose write failed takes its rows along. -/
theorem Keeps.writesSegments (h : Keeps tableId schema s) (hio : io.Visits s.system.table)
    (hheld : ∀ r ∈ s.accepted, (s.flushed io).StoredAt schema r.2 r.1) :
    WritesSegments (.flush io) := by
  obtain ⟨⟨stored, hcons, hstored⟩, -⟩ := h
  rintro ⟨id, b⟩ hb
  have hpos : 0 < b.rowCount := hcons.shape.sealPending.nonempty _ (hio.mem_iff.mp hb)
  have hmem : s.system.table.HoldsAt ⟨id, 0⟩ (b.rowAt 0) :=
    hcons.shape.holdsAt_of_sealPending
      ⟨b, TableStorage.mem_segmentsInMemory_of_mem_order hio hb, hpos, rfl⟩
  obtain ⟨e, he, hplace⟩ := hcons.registers _ _ (.inl hmem)
  have haccepted : (b.rowAt 0, RowLocation.mk id 0) ∈ s.accepted := by
    rw [← hstored, ← hplace]
    exact List.mem_map.mpr ⟨_, he, rfl⟩
  rcases hheld _ haccepted with hmem' | ⟨hreg, -⟩
  · exact absurd hmem' (TableStorage.not_holdsAt_flush _ _ _ _ _)
  · have hreg' : id ∈ (s.system.table.flush s.system.disk io).1.metadata.segmentIds := hreg
    rw [TableStorage.flush_metadata] at hreg'
    rcases List.mem_append.mp hreg' with hold | hwritten
    · have hnot := hcons.shape.notMem_order_of_precedes hio (hcons.ids _ hold)
      exact absurd (List.mem_map.mpr ⟨(id, b), hb, rfl⟩) hnot
    · obtain ⟨_, -, hok⟩ := TableStorage.mem_written.mp hwritten
      exact hok

/-- **A flush keeps the accepted rows exactly when its segment writes succeed**, and its report is true
exactly when `table.meta` is whole, as soon as there are accepted rows. -/
theorem Keeps.flushKeeps_step_iff (hs : schema.Bound) (htable : Fits32 tableId)
    (h : Keeps tableId schema s) (hio : io.Visits s.system.table)
    (hnext : s.system.table.sealPending.nextSegmentId < 2 ^ 32) :
    FlushKeeps schema s io ↔ WritesSegments (.flush io) ∧
      (io.tableMeta.ok = true → s.accepted = [] ∨
        ¬ io.tableMeta.Tears (s.system.table.flushedMeta io).serialize) := by
  obtain ⟨⟨stored, hcons, hstored⟩, -⟩ := id h
  have hfits : (s.system.table.flushedMeta io).Fits :=
    hcons.toConsistent.fits_flushedMeta htable hio hnext
  have hdisk := TableStorage.flush_tableMeta s.system.table s.system.disk io
  constructor
  · intro hkeeps
    refine ⟨h.writesSegments hio hkeeps.held, fun hok => ?_⟩
    by_contra hnot
    obtain ⟨hne, htears⟩ := not_or.mp hnot
    obtain ⟨r, hr⟩ := List.exists_mem_of_ne_nil _ hne
    obtain ⟨metadata, hread, -⟩ := hkeeps.saved (by rw [TableStorage.flush_saved, hok]) r hr
    have hnone : (s.flushed io).disk.readMeta = none :=
      Disk.readMeta_of_tears hfits (not_not.mp htears) hdisk
    simp [hnone] at hread
  · rintro ⟨hwrites, hsaved⟩
    have hheld := h.storedAt_flushed hs hio hnext hwrites
    refine ⟨hheld, fun hok r hr => ?_⟩
    rw [TableStorage.flush_saved] at hok
    rcases hsaved hok with hnil | htears
    · rw [hnil] at hr
      exact absurd hr List.not_mem_nil
    · have hread : (s.flushed io).disk.readMeta = some (s.system.table.flushedMeta io) :=
        Disk.readMeta_of_eq hfits (hdisk.trans (WriteOutcome.apply_of_ok hok htears _))
      rcases hheld r hr with hmem | ⟨hreg, hrow⟩
      · exact absurd hmem (TableStorage.not_holdsAt_flush _ _ _ _ _)
      · have hreg' : r.2.segmentId ∈
            (s.system.table.flush s.system.disk io).1.metadata.segmentIds := hreg
        rw [TableStorage.flush_metadata] at hreg'
        exact ⟨_, hread, hreg', hrow⟩

end Flush

/-- Every step of such runs keeps the accepted rows. -/
theorem Keeps.step (hs : schema.Bound) (htable : Fits32 tableId) (h : Keeps tableId schema s)
    {e : Event} (hst : Step schema s e s') (hfaithful : s.system.Faithful e)
    (hwrites : WritesSegments e) : Keeps tableId schema s' := by
  obtain ⟨⟨stored, hcons, hstored⟩, hheld⟩ := id h
  cases hst with
  | @accepted input t hf hok =>
    have hcons' := hcons.append hs.toKeysBound hf hfaithful.1 hok
    obtain ⟨index, rfl⟩ := hcons.append_eq_ok hs.toKeysBound hf hok
    have hloop := hcons.shape.appendLoop (hcons.schema_eq.symm ▸ hf) []
    rw [TableStorage.readsRows_iff.mp hfaithful.1] at hloop
    refine ⟨⟨_, hcons', ?_⟩, fun r hr => ?_⟩
    · rw [List.map_append, hstored, map_placed_storedRows]
    · rcases List.mem_append.mp hr with hr | hr
      · rcases hheld r hr with hmem | ⟨hreg, hrow⟩
        · exact .inl (hloop.stays _ _ hmem)
        · refine .inr ⟨?_, hrow⟩
          show r.2.segmentId ∈ (s.system.table.appendLoop input []).1.metadata.segmentIds
          rwa [hloop.same.metadata]
      · exact .inl (hloop.holdsAt_of_mem hr)
  | @rejected input t e hf herr =>
    obtain rfl := hcons.append_error hs.toKeysBound hf herr
    exact h
  | @flush io hio =>
    refine ⟨⟨_, hcons.flush hs htable hio hfaithful, ?_⟩, h.storedAt_flushed hs hio hfaithful hwrites⟩
    rw [System.Consistent.flushedRows]
    split_ifs
    · rw [map_placed_revealRows, hstored]
    · exact hstored

/-- Such runs keep the accepted rows. -/
theorem keeps_of_reachedWriting (hs : schema.Bound) (htable : Fits32 tableId)
    (hrun : ReachedWriting tableId schema s) : Keeps tableId schema s := by
  refine Reachable.invariant (P := Keeps tableId schema) ?_ ?_ hrun
  · rintro s ⟨hstart, hclean⟩
    exact hstart.keeps hs htable hclean
  · rintro s s' h ⟨e, hst, hfaithful, hwrites⟩
    exact h.step hs htable hst hfaithful hwrites

/-- **In every run whose appends read the rows of their chunks and whose segment writes succeed, all
accepted rows are held**; and a flush from there on keeps them, with a true report, exactly when its own
segment writes succeed and `table.meta`, if reported as written, is whole. -/
theorem flushKeeps_iff (hs : schema.Bound) (htable : Fits32 tableId)
    (hrun : ReachedWriting tableId schema s) :
    (∀ r ∈ s.accepted, s.system.StoredAt schema r.2 r.1) ∧
      ∀ io : FlushIO, io.Visits s.system.table →
        s.system.table.sealPending.nextSegmentId < 2 ^ 32 →
        (FlushKeeps schema s io ↔ WritesSegments (.flush io) ∧
          (io.tableMeta.ok = true → s.accepted = [] ∨
            ¬ io.tableMeta.Tears (s.system.table.flushedMeta io).serialize)) := by
  have hkeeps := keeps_of_reachedWriting hs htable hrun
  exact ⟨hkeeps.2, fun io hio hnext => hkeeps.flushKeeps_step_iff hs htable hio hnext⟩

end Tracked

/-! ## A flush whose segment write fails -/

/-- The first segment's file cannot be opened; `table.meta` is written. -/
def failedFlush : FlushIO := ⟨[(0, keyedBuilder)], fun _ => .notOpened, .complete⟩

/-- The table that has accepted one row. -/
def Tracked.oneRow : Tracked :=
  ⟨⟨((TableStorage.fresh 0 keyedSchema).append oneRowChunk).1, Disk.fresh 0⟩,
    [([[7, 0, 0, 0]], ⟨0, 0⟩)]⟩

theorem Tracked.oneRow_next : failedFlush.Visits oneRow.system.table ∧
    oneRow.system.table.sealPending.nextSegmentId < 2 ^ 32 := by
  obtain ⟨index, heq⟩ := append_oneRowChunk
  unfold FlushIO.Visits oneRow
  simp only [heq]
  exact ⟨List.Perm.refl _, show 2 < 2 ^ 32 by decide⟩

theorem Tracked.step_oneRow : Step keyedSchema
    ⟨⟨TableStorage.fresh 0 keyedSchema, Disk.fresh 0⟩, []⟩ (.append oneRowChunk) oneRow := by
  have hok : (TableStorage.fresh 0 keyedSchema).append oneRowChunk =
      (((TableStorage.fresh 0 keyedSchema).append oneRowChunk).1, .ok ()) := by
    unfold TableStorage.append
    rw [TableStorage.appendLoop]
    rfl
  have hlocations : ((TableStorage.fresh 0 keyedSchema).appendLoop oneRowChunk []).2 = [⟨0, 0⟩] := by
    rw [TableStorage.appendLoop]
    rfl
  have h := Step.accepted (s := ⟨⟨TableStorage.fresh 0 keyedSchema, Disk.fresh 0⟩, []⟩)
    oneRowChunk_fits_keyed hok
  rw [hlocations] at h
  exact h

theorem Tracked.reachedWriting_oneRow : ReachedWriting 0 keyedSchema oneRow :=
  .next (.start ⟨start_fresh 0 keyedSchema, System.clean_fresh 0 keyedSchema⟩)
    ⟨_, step_oneRow, System.faithful_oneRowChunk, trivial⟩

/-- The row is held before a flush that saves, and the flush keeps it. -/
theorem Tracked.held_oneRow : oneRow.system.StoredAt keyedSchema ⟨0, 0⟩ [[7, 0, 0, 0]] ∧
    FlushKeeps keyedSchema oneRow savedFlush := by
  obtain ⟨hheld, hflush⟩ := flushKeeps_iff keyedSchema_bound (Nat.two_pow_pos 32) reachedWriting_oneRow
  refine ⟨hheld _ (List.mem_singleton_self _),
    (hflush savedFlush oneRow_next.1 oneRow_next.2).mpr ⟨fun w _ => rfl, fun _ => .inr id⟩⟩

/-- The same row a second time is rejected, and changes nothing. -/
theorem Tracked.primaryKeys_unique_repeatedKey :
    (oneRow.acceptedKeys keyedSchema keyedPrimary).Nodup ∧
      (oneRow.system.table.append oneRowChunk).2 ≠ .ok () ∧
      (oneRow.system.table.append oneRowChunk).1 = oneRow.system.table := by
  obtain ⟨hnodup, hreject⟩ := primaryKeys_unique (s := oneRow) rfl keyedSchema_keysBound
    (.next (.start ⟨start_fresh 0 keyedSchema, List.nodup_nil⟩) ⟨_, step_oneRow⟩)
  obtain ⟨hiff, hsame⟩ := hreject oneRowChunk oneRowChunk_fits_keyed
  have hrejected := hiff.mpr (.inr (by decide +kernel))
  exact ⟨hnodup, hrejected, hsame hrejected⟩

/-- **A flush whose segment write fails loses the row, and reports success.** -/
theorem Tracked.not_flushKeeps_failed :
    Reachable (Start 0 keyedSchema) (fun s s' => ∃ e, Step keyedSchema s e s') oneRow ∧
      failedFlush.Visits oneRow.system.table ∧
      (oneRow.system.table.flush oneRow.system.disk failedFlush).2.2 = true ∧
      ¬ FlushKeeps keyedSchema oneRow failedFlush := by
  obtain ⟨hvisits, hnext⟩ := oneRow_next
  refine ⟨.next (.start (start_fresh 0 keyedSchema)) ⟨_, step_oneRow⟩, hvisits, ?_, fun hkeeps => ?_⟩
  · rw [TableStorage.flush_saved]
    rfl
  · have h := keeps_of_reachedWriting keyedSchema_bound (Nat.two_pow_pos 32) reachedWriting_oneRow
    have hwrites := h.writesSegments hvisits hkeeps.held
    exact absurd (hwrites (0, keyedBuilder) (List.mem_singleton_self _)) (by decide)

end SimpleOlap
