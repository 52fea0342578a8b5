import SimpleOlap.Storage.Table.Consistency

/-!
# Index lookups and scans see the same rows

A scan reads the registered segments, an index lookup the entries that are visible. Both are updated by
a flush, at different moments of it.

* `System.SameVisibility`: a stored row is found by its key exactly when its segment is registered.
* `Revealed.sameVisibility_flush_iff`: a flush keeps it exactly when it saves the metadata or wrote no
  segment. A segment that was written while the metadata could not be saved is registered, and its
  entries stay hidden until a later flush saves.
* `System.sameVisibility_of_reachable`: in runs whose flushes are all of that kind it holds throughout.
-/

namespace SimpleOlap

open Lib TableIndexManager

namespace System

/-- A stored row is found by its key exactly when its segment is among those a scan reads. -/
def SameVisibility (schema : TableSchema) (keyId : KeyId) (key : KeySchema) (s : System) : Prop :=
  ∀ l row, s.StoredAt schema l row →
    (l ∈ s.table.lookup keyId (rowKey schema key row) ↔
      l.segmentId ∈ s.table.metadata.segmentIds)

/-- A flush saves the metadata, or has written no segment. -/
def RevealsWritten : Event → Prop
  | .flush io => io.tableMeta.ok = true ∨ TableStorage.written io = []
  | _ => True

variable {tableId : TableId} {schema : TableSchema} {s s' : System} {stored : List StoredRow}

/-- Such a flush leaves nothing pending. -/
theorem flush_pending_eq_nil {io : FlushIO} (hpending : s.table.pendingVisibleSegments = [])
    (h : RevealsWritten (.flush io)) : (s.table.flush s.disk io).1.pendingVisibleSegments = [] := by
  rw [TableStorage.flush_pending, hpending]
  rcases h with hok | hwritten
  · rw [if_pos hok]
  · simp [hwritten]

/-! ## One event -/

/-- A table comes into memory with nothing pending. -/
theorem Opened.pending_eq (h : Opened tableId schema s) : s.table.pendingVisibleSegments = [] := by
  cases h with
  | created hcreate =>
    obtain ⟨-, -, hcons⟩ := TableStorage.createTable_eq_ok hcreate
    obtain ⟨index, -, rfl⟩ := TableStorage.construct_eq_ok hcons
    rfl
  | opened hopen =>
    obtain ⟨_, _, _, -, -, -, hcons⟩ := TableStorage.openTable_eq_ok hopen
    obtain ⟨index, -, rfl⟩ := TableStorage.construct_eq_ok hcons
    rfl

/-- The table is sound and nothing is pending. -/
structure Revealed (tableId : TableId) (schema : TableSchema) (s : System)
    (stored : List StoredRow) : Prop extends Sound tableId schema s stored where
  nothingPending : s.table.pendingVisibleSegments = []

namespace Revealed

/-- **Without pending segments a lookup sees what a scan sees.** -/
theorem sameVisibility (h : s.Revealed tableId schema stored) {keyId : KeyId} {key : KeySchema}
    (hkey : findKeySchema schema keyId = some key) : SameVisibility schema keyId key s := by
  intro l row hl
  rw [h.toConsistent.mem_lookup_iff h.registers hkey hl, h.nothingPending]
  exact and_iff_left List.not_mem_nil

/-- A written segment has a row, which a scan sees after the flush. -/
theorem exists_storedAt_flush (hs : schema.Bound) (h : s.Revealed tableId schema stored)
    {io : FlushIO} (hio : io.Visits s.table) (hnext : s.table.sealPending.nextSegmentId < 2 ^ 32)
    {id : SegmentId} (hid : id ∈ TableStorage.written io) :
    ∃ l row, l.segmentId = id ∧
      StoredAt schema ⟨(s.table.flush s.disk io).1, (s.table.flush s.disk io).2.1⟩ l row := by
  obtain ⟨b, hb, -⟩ := TableStorage.mem_written.mp hid
  have hpos : 0 < b.rowCount := h.shape.sealPending.nonempty _ (hio.mem_iff.mp hb)
  have hheld : s.table.HoldsAt ⟨id, 0⟩ (b.rowAt 0) :=
    h.shape.holdsAt_of_sealPending
      ⟨b, TableStorage.mem_segmentsInMemory_of_mem_order hio hb, hpos, rfl⟩
  refine ⟨⟨id, 0⟩, b.rowAt 0, rfl, .inr ⟨?_, ?_⟩⟩
  · rw [TableStorage.flush_metadata]
    exact List.mem_append_right _ hid
  · exact h.shape.hasRow_flush_of_holdsAt h.schema_eq hs hio s.disk
      (h.shape.fits32_of_mem_written hio hnext hid) hid hheld

/-- **A flush keeps lookups and scans in line exactly when it saves the metadata or wrote nothing.** -/
theorem sameVisibility_flush_iff (hs : schema.Bound) (htable : Fits32 tableId)
    (h : s.Revealed tableId schema stored) {keyId : KeyId} {key : KeySchema}
    (hkey : findKeySchema schema keyId = some key) {io : FlushIO} (hio : io.Visits s.table)
    (hnext : s.table.sealPending.nextSegmentId < 2 ^ 32) :
    SameVisibility schema keyId key
        ⟨(s.table.flush s.disk io).1, (s.table.flush s.disk io).2.1⟩ ↔
      io.tableMeta.ok = true ∨ TableStorage.written io = [] := by
  have hflush := h.toSound.flush hs htable hio hnext
  have hpending' := TableStorage.flush_pending s.table s.disk io
  constructor
  · intro hsame
    by_contra hnot
    obtain ⟨hok, hwritten⟩ := not_or.mp hnot
    obtain ⟨id, hid⟩ := List.exists_mem_of_ne_nil _ hwritten
    obtain ⟨l, row, rfl, hl⟩ := h.exists_storedAt_flush hs hio hnext hid
    have hreg : l.segmentId ∈ (s.table.flush s.disk io).1.metadata.segmentIds := by
      rw [TableStorage.flush_metadata]
      exact List.mem_append_right _ hid
    obtain ⟨-, hvisible⟩ := (hflush.mem_lookup_iff hflush.registers hkey hl).mp ((hsame l row hl).mpr hreg)
    have hmem : l.segmentId ∈ (s.table.flush s.disk io).1.pendingVisibleSegments := by
      rw [hpending', if_neg hok]
      exact List.mem_append_right _ hid
    exact hvisible hmem
  · intro hgood
    have hrevealed : Revealed tableId schema _ _ :=
      ⟨hflush, flush_pending_eq_nil h.nothingPending hgood⟩
    exact hrevealed.sameVisibility hkey

/-- Every event that is faithful and reveals what it wrote leaves nothing pending. -/
theorem step (hs : schema.Bound) (htable : Fits32 tableId) (h : s.Revealed tableId schema stored)
    {e : Event} (hst : Step tableId schema s e s') (hfaithful : s.Faithful e)
    (hreveals : RevealsWritten e) : ∃ stored', s'.Revealed tableId schema stored' := by
  cases hst with
  | @append input hf =>
    rcases hres : s.table.append input with ⟨t, e | ⟨⟩⟩
    · obtain rfl := h.append_error hs.toKeysBound hf hres
      exact ⟨stored, h⟩
    · refine ⟨_, h.toSound.append hs.toKeysBound hf hfaithful.1 hres, ?_⟩
      obtain ⟨index, rfl⟩ := h.append_eq_ok hs.toKeysBound hf hres
      exact (h.shape.appendLoop (h.schema_eq.symm ▸ hf) []).same.pending.trans h.nothingPending
  | @flush io hio =>
    exact ⟨_, h.toSound.flush hs htable hio hfaithful,
      flush_pending_eq_nil h.nothingPending hreveals⟩
  | crash hopen =>
    exact ⟨_, h.toSound.reopen hs.toKeysBound hopen, Opened.pending_eq (.opened hopen)⟩
  | @close io t hio hopen =>
    rw [TableStorage.destroy_eq] at hopen ⊢
    split_ifs at hopen ⊢
    · exact ⟨_, h.toSound.reopen hs.toKeysBound hopen, Opened.pending_eq (.opened hopen)⟩
    · exact ⟨_, (h.toSound.flush hs htable hio hfaithful).reopen hs.toKeysBound hopen,
        Opened.pending_eq (.opened hopen)⟩

end Revealed

/-! ## Runs -/

/-- The systems that a table gets into by events that are faithful and reveal what they wrote. -/
def ReachedRevealing (tableId : TableId) (schema : TableSchema) : System → Prop :=
  Reachable (fun s => Opened tableId schema s ∧ s.Clean schema)
    fun s s' => ∃ e, Step tableId schema s e s' ∧ s.Faithful e ∧ RevealsWritten e

/-- In such runs nothing is ever pending. -/
theorem revealed_of_reachedRevealing (hs : schema.Bound) (htable : Fits32 tableId)
    (hrun : ReachedRevealing tableId schema s) : ∃ stored, s.Revealed tableId schema stored := by
  refine Reachable.invariant (P := fun s => ∃ stored, s.Revealed tableId schema stored) ?_ ?_ hrun
  · rintro s ⟨hopened, hclean⟩
    exact ⟨_, hopened.sound hs.toKeysBound htable hclean, hopened.pending_eq⟩
  · rintro s s' ⟨stored, h⟩ ⟨e, hst, hfaithful, hreveals⟩
    exact h.step hs htable hst hfaithful hreveals

/-- **Lookups and scans see the same rows** in every run whose appends read the rows of their chunks and
whose flushes save the metadata or write no segment; and a flush from there on keeps it so exactly when
it is of that kind. -/
theorem sameVisibility_of_reachable (hs : schema.Bound) (htable : Fits32 tableId) {keyId : KeyId}
    {key : KeySchema} (hkey : findKeySchema schema keyId = some key)
    (hrun : ReachedRevealing tableId schema s) :
    SameVisibility schema keyId key s ∧
      ∀ io : FlushIO, io.Visits s.table → s.table.sealPending.nextSegmentId < 2 ^ 32 →
        (SameVisibility schema keyId key
            ⟨(s.table.flush s.disk io).1, (s.table.flush s.disk io).2.1⟩ ↔
          io.tableMeta.ok = true ∨ TableStorage.written io = []) := by
  obtain ⟨stored, h⟩ := revealed_of_reachedRevealing hs htable hrun
  exact ⟨h.sameVisibility hkey, fun io hio hnext =>
    h.sameVisibility_flush_iff hs htable hkey hio hnext⟩

end System

/-! ## A flush that cannot save -/

/-- The first segment is written, `table.meta` cannot be opened. -/
def unsavedFlush : FlushIO := ⟨[(0, keyedBuilder)], fun _ => .complete, .notOpened⟩

/-- The table with one row in memory. -/
def System.oneRow : System :=
  ⟨((TableStorage.fresh 0 keyedSchema).append oneRowChunk).1, Disk.fresh 0⟩

theorem System.oneRow_next :
    unsavedFlush.Visits oneRow.table ∧ oneRow.table.sealPending.nextSegmentId < 2 ^ 32 := by
  obtain ⟨index, heq⟩ := append_oneRowChunk
  unfold FlushIO.Visits oneRow
  rw [heq]
  exact ⟨List.Perm.refl _, show 2 < 2 ^ 32 by decide⟩

theorem System.step_oneRow :
    Step 0 keyedSchema ⟨TableStorage.fresh 0 keyedSchema, Disk.fresh 0⟩ (.append oneRowChunk)
      oneRow := .append oneRowChunk_fits_keyed

theorem System.reachedRevealing_oneRow : ReachedRevealing 0 keyedSchema oneRow :=
  .next (.start ⟨opened_fresh 0 keyedSchema, clean_fresh 0 keyedSchema⟩)
    ⟨_, step_oneRow, faithful_oneRowChunk, trivial⟩

/-- Before a flush that saves, and behind it. -/
theorem System.sameVisibility_oneRow : SameVisibility keyedSchema 0 keyedPrimary oneRow ∧
    SameVisibility keyedSchema 0 keyedPrimary
      ⟨(oneRow.table.flush oneRow.disk savedFlush).1,
        (oneRow.table.flush oneRow.disk savedFlush).2.1⟩ := by
  have hkey : findKeySchema keyedSchema 0 = some keyedPrimary := rfl
  obtain ⟨hsame, hflush⟩ := sameVisibility_of_reachable keyedSchema_bound (Nat.two_pow_pos 32) hkey
    reachedRevealing_oneRow
  exact ⟨hsame, (hflush savedFlush oneRow_next.1 oneRow_next.2).mpr (.inl rfl)⟩

/-- **A scan sees a row that a lookup does not**: its segment was written, `table.meta` was not. -/
theorem System.not_sameVisibility_unsaved :
    Reached 0 keyedSchema ⟨(oneRow.table.flush oneRow.disk unsavedFlush).1,
      (oneRow.table.flush oneRow.disk unsavedFlush).2.1⟩ ∧
    ¬ SameVisibility keyedSchema 0 keyedPrimary
      ⟨(oneRow.table.flush oneRow.disk unsavedFlush).1,
        (oneRow.table.flush oneRow.disk unsavedFlush).2.1⟩ := by
  obtain ⟨hvisits, hnext⟩ := oneRow_next
  refine ⟨?_, fun hsame => ?_⟩
  · exact .next (.next (.start (opened_fresh 0 keyedSchema)) ⟨_, step_oneRow⟩) ⟨_, .flush hvisits⟩
  · obtain ⟨stored, h⟩ := revealed_of_reachedRevealing keyedSchema_bound (Nat.two_pow_pos 32)
      reachedRevealing_oneRow
    have hgood := (h.sameVisibility_flush_iff keyedSchema_bound (Nat.two_pow_pos 32) rfl hvisits
      hnext).mp hsame
    exact absurd hgood (by decide)

end SimpleOlap
