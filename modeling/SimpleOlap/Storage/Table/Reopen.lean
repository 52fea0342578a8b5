import SimpleOlap.Storage.Table.FlushKeeps

/-!
# Reopening rebuilds the live indexes

A table that is opened after a flush registers the rows of its segment files anew. The live indexes were
filled by the appends, with the rows of the chunks.

* `System.Readable`: the listed segment files open; appends and flushes keep this, so that
  `TableStorage.construct_of_readable` applies.
* `Tracked.Indexed`: the indexes hold the accepted rows, over whole runs.
* `Tracked.rebuilt_iff_live`: after a saved flush the rebuilt indexes answer every lookup as the live ones
  do, as long as the listed segments hold the rows that were registered for them.
-/

namespace SimpleOlap

open Lib TableIndexManager

/-! ## Listed segments open -/

namespace System

/-- The listed segment files whose ids fit open, unless there are no keys to read. -/
def Readable (schema : TableSchema) (s : System) : Prop :=
  (TableIndexManager.new schema).keyColumns = [] ∨
    ∀ id ∈ s.table.metadata.segmentIds, Fits32 id → ∃ reader, s.disk.getSegmentReader id = some reader

end System

namespace TableStorage

variable {schema : TableSchema} {metadata : TableStorageMeta} {disk : Disk} {t : TableStorage}

/-- The loop over the segments has opened them all when it succeeds. -/
theorem exists_reader_of_foldlM {keyColumns : List ColumnId} :
    ∀ (ids : List SegmentId) {m m' : TableIndexManager},
      (ids.foldlM (fun index id =>
        match disk.getSegmentReader id with
        | none => .error ("TableStorage::RebuildIndexes - failed to open segment " ++ toString id)
        | some reader => rebuildSegment keyColumns id reader index 0) m :
          Except String TableIndexManager) = .ok m' →
      ∀ id ∈ ids, ∃ reader, disk.getSegmentReader id = some reader
  | [], _, _, _, _, hid => absurd hid List.not_mem_nil
  | i :: ids, m, m', hok, id, hid => by
    rw [List.foldlM_cons] at hok
    rcases hreader : disk.getSegmentReader i with _ | reader
    · simp only [hreader] at hok
      cases hok
    · simp only [hreader] at hok
      rcases hseg : rebuildSegment keyColumns i reader m 0 with e | m₁
      · rw [hseg] at hok
        cases hok
      · rw [hseg] at hok
        rcases List.mem_cons.mp hid with rfl | hid
        · exact ⟨reader, hreader⟩
        · exact exists_reader_of_foldlM ids hok id hid

/-- The loop succeeds when the segments open. -/
theorem exists_foldlM_eq (hkeys : schema.KeysInSchema) {keyColumns : List ColumnId}
    (hne : keyColumns ≠ []) (hcols : ∀ c, c ∈ keyColumns ↔ ∃ key ∈ schema.keys, c ∈ key.columns) :
    ∀ (ids : List SegmentId) {stored : List StoredRow} {m : TableIndexManager},
      m.Represents schema stored →
      (∀ id ∈ ids, ∃ reader, disk.getSegmentReader id = some reader) →
      ∃ m', (ids.foldlM (fun index id =>
        match disk.getSegmentReader id with
        | none => .error ("TableStorage::RebuildIndexes - failed to open segment " ++ toString id)
        | some reader => rebuildSegment keyColumns id reader index 0) m :
          Except String TableIndexManager) = .ok m'
  | [], _, m, _, _ => ⟨m, rfl⟩
  | id :: ids, stored, m, h, hall => by
    obtain ⟨reader, hreader⟩ := hall id List.mem_cons_self
    obtain ⟨m₁, hseg, hrep⟩ := represents_rebuildSegment id reader hkeys hne hcols h 0
    obtain ⟨m', hrest⟩ := exists_foldlM_eq hkeys hne hcols ids hrep
      fun id' hid' => hall id' (List.mem_cons_of_mem id hid')
    refine ⟨m', ?_⟩
    rw [List.foldlM_cons]
    simp only [hreader, hseg]
    exact hrest

/-- A table that is constructed has opened its segments. -/
theorem readable_of_construct (h : construct schema metadata disk = .ok t) :
    System.Readable schema ⟨t, disk⟩ := by
  rw [System.Readable]
  show _ ∨ ∀ id ∈ t.metadata.segmentIds, _
  rw [metadata_of_construct h, or_iff_not_imp_left]
  intro hne id hid _
  obtain ⟨index, hindex, -⟩ := construct_eq_ok h
  have hids : metadata.segmentIds ≠ [] := List.ne_nil_of_mem hid
  unfold rebuildIndexes at hindex
  rw [if_neg (not_or.mpr ⟨hids, hne⟩)] at hindex
  exact exists_reader_of_foldlM metadata.segmentIds hindex id hid

/-- A table can be constructed when its segments open. -/
theorem construct_of_readable (hkeys : schema.KeysInSchema)
    (h : (TableIndexManager.new schema).keyColumns = [] ∨
      ∀ id ∈ metadata.segmentIds, ∃ reader, disk.getSegmentReader id = some reader) :
    ∃ t, construct schema metadata disk = .ok t := by
  have hrebuild : ∃ index,
      rebuildIndexes disk metadata.segmentIds (TableIndexManager.new schema) = .ok index := by
    unfold rebuildIndexes
    split_ifs with hnil
    · exact ⟨_, rfl⟩
    · obtain ⟨-, hne⟩ := not_or.mp hnil
      exact exists_foldlM_eq hkeys hne (fun c => TableIndexManager.mem_keyColumns)
        metadata.segmentIds (TableIndexManager.represents_new schema) (h.resolve_left hne)
  obtain ⟨index, hindex⟩ := hrebuild
  unfold construct
  rw [hindex]
  exact ⟨_, rfl⟩

end TableStorage

/-- A place holds one row. -/
theorem Disk.HasRow.unique {schema : TableSchema} {disk : Disk} {l : RowLocation} {row row' : Row}
    (h : disk.HasRow schema l row) (h' : disk.HasRow schema l row') : row = row' := by
  obtain ⟨reader, hreader, -, rfl⟩ := h
  obtain ⟨reader', hreader', -, rfl⟩ := h'
  rw [Option.some.inj (hreader.symm.trans hreader')]

namespace System

variable {tableId : TableId} {schema : TableSchema} {s : System} {stored : List StoredRow}

/-- A flush leaves the listed segments readable. -/
theorem Consistent.readable_flush (hs : schema.Bound) (h : s.Consistent tableId schema stored)
    (hreadable : s.Readable schema) {io : FlushIO} (hio : io.Visits s.table) :
    Readable schema ⟨(s.table.flush s.disk io).1, (s.table.flush s.disk io).2.1⟩ := by
  refine hreadable.imp_right fun hall id hid hfits => ?_
  have hid' : id ∈ (s.table.flush s.disk io).1.metadata.segmentIds := hid
  rw [TableStorage.flush_metadata] at hid'
  show ∃ reader, (s.table.flush s.disk io).2.1.getSegmentReader id = some reader
  rcases List.mem_append.mp hid' with hold | hnew
  · have hnot := h.shape.notMem_order_of_precedes hio (h.ids id hold)
    rw [Disk.getSegmentReader, TableStorage.flush_segments_of_notMem s.disk hnot]
    exact hall id hold hfits
  · obtain ⟨b, hb, hok⟩ := TableStorage.mem_written.mp hnew
    exact ⟨_, h.shape.getSegmentReader_flush h.schema_eq hs hio s.disk hfits hb hok⟩

/-- The listed segments hold the rows that were registered for them. -/
def HoldsRegistered (schema : TableSchema) (s : System) (accepted : List (Row × RowLocation)) : Prop :=
  ∀ r ∈ accepted, r.2.segmentId ∈ s.table.metadata.segmentIds → s.disk.HasRow schema r.2 r.1

/-- What is loaded again, when nothing is pending, are the visible rows. -/
theorem Consistent.mem_loadedRows_iff (h : s.Consistent tableId schema stored)
    (hpending : s.table.pendingVisibleSegments = [])
    (hholds : s.HoldsRegistered schema (stored.map placed)) {row : Row} {l : RowLocation} :
    (row, ⟨l, true⟩) ∈ loadedRows schema s.disk s.table.metadata.segmentIds ↔
      (row, ⟨l, true⟩) ∈ stored := by
  rw [mem_loadedRows]
  constructor
  · rintro ⟨-, hreg, hrow⟩
    obtain ⟨row', ⟨place, visible⟩, hmem, rfl⟩ := h.places l row (.inr ⟨hreg, hrow⟩)
    have hnot : place.segmentId ∉ s.table.pendingVisibleSegments := by
      rw [hpending]
      exact List.not_mem_nil
    obtain rfl : visible = true := (h.visible row' _ hmem).mpr ⟨hreg, hnot⟩
    have hrow' : s.disk.HasRow schema place row' :=
      hholds (row', place) (List.mem_map.mpr ⟨_, hmem, rfl⟩) hreg
    rwa [hrow.unique hrow']
  · intro hmem
    obtain ⟨hreg, -⟩ := (h.visible row _ hmem).mp rfl
    exact ⟨rfl, hreg, hholds (row, l) (List.mem_map.mpr ⟨_, hmem, rfl⟩) hreg⟩

/-- **A table constructed from the files answers every lookup as the one in memory.** -/
theorem Consistent.lookup_construct_iff (hs : schema.KeysBound)
    (h : s.Consistent tableId schema stored) (hpending : s.table.pendingVisibleSegments = [])
    (hholds : s.HoldsRegistered schema (stored.map placed)) {t : TableStorage}
    (hcons : TableStorage.construct schema s.table.metadata s.disk = .ok t) {keyId : KeyId}
    {key : KeySchema} (hkey : findKeySchema schema keyId = some key) (k : EncodedKey)
    (l : RowLocation) : l ∈ t.lookup keyId k ↔ l ∈ s.table.lookup keyId k := by
  have hdistinct : KeysDistinct schema
      (loadedRows schema s.disk s.table.metadata.segmentIds) := by
    refine h.keys.of_places (nodup_places_loadedRows schema s.disk h.nodup) ?_
    rintro ⟨row, ⟨place, visible⟩⟩ hr
    obtain rfl : visible = true := (mem_loadedRows.mp hr).1
    exact ⟨_, (h.mem_loadedRows_iff hpending hholds).mp hr, rfl⟩
  rw [TableStorage.lookup, TableStorage.lookup,
    (TableStorage.represents_construct hs hcons).mem_lookup_iff hdistinct hkey,
    h.index.mem_lookup_iff h.keys hkey]
  simp only [h.mem_loadedRows_iff hpending hholds]

end System

/-! ## Runs -/

namespace Tracked

/-- The indexes hold the accepted rows, and the listed segments open. -/
def Indexed (tableId : TableId) (schema : TableSchema) (s : Tracked) : Prop :=
  (∃ stored, s.system.Consistent tableId schema stored ∧ stored.map placed = s.accepted) ∧
    s.system.Readable schema

variable {tableId : TableId} {schema : TableSchema} {s s' : Tracked}

theorem Start.indexed (hs : schema.KeysBound) (htable : Fits32 tableId)
    (h : Start tableId schema s) (hclean : s.system.Clean schema) : Indexed tableId schema s := by
  obtain ⟨metadata, hcons, -⟩ := h.opened.construct
  exact ⟨⟨_, (h.opened.sound hs htable hclean).toConsistent, h.loaded.symm⟩,
    TableStorage.readable_of_construct hcons⟩

/-- A flush does not change what is registered. -/
theorem map_placed_flushedRows (t : TableStorage) (io : FlushIO) (stored : List StoredRow) :
    (System.Consistent.flushedRows t io stored).map placed = stored.map placed := by
  rw [System.Consistent.flushedRows]
  split_ifs
  · exact map_placed_revealRows _ _
  · rfl

/-- Every step keeps the indexes in line with the accepted rows. -/
theorem Indexed.step (hs : schema.Bound) (h : Indexed tableId schema s) {e : Event}
    (hst : Step schema s e s') : Indexed tableId schema s' := by
  obtain ⟨⟨stored, hcons, hstored⟩, hreadable⟩ := id h
  cases hst with
  | @accepted input t hf hok =>
    refine ⟨⟨_, hcons.append hs.toKeysBound hf hok, ?_⟩, ?_⟩
    · rw [List.map_append, hstored, map_placed_storedRows]
    · obtain ⟨index, rfl⟩ := hcons.append_eq_ok hs.toKeysBound hf hok
      have hsame := (hcons.shape.appendLoop (hcons.schema_eq.symm ▸ hf) []).same.metadata
      refine hreadable.imp_right fun hall id hid hfits => hall id ?_ hfits
      rw [← hsame]
      exact hid
  | @rejected input t e hf herr =>
    obtain rfl := hcons.append_error hs.toKeysBound hf herr
    exact h
  | @flush io hio =>
    exact ⟨⟨_, hcons.flush hs hio, (map_placed_flushedRows _ _ _).trans hstored⟩,
      hcons.readable_flush hs hreadable hio⟩

/-- The systems that a table gets into by appends and flushes, from a clean start. -/
def ReachedClean (tableId : TableId) (schema : TableSchema) : Tracked → Prop :=
  Reachable (fun s => Start tableId schema s ∧ s.system.Clean schema)
    fun s s' => ∃ e, Step schema s e s'

theorem indexed_of_reachedClean (hs : schema.Bound) (htable : Fits32 tableId)
    (hrun : ReachedClean tableId schema s) : Indexed tableId schema s := by
  refine Reachable.invariant (P := Indexed tableId schema) ?_ ?_ hrun
  · rintro s ⟨hstart, hclean⟩
    exact hstart.indexed hs.toKeysBound htable hclean
  · rintro s s' h ⟨e, hst⟩
    exact h.step hs hst

/-- **Reopening rebuilds the live indexes.** After a run of appends and flushes that ends in a saved
flush, if the listed segments hold the rows that were registered for them: the table opens again, unless
the write of `table.meta` was torn after the report, and then every lookup finds the same locations in the
rebuilt indexes as in the live ones. -/
theorem rebuilt_iff_live (hs : schema.Bound) (htable : Fits32 tableId)
    (hrun : ReachedClean tableId schema s) {io : FlushIO} (hio : io.Visits s.system.table)
    (hnext : s.system.table.sealPending.nextSegmentId < 2 ^ 32)
    (hsaved : (s.system.table.flush s.system.disk io).2.2 = true)
    (hholds : (s.flushed io).HoldsRegistered schema s.accepted) :
    (¬ io.tableMeta.Tears (s.system.table.flushedMeta io).serialize →
      ∃ t, TableStorage.openTable tableId schema (s.flushed io).disk = .ok (some t)) ∧
    ∀ t, TableStorage.openTable tableId schema (s.flushed io).disk = .ok (some t) →
      ∀ keyId key, findKeySchema schema keyId = some key → ∀ k l,
        (l ∈ t.lookup keyId k ↔ l ∈ (s.flushed io).table.lookup keyId k) := by
  obtain ⟨⟨stored, hcons, hstored⟩, hreadable⟩ := indexed_of_reachedClean hs htable hrun
  have hfits := hcons.fits_flushedMeta htable hio hnext
  have hafter : (s.flushed io).Consistent tableId schema _ := hcons.flush hs hio
  have hdisk := TableStorage.flush_tableMeta s.system.table s.system.disk io
  have hmetadata : (s.flushed io).table.metadata = s.system.table.flushedMeta io :=
    TableStorage.flush_metadata _ _ _
  rw [TableStorage.flush_saved] at hsaved
  have hread : ¬ io.tableMeta.Tears (s.system.table.flushedMeta io).serialize →
      (s.flushed io).disk.readMeta = some (s.flushed io).table.metadata := by
    intro htears
    rw [hmetadata]
    exact Disk.readMeta_of_eq hfits (hdisk.trans (WriteOutcome.apply_of_ok hsaved htears _))
  constructor
  · intro htears
    have hids : ∀ id ∈ (s.flushed io).table.metadata.segmentIds, Fits32 id := by
      rw [hmetadata]
      exact hfits.segmentIds
    have hopens := (hcons.readable_flush hs hreadable hio).imp_right
      fun hall id hid => hall id hid (hids id hid)
    obtain ⟨t, ht⟩ := TableStorage.construct_of_readable hs.inSchema hopens
    exact ⟨t, TableStorage.openTable_iff.mpr ⟨_, hread htears, hafter.tableId_eq, ht⟩⟩
  · intro t hopen keyId key hkey k l
    obtain ⟨metadata, hmeta, -, hconstruct⟩ := TableStorage.openTable_iff.mp hopen
    have htears : ¬ io.tableMeta.Tears (s.system.table.flushedMeta io).serialize := by
      intro htears
      have hnone : (s.flushed io).disk.readMeta = none := Disk.readMeta_of_tears hfits htears hdisk
      rw [hnone] at hmeta
      cases hmeta
    obtain rfl := Option.some.inj ((hread htears).symm.trans hmeta)
    have hpending : (s.flushed io).table.pendingVisibleSegments = [] := by
      show (s.system.table.flush s.system.disk io).1.pendingVisibleSegments = []
      rw [TableStorage.flush_pending, if_pos hsaved]
    refine hafter.lookup_construct_iff hs.toKeysBound hpending ?_ hconstruct hkey k l
    rw [map_placed_flushedRows, hstored]
    exact hholds

end Tracked

/-! ## One row, flushed and reopened -/

theorem Tracked.savedFlush_visits : savedFlush.Visits oneRow.system.table :=
  oneRow_next.1

/-- The row is on disk after the flush. -/
theorem Tracked.holdsRegistered_oneRow :
    (oneRow.flushed savedFlush).HoldsRegistered keyedSchema oneRow.accepted := by
  intro r hr _
  have hkeeps := keeps_of_reachedWriting keyedSchema_bound (Nat.two_pow_pos 32) reachedWriting_oneRow
  rcases hkeeps.storedAt_flushed keyedSchema_bound savedFlush_visits oneRow_next.2
    (fun _ _ => rfl) r hr with hmem | ⟨-, hrow⟩
  · exact absurd hmem (TableStorage.not_holdsAt_flush _ _ _ _ _)
  · exact hrow

theorem Tracked.rebuilt_iff_live_oneRow :
    ∃ t, TableStorage.openTable 0 keyedSchema (oneRow.flushed savedFlush).disk = .ok (some t) ∧
      ∀ k l, l ∈ t.lookup 0 k ↔ l ∈ (oneRow.flushed savedFlush).table.lookup 0 k := by
  have hrun : ReachedClean 0 keyedSchema oneRow :=
    .next (.start ⟨start_fresh 0 keyedSchema, System.clean_fresh 0 keyedSchema⟩) ⟨_, step_oneRow⟩
  have hsaved : (oneRow.system.table.flush oneRow.system.disk savedFlush).2.2 = true := by
    rw [TableStorage.flush_saved]
    rfl
  obtain ⟨hopens, hlookup⟩ := rebuilt_iff_live keyedSchema_bound (Nat.two_pow_pos 32) hrun
    savedFlush_visits oneRow_next.2 hsaved holdsRegistered_oneRow
  obtain ⟨t, ht⟩ := hopens not_false
  exact ⟨t, ht, hlookup t ht 0 keyedPrimary rfl⟩

end SimpleOlap
