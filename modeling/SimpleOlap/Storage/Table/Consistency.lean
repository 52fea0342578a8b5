import SimpleOlap.Storage.Table.FlushFiles

/-!
# Consistency of a table with its files and indexes

* `System.StoredAt`: a row is in memory or in a registered segment.
* `System.Consistent`: the invariant of a table whose indexes hold the entries of a list of rows. Every
  place where a row is stored has an entry, and an entry is visible when its segment is registered and
  not pending.
* `System.Registers`: the entry at a place where a row is stored is that row's; `System.Persisted`:
  `table.meta`, where it can be read, lists no segment that the table does not.
* `Consistent.append`, `Consistent.flush`, `Consistent.reopen` and the lemmas beside them: the events
  keep these, a flush with whatever outcome.
* `System.Sound`: the three together, and `Sound.append`, `Sound.flush`, `Sound.reopen`.
* `Consistent.mem_lookup_iff`: a stored row is found exactly when its segment is registered and not
  pending.
-/

namespace SimpleOlap

open Lib TableIndexManager

/-! ## Rows and their entries -/

theorem mem_revealRows {ids : List SegmentId} {rows : List StoredRow} {row : Row} {e : IndexEntry} :
    (row, e) ∈ revealRows ids rows ↔ ∃ e₀, (row, e₀) ∈ rows ∧
      e.place = e₀.place ∧ e.visible = (e₀.visible || decide (e₀.place.segmentId ∈ ids)) := by
  simp only [revealRows, List.mem_map, Prod.exists, Prod.mk.injEq]
  constructor
  · rintro ⟨row', e₀, hmem, rfl, rfl⟩
    refine ⟨e₀, hmem, ?_, ?_⟩ <;> by_cases h : e₀.place.segmentId ∈ ids <;> simp [Entry.reveal, h]
  · rintro ⟨e₀, hmem, hplace, hvisible⟩
    refine ⟨row, e₀, hmem, rfl, ?_⟩
    obtain ⟨place, visible⟩ := e
    obtain rfl : place = e₀.place := hplace
    obtain rfl : visible = _ := hvisible
    by_cases h : e₀.place.segmentId ∈ ids <;> simp [Entry.reveal, h]

namespace TableIndexManager

/-- Revealing does not change the keys. -/
theorem KeysDistinct.revealRows {schema : TableSchema} {rows : List StoredRow}
    (h : KeysDistinct schema rows) (ids : List SegmentId) :
    KeysDistinct schema (SimpleOlap.revealRows ids rows) := by
  intro key hkey
  have hmap : (SimpleOlap.revealRows ids rows).map (fun r => rowKey schema key r.1) =
      rows.map fun r => rowKey schema key r.1 := by
    rw [SimpleOlap.revealRows, List.map_map]
    rfl
  rw [hmap]
  exact h key hkey

/-- Rows at distinct places that are all among the stored ones have distinct keys. -/
theorem KeysDistinct.of_places {schema : TableSchema} {stored rows : List StoredRow}
    (h : KeysDistinct schema stored) (hplaces : (rows.map fun r => r.2.place).Nodup)
    (hsub : ∀ r ∈ rows, ∃ e, (r.1, e) ∈ stored ∧ e.place = r.2.place) : KeysDistinct schema rows := by
  intro key hkey
  rw [List.Nodup, List.pairwise_map] at hplaces ⊢
  refine hplaces.imp_of_mem fun {r r'} hr hr' hne heq => hne ?_
  obtain ⟨e, he, hplace⟩ := hsub r hr
  obtain ⟨e', he', hplace'⟩ := hsub r' hr'
  have hsame : (r.1, e) = (r'.1, e') := List.inj_on_of_nodup_map (h key hkey) he he' heq
  rw [← hplace, ← hplace', (Prod.mk.inj hsame).2]

end TableIndexManager

/-! ## The invariant -/

namespace System

/-- A row is stored at a place, in memory or in a registered segment. -/
def StoredAt (schema : TableSchema) (s : System) (l : RowLocation) (row : Row) : Prop :=
  s.table.HoldsAt l row ∨
    l.segmentId ∈ s.table.metadata.segmentIds ∧ s.disk.HasRow schema l row

/-- The table, whose indexes hold `stored`, is consistent with its files. -/
structure Consistent (tableId : TableId) (schema : TableSchema) (s : System)
    (stored : List StoredRow) : Prop where
  shape : s.table.Shape
  schema_eq : s.table.schema = schema
  tableId_eq : s.table.metadata.tableId = tableId
  ids : ∀ id ∈ s.table.metadata.segmentIds, s.table.Precedes id
  nodup : s.table.metadata.segmentIds.Nodup
  index : s.table.indexManager.Represents schema stored
  keys : KeysDistinct schema stored
  places : ∀ l row, s.StoredAt schema l row → ∃ row' e, (row', e) ∈ stored ∧ e.place = l
  visible : ∀ row e, (row, e) ∈ stored → (e.visible = true ↔
    e.place.segmentId ∈ s.table.metadata.segmentIds ∧
      e.place.segmentId ∉ s.table.pendingVisibleSegments)
  pending : ∀ id ∈ s.table.pendingVisibleSegments, id ∈ s.table.metadata.segmentIds

/-- Every stored row has its entry. -/
def Registers (schema : TableSchema) (s : System) (stored : List StoredRow) : Prop :=
  ∀ l row, s.StoredAt schema l row → ∃ e, (row, e) ∈ stored ∧ e.place = l

/-- What `table.meta` says, if it can be read, is a front part of what the table lists. -/
def Persisted (s : System) : Prop :=
  ∀ metadata, s.disk.readMeta = some metadata →
    metadata.segmentIds <+: s.table.metadata.segmentIds

variable {tableId : TableId} {schema : TableSchema} {s : System} {stored : List StoredRow}

/-- The rows of a table that came into memory are those loaded. -/
theorem registers_of_construct {metadata : TableStorageMeta} {disk : Disk} {t : TableStorage}
    (hcons : TableStorage.construct schema metadata disk = .ok t) :
    Registers schema ⟨t, disk⟩ (loadedRows schema disk metadata.segmentIds) := by
  obtain ⟨index, -, rfl⟩ := TableStorage.construct_eq_ok hcons
  rintro l row (⟨b, hb, hlt, -⟩ | ⟨hmem, hrow⟩)
  · obtain ⟨-, rfl⟩ := Prod.mk.inj (List.mem_singleton.mp hb)
    exact absurd hlt (Nat.not_lt_zero _)
  · exact ⟨⟨l, true⟩, mem_loadedRows.mpr ⟨rfl, hmem, hrow⟩, rfl⟩

/-- A row that is stored after an accepted append was stored before or is one that the loop read. -/
theorem storedAt_append (h : s.table.Shape) {input : DataChunk} (hf : input.Fits s.table.schema)
    {index : TableIndexManager} {l : RowLocation} {row : Row}
    (hl : StoredAt schema
      ⟨{ (s.table.appendLoop input []).1 with indexManager := index }, s.disk⟩ l row) :
    s.StoredAt schema l row ∨ (row, l) ∈
      (TableStorage.sourceRows s.table.remaining input).zip (s.table.appendLoop input []).2 := by
  have hloop := h.appendLoop hf []
  rcases hl with hmem | ⟨hreg, hrow⟩
  · have hmem' : (s.table.appendLoop input []).1.HoldsAt l row := hmem
    exact (hloop.holdsAt_or_mem hmem').imp Or.inl id
  · have hreg' : l.segmentId ∈ (s.table.appendLoop input []).1.metadata.segmentIds := hreg
    rw [hloop.same.metadata] at hreg'
    exact .inl (.inr ⟨hreg', hrow⟩)

namespace Consistent

/-- **A stored row is found exactly when its segment is registered and not pending.** -/
theorem mem_lookup_iff (h : s.Consistent tableId schema stored) (hreg : s.Registers schema stored)
    {keyId : KeyId} {key : KeySchema}
    (hkey : findKeySchema schema keyId = some key) {l : RowLocation} {row : Row}
    (hl : s.StoredAt schema l row) : l ∈ s.table.lookup keyId (rowKey schema key row) ↔
      l.segmentId ∈ s.table.metadata.segmentIds ∧
        l.segmentId ∉ s.table.pendingVisibleSegments := by
  rw [TableStorage.lookup, h.index.mem_lookup_iff h.keys hkey]
  constructor
  · rintro ⟨row', hmem, -⟩
    exact (h.visible row' ⟨l, true⟩ hmem).mp rfl
  · intro hvisible
    obtain ⟨⟨place, visible⟩, hmem, rfl⟩ := hreg l row hl
    obtain rfl : visible = true := (h.visible row _ hmem).mpr hvisible
    exact ⟨row, hmem, rfl⟩

/-! ## Coming into memory -/

/-- A table that comes into memory is consistent, with the loaded rows. -/
theorem of_construct (hs : schema.KeysBound) {metadata : TableStorageMeta} {disk : Disk}
    {t : TableStorage} (hcons : TableStorage.construct schema metadata disk = .ok t)
    (hid : metadata.tableId = tableId) (hnodup : metadata.segmentIds.Nodup)
    (hkeys : KeysDistinct schema (loadedRows schema disk metadata.segmentIds)) :
    Consistent tableId schema ⟨t, disk⟩ (loadedRows schema disk metadata.segmentIds) := by
  have hrep := TableStorage.represents_construct hs hcons
  obtain ⟨hshape, hschema⟩ := TableStorage.shape_of_construct hcons
  obtain ⟨index, -, rfl⟩ := TableStorage.construct_eq_ok hcons
  refine ⟨hshape, hschema, hid, ?_, hnodup, hrep, hkeys, ?_, ?_, List.forall_mem_nil _⟩
  · intro id hmem s hs
    rw [List.mem_singleton.mp hs]
    exact TableStorage.lt_nextFreeId hmem
  · intro l row hl
    obtain ⟨e, he, hplace⟩ := registers_of_construct hcons l row hl
    exact ⟨row, e, he, hplace⟩
  · intro row e hmem
    obtain ⟨hvisible, hmem, -⟩ := mem_loadedRows.mp hmem
    exact ⟨fun _ => ⟨hmem, List.not_mem_nil⟩, fun _ => hvisible⟩

/-- Opening the table again keeps what `table.meta` lists. -/
theorem reopen (hs : schema.KeysBound) (h : s.Consistent tableId schema stored)
    (hreg : s.Registers schema stored) (hpersisted : s.Persisted) {t : TableStorage}
    (hopen : TableStorage.openTable tableId schema s.disk = .ok (some t)) :
    Consistent tableId schema ⟨t, s.disk⟩ (loadedRows schema s.disk t.metadata.segmentIds) := by
  obtain ⟨metadata, hread, hid, hcons⟩ := TableStorage.openTable_iff.mp hopen
  have hfront := hpersisted metadata hread
  have hnodup : metadata.segmentIds.Nodup := h.nodup.sublist hfront.sublist
  rw [TableStorage.metadata_of_construct hcons]
  refine of_construct hs hcons hid hnodup ?_
  refine h.keys.of_places (nodup_places_loadedRows schema s.disk hnodup) fun r hr => ?_
  obtain ⟨-, hmem, hrow⟩ := mem_loadedRows.mp hr
  exact hreg _ _ (.inr ⟨hfront.subset hmem, hrow⟩)

/-! ## Appends -/

/-- A rejected append has no effect. -/
theorem append_error (hs : schema.KeysBound) (h : s.Consistent tableId schema stored)
    {input : DataChunk} (hf : input.Fits schema) {t : TableStorage} {e : String}
    (heq : s.table.append input = (t, .error e)) : t = s.table := by
  cases h.shape.append_cases h.schema_eq hs.inSchema h.index hf with
  | rejected hold hrej => exact (Prod.mk.inj (heq.symm.trans hrej)).1
  | accepted hnew hrep hacc => simp [hacc] at heq

/-- **An accepted append keeps the table consistent**, with entries for the rows of its chunk. -/
theorem append (hs : schema.KeysBound) (h : s.Consistent tableId schema stored) {input : DataChunk}
    (hf : input.Fits schema) {t : TableStorage} (hok : s.table.append input = (t, .ok ())) :
    Consistent tableId schema ⟨t, s.disk⟩
      (stored ++ storedRows input.rows (s.table.appendLoop input []).2 false) := by
  have hf' : input.Fits s.table.schema := h.schema_eq.symm ▸ hf
  cases h.shape.append_cases h.schema_eq hs.inSchema h.index hf with
  | rejected hold heq => simp [heq] at hok
  | @accepted hnew index hrep heq =>
    obtain rfl : _ = t := (Prod.mk.inj (heq.symm.trans hok)).1
    have hloop := h.shape.appendLoop hf' []
    have hlen := (h.shape.length_locations hf').trans input.length_rows.symm
    have hmetadata := hloop.same.metadata
    have hpending := hloop.same.pending
    constructor
    case shape => exact hloop.shape.withIndex index
    case schema_eq => exact hloop.same.schema.trans h.schema_eq
    case tableId_eq => exact (congrArg TableStorageMeta.tableId hmetadata).trans h.tableId_eq
    case index => exact hrep
    case ids =>
      show ∀ id ∈ (s.table.appendLoop input []).1.metadata.segmentIds, _
      rw [hmetadata]
      exact fun id hid => hloop.precedes id (h.ids id hid)
    case nodup =>
      show (s.table.appendLoop input []).1.metadata.segmentIds.Nodup
      rw [hmetadata]
      exact h.nodup
    case pending =>
      show ∀ id ∈ (s.table.appendLoop input []).1.pendingVisibleSegments,
        id ∈ (s.table.appendLoop input []).1.metadata.segmentIds
      rw [hmetadata, hpending]
      exact h.pending
    case keys =>
      intro key hkey
      obtain ⟨hnodup, hfresh⟩ := hnew key hkey
      rw [List.map_append, map_rowKey_storedRows hlen]
      refine (h.keys key hkey).append hnodup fun k hk hk' => ?_
      obtain ⟨row, hrow, rfl⟩ := List.mem_map.mp hk'
      exact hfresh row hrow hk
    case places =>
      intro l row hl
      rcases storedAt_append h.shape hf' hl with hold | hnew
      · obtain ⟨row', e, he, hplace⟩ := h.places l row hold
        exact ⟨row', e, List.mem_append_left _ he, hplace⟩
      · -- every location has a row of the chunk
        obtain ⟨i, hi, rfl⟩ := List.getElem_of_mem (List.of_mem_zip hnew).2
        have hi' : i < input.rows.length := hlen ▸ hi
        refine ⟨input.rows[i], ⟨(s.table.appendLoop input []).2[i], false⟩,
          List.mem_append_right _ (mem_storedRows.mpr ⟨rfl, ?_⟩), rfl⟩
        have hzip : i < (input.rows.zip (s.table.appendLoop input []).2).length := by
          rw [List.length_zip]
          exact lt_min hi' hi
        have hmem := List.getElem_mem hzip
        rwa [List.getElem_zip] at hmem
    case visible =>
      intro row e he
      show e.visible = true ↔ e.place.segmentId ∈
        (s.table.appendLoop input []).1.metadata.segmentIds ∧
          e.place.segmentId ∉ (s.table.appendLoop input []).1.pendingVisibleSegments
      rw [hmetadata, hpending]
      rcases List.mem_append.mp he with he | he
      · exact h.visible row e he
      · -- the segments of new rows are in memory, so they are not registered
        obtain ⟨hvisible, hzip⟩ := mem_storedRows.mp he
        obtain ⟨_, b, hb, -⟩ := hloop.holdsAt_of_mem_locations (List.of_mem_zip hzip).2
        have hnot : e.place.segmentId ∉ s.table.metadata.segmentIds := fun hreg =>
          lt_irrefl _ (hloop.precedes _ (h.ids _ hreg) _ hb)
        simp [hvisible, hnot]

/-- An accepted append leaves what its loop leaves, with new indexes. -/
theorem append_eq_ok (hs : schema.KeysBound) (h : s.Consistent tableId schema stored)
    {input : DataChunk} (hf : input.Fits schema) {t : TableStorage}
    (hok : s.table.append input = (t, .ok ())) :
    ∃ index, t = { (s.table.appendLoop input []).1 with indexManager := index } := by
  cases h.shape.append_cases h.schema_eq hs.inSchema h.index hf with
  | rejected hold heq => simp [heq] at hok
  | @accepted hnew index hrep heq => exact ⟨index, (Prod.mk.inj (hok.symm.trans heq)).1⟩

/-- An append that reads the rows of its chunk registers every row that it stores. -/
theorem registers_append (hs : schema.KeysBound) (h : s.Consistent tableId schema stored)
    (hreg : s.Registers schema stored) {input : DataChunk} (hf : input.Fits schema)
    (hreads : s.table.ReadsRows input) {t : TableStorage} (hok : s.table.append input = (t, .ok ())) :
    Registers schema ⟨t, s.disk⟩
      (stored ++ storedRows input.rows (s.table.appendLoop input []).2 false) := by
  obtain ⟨index, rfl⟩ := h.append_eq_ok hs hf hok
  intro l row hl
  rcases storedAt_append h.shape (h.schema_eq.symm ▸ hf) hl with hold | hnew
  · obtain ⟨e, he, hplace⟩ := hreg l row hold
    exact ⟨e, List.mem_append_left _ he, hplace⟩
  · rw [TableStorage.readsRows_iff.mp hreads] at hnew
    exact ⟨⟨l, false⟩, List.mem_append_right _ (mem_storedRows.mpr ⟨rfl, hnew⟩), rfl⟩

/-! ## Flushes -/

/-- The stored rows after a flush. -/
def flushedRows (t : TableStorage) (io : FlushIO) (stored : List StoredRow) : List StoredRow :=
  if io.tableMeta.ok then
    revealRows (t.pendingVisibleSegments ++ TableStorage.written io) stored
  else stored

/-- A flush keeps every entry, at its place. -/
theorem mem_flushedRows {t : TableStorage} {io : FlushIO} {row : Row} {e : IndexEntry}
    (he : (row, e) ∈ flushedRows t io stored) : ∃ e₀, (row, e₀) ∈ stored ∧ e.place = e₀.place ∧
      e.visible = (e₀.visible || (io.tableMeta.ok &&
        decide (e₀.place.segmentId ∈ t.pendingVisibleSegments ++ TableStorage.written io))) := by
  unfold flushedRows at he
  by_cases hok : io.tableMeta.ok = true
  · rw [if_pos hok] at he
    obtain ⟨e₀, hmem, hplace, hvisible⟩ := mem_revealRows.mp he
    exact ⟨e₀, hmem, hplace, by rw [hok, Bool.true_and, hvisible]⟩
  · rw [if_neg hok] at he
    exact ⟨e, he, rfl, by simp [hok]⟩

theorem exists_mem_flushedRows (t : TableStorage) (io : FlushIO) {row : Row} {e : IndexEntry}
    (he : (row, e) ∈ stored) : ∃ e', (row, e') ∈ flushedRows t io stored ∧ e'.place = e.place := by
  unfold flushedRows
  by_cases hok : io.tableMeta.ok = true
  · rw [if_pos hok]
    exact ⟨⟨e.place, e.visible || decide (e.place.segmentId ∈
      t.pendingVisibleSegments ++ TableStorage.written io)⟩,
      mem_revealRows.mpr ⟨e, he, rfl, rfl⟩, rfl⟩
  · rw [if_neg hok]
    exact ⟨e, he, rfl⟩

section Flush

variable {io : FlushIO}

/-- A row that is stored after a flush was stored before. -/
theorem storedAt_of_flush (hs : schema.Bound) (h : s.Consistent tableId schema stored)
    (hio : io.Visits s.table) {l : RowLocation} {row : Row} (hl : StoredAt schema
      ⟨(s.table.flush s.disk io).1, (s.table.flush s.disk io).2.1⟩ l row) :
    s.StoredAt schema l row := by
  rcases hl with hl | ⟨hreg, hrow⟩
  · exact absurd hl (TableStorage.not_holdsAt_flush _ _ _ _ _)
  · rw [TableStorage.flush_metadata] at hreg
    rcases List.mem_append.mp hreg with hreg | hreg
    · right
      have hnot := h.shape.notMem_order_of_precedes hio (h.ids _ hreg)
      exact ⟨hreg, (TableStorage.hasRow_flush_of_notMem s.disk hnot row).mp hrow⟩
    · left
      exact h.shape.holdsAt_of_hasRow_flush h.schema_eq hs hio s.disk hreg hrow

/-- **A flush keeps the table consistent, with whatever outcome.** -/
theorem flush (hs : schema.Bound) (h : s.Consistent tableId schema stored)
    (hio : io.Visits s.table) :
    Consistent tableId schema ⟨(s.table.flush s.disk io).1, (s.table.flush s.disk io).2.1⟩
      (flushedRows s.table io stored) := by
  constructor
  case shape => exact h.shape.flush s.disk io
  case schema_eq => exact (TableStorage.flush_schema _ _ _).trans h.schema_eq
  case tableId_eq =>
    show (s.table.flush s.disk io).1.metadata.tableId = tableId
    rw [TableStorage.flush_metadata]
    exact h.tableId_eq
  case ids =>
    show ∀ id ∈ (s.table.flush s.disk io).1.metadata.segmentIds, _
    rw [TableStorage.flush_metadata]
    intro id hid b hb
    rw [TableStorage.flush_segmentsInMemory] at hb
    rw [List.mem_singleton.mp hb]
    exact h.shape.lt_active_of_mem_flushedMeta hio h.ids hid
  case nodup =>
    show (s.table.flush s.disk io).1.metadata.segmentIds.Nodup
    rw [TableStorage.flush_metadata]
    exact h.shape.nodup_flushedMeta hio h.nodup h.ids
  case index =>
    show TableIndexManager.Represents schema _ (s.table.flush s.disk io).1.indexManager
    rw [TableStorage.flush_index, flushedRows]
    by_cases hok : io.tableMeta.ok = true
    · rw [if_pos hok, if_pos hok]
      exact h.index.markSegmentsVisible _
    · rw [if_neg hok, if_neg hok]
      exact h.index
  case keys =>
    rw [flushedRows]
    split_ifs
    · exact h.keys.revealRows _
    · exact h.keys
  case places =>
    intro l row hl
    obtain ⟨row', e, he, rfl⟩ := h.places l row (h.storedAt_of_flush hs hio hl)
    exact ⟨row', exists_mem_flushedRows s.table io he⟩
  case visible =>
    intro row e he
    show e.visible = true ↔ e.place.segmentId ∈ (s.table.flush s.disk io).1.metadata.segmentIds ∧
      e.place.segmentId ∉ (s.table.flush s.disk io).1.pendingVisibleSegments
    rw [TableStorage.flush_metadata, TableStorage.flush_pending, TableStorage.flushedMeta]
    obtain ⟨e₀, he₀, hplace, hvisible⟩ := mem_flushedRows he
    have hold := h.visible row e₀ he₀
    have hpending := h.pending e₀.place.segmentId
    have hwritten : e₀.place.segmentId ∈ s.table.metadata.segmentIds →
        e₀.place.segmentId ∉ TableStorage.written io := fun hreg hnew =>
      h.shape.notMem_order_of_precedes hio (h.ids _ hreg) (TableStorage.mem_order_of_mem_written hnew)
    rw [hplace, hvisible]
    by_cases hok : io.tableMeta.ok = true
    · simp only [hok, if_true, Bool.true_and, Bool.or_eq_true, decide_eq_true_eq, hold,
        List.mem_append, List.not_mem_nil, not_false_eq_true, and_true]
      tauto
    · simp only [hok, Bool.false_and, Bool.or_false, hold, Bool.false_eq_true, if_false,
        List.mem_append]
      tauto
  case pending =>
    show ∀ id ∈ (s.table.flush s.disk io).1.pendingVisibleSegments,
      id ∈ (s.table.flush s.disk io).1.metadata.segmentIds
    rw [TableStorage.flush_metadata, TableStorage.flush_pending]
    split_ifs
    · exact List.forall_mem_nil _
    · intro id hid
      rcases List.mem_append.mp hid with hid | hid
      · exact List.mem_append_left _ (h.pending id hid)
      · exact List.mem_append_right _ hid

/-- A flush brings in no row. -/
theorem registers_flush (hs : schema.Bound) (h : s.Consistent tableId schema stored)
    (hreg : s.Registers schema stored) (hio : io.Visits s.table) :
    Registers schema ⟨(s.table.flush s.disk io).1, (s.table.flush s.disk io).2.1⟩
      (flushedRows s.table io stored) := by
  intro l row hl
  obtain ⟨e, he, rfl⟩ := hreg l row (h.storedAt_of_flush hs hio hl)
  exact exists_mem_flushedRows s.table io he

/-- The metadata that a flush saves fit their fields when the next segment id does. -/
theorem fits_flushedMeta (htable : Fits32 tableId) (h : s.Consistent tableId schema stored)
    (hio : io.Visits s.table) (hnext : s.table.sealPending.nextSegmentId < 2 ^ 32) :
    (s.table.flushedMeta io).Fits :=
  h.shape.fits_flushedMeta hio h.ids h.nodup (h.tableId_eq ▸ htable) hnext

end Flush

end Consistent

/-- What `table.meta` says after a flush is a front part of what the table lists. -/
theorem Persisted.flush (h : s.Persisted) {io : FlushIO} (hfits : (s.table.flushedMeta io).Fits) :
    Persisted ⟨(s.table.flush s.disk io).1, (s.table.flush s.disk io).2.1⟩ := by
  intro metadata hread
  show metadata.segmentIds <+: (s.table.flush s.disk io).1.metadata.segmentIds
  rw [TableStorage.flush_metadata]
  have hdisk := TableStorage.flush_tableMeta s.table s.disk io
  have hread' : (s.table.flush s.disk io).2.1.readMeta = some metadata := hread
  by_cases ht : io.tableMeta.Tears (s.table.flushedMeta io).serialize
  · rw [Disk.readMeta_of_tears hfits ht hdisk] at hread'
    cases hread'
  · rcases Disk.readMeta_of_not_tears hfits ht hdisk with hold | hnew
    · rw [hold] at hread'
      exact (h metadata hread').trans (List.prefix_append _ _)
    · obtain rfl := Option.some.inj (hread'.symm.trans hnew)
      exact List.prefix_rfl

/-- After opening, the table lists what `table.meta` says. -/
theorem persisted_of_open {disk : Disk} {t : TableStorage}
    (hopen : TableStorage.openTable tableId schema disk = .ok (some t)) : Persisted ⟨t, disk⟩ := by
  obtain ⟨metadata, hread, -, hcons⟩ := TableStorage.openTable_iff.mp hopen
  intro m hm
  show m.segmentIds <+: t.metadata.segmentIds
  obtain rfl := Option.some.inj (hread.symm.trans hm)
  have hmetadata := TableStorage.metadata_of_construct hcons
  exact hmetadata ▸ List.prefix_rfl

/-! ## Every event -/

/-- The table is consistent, its stored rows have their entries, and `table.meta` lists no more than the
table. -/
structure Sound (tableId : TableId) (schema : TableSchema) (s : System)
    (stored : List StoredRow) : Prop extends Consistent tableId schema s stored where
  registers : s.Registers schema stored
  persisted : s.Persisted

/-- The event does not run into the reading of wrong rows by an append, nor out of segment ids. -/
def Faithful (s : System) : Event → Prop
  | .append input => s.table.ReadsRows input ∧ (s.table.append input).1.nextSegmentId < 2 ^ 32
  | .flush _ | .close _ => s.table.sealPending.nextSegmentId < 2 ^ 32
  | .crash => True

/-- The table lists every segment once, and the primary keys of the rows on disk are distinct. -/
structure Clean (schema : TableSchema) (s : System) : Prop where
  nodup : s.table.metadata.segmentIds.Nodup
  keys : KeysDistinct schema (loadedRows schema s.disk s.table.metadata.segmentIds)

/-- After creating or opening, the table lists what `table.meta` says. -/
theorem Opened.persisted (htable : Fits32 tableId) (h : Opened tableId schema s) : s.Persisted := by
  cases h with
  | opened hopen => exact persisted_of_open hopen
  | @created disk disk' o t hcreate =>
    obtain ⟨hok, rfl, hcons⟩ := TableStorage.createTable_eq_ok hcreate
    have hfits : TableStorageMeta.Fits ⟨tableId, []⟩ :=
      ⟨htable, Nat.two_pow_pos 32, List.forall_mem_nil _⟩
    intro m hm
    by_cases ht : o.Tears (TableStorageMeta.serialize ⟨tableId, []⟩)
    · rw [Disk.readMeta_of_tears hfits ht rfl] at hm
      cases hm
    · rw [Disk.readMeta_of_eq hfits (WriteOutcome.apply_of_ok hok ht disk.tableMeta)] at hm
      rw [← Option.some.inj hm]
      exact List.nil_prefix

/-- A table that was just created or opened is sound. -/
theorem Opened.sound (hs : schema.KeysBound) (htable : Fits32 tableId) (h : Opened tableId schema s)
    (hclean : s.Clean schema) :
    Sound tableId schema s (loadedRows schema s.disk s.table.metadata.segmentIds) := by
  obtain ⟨metadata, hcons, hid⟩ := h.construct
  obtain rfl : s.table.metadata = metadata := TableStorage.metadata_of_construct hcons
  exact ⟨.of_construct hs hcons hid hclean.nodup hclean.keys, registers_of_construct hcons,
    h.persisted htable⟩

namespace Sound

/-- An append that reads the rows of its chunk. -/
theorem append (hs : schema.KeysBound) (h : s.Sound tableId schema stored) {input : DataChunk}
    (hf : input.Fits schema) (hreads : s.table.ReadsRows input) {t : TableStorage}
    (hok : s.table.append input = (t, .ok ())) : Sound tableId schema ⟨t, s.disk⟩
      (stored ++ storedRows input.rows (s.table.appendLoop input []).2 false) := by
  have hcons := h.toConsistent
  refine ⟨hcons.append hs hf hok, hcons.registers_append hs h.registers hf hreads hok, ?_⟩
  obtain ⟨index, rfl⟩ := hcons.append_eq_ok hs hf hok
  intro metadata hread
  show metadata.segmentIds <+: (s.table.appendLoop input []).1.metadata.segmentIds
  rw [(h.shape.appendLoop (h.schema_eq.symm ▸ hf) []).same.metadata]
  exact h.persisted metadata hread

/-- A flush while the segment ids fit. -/
theorem flush (hs : schema.Bound) (htable : Fits32 tableId) (h : s.Sound tableId schema stored)
    {io : FlushIO} (hio : io.Visits s.table) (hnext : s.table.sealPending.nextSegmentId < 2 ^ 32) :
    Sound tableId schema ⟨(s.table.flush s.disk io).1, (s.table.flush s.disk io).2.1⟩
      (Consistent.flushedRows s.table io stored) :=
  ⟨h.toConsistent.flush hs hio, h.toConsistent.registers_flush hs h.registers hio,
    h.persisted.flush (h.toConsistent.fits_flushedMeta htable hio hnext)⟩

/-- Opening the table again. -/
theorem reopen (hs : schema.KeysBound) (h : s.Sound tableId schema stored) {t : TableStorage}
    (hopen : TableStorage.openTable tableId schema s.disk = .ok (some t)) :
    Sound tableId schema ⟨t, s.disk⟩ (loadedRows schema s.disk t.metadata.segmentIds) := by
  have hcons := h.toConsistent.reopen hs h.registers h.persisted hopen
  refine ⟨hcons, ?_, persisted_of_open hopen⟩
  obtain ⟨metadata, -, -, hcons⟩ := TableStorage.openTable_iff.mp hopen
  rw [TableStorage.metadata_of_construct hcons]
  exact registers_of_construct hcons

end Sound

end System

/-! ## A new table and its first row -/

theorem keyedSchema_bound : keyedSchema.Bound where
  toKeysBound := keyedSchema_keysBound
  columnIds := List.nodup_singleton 0
  fits := by
    refine ⟨Nat.one_lt_two_pow (by omega), ?_, ?_, Nat.two_pow_pos 32, List.forall_mem_nil _⟩
    · intro c hc
      obtain rfl := List.mem_singleton.mp hc
      exact ⟨Nat.two_pow_pos 32, Nat.one_lt_two_pow (by omega)⟩
    · rintro k ⟨⟩
      refine ⟨Nat.two_pow_pos 32, Nat.one_lt_two_pow (by omega), Nat.one_lt_two_pow (by omega), ?_⟩
      intro c hc
      rw [List.mem_singleton.mp hc]
      exact Nat.two_pow_pos 32

/-- A new table is clean. -/
theorem System.clean_fresh (tableId : TableId) (schema : TableSchema) :
    Clean schema ⟨TableStorage.fresh tableId schema, Disk.fresh tableId⟩ :=
  ⟨List.nodup_nil, fun _ _ => List.nodup_nil⟩

/-- The segment that holds one row. -/
def keyedBuilder : SegmentBuilder := (SegmentBuilder.new keyedSchema).append oneRowChunk

/-- The first segment and `table.meta` are written. -/
def savedFlush : FlushIO := ⟨[(0, keyedBuilder)], fun _ => .complete, .complete⟩

theorem oneRowChunk_fits_keyed : oneRowChunk.Fits keyedSchema where
  columns := rfl
  sizes := rfl
  inside := by decide
  small := by decide

/-- The first row goes to the active segment. -/
theorem append_oneRowChunk : ∃ index, ((TableStorage.fresh 0 keyedSchema).append oneRowChunk).1 =
    { TableStorage.fresh 0 keyedSchema with
      activeSegment := keyedBuilder
      indexManager := index } := by
  obtain ⟨index, heq⟩ := @TableStorage.append_segmentsInMemory (TableStorage.fresh 0 keyedSchema)
    oneRowChunk rfl
  refine ⟨index, heq.trans ?_⟩
  rw [TableStorage.appendLoop]
  rfl

/-- The first row is read as it is, and takes no new segment id. -/
theorem System.faithful_oneRowChunk :
    System.Faithful ⟨TableStorage.fresh 0 keyedSchema, Disk.fresh 0⟩ (.append oneRowChunk) :=
  ⟨TableStorage.readsRows_of_front rfl (by decide),
    lt_of_le_of_lt (TableStorage.nextSegmentId_append_le _ _) (show 1 + (2 * 1 + 1) < 2 ^ 32 by decide)⟩

end SimpleOlap
