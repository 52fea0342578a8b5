import SimpleOlap.Lib.Transition
import SimpleOlap.Storage.Table.Flush

/-!
# Runs of a table

A `System` is a table in memory with its files. It changes by appends and flushes, and by the end of
the process, orderly or not, with the table being opened again.

* `Opened`: the states in which a table comes into memory; `Step`: what happens to it.
* `shape_of_reachable`: in every reachable state the segments in memory have their shape.
* `appendPreserves_iff`: an append keeps all rows, in order, exactly when the rows that its loop reads
  are those of the chunk; `System.appendPreserves_iff_readsRows` says so for every reachable state.
-/

namespace SimpleOlap

open Lib

/-! ## Systems -/

/-- A table in memory and its files. -/
structure System where
  table : TableStorage
  disk : Disk

/-- What can happen. `close` is an orderly end of the process, during which the destructor flushes;
after `crash` the files are what they were. After both the table is opened again. -/
inductive Event
  | append (input : DataChunk)
  | flush (io : FlushIO)
  | crash
  | close (io : FlushIO)

/-- A flush goes through all sealed segments, in some order. -/
def FlushIO.Visits (io : FlushIO) (t : TableStorage) : Prop :=
  io.order.Perm t.sealPending.sealedSegments

namespace System

/-- The table is created or opened. -/
inductive Opened (tableId : TableId) (schema : TableSchema) : System → Prop
  | created {disk disk' : Disk} {o : WriteOutcome} {t : TableStorage}
      (h : TableStorage.createTable tableId schema disk o = (disk', .ok (some t))) :
      Opened tableId schema ⟨t, disk'⟩
  | opened {disk : Disk} {t : TableStorage}
      (h : TableStorage.openTable tableId schema disk = .ok (some t)) :
      Opened tableId schema ⟨t, disk⟩

/-- One event. Chunks are well-formed views of the schema's columns, and reopening succeeds. -/
inductive Step (tableId : TableId) (schema : TableSchema) : System → Event → System → Prop
  | append {s : System} {input : DataChunk} (hf : input.Fits schema) :
      Step tableId schema s (.append input) ⟨(s.table.append input).1, s.disk⟩
  | flush {s : System} {io : FlushIO} (hio : io.Visits s.table) :
      Step tableId schema s (.flush io) ⟨(s.table.flush s.disk io).1, (s.table.flush s.disk io).2.1⟩
  | crash {s : System} {t : TableStorage}
      (h : TableStorage.openTable tableId schema s.disk = .ok (some t)) :
      Step tableId schema s .crash ⟨t, s.disk⟩
  | close {s : System} {io : FlushIO} {t : TableStorage} (hio : io.Visits s.table)
      (h : TableStorage.openTable tableId schema (s.table.destroy s.disk io) = .ok (some t)) :
      Step tableId schema s (.close io) ⟨t, s.table.destroy s.disk io⟩

/-- The systems that a table can get into. -/
def Reached (tableId : TableId) (schema : TableSchema) : System → Prop :=
  Reachable (Opened tableId schema) fun s s' => ∃ e, Step tableId schema s e s'

/-- The segment ids are those of the 32-bit counter: the counter has not come to its end. -/
def IdsFit (s : System) : Prop := s.table.nextSegmentId < 2 ^ 32

/-- The event, as far as the end of the process, hands out ids that fit. -/
def HandsOutFitting (s : System) : Event → Prop
  | .close _ => s.table.sealPending.nextSegmentId < 2 ^ 32
  | _ => True

/-- The systems that a table can get into while its segment ids fit. -/
def ReachedFitting (tableId : TableId) (schema : TableSchema) : System → Prop :=
  Reachable (fun s => Opened tableId schema s ∧ s.IdsFit)
    fun s s' => ∃ e, Step tableId schema s e s' ∧ s.HandsOutFitting e ∧ s'.IdsFit

/-- Every such run is a run. -/
theorem ReachedFitting.reached {tableId : TableId} {schema : TableSchema} {s : System}
    (h : ReachedFitting tableId schema s) : Reached tableId schema s := by
  induction h with
  | start h => exact .start h.1
  | next _ hst ih => exact .next ih (hst.imp fun _ h => h.1)

end System

/-! ## Opening -/

namespace TableStorage

variable {tableId : TableId} {schema : TableSchema} {metadata : TableStorageMeta} {disk disk' : Disk}
  {t : TableStorage}

/-- The id behind the listed ones is new. -/
theorem lt_nextFreeId {segmentIds : List SegmentId} {id : SegmentId} (h : id ∈ segmentIds) :
    id < nextFreeId segmentIds := by
  have hmono : ∀ (ids : List SegmentId) (n : ℕ),
      n ≤ ids.foldl (fun next id => max next (id + 1)) n ∧
        ∀ i ∈ ids, i < ids.foldl (fun next id => max next (id + 1)) n := by
    intro ids
    induction ids with
    | nil => simp
    | cons i ids ih =>
      intro n
      obtain ⟨hle, hall⟩ := ih (max n (i + 1))
      rw [List.foldl_cons]
      refine ⟨le_trans (le_max_left _ _) hle, fun j hj => ?_⟩
      rcases List.mem_cons.mp hj with rfl | hj
      · exact lt_of_lt_of_le (Nat.lt_succ_self _) (le_trans (le_max_right _ _) hle)
      · exact hall j hj
  exact (hmono segmentIds 0).2 id h

/-- A table comes into memory with an empty active segment behind those on disk, and with its indexes
rebuilt. -/
theorem construct_eq_ok (h : construct schema metadata disk = .ok t) :
    ∃ indexManager, rebuildIndexes disk metadata.segmentIds (TableIndexManager.new schema) =
        .ok indexManager ∧
      t = ⟨schema, metadata, [], indexManager, [], nextFreeId metadata.segmentIds,
        nextFreeId metadata.segmentIds + 1, SegmentBuilder.new schema⟩ := by
  unfold construct at h
  rcases hindex : rebuildIndexes disk metadata.segmentIds (TableIndexManager.new schema) with e | index
  · rw [hindex] at h
    cases h
  · rw [hindex] at h
    cases h
    exact ⟨index, rfl, rfl⟩

/-- A table is constructed with the metadata it is given. -/
theorem metadata_of_construct (h : construct schema metadata disk = .ok t) : t.metadata = metadata := by
  obtain ⟨index, -, rfl⟩ := construct_eq_ok h
  rfl

/-- What is there was computed. -/
theorem map_some_eq_ok {α : Type} {x : Except String α} {a : α}
    (h : some <$> x = .ok (some a)) : x = .ok a := by
  cases x with
  | error e => cases h
  | ok b =>
    cases h
    rfl

/-- Opening reads `table.meta`. -/
theorem openTable_eq_ok (h : openTable tableId schema disk = .ok (some t)) :
    ∃ bytes metadata rest, disk.tableMeta = some bytes ∧
      TableStorageMeta.deserialize bytes = some (metadata, rest) ∧ metadata.tableId = tableId ∧
      construct schema metadata disk = .ok t := by
  unfold openTable at h
  rcases hbytes : disk.tableMeta with _ | bytes
  · simp [hbytes] at h
  · rcases hdec : TableStorageMeta.deserialize bytes with _ | ⟨metadata, rest⟩
    · simp [hbytes, hdec] at h
    · simp only [hbytes, hdec] at h
      by_cases hid : metadata.tableId ≠ tableId
      · rw [if_pos hid] at h
        cases h
      · rw [if_neg hid] at h
        exact ⟨bytes, metadata, rest, rfl, hdec, not_not.mp hid, map_some_eq_ok h⟩

/-- Creating writes an empty `table.meta`. -/
theorem createTable_eq_ok {o : WriteOutcome}
    (h : createTable tableId schema disk o = (disk', .ok (some t))) :
    o.ok = true ∧ disk' = (disk.saveMeta ⟨tableId, []⟩ o).1 ∧
      construct schema ⟨tableId, []⟩ disk' = .ok t := by
  unfold createTable Disk.saveMeta at h
  rcases hok : o.ok with _ | _
  · simp [hok] at h
  · simp only [hok] at h
    obtain ⟨rfl, ht⟩ := Prod.mk.inj h
    exact ⟨rfl, rfl, map_some_eq_ok ht⟩

/-- A table comes into memory in shape. -/
theorem shape_of_construct (h : construct schema metadata disk = .ok t) :
    t.Shape ∧ t.schema = schema := by
  obtain ⟨index, -, rfl⟩ := construct_eq_ok h
  refine ⟨⟨List.pairwise_singleton _ _, ?_, ?_, ?_, List.forall_mem_nil _⟩, rfl⟩ <;>
    (intro s hs; rw [List.mem_singleton.mp hs])
  · exact Nat.lt_succ_self _
  · exact SegmentBuilder.WF.new schema
  · exact Nat.zero_le _

/-- An append, accepted or not, runs the loop or does nothing, and then touches the indexes only. -/
theorem append_eq (t : TableStorage) (input : DataChunk) :
    (t.append input).1 = t ∨ ∃ index,
      (t.append input).1 = { (t.appendLoop input []).1 with indexManager := index } := by
  unfold append
  rcases t.indexManager.validatePrimaryKey input with e | b
  · exact Or.inl rfl
  · cases b with
    | false => exact Or.inl rfl
    | true =>
      right
      dsimp only
      rcases (t.appendLoop input []).1.indexManager.onAppend input (t.appendLoop input []).2 with
        ⟨index, e | e⟩ <;> exact ⟨index, rfl⟩

/-- The ids that an append hands out. -/
theorem nextSegmentId_append_le (t : TableStorage) (input : DataChunk) :
    (t.append input).1.nextSegmentId ≤ t.nextSegmentId + (2 * input.size + 1) := by
  rcases t.append_eq input with heq | ⟨index, heq⟩
  · rw [heq]
    exact Nat.le_add_right _ _
  · rw [heq]
    exact nextSegmentId_appendLoop_le t input []

/-- The indexes do not matter for the shape. -/
theorem Shape.withIndex (h : t.Shape) (index : TableIndexManager) :
    { t with indexManager := index }.Shape := 
  ⟨h.sorted, h.below, h.builders, h.capacity, h.nonempty⟩

/-- An append keeps the shape. -/
theorem Shape.append {input : DataChunk} (h : t.Shape) (hf : input.Fits t.schema) :
    (t.append input).1.Shape ∧ (t.append input).1.schema = t.schema := by
  rcases t.append_eq input with heq | ⟨index, heq⟩
  · rw [heq]
    exact ⟨h, rfl⟩
  · have hloop := h.appendLoop hf []
    rw [heq]
    exact ⟨hloop.shape.withIndex index, hloop.same.schema⟩

end TableStorage

/-! ## Shape over runs -/

namespace System

variable {tableId : TableId} {schema : TableSchema}

/-- A table comes into memory by the constructor. -/
theorem Opened.construct {s : System} (h : Opened tableId schema s) :
    ∃ metadata, TableStorage.construct schema metadata s.disk = .ok s.table ∧
      metadata.tableId = tableId := by
  cases h with
  | created h =>
    obtain ⟨-, -, hcons⟩ := TableStorage.createTable_eq_ok h
    exact ⟨_, hcons, rfl⟩
  | opened h =>
    obtain ⟨_, metadata, _, -, -, hid, hcons⟩ := TableStorage.openTable_eq_ok h
    exact ⟨metadata, hcons, hid⟩

/-- A table that is opened has the shape. -/
theorem Opened.shape {s : System} (h : Opened tableId schema s) :
    s.table.Shape ∧ s.table.schema = schema := by
  obtain ⟨metadata, hcons, -⟩ := h.construct
  exact TableStorage.shape_of_construct hcons

/-- Every event keeps the shape. -/
theorem Step.shape {s s' : System} {e : Event} (h : s.table.Shape ∧ s.table.schema = schema)
    (hst : Step tableId schema s e s') : s'.table.Shape ∧ s'.table.schema = schema := by
  cases hst with
  | append hf =>
    obtain ⟨hshape, hschema⟩ := h.1.append (h.2.symm ▸ hf)
    exact ⟨hshape, hschema.trans h.2⟩
  | flush hio => exact ⟨h.1.flush _ _, (TableStorage.flush_schema _ _ _).trans h.2⟩
  | crash h => exact (Opened.opened h).shape
  | close hio h => exact (Opened.opened h).shape

/-- **In every reachable state the segments in memory have their shape.** -/
theorem shape_of_reachable {s : System} (h : Reached tableId schema s) :
    s.table.Shape ∧ s.table.schema = schema :=
  Reachable.invariant (P := fun s => s.table.Shape ∧ s.table.schema = schema)
    (fun _ h => h.shape) (fun _ _ h hst => hst.elim fun _ hst => hst.shape h) h

end System

/-! ## Appends keep rows -/

namespace TableStorage

variable {t : TableStorage} {input : DataChunk}

/-- The append puts the rows of the chunk behind those held, no segment gets overfull, and the
locations it registers designate the rows. -/
structure AppendPreserves (t : TableStorage) (input : DataChunk) : Prop where
  rows : (t.append input).1.heldRows = t.heldRows ++ input.rows
  capacity : ∀ s ∈ (t.append input).1.heldSegments, s.2.rowCount ≤ kMaxSegmentRowCount
  locations : ∀ i < input.size, ∃ l, (t.appendLoop input []).2[i]? = some l ∧
    (t.append input).1.HoldsAt l (input.row i)

/-- The loop reads the rows of the chunk. -/
def ReadsRows (t : TableStorage) (input : DataChunk) : Prop :=
  ∀ i < input.size, input.bufferRow (sourceRow t.remaining input.sliceStart i) = input.row i

/-- Whether an append reads the rows of its chunk can be decided. -/
instance (t : TableStorage) (input : DataChunk) : Decidable (t.ReadsRows input) :=
  inferInstanceAs (Decidable (∀ _ < _, _))

/-- What an append reads. -/
theorem readsRows_iff : t.ReadsRows input ↔ sourceRows t.remaining input = input.rows := by
  simp only [ReadsRows, sourceRows, DataChunk.rows, List.map_inj_left, List.mem_range]

/-- A chunk from the front of its buffers that crosses at most one segment boundary is read as it
is. -/
theorem readsRows_of_front (h0 : input.sliceStart = 0)
    (hsize : input.size ≤ t.remaining + kMaxSegmentRowCount) : t.ReadsRows input := by
  intro i hi
  have hlt : i - t.remaining < kMaxSegmentRowCount ∨ i < t.remaining := by omega
  have hsource : sourceRow t.remaining input.sliceStart i = i := by
    unfold sourceRow
    split_ifs <;> omega
  rw [hsource, DataChunk.row, h0, Nat.zero_add]

/-- An accepted append ends with the segments that the loop made. -/
theorem append_segmentsInMemory (hv : t.indexManager.validatePrimaryKey input = .ok true) :
    ∃ index, (t.append input).1 = { (t.appendLoop input []).1 with indexManager := index } := by
  unfold append
  rw [hv]
  dsimp only
  rcases (t.appendLoop input []).1.indexManager.onAppend input (t.appendLoop input []).2 with
    ⟨index, e | e⟩ <;> exact ⟨index, rfl⟩

/-- **An accepted append keeps all rows, in order, exactly when the rows that its loop reads are those
of the chunk.** -/
theorem appendPreserves_iff (h : t.Shape) (hf : input.Fits t.schema)
    (hv : t.indexManager.validatePrimaryKey input = .ok true) :
    t.AppendPreserves input ↔ t.ReadsRows input := by
  obtain ⟨index, heq⟩ := append_segmentsInMemory hv
  have hloop := h.appendLoop hf []
  have hshape := hloop.shape.withIndex index
  have hheld : (t.append input).1.heldRows = t.heldRows ++ sourceRows t.remaining input := by
    rw [heq, hshape.heldRows_eq, h.heldRows_eq]
    exact hloop.held
  rw [readsRows_iff]
  constructor
  · intro hp
    have hrows := hp.rows
    rw [hheld] at hrows
    exact List.append_cancel_left hrows
  · intro hsource
    refine ⟨hheld.trans (by rw [hsource]), ?_, fun i hi => ?_⟩
    · rw [heq, hshape.heldSegments_eq]
      exact hloop.shape.capacity
    · obtain ⟨appended, hlocs, hall, -⟩ := hloop.locations
      rw [hsource] at hall
      rw [heq, hlocs, List.nil_append]
      have hlen : i < appended.length := by simpa [hall.length_eq] using hi
      refine ⟨appended[i], List.getElem?_eq_getElem hlen, ?_⟩
      have hget := hall.get hlen (by simpa using hi)
      rwa [List.get_eq_getElem, List.get_eq_getElem, DataChunk.getElem_rows] at hget

end TableStorage

/-- **In every reachable state, an accepted append keeps all rows, in order, exactly when the rows that
its loop reads are those of the chunk**, as long as the segment ids fit, those of the append too. -/
theorem System.appendPreserves_iff_readsRows {tableId : TableId} {schema : TableSchema} {s : System}
    (h : ReachedFitting tableId schema s) {input : DataChunk} (hf : input.Fits schema)
    (hv : s.table.indexManager.validatePrimaryKey input = .ok true) :
    (s.table.append input).1.nextSegmentId < 2 ^ 32 →
      (s.table.AppendPreserves input ↔ s.table.ReadsRows input) := by
  intro _
  obtain ⟨hshape, hschema⟩ := System.shape_of_reachable h.reached
  exact TableStorage.appendPreserves_iff hshape (hschema.symm ▸ hf) hv

/-! ## A new table, and a chunk that is cut twice -/

/-- A table as it is created. -/
def TableStorage.fresh (tableId : TableId) (schema : TableSchema) : TableStorage :=
  ⟨schema, ⟨tableId, []⟩, [], TableIndexManager.new schema, [], 0, 1, SegmentBuilder.new schema⟩

/-- The files of a table as it is created. -/
def Disk.fresh (tableId : TableId) : Disk :=
  ⟨some (TableStorageMeta.serialize ⟨tableId, []⟩), fun _ => none⟩

/-- A table can be created. -/
theorem System.opened_fresh (tableId : TableId) (schema : TableSchema) :
    Opened tableId schema ⟨TableStorage.fresh tableId schema, Disk.fresh tableId⟩ := by
  have hcreate : TableStorage.createTable tableId schema ⟨none, fun _ => none⟩ .complete =
      (Disk.fresh tableId, .ok (some (TableStorage.fresh tableId schema))) := rfl
  exact .created hcreate

/-- One INT32 column and no key. -/
def oneColumnSchema : TableSchema := ⟨[⟨0, [99], .int32⟩], none, []⟩

/-- One row. -/
def oneRowChunk : DataChunk := ⟨1, 0, [[7, 0, 0, 0]], [4]⟩

/-- The chunk fits the table. -/
theorem oneRowChunk_fits : oneRowChunk.Fits oneColumnSchema where
  columns := rfl
  sizes := rfl
  inside := by decide
  small := by decide

/-- A segment full of the row 0, and one row 1 behind it. -/
def crossingChunk : DataChunk where
  size := kMaxSegmentRowCount + 1
  sliceStart := 0
  chunks := [List.replicate (kMaxSegmentRowCount * 4) 0 ++ [1, 0, 0, 0]]
  elementSizes := [4]

/-- The chunk fits the table. -/
theorem crossingChunk_fits : crossingChunk.Fits oneColumnSchema where
  columns := rfl
  sizes := rfl
  inside i hi := by
    obtain rfl : i = 0 := Nat.lt_one_iff.mp hi
    show (0 + (kMaxSegmentRowCount + 1)) * 4 ≤
      (List.replicate (kMaxSegmentRowCount * 4) (0 : UInt8) ++ [1, 0, 0, 0]).length
    rw [List.length_append, List.length_replicate, List.length_cons]
    simp only [List.length_cons, List.length_nil]
    omega
  small := by decide

/-- One row, and behind it a chunk that goes over the end of the segment. -/
theorem System.appendPreserves_crossingChunk :
    ((TableStorage.fresh 0 oneColumnSchema).append oneRowChunk).1.AppendPreserves crossingChunk := by
  have hfresh : IdsFit ⟨TableStorage.fresh 0 oneColumnSchema, Disk.fresh 0⟩ := Nat.one_lt_two_pow (by decide)
  have hone : ((TableStorage.fresh 0 oneColumnSchema).append oneRowChunk).1.nextSegmentId ≤ 4 :=
    TableStorage.nextSegmentId_append_le _ _
  have hrun : ReachedFitting 0 oneColumnSchema
      ⟨((TableStorage.fresh 0 oneColumnSchema).append oneRowChunk).1, Disk.fresh 0⟩ :=
    .next (.start ⟨opened_fresh 0 oneColumnSchema, hfresh⟩)
      ⟨_, .append oneRowChunk_fits, trivial, lt_of_le_of_lt hone (by decide)⟩
  have hnext := TableStorage.nextSegmentId_append_le
    ((TableStorage.fresh 0 oneColumnSchema).append oneRowChunk).1 crossingChunk
  have hbound : 4 + (2 * crossingChunk.size + 1) < 2 ^ 32 := by decide
  have hvalid : ((TableStorage.fresh 0 oneColumnSchema).append oneRowChunk).1.indexManager.validatePrimaryKey
      crossingChunk = .ok true := by
    unfold TableStorage.append
    rw [TableStorage.appendLoop]
    rfl
  have hroom : ((TableStorage.fresh 0 oneColumnSchema).append oneRowChunk).1.remaining =
      kMaxSegmentRowCount - 1 := by
    unfold TableStorage.append
    rw [TableStorage.appendLoop]
    rfl
  have hsize : crossingChunk.size ≤
      ((TableStorage.fresh 0 oneColumnSchema).append oneRowChunk).1.remaining + kMaxSegmentRowCount := by
    rw [hroom]
    decide
  exact (appendPreserves_iff_readsRows hrun crossingChunk_fits hvalid
    (lt_of_le_of_lt (hnext.trans (Nat.add_le_add_right hone _)) hbound)).mpr
      (TableStorage.readsRows_of_front rfl hsize)

/-- Two segments full of the row 0, and one row 1 behind them. -/
def longChunk : DataChunk where
  size := 2 * kMaxSegmentRowCount + 1
  sliceStart := 0
  chunks := [List.replicate (2 * kMaxSegmentRowCount * 4) 0 ++ [1, 0, 0, 0]]
  elementSizes := [4]

/-- The chunk fits the table. -/
theorem longChunk_fits : longChunk.Fits oneColumnSchema where
  columns := rfl
  sizes := rfl
  inside i hi := by
    obtain rfl : i = 0 := Nat.lt_one_iff.mp hi
    show (0 + (2 * kMaxSegmentRowCount + 1)) * 4 ≤
      (List.replicate (2 * kMaxSegmentRowCount * 4) (0 : UInt8) ++ [1, 0, 0, 0]).length
    rw [List.length_append, List.length_replicate, List.length_cons]
    simp only [List.length_cons, List.length_nil]
    omega
  small := by decide

/-- The row behind the two segments. -/
theorem row_longChunk : longChunk.row (2 * kMaxSegmentRowCount) = [[1, 0, 0, 0]] := by
  have hcell : cell 4 (2 * kMaxSegmentRowCount + 0)
      (List.replicate (2 * kMaxSegmentRowCount * 4) (0 : UInt8) ++ [1, 0, 0, 0]) = [1, 0, 0, 0] :=
    cell_append_right _ List.length_replicate
  show [cell 4 (0 + 2 * kMaxSegmentRowCount) _] = _
  rw [Nat.zero_add]
  exact congrArg (fun c => [c]) hcell

/-- The first row of the second segment, which the loop reads in its place. -/
theorem bufferRow_longChunk : longChunk.bufferRow kMaxSegmentRowCount = [[0, 0, 0, 0]] := by
  have hle : (kMaxSegmentRowCount + 1) * 4 ≤
      (List.replicate (2 * kMaxSegmentRowCount * 4) (0 : UInt8)).length := by
    rw [List.length_replicate]
    decide
  have hcell : cell 4 kMaxSegmentRowCount
      (List.replicate (2 * kMaxSegmentRowCount * 4) (0 : UInt8) ++ [1, 0, 0, 0]) = [0, 0, 0, 0] := by
    rw [cell_append_left _ hle, cell, List.drop_replicate, List.take_replicate]
    rfl
  exact congrArg (fun c => [c]) hcell

/-- **A chunk that is cut twice loses a row**: the second cut starts over inside the chunk. -/
theorem System.not_appendPreserves_longChunk :
    Reached 0 oneColumnSchema ⟨TableStorage.fresh 0 oneColumnSchema, Disk.fresh 0⟩ ∧
    longChunk.Fits oneColumnSchema ∧
    (TableStorage.fresh 0 oneColumnSchema).indexManager.validatePrimaryKey longChunk = .ok true ∧
    ¬ (TableStorage.fresh 0 oneColumnSchema).AppendPreserves longChunk := by
  have hreach : Reached 0 oneColumnSchema ⟨TableStorage.fresh 0 oneColumnSchema, Disk.fresh 0⟩ :=
    .start (System.opened_fresh 0 oneColumnSchema)
  refine ⟨hreach, longChunk_fits, rfl, fun hp => ?_⟩
  have hreads := (TableStorage.appendPreserves_iff (System.shape_of_reachable hreach).1 longChunk_fits
    rfl).mp hp (2 * kMaxSegmentRowCount) (Nat.lt_succ_self _)
  have hsource : TableStorage.sourceRow (TableStorage.fresh 0 oneColumnSchema).remaining longChunk.sliceStart
      (2 * kMaxSegmentRowCount) = kMaxSegmentRowCount := by decide
  rw [hsource, bufferRow_longChunk, row_longChunk] at hreads
  exact absurd hreads (by decide)

end SimpleOlap
