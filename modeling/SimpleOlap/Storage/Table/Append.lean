import SimpleOlap.Storage.Table.TableStorage

/-!
# What an append does

The segments in memory, and the rows that the loop of `TableStorage::Append` puts in them.

* `segmentsInMemory`, `heldSegments`, `heldRows`: the sealed segments and the active one, and their
  rows in the order of the segment ids.
* `Shape`: segments in memory have increasing ids, are well formed and not overfull.
* `sourceRow`: the row of the buffers that the loop reads for row `i` of the input. From the second cut
  on a cut is relative to the buffers, not to the view, so this is not always the view's row `i`.
* `appendLoop_spec`: the loop appends the source rows, in order, and its locations designate them.
-/

namespace SimpleOlap

open Lib

namespace TableStorage

/-! ## Segments in memory -/

/-- The sealed segments and the active one. -/
def segmentsInMemory (t : TableStorage) : List (SegmentId × SegmentBuilder) :=
  t.sealedSegments ++ [(t.activeSegmentId, t.activeSegment)]

/-- The segments in memory in the order of their ids. -/
def heldSegments (t : TableStorage) : List (SegmentId × SegmentBuilder) :=
  t.segmentsInMemory.mergeSort fun a b => decide (a.1 ≤ b.1)

/-- The rows in memory in the order of the segment ids. -/
def heldRows (t : TableStorage) : List Row := t.heldSegments.flatMap fun s => s.2.rows

/-- A location designates a row of a segment in memory. -/
def HoldsAt (t : TableStorage) (l : RowLocation) (row : Row) : Prop :=
  ∃ b, (l.segmentId, b) ∈ t.segmentsInMemory ∧ l.rowOffset < b.rowCount ∧ b.rowAt l.rowOffset = row

/-- The id comes before those of the segments in memory. -/
def Precedes (t : TableStorage) (id : SegmentId) : Prop := ∀ s ∈ t.segmentsInMemory, id < s.1

/-- The places of the rows in memory. -/
def heldPlaces (t : TableStorage) : List RowLocation :=
  t.segmentsInMemory.flatMap fun s => (List.range s.2.rowCount).map (RowLocation.mk s.1)

/-- The segments in memory have increasing ids below the next one, are well formed and hold at most
`kMaxSegmentRowCount` rows; the sealed ones are not empty. -/
structure Shape (t : TableStorage) : Prop where
  sorted : t.segmentsInMemory.Pairwise fun a b => a.1 < b.1
  below : ∀ s ∈ t.segmentsInMemory, s.1 < t.nextSegmentId
  builders : ∀ s ∈ t.segmentsInMemory, s.2.WF t.schema
  capacity : ∀ s ∈ t.segmentsInMemory, s.2.rowCount ≤ kMaxSegmentRowCount
  nonempty : ∀ s ∈ t.sealedSegments, 0 < s.2.rowCount

/-- The active segment is one of those in memory. -/
theorem active_mem_segmentsInMemory (t : TableStorage) :
    (t.activeSegmentId, t.activeSegment) ∈ t.segmentsInMemory := by
  simp [segmentsInMemory]

/-- A row in memory is at one of the places. -/
theorem mem_heldPlaces {t : TableStorage} {l : RowLocation} :
    l ∈ t.heldPlaces ↔ ∃ row, t.HoldsAt l row := by
  obtain ⟨id, offset⟩ := l
  simp only [heldPlaces, HoldsAt, List.mem_flatMap, List.mem_map, List.mem_range, Prod.exists,
    RowLocation.mk.injEq]
  constructor
  · rintro ⟨_, b, hmem, _, hlt, rfl, rfl⟩
    exact ⟨_, b, hmem, hlt, rfl⟩
  · rintro ⟨row, b, hmem, hlt, -⟩
    exact ⟨id, b, hmem, offset, hlt, rfl, rfl⟩

namespace Shape

variable {t : TableStorage}

/-- A place holds one row. -/
theorem holdsAt_unique (h : t.Shape) {l : RowLocation} {row row' : Row} (hl : t.HoldsAt l row)
    (hl' : t.HoldsAt l row') : row = row' := by
  obtain ⟨b, hb, -, rfl⟩ := hl
  obtain ⟨b', hb', -, rfl⟩ := hl'
  have hids : (t.segmentsInMemory.map Prod.fst).Nodup :=
    List.pairwise_map.mpr (h.sorted.imp fun hab => ne_of_lt hab)
  rw [(Prod.mk.inj (List.inj_on_of_nodup_map hids hb hb' rfl)).2]

/-- With increasing ids, sorting changes nothing. -/
theorem heldSegments_eq (h : t.Shape) : t.heldSegments = t.segmentsInMemory :=
  List.mergeSort_of_pairwise (h.sorted.imp fun hab => by simpa using le_of_lt hab)

theorem heldRows_eq (h : t.Shape) : t.heldRows = t.segmentsInMemory.flatMap fun s => s.2.rows := by
  rw [heldRows, h.heldSegments_eq]

/-- No sealed segment has the active one's id. -/
theorem filter_sealedSegments (h : t.Shape) :
    t.sealedSegments.filter (fun s => s.1 != t.activeSegmentId) = t.sealedSegments := by
  rw [List.filter_eq_self]
  intro s hs
  have hlt := (List.pairwise_append.mp h.sorted).2.2 s hs _ (List.mem_singleton_self _)
  simpa using ne_of_lt hlt

/-- Sealing the active segment and starting the next one adds an empty segment. -/
theorem segmentsInMemory_next (h : t.Shape) :
    t.sealActiveSegment.createActiveSegment.segmentsInMemory =
      t.segmentsInMemory ++ [(t.nextSegmentId, SegmentBuilder.new t.schema)] := by
  simp only [segmentsInMemory, createActiveSegment, sealActiveSegment, h.filter_sealedSegments]

/-- Ids that come before stay so. -/
theorem precedes_next (h : t.Shape) {id : SegmentId} (hid : t.Precedes id) :
    t.sealActiveSegment.createActiveSegment.Precedes id := by
  intro s hs
  rw [h.segmentsInMemory_next, List.mem_append, List.mem_singleton] at hs
  rcases hs with hs | rfl
  · exact hid s hs
  · have hactive := t.active_mem_segmentsInMemory
    exact lt_trans (hid _ hactive) (h.below _ hactive)

/-- Sealing the active segment brings in no place. -/
theorem heldPlaces_next (h : t.Shape) :
    t.sealActiveSegment.createActiveSegment.heldPlaces = t.heldPlaces := by
  have hempty : (SegmentBuilder.new t.schema).rowCount = 0 := rfl
  simp [heldPlaces, h.segmentsInMemory_next, hempty]

/-- Sealing the active segment and starting the next one keeps the shape. -/
theorem next (h : t.Shape) (hpos : 0 < t.activeSegment.rowCount) :
    t.sealActiveSegment.createActiveSegment.Shape := by
  constructor
  · rw [h.segmentsInMemory_next, List.pairwise_append]
    refine ⟨h.sorted, List.pairwise_singleton _ _, fun a ha b hb => ?_⟩
    rw [List.mem_singleton.mp hb]
    exact h.below a ha
  case nonempty =>
    show ∀ s ∈ t.sealActiveSegment.sealedSegments, 0 < s.2.rowCount
    rw [sealActiveSegment, h.filter_sealedSegments]
    intro s hs
    rcases List.mem_append.mp hs with hs | hs
    · exact h.nonempty s hs
    · rw [List.mem_singleton.mp hs]
      exact hpos
  all_goals
    rw [h.segmentsInMemory_next]
    intro s hs
    rcases List.mem_append.mp hs with hs | hs
  · exact lt_trans (h.below s hs) (Nat.lt_succ_self _)
  · rw [List.mem_singleton.mp hs]
    exact Nat.lt_succ_self _
  · exact h.builders s hs
  · rw [List.mem_singleton.mp hs]
    exact SegmentBuilder.WF.new t.schema
  · exact h.capacity s hs
  · rw [List.mem_singleton.mp hs]
    exact Nat.zero_le _

end Shape

/-- The room of the active segment, the other way round. -/
theorem Shape.rowCount_add_remaining {t : TableStorage} (h : t.Shape) :
    t.activeSegment.rowCount + t.remaining = kMaxSegmentRowCount :=
  Nat.add_sub_cancel' (h.capacity _ t.active_mem_segmentsInMemory)

/-! ## One piece -/

section Internal

variable {t : TableStorage} {chunk : DataChunk}

/-- The segments in memory after one piece. -/
theorem segmentsInMemory_appendInternal (t : TableStorage) (id : SegmentId) (chunk : DataChunk) :
    (t.appendInternal id chunk).1.segmentsInMemory =
      t.sealedSegments ++ [(t.activeSegmentId, t.activeSegment.append chunk)] := rfl

/-- A piece brings in no id. -/
theorem precedes_appendInternal {id : SegmentId} (hid : t.Precedes id) :
    (t.appendInternal t.activeSegmentId chunk).1.Precedes id := by
  intro s hs
  rcases List.mem_append.mp hs with hs | hs
  · exact hid s (List.mem_append_left _ hs)
  · rw [List.mem_singleton.mp hs]
    exact hid (t.activeSegmentId, t.activeSegment) t.active_mem_segmentsInMemory

/-- A piece that the active segment has room for keeps the shape. -/
theorem Shape.appendInternal (h : t.Shape) (hf : chunk.Fits t.schema)
    (hroom : chunk.size ≤ t.remaining) : (t.appendInternal t.activeSegmentId chunk).1.Shape := by
  have hactive := t.active_mem_segmentsInMemory
  have hsealed : ∀ s ∈ t.sealedSegments, s ∈ t.segmentsInMemory :=
    fun s hs => List.mem_append_left _ hs
  constructor
  · rw [segmentsInMemory_appendInternal, List.pairwise_append]
    obtain ⟨h₁, -, h₂⟩ := List.pairwise_append.mp h.sorted
    refine ⟨h₁, List.pairwise_singleton _ _, fun a ha b hb => ?_⟩
    rw [List.mem_singleton.mp hb]
    exact h₂ a ha (t.activeSegmentId, t.activeSegment) (List.mem_singleton_self _)
  case nonempty => exact h.nonempty
  all_goals
    rw [segmentsInMemory_appendInternal]
    intro s hs
    rcases List.mem_append.mp hs with hs | hs
  · exact h.below s (hsealed s hs)
  · rw [List.mem_singleton.mp hs]
    exact h.below (t.activeSegmentId, t.activeSegment) hactive
  · exact h.builders s (hsealed s hs)
  · rw [List.mem_singleton.mp hs]
    exact (h.builders _ hactive).append hf
  · exact h.capacity s (hsealed s hs)
  · rw [List.mem_singleton.mp hs]
    have := h.rowCount_add_remaining
    show (t.activeSegment.append chunk).rowCount ≤ _
    rw [SegmentBuilder.WF.rowCount_append hf]
    omega

/-- A piece adds its rows behind those in memory. -/
theorem Shape.rows_appendInternal (h : t.Shape) (hf : chunk.Fits t.schema) :
    ((t.appendInternal t.activeSegmentId chunk).1.segmentsInMemory.flatMap fun s => s.2.rows) =
      (t.segmentsInMemory.flatMap fun s => s.2.rows) ++ chunk.rows := by
  rw [segmentsInMemory_appendInternal, segmentsInMemory, List.flatMap_append, List.flatMap_append]
  simp [(h.builders _ t.active_mem_segmentsInMemory).rows_append hf]

/-- The locations of a piece. -/
theorem appendInternal_locations (hf : chunk.Fits t.schema) :
    (t.appendInternal t.activeSegmentId chunk).2 = (List.range chunk.size).map fun i =>
      RowLocation.mk t.activeSegmentId (t.activeSegment.rowCount + i) := by
  rw [appendInternal, Nat.mod_eq_of_lt hf.small]

/-- A piece adds its places behind those in memory. -/
theorem heldPlaces_appendInternal (hf : chunk.Fits t.schema) :
    (t.appendInternal t.activeSegmentId chunk).1.heldPlaces =
      t.heldPlaces ++ (t.appendInternal t.activeSegmentId chunk).2 := by
  rw [heldPlaces, segmentsInMemory_appendInternal, heldPlaces, segmentsInMemory,
    appendInternal_locations hf, List.flatMap_append, List.flatMap_append, List.append_assoc]
  simp [SegmentBuilder.WF.rowCount_append hf, List.range_add]

/-- Rows in memory stay where they are. -/
theorem Shape.holdsAt_appendInternal (h : t.Shape) (hf : chunk.Fits t.schema) {l : RowLocation}
    {row : Row} (hl : t.HoldsAt l row) : (t.appendInternal t.activeSegmentId chunk).1.HoldsAt l row := by
  obtain ⟨b, hb, hlt, hrow⟩ := hl
  rcases List.mem_append.mp hb with hb | hb
  · exact ⟨b, List.mem_append_left _ hb, hlt, hrow⟩
  · obtain ⟨hid, rfl⟩ := Prod.mk.inj (List.mem_singleton.mp hb)
    have hwf := h.builders _ t.active_mem_segmentsInMemory
    refine ⟨t.activeSegment.append chunk, ?_, ?_, ?_⟩
    · rw [segmentsInMemory_appendInternal, hid]
      exact List.mem_append_right _ (List.mem_singleton_self _)
    · rw [SegmentBuilder.WF.rowCount_append hf]
      omega
    · rw [hwf.rowAt_append_of_lt hf hlt, hrow]

/-- The locations of a piece designate its rows. -/
theorem Shape.holdsAt_locations_appendInternal (h : t.Shape) (hf : chunk.Fits t.schema) :
    List.Forall₂ (t.appendInternal t.activeSegmentId chunk).1.HoldsAt
      (t.appendInternal t.activeSegmentId chunk).2 chunk.rows := by
  rw [appendInternal_locations hf, DataChunk.rows, List.forall₂_map_left_iff,
    List.forall₂_map_right_iff, List.forall₂_same]
  intro i hi
  have hlt := List.mem_range.mp hi
  have hwf := h.builders _ t.active_mem_segmentsInMemory
  refine ⟨t.activeSegment.append chunk, ?_, ?_, hwf.rowAt_append_add hf hlt⟩
  · exact List.mem_append_right _ (List.mem_singleton_self _)
  · show t.activeSegment.rowCount + i < (t.activeSegment.append chunk).rowCount
    rw [SegmentBuilder.WF.rowCount_append hf]
    omega

/-- A cut fills the active segment. -/
theorem Shape.rowCount_appendInternal_slice (h : t.Shape) (hf : chunk.Fits t.schema)
    (hle : t.remaining ≤ chunk.size) :
    (t.appendInternal t.activeSegmentId (chunk.slice t.remaining).1).1.activeSegment.rowCount =
      kMaxSegmentRowCount := by
  show (t.activeSegment.append (chunk.slice t.remaining).1).rowCount = _
  rw [SegmentBuilder.WF.rowCount_append (hf.slice_fst hle)]
  exact h.rowCount_add_remaining

end Internal

/-- Rows in memory stay where they are when the active segment is sealed. -/
theorem Shape.holdsAt_next {t : TableStorage} (h : t.Shape) {l : RowLocation} {row : Row}
    (hl : t.HoldsAt l row) : t.sealActiveSegment.createActiveSegment.HoldsAt l row := by
  obtain ⟨b, hb, hrest⟩ := hl
  refine ⟨b, ?_, hrest⟩
  rw [h.segmentsInMemory_next]
  exact List.mem_append_left _ hb

/-! ## The rows that the loop reads -/

/-- The row of the buffers that stands for row `i` of a view that starts at `start`, when the active
segment has room for `room` rows. The rows before the first cut are the view's. A cut starts the rest
at the cut's length, whatever the view it cuts: at row `room` for the first, and at
`kMaxSegmentRowCount` again and again for all others. -/
def sourceRow (room start i : ℕ) : ℕ :=
  if i < room then start + i
  else if i - room < kMaxSegmentRowCount then i
  else kMaxSegmentRowCount + (i - room) % kMaxSegmentRowCount

/-- The rows that the loop reads for an input. -/
def sourceRows (room : ℕ) (chunk : DataChunk) : List Row :=
  (List.range chunk.size).map fun i => chunk.bufferRow (sourceRow room chunk.sliceStart i)

/-- After a cut, the rows are read as from a view that starts at the cut. -/
theorem sourceRow_add (room start j : ℕ) :
    sourceRow room start (room + j) = sourceRow kMaxSegmentRowCount room j := by
  unfold sourceRow
  rw [if_neg (Nat.not_lt.mpr (Nat.le_add_right room j)), Nat.add_sub_cancel_left]
  by_cases h₁ : j < kMaxSegmentRowCount
  · rw [if_pos h₁, if_pos h₁]
  · rw [if_neg h₁, if_neg h₁, Nat.mod_eq_sub_mod (Nat.not_lt.mp h₁)]
    by_cases h₂ : j - kMaxSegmentRowCount < kMaxSegmentRowCount
    · rw [if_pos h₂, Nat.mod_eq_of_lt h₂]
      omega
    · rw [if_neg h₂]

/-- A chunk for which there is room is read as it is. -/
theorem sourceRows_of_le {room : ℕ} {chunk : DataChunk} (h : chunk.size ≤ room) :
    sourceRows room chunk = chunk.rows := by
  apply List.map_congr_left
  intro i hi
  have hlt : i < room := lt_of_lt_of_le (List.mem_range.mp hi) h
  rw [sourceRow, if_pos hlt]
  rfl

/-- A chunk that is cut is read in two parts. -/
theorem sourceRows_slice {room : ℕ} {chunk : DataChunk} (h : room ≤ chunk.size) :
    sourceRows room chunk =
      (chunk.slice room).1.rows ++ sourceRows kMaxSegmentRowCount (chunk.slice room).2 := by
  have hsize : chunk.size = room + (chunk.slice room).2.size := by
    rw [DataChunk.size_slice_snd]
    omega
  rw [sourceRows, hsize, List.range_add, List.map_append, List.map_map]
  congr 1
  · apply List.map_congr_left
    intro i hi
    rw [sourceRow, if_pos (List.mem_range.mp hi)]
    rfl
  · apply List.map_congr_left
    intro j _
    rw [Function.comp_apply, sourceRow_add]
    rfl

/-! ## The loop -/

/-- What the loop leaves alone. -/
structure SameRegistered (t t' : TableStorage) : Prop where
  schema : t'.schema = t.schema
  metadata : t'.metadata = t.metadata
  indexManager : t'.indexManager = t.indexManager
  pending : t'.pendingVisibleSegments = t.pendingVisibleSegments
  next : t.nextSegmentId ≤ t'.nextSegmentId

theorem SameRegistered.refl (t : TableStorage) : SameRegistered t t := ⟨rfl, rfl, rfl, rfl, le_rfl⟩

theorem SameRegistered.trans {t t' t'' : TableStorage} (h : SameRegistered t t')
    (h' : SameRegistered t' t'') : SameRegistered t t'' :=
  ⟨h'.schema.trans h.schema, h'.metadata.trans h.metadata, h'.indexManager.trans h.indexManager,
    h'.pending.trans h.pending, le_trans h.next h'.next⟩

/-- What the loop does: it appends `rows`, returns their locations behind those it was given, and
moves nothing. No other row comes into memory. -/
structure Appends (t : TableStorage) (rows : List Row) (locations : List RowLocation)
    (r : TableStorage × List RowLocation) : Prop where
  shape : r.1.Shape
  same : SameRegistered t r.1
  held : (r.1.segmentsInMemory.flatMap fun s => s.2.rows) =
    (t.segmentsInMemory.flatMap fun s => s.2.rows) ++ rows
  stays : ∀ l row, t.HoldsAt l row → r.1.HoldsAt l row
  precedes : ∀ id, t.Precedes id → r.1.Precedes id
  locations : ∃ appended, r.2 = locations ++ appended ∧ List.Forall₂ r.1.HoldsAt appended rows ∧
    r.1.heldPlaces = t.heldPlaces ++ appended

/-- One piece after which the loop ends. -/
theorem Shape.appends_appendInternal {t : TableStorage} {chunk : DataChunk} (h : t.Shape)
    (hf : chunk.Fits t.schema) (hroom : chunk.size ≤ t.remaining) (locations : List RowLocation) :
    Appends t chunk.rows locations ((t.appendInternal t.activeSegmentId chunk).1,
      locations ++ (t.appendInternal t.activeSegmentId chunk).2) where
  shape := h.appendInternal hf hroom
  same := ⟨rfl, rfl, rfl, rfl, le_rfl⟩
  held := h.rows_appendInternal hf
  stays _ _ hl := h.holdsAt_appendInternal hf hl
  precedes _ hid := precedes_appendInternal hid
  locations := ⟨_, rfl, h.holdsAt_locations_appendInternal hf, heldPlaces_appendInternal hf⟩

/-- A piece after which the segment is sealed, and the rest. -/
theorem Appends.trans {t t' : TableStorage} {rows rows' : List Row} {locations : List RowLocation}
    {appended : List RowLocation} {r : TableStorage × List RowLocation}
    (h : Appends t rows locations (t', locations ++ appended))
    (h' : Appends t'.sealActiveSegment.createActiveSegment rows' (locations ++ appended) r) :
    Appends t (rows ++ rows') locations r := by
  obtain ⟨appended₁, heq, hall, hplaces⟩ := h.locations
  obtain rfl : appended = appended₁ := List.append_cancel_left heq
  obtain ⟨appended', heq', hall', hplaces'⟩ := h'.locations
  have hnext : SameRegistered t' t'.sealActiveSegment.createActiveSegment :=
    ⟨rfl, rfl, rfl, rfl, Nat.le_succ _⟩
  refine ⟨h'.shape, (h.same.trans hnext).trans h'.same, ?_, ?_, ?_, appended ++ appended', ?_, ?_, ?_⟩
  · have hempty : (SegmentBuilder.new t'.schema).rows = [] := rfl
    rw [h'.held, h.shape.segmentsInMemory_next, List.flatMap_append, h.held]
    simp [hempty]
  · exact fun l row hl => h'.stays l row (h.shape.holdsAt_next (h.stays l row hl))
  · exact fun id hid => h'.precedes id (h.shape.precedes_next (h.precedes id hid))
  · rw [heq', List.append_assoc]
  · exact List.rel_append (hall.imp fun l row hl => h'.stays l row (h.shape.holdsAt_next hl)) hall'
  · rw [hplaces', h.shape.heldPlaces_next, hplaces, List.append_assoc]

/-- **The loop appends the source rows.** -/
theorem Shape.appendLoop {t : TableStorage} {chunk : DataChunk} (h : t.Shape)
    (hf : chunk.Fits t.schema) (locations : List RowLocation) :
    Appends t (sourceRows t.remaining chunk) locations (t.appendLoop chunk locations) := by
  fun_induction TableStorage.appendLoop t chunk locations with
  | case1 t chunk locations hzero =>
    refine ⟨h, .refl t, ?_, fun _ _ hl => hl, fun _ hid => hid, [], by simp, ?_, by simp⟩
    · simp [sourceRows, hzero]
    · simp [sourceRows, hzero]
  | case2 t chunk locations hpos hroom t' appended heq =>
    have hpiece := h.appends_appendInternal hf hroom locations
    rw [sourceRows_of_le hroom]
    rwa [heq] at hpiece
  | case3 t chunk locations hpos hroom cut t' appended heq ih =>
    have hle : t.remaining ≤ chunk.size := le_of_lt (Nat.not_le.mp hroom)
    have hpiece := h.appends_appendInternal (hf.slice_fst hle) le_rfl locations
    rw [heq] at hpiece
    have hschema : t'.sealActiveSegment.createActiveSegment.schema = t.schema :=
      hpiece.same.schema
    rw [sourceRows_slice hle]
    have hfull := h.rowCount_appendInternal_slice hf hle
    rw [heq] at hfull
    have hpos : 0 < t'.activeSegment.rowCount := hfull ▸ Nat.two_pow_pos 16
    exact hpiece.trans (ih (hpiece.shape.next hpos) (hschema ▸ hf.slice_snd hle))

/-- The ids that the loop hands out: at most two a row, and one for a segment that is full already. -/
theorem nextSegmentId_appendLoop_le (t : TableStorage) (chunk : DataChunk) (locations : List RowLocation) :
    (t.appendLoop chunk locations).1.nextSegmentId ≤ t.nextSegmentId + (2 * chunk.size + 1) := by
  suffices h : (t.appendLoop chunk locations).1.nextSegmentId ≤
      t.nextSegmentId + (2 * chunk.size + if t.remaining = 0 then 1 else 0) by
    refine h.trans (Nat.add_le_add_left (Nat.add_le_add_left ?_ _) _)
    split_ifs <;> omega
  fun_induction TableStorage.appendLoop t chunk locations with
  | case1 t chunk locations hzero => exact Nat.le_add_right _ _
  | case2 t chunk locations hpos hroom t' appended heq =>
    cases heq
    exact Nat.le_add_right _ _
  | case3 t chunk locations hpos hroom cut t' appended heq ih =>
    cases heq
    have hfull : ¬ kMaxSegmentRowCount = 0 := by decide
    rw [remaining_createActiveSegment, if_neg hfull] at ih
    have hless : 1 + (2 * (chunk.size - t.remaining) + 0) ≤ 2 * chunk.size + if t.remaining = 0 then 1 else 0 := by
      split_ifs <;> omega
    refine ih.trans ?_
    show t.nextSegmentId + 1 + (2 * (chunk.slice t.remaining).2.size + 0) ≤ _
    rw [DataChunk.size_slice_snd, Nat.add_assoc]
    exact Nat.add_le_add_left hless _

namespace Appends

variable {t : TableStorage} {rows : List Row} {r : TableStorage × List RowLocation}

/-- The appended rows are at their locations. -/
theorem holdsAt_of_mem (h : Appends t rows [] r) {row : Row} {l : RowLocation}
    (hmem : (row, l) ∈ rows.zip r.2) : r.1.HoldsAt l row := by
  obtain ⟨appended, heq, hall, -⟩ := h.locations
  rw [heq, List.nil_append] at hmem
  exact List.forall₂_zip hall.flip hmem

/-- The locations are those of rows in memory. -/
theorem holdsAt_of_mem_locations (h : Appends t rows [] r) {l : RowLocation} (hmem : l ∈ r.2) :
    ∃ row, r.1.HoldsAt l row := by
  obtain ⟨appended, heq, -, hplaces⟩ := h.locations
  rw [heq, List.nil_append] at hmem
  exact mem_heldPlaces.mp (hplaces ▸ List.mem_append_right _ hmem)

/-- A row that is held afterwards was held before or is one of those appended. -/
theorem holdsAt_or_mem (h : Appends t rows [] r) {row : Row} {l : RowLocation}
    (hl : r.1.HoldsAt l row) : t.HoldsAt l row ∨ (row, l) ∈ rows.zip r.2 := by
  obtain ⟨appended, heq, hall, hplaces⟩ := h.locations
  have hmem : l ∈ r.1.heldPlaces := mem_heldPlaces.mpr ⟨row, hl⟩
  rw [hplaces, List.mem_append] at hmem
  rcases hmem with hmem | hmem
  · left
    obtain ⟨row', hrow'⟩ := mem_heldPlaces.mp hmem
    rwa [h.shape.holdsAt_unique hl (h.stays l row' hrow')]
  · right
    obtain ⟨i, hi, rfl⟩ := List.getElem_of_mem hmem
    have hi' : i < rows.length := hall.length_eq ▸ hi
    have hget : r.1.HoldsAt appended[i] rows[i] := hall.get hi hi'
    rw [h.shape.holdsAt_unique hl hget, heq, List.nil_append, List.mem_iff_getElem]
    exact ⟨i, by simp [hi, hi'], by simp⟩

end Appends

end TableStorage

end SimpleOlap
