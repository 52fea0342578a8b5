import SimpleOlap.Execution.BatchContent
import SimpleOlap.Execution.KeyLookup
import SimpleOlap.Planner.SelectShape
import SimpleOlap.Storage.Table.Contents
import SimpleOlap.Storage.Table.Pruning

/-!
# The batches of a scan and the table

* `SegmentReader.Presents`: the columns of a batch are columns of a segment, and its physical rows rows of it;
  so it is for the batches of the serial scan (`presents_scanSegment`, `presents_scanCalls`).
* `OpenTable.Stores`: a table as a query sees it, on such a storage.
* `OpenTable.Stores.content`: a batch of such a segment has the slots of the scan.
* `OpenTable.Stores.holdsIn_eq`, `scanExact_of_not_blurs`: where no row is blurred, the scan compares exactly.
* `OpenTable.Stores.scannedRows_eq`: the rows of a scan are the rows of the table that satisfy its conditions.
* `OpenTable.Stores.exists_streamed_scan`: the batches of a scan list the rows that satisfy its conditions.
-/

namespace SimpleOlap

open Lib SegmentBuilder

/-! ## Rows of a segment -/

/-- The columns of a batch are these columns of the segment, and its physical rows rows of it. -/
structure SegmentReader.Presents (reader : SegmentReader) (columns : List ColumnId) (b : VectorBatch) :
    Prop where
  types : b.columns.map ColumnData.type = columns.map fun id => (reader.openColumn id).metadata.type
  filled : b.Filled
  rows : ∀ r < b.selection.rowCount, ∃ j < reader.rowCount, b.physicalRow r = reader.rowAt columns j

section Batches

variable {decideSegment : DecisionRule} {reader : SegmentReader} {columns : List ColumnId} {b out : VectorBatch}
  {options : ScanOptions}

/-- A filter changes the selection alone. -/
theorem columns_apply {prepared : List PreparedStoragePredicate} {mask : List Bool} {n : ℕ}
    (hb : StorageRowFilter.Identity b n) (hpos : 0 < n) (hn : n ≤ kVectorBatchSize)
    (h : StorageRowFilter.apply prepared mask b = .ok out) :
    out.columns = b.columns ∧ out.selection.rowCount = n := by
  have hrows : b.selection.rowCount = n := by
    rw [hb.selection, SelectionMask.rowCount_setAll, Nat.min_eq_left hn]
  have hphys : b.physicalSize = n := by
    rw [VectorBatch.physicalSize, if_pos (Or.inl (hrows ▸ hpos.ne')), hrows]
  have hidentity : (b.setIdentitySelection n).selection.rowCount = n :=
    (SelectionMask.rowCount_setAll n).trans (Nat.min_eq_left hn)
  unfold StorageRowFilter.apply at h
  simp only [hphys] at h
  split_ifs at h with hnone hlarge
  · rw [← Except.ok.inj h]
    exact ⟨rfl, hidentity⟩
  · rcases hloop : StorageRowFilter.applyLoop b n prepared mask (SelectionMask.setAll n) with e | m
    · rw [hloop] at h
      cases h
    · rw [hloop] at h
      obtain ⟨-, hmask⟩ := StorageRowFilter.wf_applyLoop hn prepared mask (SelectionMask.WF.setAll n)
        (by rw [SelectionMask.rowCount_setAll, Nat.min_eq_left hn]) hloop
      dsimp only at h
      split_ifs at h with hall
      · rw [← Except.ok.inj h]
        exact ⟨rfl, hidentity⟩
      · rw [← Except.ok.inj h]
        exact ⟨rfl, hmask⟩

/-- Another selection of the same rows. -/
theorem SegmentReader.Presents.select (h : reader.Presents columns b) (hcolumns : out.columns = b.columns)
    (hrows : out.selection.rowCount = b.selection.rowCount) : reader.Presents columns out where
  types := hcolumns ▸ h.types
  filled col hcol := h.filled col (hcolumns ▸ hcol)
  rows r hr := by
    rw [VectorBatch.physicalRow, hcolumns]
    exact h.rows r (hrows ▸ hr)

/-- The next rows of a segment. -/
theorem presents_getVectorBatch (hcovers : ∀ id ∈ reader.outColumns options.columns, reader.Covers id)
    {offset : ℕ} (h : reader.getVectorBatch options offset = some b) :
    reader.Presents (reader.outColumns options.columns) b := by
  obtain ⟨hlt, hsize, -, hcols⟩ := SegmentReader.getVectorBatch_eq_some h
  have hcount := SegmentReader.rowCount_selection_getVectorBatch h
  refine ⟨?_, fun col hcol => ?_, fun r hr => ?_⟩
  · rw [hcols, List.map_map]
    rfl
  · rw [hcols] at hcol
    obtain ⟨id, hid, rfl⟩ := List.mem_map.mp hcol
    have hdata : reader.rowCount * typeElemSize (reader.openColumn id).metadata.type ≤
      (reader.openColumn id).data.length := hcovers id hid
    have hsplit : (b.size + offset) * typeElemSize (reader.openColumn id).metadata.type ≤
        reader.rowCount * typeElemSize (reader.openColumn id).metadata.type :=
      Nat.mul_le_mul_right _ (by omega)
    rw [Nat.add_mul] at hsplit
    show b.size * typeElemSize (reader.openColumn id).metadata.type ≤
      ((reader.openColumn id).data.drop _).length
    rw [List.length_drop]
    omega
  · exact ⟨offset + r, by omega, SegmentReader.physicalRow_getVectorBatch h r⟩

/-- **A batch of a segment presents it**, whatever the cursor and the predicates are. -/
theorem presents_scanSegment (hcovers : ∀ id ∈ reader.outColumns options.columns, reader.Covers id)
    {c c' : SegmentScanCursor} (h : scanSegment decideSegment reader options c = .ok (c', some b)) :
    reader.Presents (reader.outColumns options.columns) b := by
  unfold scanSegment at h
  by_cases hskip : c.decisionValid = false ∧
      (decideSegment reader options.predicates).skipSegment = true
  · simp [if_pos hskip] at h
  rw [if_neg hskip] at h
  generalize (if c.decisionValid = true then c else _) = decided at h
  rcases hbatch : reader.getVectorBatch options decided.offset with _ | read
  · simp [hbatch] at h
  · have hpos := SegmentReader.size_getVectorBatch_pos hbatch
    simp only [hbatch, if_neg (Nat.ne_of_gt hpos)] at h
    rcases hfilter : filterBatch { decided with offset := decided.offset + read.physicalSize } read
      with e | filtered
    · simp [hfilter] at h
    · simp only [hfilter, Except.ok.injEq, Prod.mk.injEq, Option.some.injEq] at h
      obtain ⟨-, rfl⟩ := h
      have hpresents := presents_getVectorBatch hcovers hbatch
      unfold filterBatch at hfilter
      split_ifs at hfilter with hopen
      · split at hfilter
        · cases hfilter
        · obtain ⟨hcols, hrows⟩ := columns_apply (identity_getVectorBatch hbatch) hpos
            (SegmentReader.size_getVectorBatch_le hbatch) hfilter
          exact hpresents.select hcols
            (hrows.trans (SegmentReader.rowCount_selection_getVectorBatch hbatch).symm)
      · obtain rfl := Except.ok.inj hfilter
        exact hpresents

end Batches

namespace TableStorage

section

variable {decideSegment : DecisionRule} {t : TableStorage} {hcount : t.metadata.segmentIds.length < 2 ^ 32}
  {disk : Disk} {options : ScanOptions} {b : VectorBatch}

/-- A batch of the loop presents a registered segment. -/
theorem presents_scanLoop {builders : SegmentId → SegmentBuilder} (hholds : t.Holds disk builders)
    (hcols : ∀ c ∈ options.columns, t.schema.HasColumn c) (hne : options.columns ≠ []) {c c' : ScanCursor}
    (h : scanLoop decideSegment t hcount disk options c = .ok (c', some b)) :
    ∃ id ∈ t.metadata.segmentIds, (fileReader (builders id) id).Presents options.columns b := by
  fun_induction scanLoop decideSegment t hcount disk options c with
  | case1 | case3 | case4 | case5 | case6 => simp at h
  | case2 _ _ _ _ ih => exact ih h
  | case7 _ _ _ _ _ _ _ _ _ _ ih => exact ih h
  | case8 _ _ _ _ _ _ _ _ _ _ ih => exact ih h
  | case9 c hfresh id hid reader hreader s output hscan hsize =>
    simp only [Except.ok.injEq, Prod.mk.injEq, Option.some.injEq] at h
    obtain ⟨-, rfl⟩ := h
    have hmem := List.mem_of_getElem? hid
    obtain rfl := Option.some.inj ((hholds.readable id hmem).symm.trans hreader)
    have hout : (fileReader (builders id) id).outColumns options.columns = options.columns := if_neg hne
    have hpresents := presents_scanSegment (fun cid hcid => covers_fileReader (hholds.wf id hmem)
      (hcols cid (hout ▸ hcid))) hscan
    rw [hout] at hpresents
    exact ⟨id, hmem, hpresents⟩

/-- **Every batch of the serial scan presents a registered segment.** -/
theorem presents_scanCalls {builders : SegmentId → SegmentBuilder} (hholds : t.Holds disk builders)
    (hcols : ∀ c ∈ options.columns, t.schema.HasColumn c) (hne : options.columns ≠ []) {c : ScanCursor}
    {bs : List VectorBatch} (h : ScanCalls decideSegment t hcount disk options c bs) :
    ∀ b ∈ bs, ∃ id ∈ t.metadata.segmentIds, (fileReader (builders id) id).Presents options.columns b := by
  induction h with
  | done h => exact fun b hb => absurd hb List.not_mem_nil
  | @next c c' b bs h _ ih =>
    refine List.forall_mem_cons.mpr ⟨?_, ih⟩
    unfold scan at h
    split_ifs at h with hprepare
    · obtain ⟨prepared, -, hloop⟩ := bind_eq_ok h
      exact presents_scanLoop hholds hcols hne hloop
    · exact presents_scanLoop hholds hcols hne h

end

end TableStorage

/-! ## The table of a query -/

/-- A table as a query sees it, stored: every registered segment can be read, and together they have its
rows. -/
structure OpenTable.Stores (table : OpenTable) (t : TableContent) (builders : SegmentId → SegmentBuilder) :
    Prop where
  schema : table.storage.schema = t.schema
  holds : table.storage.Holds table.disk builders
  rows : t.rows = table.storage.readableRows builders

section Table

variable {table : OpenTable} {t : TableContent} {builders : SegmentId → SegmentBuilder} {schema : ExecSchema}
  {scanned : List ColumnId} {b : VectorBatch}

/-- The cells of a row that a segment holds are not longer than elements. -/
theorem length_rowCell_le {tableSchema : TableSchema} {builder : SegmentBuilder} (h : builder.WF tableSchema)
    {row : Row} (hrow : row ∈ builder.rows) (c : ColumnId) :
    (rowCell tableSchema row c).length ≤ typeElemSize (tableSchema.typeOf c) := by
  obtain ⟨j, -, rfl⟩ := List.mem_map.mp hrow
  rcases hindex : columnIndex tableSchema c with _ | i
  · rw [rowCell, hindex]
    exact Nat.zero_le _
  · have hi' : i < tableSchema.columns.length := (List.findIdx?_eq_some_iff_getElem.mp hindex).1
    have hhas : tableSchema.HasColumn c :=
      ⟨tableSchema.columns[i], List.getElem_mem hi',
        eq_of_beq (List.findIdx?_eq_some_iff_getElem.mp hindex).2.1⟩
    obtain ⟨i', hindex', hlt, -, htype⟩ := findColumnSchema_eq_some hhas
    obtain rfl : i = i' := Option.some.inj (hindex.symm.trans hindex')
    have hi : i < builder.columnBuilders.length := h.columns.symm ▸ hi'
    have hcell : rowCell tableSchema (builder.rowAt j) c =
        cell builder.columnBuilders[i].elementSize j builder.columnBuilders[i].data := by
      simp [rowCell, hindex, SegmentBuilder.rowAt, hi]
    rw [hcell, htype, (h.column i hi hi').elementSize_eq]
    exact List.length_take_le _ _

/-- The rows of a stored table, by their segments. -/
theorem OpenTable.Stores.mem_rows (h : table.Stores t builders) {row : Row} (hrow : row ∈ t.rows) :
    ∃ id ∈ table.storage.metadata.segmentIds, row ∈ (builders id).rows := by
  rw [h.rows] at hrow
  exact List.mem_flatMap.mp hrow

theorem OpenTable.Stores.mem_of_builder (h : table.Stores t builders) {id : SegmentId}
    (hid : id ∈ table.storage.metadata.segmentIds) {row : Row} (hrow : row ∈ (builders id).rows) :
    row ∈ t.rows := by
  rw [h.rows]
  exact List.mem_flatMap.mpr ⟨id, hid, hrow⟩

theorem OpenTable.Stores.length_rowCell (h : table.Stores t builders) {row : Row} (hrow : row ∈ t.rows)
    (c : ColumnId) : (rowCell t.schema row c).length ≤ typeElemSize (t.schema.typeOf c) := by
  obtain ⟨id, hid, hmem⟩ := h.mem_rows hrow
  exact length_rowCell_le (h.schema ▸ h.holds.wf id hid) hmem c

/-- The cell of a column of one row is the cell of the row. -/
theorem OpenTable.Stores.cellAt_columnData (h : table.Stores t builders) {row : Row} (hrow : row ∈ t.rows)
    (c : ColumnId) : (t.columnData row c).cellAt 0 = rowCell t.schema row c := by
  rw [ColumnData.cellAt, cell, Nat.zero_mul, List.drop_zero]
  exact List.take_of_length_le (h.length_rowCell hrow c)

/-- The exact number of a cell. -/
theorem OpenTable.Stores.numberAt_eq (h : table.Stores t builders) {row : Row} (hrow : row ∈ t.rows)
    (c : ColumnId) :
    (t.columnData row c).numberAt 0 = cellValue (t.schema.typeOf c) (rowCell t.schema row c) := by
  rw [← h.cellAt_columnData hrow]
  rfl

/-- A row in the slots of a scan is the row restricted to the columns. -/
theorem OpenTable.Stores.slotRow_eq (h : table.Stores t builders) {tableOid : TableId}
    (hslots : scanned.mapM (scanSlot tableOid t.schema) = .ok schema) {row : Row} (hrow : row ∈ t.rows) :
    t.slotRow schema row = project t.schema scanned row := by
  have hschema : schema = scanned.map fun c => ⟨t.schema.typeOf c, some ⟨tableOid, c⟩⟩ := by
    have hall := forall₂_of_mapM hslots
    clear hslots
    induction hall with
    | nil => rfl
    | cons hc _ ih => rw [scanSlot_eq_ok hc, ih, List.map_cons]
  rw [TableContent.slotRow, VectorBatch.physicalRow, TableContent.rowBatch, hschema, project, List.map_map,
    List.map_map]
  exact List.map_congr_left fun c _ => h.cellAt_columnData hrow c

/-- The types of the slots of a scan. -/
theorem slotTypes_mapM_scanSlot {tableOid : TableId}
    (hslots : scanned.mapM (scanSlot tableOid t.schema) = .ok schema) :
    slotTypes schema = scanned.map t.schema.typeOf := by
  have hall := forall₂_of_mapM hslots
  clear hslots
  induction hall with
  | nil => rfl
  | @cons c slot scanned schema hc _ ih =>
    rw [slotTypes, List.map_cons, scanSlot_eq_ok hc, List.map_cons]
    exact congrArg _ ih

/-- The columns of a scan are columns of the table. -/
theorem hasColumn_mapM_scanSlot {tableOid : TableId}
    (hslots : scanned.mapM (scanSlot tableOid t.schema) = .ok schema) : ∀ c ∈ scanned, t.schema.HasColumn c := by
  intro c hc
  obtain ⟨slot, -, hok⟩ := exists_of_mem_mapM hslots hc
  unfold scanSlot at hok
  rcases hfind : findColumnSchema t.schema c with _ | column
  · rw [hfind] at hok
    cases hok
  · have hid : (column.columnId == c) = true :=
      List.find?_some (p := fun column : ColumnSchema => column.columnId == c) hfind
    exact ⟨column, List.mem_of_find?_eq_some hfind, eq_of_beq hid⟩

/-- The type of a column that a segment has. -/
theorem type_openColumn_fileReader {tableSchema : TableSchema} {builder : SegmentBuilder}
    (h : builder.WF tableSchema) (id : SegmentId) {c : ColumnId} (hc : tableSchema.HasColumn c) :
    ((fileReader builder id).openColumn c).metadata.type = tableSchema.typeOf c := by
  obtain ⟨i, hindex, hi', hid, hfirst⟩ := columnIndex_eq_some hc
  obtain ⟨i', hindex', _, -, htype⟩ := findColumnSchema_eq_some hc
  obtain rfl : i = i' := Option.some.inj (hindex.symm.trans hindex')
  rw [htype]
  exact (openColumn_fileReader h (h.columns.symm ▸ hi') hi' hid hfirst).1

/-- **A batch of a segment has the slots of the scan**, and rows of the table. -/
theorem OpenTable.Stores.content (h : table.Stores t builders) {tableOid : TableId}
    (hslots : scanned.mapM (scanSlot tableOid t.schema) = .ok schema) {id : SegmentId}
    (hid : id ∈ table.storage.metadata.segmentIds) (hb : b.Deliverable)
    (hpresents : (fileReader (builders id) id).Presents scanned b) :
    b.Content (slotTypes schema) (t.Shown schema) := by
  have hwf : (builders id).WF t.schema := h.schema ▸ h.holds.wf id hid
  have hcols := hasColumn_mapM_scanSlot hslots
  refine ⟨hb, ?_, hpresents.filled, fun r hr => ?_⟩
  · rw [hpresents.types, slotTypes_mapM_scanSlot hslots]
    exact List.map_congr_left fun c hc => type_openColumn_fileReader hwf id (hcols c hc)
  · obtain ⟨j, hj, hrow⟩ := hpresents.rows r hr
    have hmem : (builders id).rowAt j ∈ (builders id).rows := List.mem_map_of_mem (List.mem_range.mpr hj)
    refine ⟨_, h.mem_of_builder hid hmem, ?_⟩
    rw [hrow, rowAt_fileReader hwf hcols hj, h.slotRow_eq hslots (h.mem_of_builder hid hmem)]

/-! ## Conditions that compare exactly -/

section Conditions

variable {p : SimplePredicate} {row : Row}

/-- A literal of a plan is the double that the statistics compare with. -/
theorem bound_toCondition (hvalue : isNumericLiteral p.value = true) :
    p.toCondition.bound = literalValue p.toCondition.value := by
  unfold Condition.bound SimplePredicate.toCondition
  rcases hp : p.value with v | s | d
  · exact Double.val_ofInt (by have := Int32.le_toInt v; have := Int32.toInt_lt v; omega)
  · rw [hp] at hvalue
    cases hvalue
  · exact binary64.convert_of_mem d.property

theorem isNumeric_toCondition (hvalue : isNumericLiteral p.value = true) : p.toCondition.value.IsNumeric := by
  unfold SimplePredicate.toCondition
  rcases hp : p.value with v | s | d
  · trivial
  · rw [hp] at hvalue
    cases hvalue
  · trivial

/-- **Where rounding does not blur a row, the row filter compares exactly.** -/
theorem OpenTable.Stores.holdsIn_eq (h : table.Stores t builders) (hrow : row ∈ t.rows) (hnoNan : t.NoNan)
    (htype : (t.schema.typeOf p.columnIndex).IsNumeric) (hvalue : isNumericLiteral p.value = true)
    (hliteral : ¬ p.value.IsNan) (hblurs : ¬ p.toCondition.Blurs t.schema row) :
    p.toCondition.holdsIn t.schema row = t.holdsExactly row p.toCondition := by
  have hnumber : p.toCondition.valueIn t.schema row = (t.columnData row p.columnIndex).numberAt 0 :=
    (h.numberAt_eq hrow p.columnIndex).symm
  have hv : p.toCondition.valueIn t.schema row ≠ .nan := hnumber ▸ hnoNan row hrow p.columnIndex
  have hbound := bound_toCondition hvalue
  have hl : p.toCondition.bound ≠ .nan := hbound ▸ SimpleOlap.literalValue_ne_nan hvalue hliteral
  have hexact : t.holdsExactly row p.toCondition =
      Fp.cmp p.op (p.toCondition.valueIn t.schema row) p.toCondition.bound := by
    rw [hnumber, hbound]
    rfl
  have hdouble : binary64.convert (p.toCondition.valueIn t.schema row) = p.toCondition.valueIn t.schema row →
      p.toCondition.holdsIn t.schema row = t.holdsExactly row p.toCondition := by
    intro hmem
    have hagree := (Condition.holdsIn_iff htype (isNumeric_toCondition hvalue) hv hl).mpr hblurs
    rw [hmem] at hagree
    rw [hexact, Bool.eq_iff_iff, hagree, Fp.cmp_iff hv hl]
    rfl
  rcases htype with htype | htype | htype | htype
  · refine hdouble ?_
    rw [Condition.valueIn, SimplePredicate.toCondition, htype]
    have hlo := Int32.le_toInt (Numeric.read (rowCell t.schema row p.columnIndex) : Int32)
    have hhi := Int32.toInt_lt (Numeric.read (rowCell t.schema row p.columnIndex) : Int32)
    refine Double.val_ofInt ?_
    show (Numeric.read (rowCell t.schema row p.columnIndex) : Int32).toInt.natAbs < _
    omega
  · rw [Condition.holdsIn, hexact, hbound, show t.schema.typeOf p.toCondition.column = .int64 from htype]
    rfl
  · refine hdouble (binary64.convert_of_mem (mem_binary64_of_mem_binary32 ?_))
    rw [Condition.valueIn, SimplePredicate.toCondition, htype]
    exact (Numeric.read _ : Single).property
  · refine hdouble (binary64.convert_of_mem ?_)
    rw [Condition.valueIn, SimplePredicate.toCondition, htype]
    exact (Numeric.read _ : Double).property

/-- Where rounding blurs no row, the zone maps leave the rows of a scan alone. -/
theorem scanExact_of_not_blurs {tableSchema : TableSchema} {conds : List Condition} {rows : List Row}
    (h : ∀ cond ∈ conds, ∀ row ∈ rows, cond.valueIn tableSchema row ≠ .nan ∧ ¬ cond.Blurs tableSchema row) :
    ScanExact tableSchema conds rows :=
  ⟨fun cond hcond _ row hrow hover => absurd hover (by simp [Condition.Overlooks, h cond hcond row hrow]),
    fun _ cond hcond _ row hrow hover => absurd hover (by simp [Condition.Overcounts, h cond hcond row hrow])⟩

/-- Rounding brings no value of the table and no literal of these predicates together. -/
def TableContent.Sharp (t : TableContent) (pushed : List SimplePredicate) : Prop :=
  ∀ p ∈ pushed, ∀ row ∈ t.rows, ¬ p.toCondition.Blurs t.schema row

/-- Predicates on scanned columns can be prepared. -/
theorem exists_build {pushed : List SimplePredicate} (hnumeric : ∀ p ∈ pushed, p.Numeric t)
    (hcolumns : ∀ p ∈ pushed, p.columnIndex ∈ scanned) :
    ∃ prepared, PreparedScanPredicates.build ⟨scanned, pushed.map SimplePredicate.toCondition⟩ t.schema =
      .ok prepared := by
  refine mapM_isOk fun cond hcond => ?_
  obtain ⟨p, hp, rfl⟩ := List.mem_map.mp hcond
  exact prepare_isOk_of_isNumeric (hcolumns p hp) (hnumeric p hp).type (isNumeric_toCondition (hnumeric p hp).value)

/-- The rows of a segment that satisfy the conditions, in the slots of the scan. -/
theorem segmentRows_fileReader {tableSchema : TableSchema} {builder : SegmentBuilder}
    (h : builder.WF tableSchema) (id : SegmentId) {options : ScanOptions}
    {prepared : List PreparedStoragePredicate}
    (hall : List.Forall₂ (Prepared options.columns tableSchema) options.predicates prepared)
    (hne : options.columns ≠ []) (hcols : ∀ c ∈ options.columns, tableSchema.HasColumn c) :
    segmentRows options prepared (fileReader builder id) =
      (builder.rows.filter fun row => options.predicates.all fun cond => cond.holdsIn tableSchema row).map
        (project tableSchema options.columns) := by
  have hout : (fileReader builder id).outColumns options.columns = options.columns := if_neg hne
  have hrow : ∀ j ∈ List.range builder.rowCount, outputRow options (fileReader builder id) j =
      project tableSchema options.columns (builder.rowAt j) := by
    intro j hj
    rw [outputRow, hout, rowAt_fileReader h hcols (List.mem_range.mp hj)]
  rw [segmentRows, SegmentBuilder.rows, List.filter_map, List.filter_map, List.map_map]
  refine (congrArg _ (List.filter_congr fun j hj => ?_)).trans (List.map_congr_left fun j hj => ?_)
  · rw [Function.comp_apply, Function.comp_apply, Bool.eq_iff_iff,
      rowPasses_outputRow_iff h hall (List.mem_range.mp hj), List.all_eq_true]
  · exact hrow j (List.mem_filter.mp hj).1

/-- A stored table can be scanned with these predicates. -/
theorem OpenTable.Stores.scannable (h : table.Stores t builders) {tableOid : TableId}
    (hslots : scanned.mapM (scanSlot tableOid t.schema) = .ok schema) {pushed : List SimplePredicate}
    (hcolumns : ∀ p ∈ pushed, p.columnIndex ∈ scanned) {prepared : List PreparedStoragePredicate}
    (hbuild : PreparedScanPredicates.build ⟨scanned, pushed.map SimplePredicate.toCondition⟩ t.schema =
      .ok prepared) :
    table.storage.Scannable SegmentReader.evaluatePredicates table.disk
      ⟨scanned, pushed.map SimplePredicate.toCondition⟩ prepared := by
  intro id hid
  have hwf : (builders id).WF t.schema := h.schema ▸ h.holds.wf id hid
  refine ⟨_, h.holds.readable id hid, hasPredicateColumns hbuild fun cond hcond => ?_,
    fits_evaluatePredicates (build_eq_ok hbuild).length_eq⟩
  obtain ⟨p, hp, rfl⟩ := List.mem_map.mp hcond
  exact type_openColumn_fileReader hwf id (hasColumn_mapM_scanSlot hslots _ (hcolumns p hp))

/-- **The rows of a scan** are the rows of the table that satisfy its predicates, in its slots. -/
theorem OpenTable.Stores.scannedRows_eq (h : table.Stores t builders) (hnoNan : t.NoNan)
    {tableOid : TableId} (hslots : scanned.mapM (scanSlot tableOid t.schema) = .ok schema) (hne : scanned ≠ [])
    {pushed : List SimplePredicate} (hnumeric : ∀ p ∈ pushed, p.Numeric t) (hsharp : t.Sharp pushed)
    {prepared : List PreparedStoragePredicate}
    (hbuild : PreparedScanPredicates.build ⟨scanned, pushed.map SimplePredicate.toCondition⟩ t.schema =
      .ok prepared) :
    table.storage.scannedRows SegmentReader.evaluatePredicates table.disk
        ⟨scanned, pushed.map SimplePredicate.toCondition⟩ prepared =
      (t.rows.filter fun row => (pushed.map SimplePredicate.toCondition).all (t.holdsExactly row)).map
        (t.slotRow schema) := by
  have hall := build_eq_ok hbuild
  have hcols := hasColumn_mapM_scanSlot hslots
  have hwf : ∀ id ∈ table.storage.metadata.segmentIds, (builders id).WF t.schema :=
    fun id hid => h.schema ▸ h.holds.wf id hid
  have hholds : ∀ p ∈ pushed, ∀ row ∈ t.rows,
      p.toCondition.holdsIn t.schema row = t.holdsExactly row p.toCondition := fun p hp row hrow =>
    h.holdsIn_eq hrow hnoNan (hnumeric p hp).type (hnumeric p hp).value (hnumeric p hp).literal (hsharp p hp row hrow)
  -- segment by segment, the decision makes no difference
  have hsegment : ∀ id ∈ table.storage.metadata.segmentIds,
      TableStorage.registeredRows SegmentReader.evaluatePredicates table.disk
        ⟨scanned, pushed.map SimplePredicate.toCondition⟩ prepared id =
      ((builders id).rows.filter fun row => (pushed.map SimplePredicate.toCondition).all (t.holdsExactly row)).map
        (t.slotRow schema) := by
    intro id hid
    have hmem : ∀ row ∈ (builders id).rows, row ∈ t.rows := fun row hrow => h.mem_of_builder hid hrow
    have hexact : ScanExact t.schema (pushed.map SimplePredicate.toCondition) (builders id).rows := by
      refine scanExact_of_not_blurs fun cond hcond row hrow => ?_
      obtain ⟨p, hp, rfl⟩ := List.mem_map.mp hcond
      have hnumber : p.toCondition.valueIn t.schema row = (t.columnData row p.columnIndex).numberAt 0 :=
        (h.numberAt_eq (hmem row hrow) p.columnIndex).symm
      exact ⟨hnumber ▸ hnoNan row (hmem row hrow) p.columnIndex, hsharp p hp row (hmem row hrow)⟩
    rw [TableStorage.registeredRows, h.holds.readable id hid]
    refine ((decidedRows_eq_segmentRows_iff (hwf id hid) hall).mpr hexact).trans
      ((segmentRows_fileReader (hwf id hid) id hall hne hcols).trans ?_)
    have hfilter : ((builders id).rows.filter fun row =>
        (pushed.map SimplePredicate.toCondition).all fun cond => cond.holdsIn t.schema row) =
        (builders id).rows.filter fun row =>
          (pushed.map SimplePredicate.toCondition).all (t.holdsExactly row) := by
      refine List.filter_congr fun row hrow => ?_
      rw [Bool.eq_iff_iff, List.all_eq_true, List.all_eq_true]
      refine forall₂_congr fun cond hcond => ?_
      obtain ⟨p, hp, rfl⟩ := List.mem_map.mp hcond
      rw [hholds p hp row (hmem row hrow)]
    rw [hfilter]
    refine List.map_congr_left fun row hrow => ?_
    exact (h.slotRow_eq hslots (hmem row (List.mem_filter.mp hrow).1)).symm
  rw [TableStorage.scannedRows, h.rows, TableStorage.readableRows, List.filter_flatMap, List.map_flatMap,
    List.flatMap_def, List.flatMap_def]
  exact congrArg _ (List.map_congr_left hsegment)

/-- **What a scan hands out**: batches that list the rows of the table that satisfy the pushed predicates. -/
theorem OpenTable.Stores.exists_streamed_scan (h : table.Stores t builders) (hnoNan : t.NoNan)
    {tableOid : TableId} (hslots : scanned.mapM (scanSlot tableOid t.schema) = .ok schema) (hne : scanned ≠ [])
    {pushed : List SimplePredicate} (hnumeric : ∀ p ∈ pushed, p.Numeric t)
    (hcolumns : ∀ p ∈ pushed, p.columnIndex ∈ scanned) (hsharp : t.Sharp pushed) :
    ∃ bs, TableStorage.ScanCalls SegmentReader.evaluatePredicates table.storage table.segmentCount table.disk
        ⟨scanned, pushed.map SimplePredicate.toCondition⟩ .fresh bs ∧
      Streamed t schema bs
        (t.rows.filter fun row => (pushed.map SimplePredicate.toCondition).all (t.holdsExactly row)) := by
  obtain ⟨prepared, hbuild⟩ := @exists_build t scanned pushed hnumeric hcolumns
  have hcolsTable : ∀ c ∈ scanned, table.storage.schema.HasColumn c := h.schema ▸ hasColumn_mapM_scanSlot hslots
  obtain ⟨bs, hcalls, hrows, hbatches⟩ := TableStorage.exists_scanCalls_fresh table.segmentCount
    (h.schema.symm ▸ hbuild) (h.scannable hslots hcolumns hbuild)
  refine ⟨bs, hcalls, streamed_of_activeRows (fun b hb => ?_) ?_⟩
  · obtain ⟨hpos, hstrong, -⟩ := hbatches b hb
    obtain ⟨id, hid, hpresents⟩ := TableStorage.presents_scanCalls h.holds hcolsTable hne hcalls b hb
    exact h.content hslots hid (hstrong.deliverable hpos) hpresents
  · rw [hrows, h.scannedRows_eq hnoNan hslots hne hnumeric hsharp hbuild]

end Conditions

end Table

end SimpleOlap
