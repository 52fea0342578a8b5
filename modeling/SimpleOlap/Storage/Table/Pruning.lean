import SimpleOlap.Storage.Index.KeyEncoder
import SimpleOlap.Storage.Segment.RoundTrip
import SimpleOlap.Storage.Segment.Statistics
import SimpleOlap.Storage.Table.ScanSegment

/-!
# Zone-map pruning and the row filter

`SegmentReader::EvaluatePredicates` compares doubles: the bounds of the column against the constant. The
row filter compares in the column's own type. Here the two are put side by side, for any segment that was
built from chunks.

* `Condition.holdsIn`: the comparison of the row filter on one row.
* `Condition.Excludes`, `Condition.Includes`: the counted values of the column lie where the operator
  cannot hold, or has to.
* `Condition.Blurs`: the two comparisons of a row differ, because rounding brings the value and the
  constant together in one of them (`holdsIn_iff`).
* `PruningExact` and `soundDecision_evaluatePredicates_iff`: when the decision says only what is so.
* `ScanExact` and `decidedRows_eq_segmentRows_iff`: when a scan under the decision hands out the rows that
  satisfy the conjunction. A row that one condition overcounts may still be left out by another.
-/

namespace SimpleOlap

open Lib SegmentBuilder

/-! ## One row and one condition -/

namespace Condition

section Definitions

variable (schema : TableSchema) (cond : Condition)

/-- The value of a row in the condition's column. -/
def valueIn (row : Row) : Fp :=
  cellValue (schema.typeOf cond.column) (rowCell schema row cond.column)

/-- The constant as a double. -/
def bound : Fp := binary64.convert (literalValue cond.value)

/-- The comparison of the row filter, with the constant bound to the column's type. -/
def holdsIn (row : Row) : Bool :=
  Fp.cmp cond.op (cond.valueIn schema row) (boundLiteral (schema.typeOf cond.column) cond.value)

/-- The values of the column that its statistics count, as doubles. -/
def countedIn (rows : List Row) : List Fp :=
  counted (rows.map fun row => binary64.convert (cond.valueIn schema row))

/-- The counted values, if any, lie where the operator cannot hold. -/
def Excludes (rows : List Row) : Prop :=
  cond.countedIn schema rows ≠ [] ∧ cond.bound ≠ .nan ∧
    Outside cond.op cond.bound.key ((cond.countedIn schema rows).map Fp.key)

/-- The counted values, if any, lie where the operator has to hold. -/
def Includes (rows : List Row) : Prop :=
  cond.countedIn schema rows ≠ [] ∧ cond.bound ≠ .nan ∧
    Inside cond.op cond.bound.key ((cond.countedIn schema rows).map Fp.key)

/-- Value and constant are told apart by the operator and come together by rounding: as doubles, which
the statistics of an INT64 column are, or by narrowing the constant to a FLOAT column. -/
def Blurs (row : Row) : Prop :=
  match schema.typeOf cond.column with
  | .int64 => (binary64.convert (cond.valueIn schema row)).eq cond.bound = true ∧
      cond.op.Separates (cond.valueIn schema row).key (literalValue cond.value).key
  | .float => (cond.valueIn schema row).eq (binary32.convert cond.bound) = true ∧
      cond.op.Separates (cond.valueIn schema row).key cond.bound.key
  | _ => False

/-- A row that passes although the counted values exclude it: NaN is different from everything. -/
def Overlooks (row : Row) : Prop :=
  cond.valueIn schema row = .nan ∧ cond.op = .ne ∨ cond.Blurs schema row

/-- A row that fails although the counted values include it. -/
def Overcounts (row : Row) : Prop :=
  cond.valueIn schema row = .nan ∧ cond.op ≠ .ne ∨ cond.Blurs schema row

end Definitions

variable {schema : TableSchema} {cond : Condition} {row : Row} {rows : List Row}

instance : Decidable (cond.Excludes schema rows) := by
  unfold Excludes
  infer_instance

instance : Decidable (cond.Includes schema rows) := by
  unfold Includes
  infer_instance

instance : Decidable (cond.Blurs schema row) := by
  unfold Blurs
  split <;> infer_instance

instance : Decidable (cond.Overlooks schema row) := by
  unfold Overlooks
  infer_instance

instance : Decidable (cond.Overcounts schema row) := by
  unfold Overcounts
  infer_instance

/-- NaN is not brought together with anything. -/
theorem not_blurs_of_nan (h : cond.valueIn schema row = .nan) : ¬ cond.Blurs schema row := by
  unfold Blurs
  rw [h]
  split
  · rw [show binary64.convert .nan = .nan from rfl, Fp.eq_nan_left]
    exact fun hb => Bool.false_ne_true hb.1
  · rw [Fp.eq_nan_left]
    exact fun hb => Bool.false_ne_true hb.1
  · exact id

/-- An integer that is a double, and so are its neighbours, is the double of no other integer. -/
theorem key_eq_of_key_convert_ofInt_eq {v w : ℤ} (hlo : -2 ^ 31 ≤ v) (hhi : v < 2 ^ 31)
    (h : (Fp.ofInt unit v).key = (binary64.convert (.ofInt unit w)).key) :
    (Fp.ofInt unit v).key = (Fp.ofInt unit w).key := by
  have hmem : ∀ z : ℤ, -2 ^ 32 ≤ z → z ≤ 2 ^ 32 → binary64.Mem (.ofInt unit z) := by
    intro z hz hz'
    have hval := Double.val_ofInt (z := z) (by omega)
    exact hval ▸ (Double.ofInt z).property
  rcases lt_trichotomy w v with hlt | rfl | hgt
  · have hle := binary64.key_convert_le (Fp.ofInt_ne_nan w) (Fp.ofInt_ne_nan (v - 1))
      (hmem (v - 1) (by omega) (by omega)) ((Fp.key_ofInt_le_iff unit_pos _ _).mpr (by omega))
    rw [← h, Fp.key_ofInt_le_iff unit_pos] at hle
    omega
  · rfl
  · have hle := binary64.le_key_convert (Fp.ofInt_ne_nan (v + 1)) (Fp.ofInt_ne_nan w)
      (hmem (v + 1) (by omega) (by omega)) ((Fp.key_ofInt_le_iff unit_pos _ _).mpr (by omega))
    rw [← h, Fp.key_ofInt_le_iff unit_pos] at hle
    omega

/-- The constant is a number when its double is. -/
theorem literalValue_ne_nan (hl : cond.bound ≠ .nan) : literalValue cond.value ≠ .nan := by
  rw [← Fp.isNan_eq_false_iff, ← binary64.isNan_convert, Fp.isNan_eq_false_iff]
  exact hl

/-- An INT32 value and a constant do not come together as doubles. -/
theorem key_literalValue_eq {v : ℤ} (hlo : -2 ^ 31 ≤ v) (hhi : v < 2 ^ 31)
    (hvalue : cond.value.IsNumeric) (h : (Fp.ofInt unit v).key = cond.bound.key) :
    (Fp.ofInt unit v).key = (literalValue cond.value).key := by
  unfold bound at h
  rcases hcond : cond.value with w | w | d | s <;> rw [hcond] at h hvalue
  · exact key_eq_of_key_convert_ofInt_eq hlo hhi h
  · exact key_eq_of_key_convert_ofInt_eq hlo hhi h
  · rwa [literalValue, binary64.convert_of_mem d.property] at h
  · exact absurd hvalue id

/-- **The two comparisons of a row agree unless rounding decides.** -/
theorem holdsIn_iff (htype : (schema.typeOf cond.column).IsNumeric) (hvalue : cond.value.IsNumeric)
    (hv : cond.valueIn schema row ≠ .nan) (hl : cond.bound ≠ .nan) :
    (cond.holdsIn schema row = true ↔
      cond.op.holds (binary64.convert (cond.valueIn schema row)).key cond.bound.key) ↔
        ¬ cond.Blurs schema row := by
  have hlit := cond.literalValue_ne_nan hl
  have hv' := binary64.convert_ne_nan hv
  unfold holdsIn Blurs
  rcases htype with ht | ht | ht | ht <;> simp only [ht]
  · -- INT32 values are doubles, and no constant is rounded onto one
    obtain ⟨v, hval, hlo, hhi⟩ : ∃ v : ℤ, cond.valueIn schema row = .ofInt unit v ∧ -2 ^ 31 ≤ v ∧
        v < 2 ^ 31 := by
      refine ⟨(Numeric.read (rowCell schema row cond.column) : Int32).toInt, ?_, Int32.le_toInt _,
        Int32.toInt_lt _⟩
      rw [valueIn, ht]
      rfl
    have hmem : binary64.convert (.ofInt unit v) = .ofInt unit v := Double.val_ofInt (by omega)
    have hle : (literalValue cond.value).key ≤ (Fp.ofInt unit v).key →
        cond.bound.key ≤ (Fp.ofInt unit v).key := by
      intro h
      rw [← hmem]
      exact binary64.key_convert_mono hlit (Fp.ofInt_ne_nan v) h
    have hge : (Fp.ofInt unit v).key ≤ (literalValue cond.value).key →
        (Fp.ofInt unit v).key ≤ cond.bound.key := by
      intro h
      rw [← hmem]
      exact binary64.key_convert_mono (Fp.ofInt_ne_nan v) hlit h
    have hagree := holds_iff_holds_iff cond.op hge hle
    rw [hval, hmem, show boundLiteral .int32 cond.value = literalValue cond.value from rfl,
      Fp.cmp_iff (Fp.ofInt_ne_nan v) hlit]
    refine iff_of_true (hagree.mpr ?_).symm not_false
    rintro ⟨heq, hsep⟩
    rw [key_literalValue_eq hlo hhi hvalue heq] at hsep
    exact cond.op.not_separates_self _ hsep
  · have hagree := holds_iff_holds_iff cond.op
      (binary64.key_convert_mono hv hlit) (binary64.key_convert_mono hlit hv)
    rw [show boundLiteral .int64 cond.value = literalValue cond.value from rfl,
      Fp.cmp_iff hv hlit, Fp.eq_iff hv' hl]
    exact iff_comm.trans hagree
  · have hmem : binary32.Mem (cond.valueIn schema row) := by
      rw [valueIn, ht]
      exact (Numeric.read _ : Single).property
    have hagree := holds_iff_holds_iff cond.op
      (binary32.key_convert_mono hv hl) (binary32.key_convert_mono hl hv)
    have hnarrow := binary32.convert_ne_nan hl
    rw [binary32.convert_of_mem hmem] at hagree
    rw [binary64.convert_of_mem (mem_binary64_of_mem_binary32 hmem),
      show boundLiteral .float cond.value = binary32.convert cond.bound from rfl,
      Fp.cmp_iff hv hnarrow, Fp.eq_iff hv hnarrow]
    exact hagree
  · have hmem : binary64.Mem (cond.valueIn schema row) := by
      rw [valueIn, ht]
      exact (Numeric.read _ : Double).property
    rw [binary64.convert_of_mem hmem, show boundLiteral .double cond.value = cond.bound from rfl,
      Fp.cmp_iff hv hl]
    exact iff_of_true Iff.rfl not_false

/-- A NaN row passes for `≠` only. -/
theorem holdsIn_of_nan (hv : cond.valueIn schema row = .nan) :
    cond.holdsIn schema row = decide (cond.op = .ne) := by
  rw [holdsIn, hv, Fp.cmp_nan_left]

/-- A value of a column that has counted values is counted itself, unless it is NaN. -/
theorem key_mem_countedIn (hne : cond.countedIn schema rows ≠ []) (hrow : row ∈ rows)
    (hv : cond.valueIn schema row ≠ .nan) :
    (binary64.convert (cond.valueIn schema row)).key ∈ (cond.countedIn schema rows).map Fp.key :=
  List.mem_map_of_mem (mem_counted_of_ne_nan (counted_ne_nil_iff.mp hne).2
    (List.mem_map_of_mem (f := fun row => binary64.convert (cond.valueIn schema row)) hrow)
    (binary64.convert_ne_nan hv))

section Rows

variable (htype : (schema.typeOf cond.column).IsNumeric) (hvalue : cond.value.IsNumeric)

include htype hvalue

/-- **The rows that pass where the counted values are excluded.** -/
theorem Excludes.holdsIn_iff (h : cond.Excludes schema rows) (hrow : row ∈ rows) :
    cond.holdsIn schema row = true ↔ cond.Overlooks schema row := by
  obtain ⟨hne, hl, hout⟩ := h
  unfold Overlooks
  by_cases hv : cond.valueIn schema row = .nan
  · simp [holdsIn_of_nan hv, hv, not_blurs_of_nan hv]
  · have hnot := hout.not_holds (key_mem_countedIn hne hrow hv)
    have hagree := Condition.holdsIn_iff htype hvalue hv hl
    simp only [hnot, iff_false, hv, false_and, false_or] at hagree ⊢
    exact not_iff_not.mp hagree

/-- **The rows that fail where the counted values are included.** -/
theorem Includes.holdsIn_iff (h : cond.Includes schema rows) (hrow : row ∈ rows) :
    cond.holdsIn schema row = true ↔ ¬ cond.Overcounts schema row := by
  obtain ⟨hne, hl, hin⟩ := h
  unfold Overcounts
  by_cases hv : cond.valueIn schema row = .nan
  · simp [holdsIn_of_nan hv, hv, not_blurs_of_nan hv]
  · have hholds := hin.holds (key_mem_countedIn hne hrow hv)
    have hagree := Condition.holdsIn_iff htype hvalue hv hl
    simp only [hholds, iff_true, hv, false_and, false_or] at hagree ⊢
    exact hagree

end Rows

end Condition

/-! ## The columns of a segment -/

section Segment

variable {schema : TableSchema} {b : SegmentBuilder} {id : SegmentId} {cond : Condition}

/-- A column with a type is in the schema. -/
theorem hasColumn_of_typeOf_ne {cid : ColumnId} (h : schema.typeOf cid ≠ .invalid) :
    schema.HasColumn cid := by
  rcases hfind : findColumnSchema schema cid with _ | c
  · exact absurd (by simp only [TableSchema.typeOf, hfind]) h
  · have hid : (c.columnId == cid) = true :=
      List.find?_some (p := fun c : ColumnSchema => c.columnId == cid) hfind
    exact ⟨c, List.mem_of_find?_eq_some hfind, eq_of_beq hid⟩

theorem typeOf_ne_invalid {cid : ColumnId} (h : (schema.typeOf cid).IsNumeric) :
    schema.typeOf cid ≠ .invalid := by
  intro hinvalid
  rw [hinvalid] at h
  rcases h with h | h | h | h <;> cases h

/-- The element the statistics see is the double of the cell's value. -/
theorem val_statValue {type : DataType} (htype : type.IsNumeric) {c : Bytes}
    (hlen : c.length ≤ typeElemSize type) :
    (statValue type c).val = binary64.convert (cellValue type c) := by
  unfold statValue
  rcases htype with rfl | rfl | rfl | rfl <;> dsimp only <;>
    rw [List.take_of_length_le (by exact hlen)]
  · rfl
  · rfl
  · rfl
  · exact (binary64.convert_of_mem (Numeric.read c : Double).property).symm

/-- **The statistics of a column are those of the values its rows have.** -/
theorem statistics_fileReader (h : b.WF schema) (htype : (schema.typeOf cond.column).IsNumeric) :
    Statistics ((fileReader b id).getColumnMeta cond.column)
      (b.rows.map fun row => binary64.convert (cond.valueIn schema row)) := by
  have hhas := hasColumn_of_typeOf_ne (typeOf_ne_invalid htype)
  obtain ⟨i, hindex, hi', hid, hfirst⟩ := columnIndex_eq_some hhas
  have hof : schema.typeOf cond.column = schema.columns[i].type := by
    obtain ⟨j, hindex', hj, -, hof⟩ := findColumnSchema_eq_some hhas
    obtain rfl : i = j := Option.some.inj (hindex.symm.trans hindex')
    exact hof
  have hi : i < b.columnBuilders.length := h.columns.symm ▸ hi'
  have hcol := h.column i hi hi'
  have hvals : b.rows.map (fun row => binary64.convert (cond.valueIn schema row)) =
      b.columnBuilders[i].cells.map fun c => (statValue schema.columns[i].type c).val := by
    rw [SegmentBuilder.rows, ColumnBuilder.cells, Lib.cells, List.map_map, List.map_map, h.rowCount i hi]
    apply List.map_congr_left
    intro j hj
    have hcell : rowCell schema (b.rowAt j) cond.column =
        cell b.columnBuilders[i].elementSize j b.columnBuilders[i].data := by
      simp [rowCell, hindex, SegmentBuilder.rowAt, hi]
    simp only [Function.comp_apply, Condition.valueIn, hof, hcell]
    rw [val_statValue (hof ▸ htype)]
    rw [hcol.elementSize_eq]
    exact List.length_take_le _ _
  have hstat := hcol.statistics (hof ▸ htype)
  rw [← hvals] at hstat
  have hfind := h.find?_layout hi hi' hid hfirst (b.metaSize id)
  rw [SegmentReader.getColumnMeta]
  simp only [fileReader, finalMeta, fileMeta, hfind]
  -- the offset of the data is not part of the statistics
  exact ⟨hstat.hasStats, hstat.nan, hstat.bounds⟩

/-- **What a prepared predicate says about a row of the segment.** -/
theorem passesRow_outputRow (h : b.WF schema) {options : ScanOptions} {p : PreparedStoragePredicate}
    (hp : Prepared options.columns schema cond p) {j : ℕ} (hj : j < b.rowCount) :
    p.passesRow (outputRow options (fileReader b id) j) = cond.holdsIn schema (b.rowAt j) := by
  obtain ⟨hlt, hslot, -⟩ := List.findIdx?_eq_some_iff_getElem.mp hp.slot
  have hne : options.columns ≠ [] := List.ne_nil_of_length_pos (Nat.zero_lt_of_lt hlt)
  have hhas : ∀ c ∈ [cond.column], schema.HasColumn c := by
    intro c hc
    rw [List.mem_singleton.mp hc]
    exact hasColumn_of_typeOf_ne (typeOf_ne_invalid (hp.type ▸ hp.numeric))
  have hcell : (fileReader b id).rowAt [cond.column] j = project schema [cond.column] (b.rowAt j) :=
    rowAt_fileReader h hhas hj
  have hget : (outputRow options (fileReader b id) j).getD p.outputSlot [] =
      rowCell schema (b.rowAt j) cond.column := by
    have hcol : options.columns[p.outputSlot] = cond.column := by simpa using hslot
    simp only [SegmentReader.rowAt, project, List.map_cons, List.map_nil, List.cons.injEq, and_true]
      at hcell
    rw [← hcell, outputRow, SegmentReader.outColumns, if_neg hne, SegmentReader.rowAt]
    simp [List.getD_eq_getElem?_getD, hlt, hcol]
  rw [PreparedStoragePredicate.passesRow, hget, hp.passes, hp.type]
  rfl

/-- The segment is skipped for a condition whose counted values are excluded. -/
theorem evaluateByStats_fileReader (id : SegmentId) (h : b.WF schema)
    (htype : (schema.typeOf cond.column).IsNumeric)
    (hvalue : cond.value.IsNumeric) :
    (SegmentReader.evaluateByStats ((fileReader b id).getColumnMeta cond.column) cond = .skip ↔
      cond.Excludes schema b.rows) ∧
    (SegmentReader.evaluateByStats ((fileReader b id).getColumnMeta cond.column) cond = .allMatch ↔
      cond.Includes schema b.rows) := by
  have hstat := @statistics_fileReader schema b id cond h htype
  have hlit := condValueAsDouble_of_isNumeric hvalue
  exact ⟨evaluateByStats_eq_skip_iff hstat hlit, evaluateByStats_eq_allMatch_iff hstat hlit⟩

end Segment

/-! ## The decision on a conjunction -/

/-- The counted values of the columns do not lead the decision astray. A row that is overlooked by an
excluding condition fails another condition; where no condition excludes, no including one overcounts a
row. -/
def PruningExact (schema : TableSchema) (conds : List Condition) (rows : List Row) : Prop :=
  (∀ cond ∈ conds, cond.Excludes schema rows → ∀ row ∈ rows, cond.Overlooks schema row →
    ∃ other ∈ conds, other.holdsIn schema row = false) ∧
  ((∀ cond ∈ conds, ¬ cond.Excludes schema rows) → ∀ cond ∈ conds, cond.Includes schema rows →
    ∀ row ∈ rows, ¬ cond.Overcounts schema row)

instance (schema : TableSchema) (conds : List Condition) (rows : List Row) :
    Decidable (PruningExact schema conds rows) := by
  unfold PruningExact
  infer_instance

section Decision

variable {schema : TableSchema} {options : ScanOptions} {prepared : List PreparedStoragePredicate}
  {b : SegmentBuilder} {id : SegmentId}

/-- The conditions are about typed columns and numbers. -/
theorem isNumeric_of_prepared
    (hall : List.Forall₂ (Prepared options.columns schema) options.predicates prepared)
    {cond : Condition} (hcond : cond ∈ options.predicates) :
    (schema.typeOf cond.column).IsNumeric ∧ cond.value.IsNumeric := by
  obtain ⟨i, hi, rfl⟩ := List.getElem_of_mem hcond
  have hprep := hall.get hi (hall.length_eq ▸ hi)
  exact ⟨hprep.type ▸ hprep.numeric, hprep.literal⟩

/-- A row passes when it satisfies every condition. -/
theorem rowPasses_outputRow_iff (h : b.WF schema)
    (hall : List.Forall₂ (Prepared options.columns schema) options.predicates prepared) {j : ℕ}
    (hj : j < b.rowCount) : rowPasses prepared [] (outputRow options (fileReader b id) j) = true ↔
      ∀ cond ∈ options.predicates, cond.holdsIn schema (b.rowAt j) = true := by
  rw [rowPasses_nil, List.all_eq_true]
  generalize options.predicates = conds at hall
  induction hall with
  | nil => simp
  | cons hp _ ih => simp only [List.forall_mem_cons, ih, passesRow_outputRow h hp hj]

/-- The segment is skipped when a condition excludes its counted values. -/
theorem skipSegment_fileReader_iff (id : SegmentId) (h : b.WF schema)
    (hall : List.Forall₂ (Prepared options.columns schema) options.predicates prepared) :
    ((fileReader b id).evaluatePredicates options.predicates).skipSegment = true ↔
      ∃ cond ∈ options.predicates, cond.Excludes schema b.rows := by
  rw [SegmentReader.skipSegment_evaluatePredicates]
  refine exists_congr fun cond => and_congr_right fun hcond => ?_
  obtain ⟨htype, hvalue⟩ := isNumeric_of_prepared hall hcond
  exact (evaluateByStats_fileReader id h htype hvalue).1

/-- In a segment that is not skipped, the conditions that do not include the counted values are
marked. -/
theorem rowFilterMask_fileReader (h : b.WF schema)
    (hall : List.Forall₂ (Prepared options.columns schema) options.predicates prepared)
    (hkeep : ((fileReader b id).evaluatePredicates options.predicates).skipSegment = false) :
    ((fileReader b id).evaluatePredicates options.predicates).rowFilterMask =
      options.predicates.map fun cond => decide (¬ cond.Includes schema b.rows) := by
  rw [SegmentReader.rowFilterMask_evaluatePredicates _ hkeep]
  apply List.map_congr_left
  intro cond hcond
  obtain ⟨htype, hvalue⟩ := isNumeric_of_prepared hall hcond
  obtain ⟨hskip, hmatch⟩ := evaluateByStats_fileReader id h htype hvalue
  have hnot : SegmentReader.evaluateByStats ((fileReader b id).getColumnMeta cond.column) cond ≠ .skip :=
    fun hs => Bool.eq_false_iff.mp hkeep
      ((skipSegment_fileReader_iff id h hall).mpr ⟨cond, hcond, hskip.mp hs⟩)
  rw [decide_eq_decide, ← hmatch]
  rcases hm : SegmentReader.evaluateByStats ((fileReader b id).getColumnMeta cond.column) cond with
    _ | _ | _
  · exact absurd hm hnot
  · simp
  · simp

/-- A condition is not evaluated when it includes the counted values. -/
theorem rowFilterMask_fileReader_iff (h : b.WF schema)
    (hall : List.Forall₂ (Prepared options.columns schema) options.predicates prepared)
    (hkeep : ((fileReader b id).evaluatePredicates options.predicates).skipSegment = false) {i : ℕ}
    (hi : i < options.predicates.length) :
    ((fileReader b id).evaluatePredicates options.predicates).rowFilterMask[i]? = some false ↔
      options.predicates[i].Includes schema b.rows := by
  rw [rowFilterMask_fileReader h hall hkeep]
  simp [hi]

/-- A row of the segment has a place. -/
theorem exists_rowAt_of_mem {row : Row} (hrow : row ∈ b.rows) : ∃ j < b.rowCount, b.rowAt j = row := by
  obtain ⟨j, hj, hrow⟩ := List.mem_map.mp hrow
  exact ⟨j, List.mem_range.mp hj, hrow⟩

/-- **When a skipped segment has no row that passes.** -/
theorem skip_sound_iff (id : SegmentId) (h : b.WF schema)
    (hall : List.Forall₂ (Prepared options.columns schema) options.predicates prepared) :
    (((fileReader b id).evaluatePredicates options.predicates).skipSegment = true →
      ∀ j < b.rowCount, rowPasses prepared [] (outputRow options (fileReader b id) j) = false) ↔
    ∀ cond ∈ options.predicates, cond.Excludes schema b.rows → ∀ row ∈ b.rows,
      cond.Overlooks schema row → ∃ other ∈ options.predicates, other.holdsIn schema row = false := by
  have hfails : ∀ j < b.rowCount,
      (rowPasses prepared [] (outputRow options (fileReader b id) j) = false ↔
        ∃ other ∈ options.predicates, other.holdsIn schema (b.rowAt j) = false) := by
    intro j hj
    rw [Bool.eq_false_iff, ne_eq, rowPasses_outputRow_iff h hall hj]
    simp
  rw [skipSegment_fileReader_iff id h hall]
  constructor
  · intro hskip cond hcond hexc row hrow _
    obtain ⟨j, hj, rfl⟩ := exists_rowAt_of_mem hrow
    exact (hfails j hj).mp (hskip ⟨cond, hcond, hexc⟩ j hj)
  · rintro hexact ⟨cond, hcond, hexc⟩ j hj
    have hrow : b.rowAt j ∈ b.rows := List.mem_map_of_mem (List.mem_range.mpr hj)
    obtain ⟨htype, hvalue⟩ := isNumeric_of_prepared hall hcond
    have hpass := hexc.holdsIn_iff htype hvalue hrow
    rw [hfails j hj]
    by_cases hover : cond.Overlooks schema (b.rowAt j)
    · exact hexact cond hcond hexc _ hrow hover
    · exact ⟨cond, hcond, Bool.eq_false_iff.mpr fun hholds => hover (hpass.mp hholds)⟩

/-- **When a predicate that is not evaluated holds of every row.** -/
theorem mask_sound_iff (id : SegmentId) (h : b.WF schema)
    (hall : List.Forall₂ (Prepared options.columns schema) options.predicates prepared) :
    (((fileReader b id).evaluatePredicates options.predicates).skipSegment = false →
      ∀ (i : ℕ) (p : PreparedStoragePredicate),
        ((fileReader b id).evaluatePredicates options.predicates).rowFilterMask[i]? = some false →
        prepared[i]? = some p →
        ∀ j < b.rowCount, p.passesRow (outputRow options (fileReader b id) j) = true) ↔
    ((∀ cond ∈ options.predicates, ¬ cond.Excludes schema b.rows) → ∀ cond ∈ options.predicates,
      cond.Includes schema b.rows → ∀ row ∈ b.rows, ¬ cond.Overcounts schema row) := by
  have hkeep : ((fileReader b id).evaluatePredicates options.predicates).skipSegment = false ↔
      ∀ cond ∈ options.predicates, ¬ cond.Excludes schema b.rows := by
    rw [Bool.eq_false_iff, ne_eq, skipSegment_fileReader_iff id h hall]
    simp
  constructor
  · intro hmask hnone cond hcond hinc row hrow
    obtain ⟨i, hi, rfl⟩ := List.getElem_of_mem hcond
    obtain ⟨j, hj, rfl⟩ := exists_rowAt_of_mem hrow
    obtain ⟨htype, hvalue⟩ := isNumeric_of_prepared hall hcond
    have hi' : i < prepared.length := hall.length_eq ▸ hi
    have hprep : Prepared options.columns schema options.predicates[i] prepared[i] := hall.get hi hi'
    have hclosed := (rowFilterMask_fileReader_iff h hall (hkeep.mpr hnone) hi).mpr hinc
    have hpass := hmask (hkeep.mpr hnone) i prepared[i] hclosed (List.getElem?_eq_getElem hi') j hj
    rw [passesRow_outputRow h hprep hj] at hpass
    exact (hinc.holdsIn_iff htype hvalue hrow).mp hpass
  · intro hexact hskip i p hclosed hp j hj
    obtain ⟨hi', rfl⟩ := List.getElem?_eq_some_iff.mp hp
    have hi : i < options.predicates.length := hall.length_eq ▸ hi'
    have hprep : Prepared options.columns schema options.predicates[i] prepared[i] := hall.get hi hi'
    have hcond := List.getElem_mem hi
    have hrow : b.rowAt j ∈ b.rows := List.mem_map_of_mem (List.mem_range.mpr hj)
    obtain ⟨htype, hvalue⟩ := isNumeric_of_prepared hall hcond
    have hinc := (rowFilterMask_fileReader_iff h hall hskip hi).mp hclosed
    rw [passesRow_outputRow h hprep hj]
    exact (hinc.holdsIn_iff htype hvalue hrow).mpr
      (hexact (hkeep.mp hskip) _ hcond hinc _ hrow)

/-- **When zone-map pruning is sound.** For the segment of any list of chunks of fewer than `2 ^ 32` rows, whose
counts a file holds, and any conjunction that can be prepared, a skipped segment has no row that the row
filter would keep, and a predicate that is not evaluated holds of every row, if and only if neither NaN nor
rounding leads the decision astray: every row that an excluding condition overlooks fails another condition,
and where no condition excludes, no including one overcounts a row. -/
theorem soundDecision_evaluatePredicates_iff {chunks : List DataChunk}
    (hf : ∀ c ∈ chunks, c.Fits schema) (id : SegmentId)
    (hbuild : PreparedScanPredicates.build options schema = .ok prepared) :
    (chunks.flatMap DataChunk.rows).length < 2 ^ 32 →
    (SoundDecision options prepared (fileReader (ofChunks schema chunks) id)
        ((fileReader (ofChunks schema chunks) id).evaluatePredicates options.predicates) ↔
      PruningExact schema options.predicates (chunks.flatMap DataChunk.rows)) := by
  intro _
  have h : (ofChunks schema chunks).WF schema := wf_ofChunks hf
  have hall := build_eq_ok hbuild
  have hskip := skip_sound_iff id h hall
  have hmask := mask_sound_iff id h hall
  rw [← rows_ofChunks hf]
  constructor
  · intro hs
    exact ⟨hskip.mp hs.skip, hmask.mp hs.mask⟩
  · rintro ⟨hexc, hinc⟩
    exact ⟨fits_evaluatePredicates hall.length_eq, hskip.mpr hexc, hmask.mpr hinc⟩

/-! ### The rows of a scan -/

/-- The decision makes no difference to the rows: an overlooked row fails another condition, and so does
an overcounted one, if that condition is evaluated. -/
def ScanExact (schema : TableSchema) (conds : List Condition) (rows : List Row) : Prop :=
  (∀ cond ∈ conds, cond.Excludes schema rows → ∀ row ∈ rows, cond.Overlooks schema row →
    ∃ other ∈ conds, other.holdsIn schema row = false) ∧
  ((∀ cond ∈ conds, ¬ cond.Excludes schema rows) → ∀ cond ∈ conds, cond.Includes schema rows →
    ∀ row ∈ rows, cond.Overcounts schema row →
      ∃ other ∈ conds, ¬ other.Includes schema rows ∧ other.holdsIn schema row = false)

instance (schema : TableSchema) (conds : List Condition) (rows : List Row) :
    Decidable (ScanExact schema conds rows) := by
  unfold ScanExact
  infer_instance

/-- A row passes under a mask when it satisfies the conditions that the mask marks. -/
theorem rowPasses_map_iff (h : b.WF schema) {conds : List Condition}
    (hall : List.Forall₂ (Prepared options.columns schema) conds prepared) (mark : Condition → Bool)
    {j : ℕ} (hj : j < b.rowCount) :
    rowPasses prepared (conds.map mark) (outputRow options (fileReader b id) j) = true ↔
      ∀ cond ∈ conds, mark cond = true → cond.holdsIn schema (b.rowAt j) = true := by
  induction hall with
  | nil => simp [rowPasses]
  | @cons cond p conds ps hp _ ih =>
    rw [List.map_cons, rowPasses, Bool.and_eq_true, ih, passesRow_outputRow h hp hj,
      List.forall_mem_cons]
    cases mark cond <;> simp

/-- **When a scan of a segment hands out the rows that satisfy all conditions.** -/
theorem decidedRows_eq_segmentRows_iff (h : b.WF schema)
    (hall : List.Forall₂ (Prepared options.columns schema) options.predicates prepared) :
    decidedRows options prepared (fileReader b id)
        ((fileReader b id).evaluatePredicates options.predicates) =
      segmentRows options prepared (fileReader b id) ↔
    ScanExact schema options.predicates b.rows := by
  have hskipIff := skip_sound_iff id h hall
  have hexcludes := skipSegment_fileReader_iff id h hall
  unfold decidedRows rowsFrom segmentRows
  by_cases hskip : ((fileReader b id).evaluatePredicates options.predicates).skipSegment = true
  · -- nothing is handed out
    rw [if_pos hskip, eq_comm, List.filter_eq_nil_iff]
    have hfirst : (∀ row ∈ (List.range (fileReader b id).rowCount).map
        (outputRow options (fileReader b id)), ¬ rowPasses prepared [] row = true) ↔
        ∀ j < b.rowCount, rowPasses prepared [] (outputRow options (fileReader b id) j) = false := by
      simp
    refine hfirst.trans (Iff.trans ⟨fun hfails => hskipIff.mp fun _ => hfails,
      fun hexact => hskipIff.mpr hexact hskip⟩ ?_)
    obtain ⟨cond, hcond, hexc⟩ := hexcludes.mp hskip
    exact ⟨fun hover => ⟨hover, fun hnone => absurd hexc (hnone cond hcond)⟩, fun hexact => hexact.1⟩
  · -- the marked conditions have to imply the others
    have hkeep := Bool.eq_false_iff.mpr hskip
    have hnone : ∀ cond ∈ options.predicates, ¬ cond.Excludes schema b.rows :=
      fun cond hcond hexc => hskip (hexcludes.mpr ⟨cond, hcond, hexc⟩)
    rw [if_neg hskip, Nat.sub_zero, ← List.range_eq_range', rowFilterMask_fileReader h hall hkeep]
    have hmarked : ∀ j < b.rowCount, (rowPasses prepared
        (options.predicates.map fun cond => decide (¬ cond.Includes schema b.rows))
        (outputRow options (fileReader b id) j) = true ↔ ∀ cond ∈ options.predicates,
          ¬ cond.Includes schema b.rows → cond.holdsIn schema (b.rowAt j) = true) := by
      intro j hj
      rw [rowPasses_map_iff h hall _ hj]
      simp only [decide_eq_true_eq]
    constructor
    · intro heq
      refine ⟨fun cond hcond hexc => absurd hexc (hnone cond hcond), fun _ cond hcond hinc row hrow hover => ?_⟩
      obtain ⟨j, hj, rfl⟩ := exists_rowAt_of_mem hrow
      obtain ⟨htype, hvalue⟩ := isNumeric_of_prepared hall hcond
      by_contra hno
      push Not at hno
      have hpass := (hmarked j hj).mpr fun other hother hopen => by
        simpa using hno other hother hopen
      have hmem := List.mem_filter.mpr ⟨List.mem_map_of_mem
        (f := outputRow options (fileReader b id)) (List.mem_range.mpr hj), hpass⟩
      rw [rowCount_fileReader] at heq
      rw [heq] at hmem
      have hall' := (rowPasses_outputRow_iff h hall hj).mp (List.mem_filter.mp hmem).2
      exact (hinc.holdsIn_iff htype hvalue hrow).mp (hall' cond hcond) hover
    · rintro ⟨-, hexact⟩
      apply List.filter_congr
      intro row hrow
      obtain ⟨j, hj, rfl⟩ := List.mem_map.mp hrow
      have hj' : j < b.rowCount := List.mem_range.mp hj
      have hmem : b.rowAt j ∈ b.rows := List.mem_map_of_mem hj
      rw [Bool.eq_iff_iff, hmarked j hj', rowPasses_outputRow_iff h hall hj']
      refine ⟨fun hopen cond hcond => ?_, fun hholds cond hcond _ => hholds cond hcond⟩
      by_cases hinc : cond.Includes schema b.rows
      · obtain ⟨htype, hvalue⟩ := isNumeric_of_prepared hall hcond
        refine (hinc.holdsIn_iff htype hvalue hmem).mpr fun hover => ?_
        obtain ⟨other, hother, hopenOther, hfails⟩ := hexact hnone cond hcond hinc _ hmem hover
        exact Bool.false_ne_true (hfails.symm.trans (hopen other hother hopenOther))
      · exact hopen cond hcond hinc

end Decision

/-! ### A DOUBLE column with a NaN -/

/-- A table with one DOUBLE column. -/
def doubleSchema : TableSchema := ⟨[⟨0, [100], .double⟩], none, []⟩

/-- Two rows, `1` and NaN. -/
def nanChunk : DataChunk :=
  ⟨2, 0, [leBytes 8 0x3ff0000000000000 ++ leBytes 8 0x7ff8000000000000], [8]⟩

theorem nanChunk_fits : nanChunk.Fits doubleSchema where
  columns := rfl
  sizes := rfl
  inside := by decide
  small := by decide

/-- The bounds are `1` and `1`, so `d < 2` is not evaluated, and the NaN row is in the result. -/
theorem not_soundDecision_nan :
    ∃ p, PreparedScanPredicates.build ⟨[0], [⟨0, .lt, .int32 2⟩]⟩ doubleSchema = .ok [p] ∧
      (fileReader (ofChunks doubleSchema [nanChunk]) 1).evaluatePredicates [⟨0, .lt, .int32 2⟩] =
        ⟨false, [false]⟩ ∧
      p.passesRow (outputRow ⟨[0], [⟨0, .lt, .int32 2⟩]⟩
        (fileReader (ofChunks doubleSchema [nanChunk]) 1) 1) = false ∧
      ¬ SoundDecision ⟨[0], [⟨0, .lt, .int32 2⟩]⟩ [p]
        (fileReader (ofChunks doubleSchema [nanChunk]) 1)
        ((fileReader (ofChunks doubleSchema [nanChunk]) 1).evaluatePredicates
          [⟨0, .lt, .int32 2⟩]) := by
  have hdecision : (fileReader (ofChunks doubleSchema [nanChunk]) 1).evaluatePredicates
      [⟨0, .lt, .int32 2⟩] = ⟨false, [false]⟩ := by decide +kernel
  have hfails : PreparedStoragePredicate.passesRow ⟨.typedCompare, 0, .double, .lt,
      .double (Double.ofInt 2)⟩ (outputRow ⟨[0], [⟨0, .lt, .int32 2⟩]⟩
        (fileReader (ofChunks doubleSchema [nanChunk]) 1) 1) = false := by decide +kernel
  refine ⟨_, rfl, hdecision, hfails, fun hs => ?_⟩
  rw [hdecision] at hs
  have hpass := hs.mask rfl 0 _ rfl rfl 1 (by decide)
  exact Bool.false_ne_true (hfails.symm.trans hpass)

/-- `d > 5` skips the segment, and no row passes. -/
theorem soundDecision_greater :
    ∃ prepared, PreparedScanPredicates.build ⟨[0], [⟨0, .gt, .int32 5⟩]⟩ doubleSchema = .ok prepared ∧
      SoundDecision ⟨[0], [⟨0, .gt, .int32 5⟩]⟩ prepared
        (fileReader (ofChunks doubleSchema [nanChunk]) 1)
        ((fileReader (ofChunks doubleSchema [nanChunk]) 1).evaluatePredicates
          [⟨0, .gt, .int32 5⟩]) := by
  have hfits : ∀ c ∈ [nanChunk], c.Fits doubleSchema := by
    intro c hc
    rw [List.mem_singleton.mp hc]
    exact nanChunk_fits
  have hbuild : PreparedScanPredicates.build ⟨[0], [⟨0, .gt, .int32 5⟩]⟩ doubleSchema =
      .ok [⟨.typedCompare, 0, .double, .gt, .double (Double.ofInt 5)⟩] := rfl
  exact ⟨_, hbuild, (soundDecision_evaluatePredicates_iff hfits 1 hbuild (by decide)).mpr (by decide +kernel)⟩

end SimpleOlap
