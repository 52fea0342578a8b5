import SimpleOlap.Storage.Scan.RowFilter
import SimpleOlap.Lib.Results
import Mathlib.Data.List.Forall2
import Mathlib.Algebra.Order.Field.Rat
import Mathlib.Algebra.Order.Field.Basic

/-!
# Integer columns: the filter decides the exact comparison

The binding of a predicate on an integer column casts doubles to `int64_t` and `int64_t` to
`int32_t`. Here it is written once more with checked casts, which have no result out of range.

* `holdsExactly op v l`: the truth of `v op l` for an integer and a literal, in the rationals.
* `CheckedCasts.build`: the binding with checked casts.
* `integer_predicates_exact`: the checked binding succeeds, it is the binding of the source, and the
  row filter keeps exactly the rows for which the comparisons are true.
-/

namespace SimpleOlap

open Lib PreparedScanPredicates

/-! ## The comparison itself -/

/-- The integer a cell of an integer column holds. -/
def integerCell (type : DataType) (c : Bytes) : ℤ :=
  if type = .int32 then (Numeric.read c : Int32).toInt else (Numeric.read c : Int64).toInt

/-- The truth of `v op l`. A finite double is the rational it denotes, an infinity lies beyond every
integer, and NaN satisfies `≠` only. -/
def holdsExactly (op : CmpOp) (v : ℤ) : Literal → Prop
  | .int32 k => op.holds v k.toInt
  | .int64 k => op.holds v k.toInt
  | .double d =>
    match d.val with
    | .nan => op = .ne
    | .inf true => op = .ne ∨ op = .gt ∨ op = .ge
    | .inf false => op = .ne ∨ op = .lt ∨ op = .le
    | .num neg mag => op.holds (v : ℚ) (Fp.signed neg mag / unit)
  | .string _ => False

instance (op : CmpOp) (v : ℤ) (l : Literal) : Decidable (holdsExactly op v l) :=
  match l with
  | .int32 k => inferInstanceAs (Decidable (op.holds v k.toInt))
  | .int64 k => inferInstanceAs (Decidable (op.holds v k.toInt))
  | .double ⟨.nan, _⟩ => inferInstanceAs (Decidable (op = .ne))
  | .double ⟨.inf true, _⟩ => inferInstanceAs (Decidable (op = .ne ∨ op = .gt ∨ op = .ge))
  | .double ⟨.inf false, _⟩ => inferInstanceAs (Decidable (op = .ne ∨ op = .lt ∨ op = .le))
  | .double ⟨.num neg mag, _⟩ =>
    inferInstanceAs (Decidable (op.holds (v : ℚ) (Fp.signed neg mag / unit)))
  | .string _ => inferInstanceAs (Decidable False)

/-- An integer compares with a finite value as it does with the rational. -/
theorem holds_rat_iff (op : CmpOp) (v x : ℤ) :
    op.holds (v : ℚ) (x / unit) ↔ op.holds (v * unit : ℤ) x := by
  have hu : (0 : ℚ) < unit := by exact_mod_cast unit_pos
  have hcast : ((v * unit : ℤ) : ℚ) = v * unit := by push_cast; rfl
  have hle : (v : ℚ) ≤ x / unit ↔ v * unit ≤ x := by
    rw [le_div_iff₀ hu, ← hcast, Int.cast_le]
  have hge : (x : ℚ) / unit ≤ v ↔ x ≤ v * unit := by
    rw [div_le_iff₀ hu, ← hcast, Int.cast_le]
  have heq : (v : ℚ) = x / unit ↔ v * unit = x := by
    rw [le_antisymm_iff, hle, hge, ← le_antisymm_iff]
  cases op with
  | eq => exact heq
  | ne => exact heq.not
  | gt => exact (not_le.symm.trans hle.not).trans not_le
  | ge => exact hge
  | lt => exact (not_le.symm.trans hge.not).trans not_le
  | le => exact hle

/-- Integers compare as their places do. -/
theorem holds_coe_iff (op : CmpOp) (x y : ℤ) :
    op.holds ((x : WithTop ℤ) : WithBot (WithTop ℤ)) ((y : WithTop ℤ) : WithBot (WithTop ℤ)) ↔
      op.holds x y := by
  have heq : ((x : WithTop ℤ) : WithBot (WithTop ℤ)) = ((y : WithTop ℤ) : WithBot (WithTop ℤ)) ↔
      x = y := WithBot.coe_inj.trans WithTop.coe_inj
  cases op with
  | eq => exact heq
  | ne => exact heq.not
  | gt => exact WithBot.coe_lt_coe.trans WithTop.coe_lt_coe
  | ge => exact WithBot.coe_le_coe.trans WithTop.coe_le_coe
  | lt => exact WithBot.coe_lt_coe.trans WithTop.coe_lt_coe
  | le => exact WithBot.coe_le_coe.trans WithTop.coe_le_coe

/-- Every integer lies above the negative infinity. -/
theorem holds_bot_iff (op : CmpOp) (x : ℤ) :
    op.holds ((x : WithTop ℤ) : WithBot (WithTop ℤ)) (Fp.inf true).key ↔
      op = .ne ∨ op = .gt ∨ op = .ge := by
  have h : (Fp.inf true).key < ((x : WithTop ℤ) : WithBot (WithTop ℤ)) := WithBot.bot_lt_coe _
  cases op <;> simp [CmpOp.holds, h, h.ne', h.le, h.not_gt, h.not_ge]

/-- Every integer lies below the positive infinity. -/
theorem holds_top_iff (op : CmpOp) (x : ℤ) :
    op.holds ((x : WithTop ℤ) : WithBot (WithTop ℤ)) (Fp.inf false).key ↔
      op = .ne ∨ op = .lt ∨ op = .le := by
  have h : ((x : WithTop ℤ) : WithBot (WithTop ℤ)) < (Fp.inf false).key :=
    WithBot.coe_lt_coe.mpr (WithTop.coe_lt_top x)
  cases op <;> simp [CmpOp.holds, h, h.ne, h.le, h.not_gt, h.not_ge]

/-- The comparison of the values is the comparison in the rationals. -/
theorem cmp_cellValue_eq {type : DataType} (h : type = .int32 ∨ type = .int64) (op : CmpOp)
    (c : Bytes) {l : Literal} (hl : l.IsNumeric) :
    Fp.cmp op (cellValue type c) (boundLiteral type l) = 
      decide (holdsExactly op (integerCell type c) l) := by
  have hcell : cellValue type c = .ofInt unit (integerCell type c) := by
    rcases h with rfl | rfl <;> rfl
  have hbound : boundLiteral type l = literalValue l := by rcases h with rfl | rfl <;> rfl
  rw [hcell, hbound, Bool.eq_iff_iff, decide_eq_true_iff]
  generalize integerCell type c = v
  cases l with
  | int32 k => exact Fp.cmp_ofInt_ofInt unit_pos op v k.toInt
  | int64 k => exact Fp.cmp_ofInt_ofInt unit_pos op v k.toInt
  | double d =>
    obtain ⟨a, ha⟩ := d
    unfold holdsExactly literalValue
    rcases a with _ | neg | ⟨neg, mag⟩
    · rw [Fp.cmp_nan_right, decide_eq_true_iff]
    · rw [Fp.cmp_iff (Fp.ofInt_ne_nan v) (by simp), Fp.key_ofInt]
      cases neg with
      | true => exact holds_bot_iff op _
      | false => exact holds_top_iff op _
    · rw [Fp.cmp_iff (Fp.ofInt_ne_nan v) (by simp), Fp.key_ofInt, Fp.key_num]
      exact (holds_coe_iff op _ _).trans (holds_rat_iff op v _).symm
  | string s => exact absurd hl id

/-! ## Casts that are checked -/

namespace CheckedCasts

/-- `static_cast<int32_t>` of an `int64_t` of the range. -/
def castInt32 (value : Int64) : Option Int32 :=
  if -2 ^ 31 ≤ value.toInt ∧ value.toInt < 2 ^ 31 then some value.toInt32 else none

/-- `static_cast<int64_t>` of a double whose integral part is in the range. -/
def castInt64 (d : Fp) : Option Int64 :=
  match d with
  | .num _ _ =>
    if -2 ^ 63 ≤ d.trunc unit ∧ d.trunc unit < 2 ^ 63 then some (doubleToInt64 d) else none
  | _ => none

/-- Source: SetIntegerConstantPredicate. -/
def setIntegerConstantPredicate (lo hi : ℤ) (op : CmpOp) (value : Int64)
    (p : PreparedStoragePredicate) : Option PreparedStoragePredicate :=
  if value.toInt < lo ∨ hi < value.toInt then
    some { p with kind := outOfRangeKind op (decide (value.toInt < lo)) }
  else if p.type = .int32 then do
    let v ← castInt32 value
    some { p with kind := .typedCompare, op := op, value := .int32 v }
  else
    some { p with kind := .typedCompare, op := op, value := .int64 value }

/-- Source: SetIntegerDoublePredicate. -/
def setIntegerDoublePredicate (lo hi : ℤ) (loD hiExclD : Double) (op : CmpOp) (d : Double)
    (p : PreparedStoragePredicate) : Option PreparedStoragePredicate :=
  if ¬ (loD.val.le d.val && d.val.lt hiExclD.val) then
    if d.val.isNan then
      some { p with kind := if op = .ne then .alwaysTrue else .alwaysFalse }
    else
      some { p with kind := outOfRangeKind op (!hiExclD.val.le d.val) }
  else if (d.val.floor unit).eq d.val then do
    let v ← castInt64 d.val
    setIntegerConstantPredicate lo hi op v p
  else
    match op with
    | .eq => some { p with kind := .alwaysFalse }
    | .ne => some { p with kind := .alwaysTrue }
    | .gt | .ge => do
      let v ← castInt64 (d.val.floor unit)
      setIntegerConstantPredicate lo hi .gt v p
    | .lt | .le => do
      let v ← castInt64 (d.val.ceil unit)
      setIntegerConstantPredicate lo hi .lt v p

/-- Source: BindIntegerPredicate; `none` stands for a cast out of range. -/
def bindIntegerPredicate (type : DataType) (op : CmpOp) (cond : Condition)
    (p : PreparedStoragePredicate) : Option (Except String PreparedStoragePredicate) :=
  let (lo, hi) := integerBounds type
  match cond.value with
  | .int32 v => Except.ok <$> setIntegerConstantPredicate lo hi op v.toInt64 p
  | .int64 v => Except.ok <$> setIntegerConstantPredicate lo hi op v p
  | .double d => Except.ok <$>
    setIntegerDoublePredicate lo hi (Double.ofInt lo) (Double.ofInt (hi + 1)) op d p
  | .string _ => some (.error "pushed predicate contains unsupported literal type")

variable {p : PreparedStoragePredicate}

theorem setIntegerConstantPredicate_eq (op : CmpOp) (value : Int64) :
    setIntegerConstantPredicate (integerBounds p.type).1 (integerBounds p.type).2 op value p =
      some (PreparedScanPredicates.setIntegerConstantPredicate (integerBounds p.type).1
        (integerBounds p.type).2 op value p) := by
  unfold setIntegerConstantPredicate PreparedScanPredicates.setIntegerConstantPredicate
  by_cases hout : value.toInt < (integerBounds p.type).1 ∨ (integerBounds p.type).2 < value.toInt
  · rw [if_pos hout, if_pos hout]
  · rw [if_neg hout, if_neg hout]
    by_cases ht : p.type = .int32
    · -- within the bounds of the column the cast is in range
      have hrange : -2 ^ 31 ≤ value.toInt ∧ value.toInt < 2 ^ 31 := by
        rw [ht, not_or, not_lt, not_lt] at hout
        exact ⟨hout.1, Int.lt_of_le_sub_one hout.2⟩
      rw [if_pos ht, if_pos ht, castInt32, if_pos hrange]
      rfl
    · rw [if_neg ht, if_neg ht]

/-- A cast of an integral value of the int64 range has a result. -/
theorem castInt64_num {s : Bool} {m : ℕ} {z : ℤ} (hd : (Fp.num s m).trunc unit = z)
    (hlo : -2 ^ 63 ≤ z) (hhi : z < 2 ^ 63) :
    castInt64 (.num s m) = some (doubleToInt64 (.num s m)) := by
  rw [castInt64, hd, if_pos ⟨hlo, hhi⟩]

theorem setIntegerDoublePredicate_eq (h : p.type = .int32 ∨ p.type = .int64) (op : CmpOp)
    (d : Double) :
    setIntegerDoublePredicate (integerBounds p.type).1 (integerBounds p.type).2
      (Double.ofInt (integerBounds p.type).1) (Double.ofInt ((integerBounds p.type).2 + 1)) op d p =
    some (PreparedScanPredicates.setIntegerDoublePredicate (integerBounds p.type).1
      (integerBounds p.type).2 (Double.ofInt (integerBounds p.type).1)
      (Double.ofInt ((integerBounds p.type).2 + 1)) op d p) := by
  obtain ⟨hloD, hhiD⟩ := val_integerBounds h
  have hb := integerBounds_le p.type
  obtain ⟨a, ha⟩ := d
  unfold setIntegerDoublePredicate PreparedScanPredicates.setIntegerDoublePredicate
  simp only [hloD, hhiD]
  by_cases hin : ¬ ((Fp.ofInt unit (integerBounds p.type).1).le a &&
      a.lt (Fp.ofInt unit ((integerBounds p.type).2 + 1))) = true
  · rw [if_pos hin, if_pos hin]
    split_ifs <;> rfl
  rw [if_neg hin, if_neg hin]
  have hnan : a ≠ .nan := by
    rintro rfl
    simp at hin
  rw [not_not, Bool.and_eq_true, Fp.le_iff (Fp.ofInt_ne_nan _) hnan,
    Fp.lt_iff hnan (Fp.ofInt_ne_nan _)] at hin
  -- a value in the range is finite
  rcases a with _ | neg | ⟨s, m⟩
  · exact absurd rfl hnan
  · exact absurd hin Fp.not_key_inf_between
  obtain ⟨hq, hq'⟩ := floor_mem_range hin.1 hin.2
  by_cases hint : (unit : ℤ) ∣ Fp.signed s m
  · have heq := (Fp.eq_floor_num_iff s m).mpr hint
    rw [if_pos heq, if_pos heq,
      castInt64_num (Fp.trunc_num_of_dvd hint) (by omega) (by omega)]
    exact setIntegerConstantPredicate_eq op _
  have hne : ¬ ((Fp.num s m).floor unit).eq (.num s m) = true :=
    fun heq => hint ((Fp.eq_floor_num_iff s m).mp heq)
  rw [if_neg hne, if_neg hne]
  obtain ⟨hclo, hchi⟩ := ceil_mem_range ha hint
  have hfloor : castInt64 ((Fp.num s m).floor unit) =
      some (doubleToInt64 ((Fp.num s m).floor unit)) :=
    castInt64_num (Fp.trunc_floor_num unit_pos) (by omega) (by omega)
  have hceil : castInt64 ((Fp.num s m).ceil unit) =
      some (doubleToInt64 ((Fp.num s m).ceil unit)) :=
    castInt64_num (Fp.trunc_ceil_num unit_pos) hclo hchi
  rw [hfloor, hceil]
  cases op with
  | eq => rfl
  | ne => rfl
  | gt => exact setIntegerConstantPredicate_eq .gt _
  | ge => exact setIntegerConstantPredicate_eq .gt _
  | lt => exact setIntegerConstantPredicate_eq .lt _
  | le => exact setIntegerConstantPredicate_eq .lt _

/-- **No cast of the binding is out of range.** -/
theorem bindIntegerPredicate_eq (h : p.type = .int32 ∨ p.type = .int64) (op : CmpOp)
    (cond : Condition) :
    bindIntegerPredicate p.type op cond p =
      some (PreparedScanPredicates.bindIntegerPredicate p.type op cond p) := by
  unfold bindIntegerPredicate PreparedScanPredicates.bindIntegerPredicate
  rcases cond.value with v | v | d | s
  · simp only [setIntegerConstantPredicate_eq, Option.map_eq_map, Option.map_some]
  · simp only [setIntegerConstantPredicate_eq, Option.map_eq_map, Option.map_some]
  · simp only [setIntegerDoublePredicate_eq h, Option.map_eq_map, Option.map_some]
  · rfl

/-- Source: PreparedScanPredicates::Build, on integer columns. -/
def prepare (columns : List ColumnId) (schema : TableSchema) (cond : Condition) :
    Option (Except String PreparedStoragePredicate) :=
  match columns.findIdx? fun id => id == cond.column with
  | none => some (.error "predicate column is not scanned")
  | some slot =>
    let type := schema.typeOf cond.column
    bindIntegerPredicate type cond.op cond ⟨.typedCompare, slot, type, cond.op, .int32 0⟩

theorem prepare_eq {columns : List ColumnId} {schema : TableSchema} {cond : Condition}
    (h : schema.typeOf cond.column = .int32 ∨ schema.typeOf cond.column = .int64) :
    prepare columns schema cond = some (PreparedScanPredicates.prepare columns schema cond) := by
  unfold prepare PreparedScanPredicates.prepare
  rcases columns.findIdx? fun id => id == cond.column with _ | slot
  · rfl
  · simp only
    rcases h with h | h
    · rw [h]
      exact bindIntegerPredicate_eq (p := ⟨_, slot, .int32, _, _⟩) (.inl rfl) cond.op cond
    · rw [h]
      exact bindIntegerPredicate_eq (p := ⟨_, slot, .int64, _, _⟩) (.inr rfl) cond.op cond

end CheckedCasts

/-! ## The binding and the row filter together -/

/-- A predicate that compares a scanned integer column with a number. -/
structure IntegerPredicate (options : ScanOptions) (schema : TableSchema) (cond : Condition) :
    Prop where
  column : cond.column ∈ options.columns
  type : schema.typeOf cond.column = .int32 ∨ schema.typeOf cond.column = .int64
  literal : cond.value.IsNumeric

/-- The integer a row of scanned cells has in the column of a predicate. -/
def conditionCell (options : ScanOptions) (schema : TableSchema) (cond : Condition) (row : Row) : ℤ :=
  integerCell (schema.typeOf cond.column)
    (row.getD (options.columns.findIdx fun id => id == cond.column) [])

/-- The binding of a number to an integer column does not throw. -/
theorem IntegerPredicate.prepare_isOk {options : ScanOptions} {schema : TableSchema}
    {cond : Condition} (h : IntegerPredicate options schema cond) :
    ∃ p, prepare options.columns schema cond = .ok p := by
  have hslot : ∃ slot, options.columns.findIdx? (fun id => id == cond.column) = some slot := by
    rw [← Option.isSome_iff_exists, List.findIdx?_isSome, List.any_eq_true]
    exact ⟨cond.column, h.column, beq_self_eq_true _⟩
  obtain ⟨slot, hslot⟩ := hslot
  have hlit := h.literal
  unfold prepare
  rw [hslot]
  rcases h.type with ht | ht <;>
    · simp only [ht]
      unfold bindIntegerPredicate
      rcases hval : cond.value with v | v | d | s
      · exact ⟨_, rfl⟩
      · exact ⟨_, rfl⟩
      · exact ⟨_, rfl⟩
      · rw [hval] at hlit
        exact absurd hlit id

/-- A prepared integer predicate decides the exact comparison. -/
theorem IntegerPredicate.passesRow_eq {options : ScanOptions} {schema : TableSchema}
    {cond : Condition} {p : PreparedStoragePredicate} (h : IntegerPredicate options schema cond)
    (hp : Prepared options.columns schema cond p) (row : Row) :
    p.passesRow row =
      decide (holdsExactly cond.op (conditionCell options schema cond row) cond.value) := by
  have hslot : p.outputSlot = options.columns.findIdx fun id => id == cond.column :=
    ((List.findIdx?_eq_some_iff_findIdx_eq.mp hp.slot).2).symm
  rw [PreparedStoragePredicate.passesRow, hp.passes, hp.type, hslot,
    cmp_cellValue_eq h.type cond.op _ h.literal]
  rfl

/-- A prepared predicate can be evaluated on a batch of the scanned columns. -/
theorem Prepared.evaluable {columns : List ColumnId} {schema : TableSchema} {cond : Condition}
    {p : PreparedStoragePredicate} (h : Prepared columns schema cond p) {batch : VectorBatch}
    (htypes : batch.columns.map ColumnData.type = columns.map schema.typeOf) :
    StorageRowFilter.Evaluable batch p := by
  refine ⟨h.numeric, h.wellTyped, ?_⟩
  obtain ⟨hlt, hfound, -⟩ := List.findIdx?_eq_some_iff_getElem.mp h.slot
  have hid : columns[p.outputSlot] = cond.column := by simpa using hfound
  have hget : (batch.columns.map ColumnData.type)[p.outputSlot]? = some p.type := by
    rw [htypes, List.getElem?_map, List.getElem?_eq_getElem hlt, hid, h.type]
    rfl
  rw [List.getElem?_map] at hget
  exact Option.map_eq_some_iff.mp hget

/-- What the marked predicates say about a row, one predicate after the other. -/
theorem rowPasses_eq_all {conds : List Condition} {ps : List PreparedStoragePredicate} {row : Row}
    {holds : Condition → Bool}
    (h : List.Forall₂ (fun cond p => p.passesRow row = holds cond) conds ps) (mask : List Bool)
    (k : ℕ) :
    rowPasses ps (mask.drop k) row =
      (conds.zipIdx k).all fun ci => mask[ci.2]? == some false || holds ci.1 := by
  induction h generalizing k with
  | nil => simp [rowPasses]
  | cons hp _ ih =>
    rw [List.zipIdx_cons, List.all_cons, ← ih]
    by_cases hk : k < mask.length
    · rw [List.drop_eq_getElem_cons hk, rowPasses, hp, List.getElem?_eq_getElem hk]
      cases mask[k] <;> simp
    · rw [List.drop_eq_nil_of_le (Nat.not_lt.mp hk),
        List.drop_eq_nil_of_le (Nat.le_succ_of_le (Nat.not_lt.mp hk)), rowPasses, hp,
        List.getElem?_eq_none (Nat.not_lt.mp hk)]
      simp

/-- **Integer predicates are bound exactly.** Every number is bound to an integer column, with all
casts in range, and the row filter keeps the rows for which the marked comparisons are true. -/
theorem integer_predicates_exact {options : ScanOptions} {schema : TableSchema}
    (h : ∀ cond ∈ options.predicates, IntegerPredicate options schema cond) :
    ∃ ps, build options schema = .ok ps ∧
      (∀ cond ∈ options.predicates, CheckedCasts.prepare options.columns schema cond =
        some (prepare options.columns schema cond)) ∧
      ∀ (batch : VectorBatch) (n : ℕ) (mask : List Bool), StorageRowFilter.Identity batch n →
        0 < n → n ≤ kVectorBatchSize →
        batch.columns.map ColumnData.type = options.columns.map schema.typeOf →
        ∃ out, StorageRowFilter.apply ps mask batch = .ok out ∧ out.columns = batch.columns ∧
          out.activeRows = ((List.range n).map batch.physicalRow).filter fun row =>
            options.predicates.zipIdx.all fun ci => mask[ci.2]? == some false ||
              decide (holdsExactly ci.1.op (conditionCell options schema ci.1 row) ci.1.value) := by
  obtain ⟨ps, hps⟩ : ∃ ps, build options schema = .ok ps := by
    unfold build
    exact mapM_isOk fun cond hcond => (h cond hcond).prepare_isOk
  refine ⟨ps, hps, fun cond hcond => CheckedCasts.prepare_eq (h cond hcond).type, ?_⟩
  intro batch n mask hbatch hpos hn htypes
  have heval : ∀ p ∈ ps, StorageRowFilter.Evaluable batch p := by
    intro p hp
    obtain ⟨cond, -, hcond⟩ := mem_of_mapM_eq_ok hps hp
    exact (prepare_eq_ok hcond).evaluable htypes
  obtain ⟨out, hout, hfiltered⟩ := StorageRowFilter.apply_spec mask hbatch hpos hn heval
  refine ⟨out, hout, hfiltered.columns, ?_⟩
  rw [hfiltered.activeRows]
  apply List.filter_congr
  intro row _
  have hrow : List.Forall₂ (fun cond p => p.passesRow row =
      decide (holdsExactly cond.op (conditionCell options schema cond row) cond.value))
      options.predicates ps := by
    have hprep := (List.forall₂_and_left _ _).mpr ⟨h, build_eq_ok hps⟩
    exact hprep.imp fun cond p hp => hp.1.passesRow_eq hp.2 row
  exact rowPasses_eq_all hrow mask 0

/-- A scan of one INT32 column, for the rows below infinity. -/
def belowInfinity : ScanOptions := ⟨[7], [⟨7, .lt, .double ⟨.inf false, trivial⟩⟩]⟩

/-- Its table. -/
def oneColumn : TableSchema := ⟨[⟨7, [], .int32⟩], none, []⟩

/-- One row of the column. -/
theorem integer_predicates_exact_inf :
    ∃ ps out, build belowInfinity oneColumn = .ok ps ∧
      StorageRowFilter.apply ps [] ⟨[⟨.int32, [1, 0, 0, 0], 1⟩], 1, SelectionMask.setAll 1⟩ =
        .ok out ∧ out.activeRows = [[[1, 0, 0, 0]]] := by
  have hinteger : ∀ cond ∈ belowInfinity.predicates, IntegerPredicate belowInfinity oneColumn cond := by
    intro cond hcond
    rw [belowInfinity, List.mem_singleton] at hcond
    subst hcond
    exact ⟨by decide, .inl rfl, trivial⟩
  obtain ⟨ps, hps, -, hrun⟩ := integer_predicates_exact hinteger
  obtain ⟨out, hout, -, hrows⟩ := hrun ⟨[⟨.int32, [1, 0, 0, 0], 1⟩], 1, SelectionMask.setAll 1⟩ 1 []
    ⟨rfl, rfl, by simp⟩ (by decide) (by decide) rfl
  exact ⟨ps, out, hps, hout, hrows.trans (by decide)⟩

end SimpleOlap
