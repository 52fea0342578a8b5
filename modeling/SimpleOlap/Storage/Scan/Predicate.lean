import SimpleOlap.Storage.Segment.Reader

/-!
# Prepared predicates

A pushed predicate is prepared once for a scan: its column becomes a slot of the output, its
constant a value of the column's own type. Source: `storage_predicate.h`, `storage_predicate.cpp`.

* `PreparedScanPredicates.build`: the preparation, with its exceptions.
* `PreparedStoragePredicate.passes`: what the prepared predicate says about one cell.
* `cellValue`, `boundLiteral`: the exact value of a cell, and of the constant as it is compared with
  a column type (integers exactly, DOUBLE after rounding to double, FLOAT after rounding to float).
-/

namespace SimpleOlap

open Lib

/-- How a prepared predicate is evaluated. -/
inductive PredicateKind
  | typedCompare | alwaysTrue | alwaysFalse
  deriving DecidableEq, Repr

/-- A constant of one of the numeric column types. -/
inductive TypedValue
  | int32 (value : Int32)
  | int64 (value : Int64)
  | float (value : Single)
  | double (value : Double)
  deriving DecidableEq

/-- The column type a constant belongs to. -/
def TypedValue.dataType : TypedValue → DataType
  | .int32 _ => .int32
  | .int64 _ => .int64
  | .float _ => .float
  | .double _ => .double

structure PreparedStoragePredicate where
  kind : PredicateKind
  outputSlot : ℕ
  type : DataType
  op : CmpOp
  value : TypedValue
  deriving DecidableEq

namespace PreparedScanPredicates

/-- The kind when an integer column is compared with something outside its range. -/
def outOfRangeKind (op : CmpOp) (below : Bool) : PredicateKind :=
  match op with
  | .eq => .alwaysFalse
  | .ne => .alwaysTrue
  | .gt | .ge => if below then .alwaysTrue else .alwaysFalse
  | .lt | .le => if below then .alwaysFalse else .alwaysTrue

/-- Source: SetIntegerConstantPredicate. -/
def setIntegerConstantPredicate (lo hi : ℤ) (op : CmpOp) (value : Int64)
    (p : PreparedStoragePredicate) : PreparedStoragePredicate :=
  if value.toInt < lo ∨ hi < value.toInt then
    { p with kind := outOfRangeKind op (decide (value.toInt < lo)) }
  else
    { p with
      kind := .typedCompare
      op := op
      value := if p.type = .int32 then .int32 value.toInt32 else .int64 value }

/-- `static_cast<int64_t>` of a double. -/
def doubleToInt64 (d : Fp) : Int64 := Int64.ofInt (d.trunc unit)

/-- Source: SetIntegerDoublePredicate. -/
def setIntegerDoublePredicate (lo hi : ℤ) (loD hiExclD : Double) (op : CmpOp) (d : Double)
    (p : PreparedStoragePredicate) : PreparedStoragePredicate :=
  if ¬ (loD.val.le d.val && d.val.lt hiExclD.val) then
    if d.val.isNan then
      { p with kind := if op = .ne then .alwaysTrue else .alwaysFalse }
    else
      -- too big is above the range, anything else below it
      { p with kind := outOfRangeKind op (!hiExclD.val.le d.val) }
  else if (d.val.floor unit).eq d.val then
    setIntegerConstantPredicate lo hi op (doubleToInt64 d.val) p
  else
    match op with
    | .eq => { p with kind := .alwaysFalse }
    | .ne => { p with kind := .alwaysTrue }
    | .gt | .ge =>
      setIntegerConstantPredicate lo hi .gt (doubleToInt64 (d.val.floor unit)) p
    | .lt | .le =>
      setIntegerConstantPredicate lo hi .lt (doubleToInt64 (d.val.ceil unit)) p

/-- Bounds of an integer column type: `lo`, `hi` inclusive. -/
def integerBounds (type : DataType) : ℤ × ℤ :=
  if type = .int32 then (-2 ^ 31, 2 ^ 31 - 1) else (-2 ^ 63, 2 ^ 63 - 1)

/-- Source: BindIntegerPredicate. -/
def bindIntegerPredicate (type : DataType) (op : CmpOp) (cond : Condition)
    (p : PreparedStoragePredicate) : Except String PreparedStoragePredicate :=
  let (lo, hi) := integerBounds type
  match cond.value with
  | .int32 v => .ok (setIntegerConstantPredicate lo hi op v.toInt64 p)
  | .int64 v => .ok (setIntegerConstantPredicate lo hi op v p)
  | .double d =>
    .ok (setIntegerDoublePredicate lo hi (Double.ofInt lo) (Double.ofInt (hi + 1)) op d p)
  | .string _ => .error "pushed predicate contains unsupported literal type"

/-- Source: BindFloatingPredicate. -/
def bindFloatingPredicate (type : DataType) (op : CmpOp) (cond : Condition)
    (p : PreparedStoragePredicate) : Except String PreparedStoragePredicate :=
  match SegmentReader.condValueAsDouble cond.value with
  | none => .error "pushed predicate contains unsupported literal type"
  | some v =>
    .ok { p with
      kind := .typedCompare
      op := op
      value := if type = .float then .float v.narrow else .double v }

/-- One predicate of the scan. -/
def prepare (columns : List ColumnId) (schema : TableSchema) (cond : Condition) :
    Except String PreparedStoragePredicate :=
  match columns.findIdx? fun id => id == cond.column with
  | none => .error "predicate column is not scanned"
  | some slot =>
    let type := schema.typeOf cond.column
    let p : PreparedStoragePredicate := ⟨.typedCompare, slot, type, cond.op, .int32 0⟩
    match type with
    | .invalid => .error "pushed predicate references unknown column"
    | .int32 | .int64 => bindIntegerPredicate type cond.op cond p
    | .float | .double => bindFloatingPredicate type cond.op cond p
    | .varchar => .error "pushed predicate contains unsupported column type"

/-- All predicates of the scan, one for one; the first that cannot be prepared throws.

Source: PreparedScanPredicates::Build. -/
def build (options : ScanOptions) (schema : TableSchema) :
    Except String (List PreparedStoragePredicate) :=
  options.predicates.mapM (prepare options.columns schema)

end PreparedScanPredicates

/-! ## What a prepared predicate means -/

/-- The kernel's answer on one cell of the column. -/
def PreparedStoragePredicate.passes (p : PreparedStoragePredicate) (c : Bytes) : Bool :=
  match p.kind with
  | .alwaysTrue => true
  | .alwaysFalse => false
  | .typedCompare =>
    match p.value with
    | .int32 v => compareTypedValue (Numeric.read c : Int32) p.op v
    | .int64 v => compareTypedValue (Numeric.read c : Int64) p.op v
    | .float v => compareTypedValue (Numeric.read c : Single) p.op v
    | .double v => compareTypedValue (Numeric.read c : Double) p.op v

/-- The exact value of a cell of a numeric column (zero for the other types). -/
def cellValue (type : DataType) (c : Bytes) : Fp :=
  match type with
  | .int32 => Numeric.value (Numeric.read c : Int32)
  | .int64 => Numeric.value (Numeric.read c : Int64)
  | .float => Numeric.value (Numeric.read c : Single)
  | .double => Numeric.value (Numeric.read c : Double)
  | _ => .ofInt unit 0

/-- The exact value of a numeric constant. -/
def literalValue : Literal → Fp
  | .int32 v => .ofInt unit v.toInt
  | .int64 v => .ofInt unit v.toInt
  | .double d => d.val
  | .string _ => .nan

/-- The value a column of the type is compared with. -/
def boundLiteral (type : DataType) (l : Literal) : Fp :=
  match type with
  | .float => binary32.convert (binary64.convert (literalValue l))
  | .double => binary64.convert (literalValue l)
  | _ => literalValue l

/-- A constant that is a number. -/
def Literal.IsNumeric : Literal → Prop
  | .string _ => False
  | _ => True

instance (l : Literal) : Decidable l.IsNumeric := by
  cases l <;> unfold Literal.IsNumeric <;> infer_instance

theorem condValueAsDouble_of_isNumeric {l : Literal} (h : l.IsNumeric) :
    SegmentReader.condValueAsDouble l = some (toDouble (literalValue l)) := by
  cases l with
  | int32 v => rfl
  | int64 v => rfl
  | double d => exact congrArg some (toDouble_val d).symm
  | string s => exact absurd h id

end SimpleOlap
