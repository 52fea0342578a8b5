import SimpleOlap.Planner.Binder

/-!
# Plan expressions

* `PlanExpr`, `NamedPlanExpr`: the expressions of plans, with their types.
* `Expr.toString`, `PlanExpr.toString`: the printed forms, every operation in parentheses. Plan expressions
  are also compared by theirs.
* `PlanExpr.Mentions`: the columns of an expression; `mem_collectColumnRefs` shows that they are those the
  code collects.
* `buildPlanExpr`: from a bound expression.

Source: `plan_expression.h`, `plan_expression.cpp`, and `expression.h` for the printed form of a parsed expression.
-/

namespace SimpleOlap

open Lib

/-- Source: `plan_expression.h` PlanExpr; an aggregate without an argument is `COUNT(*)`. -/
inductive PlanExpr
  | columnRef (tableOid colIdx : ℕ) (returnType : DataType)
  | literal (value : PlanLiteralValue) (returnType : DataType)
  | binary (op : PlanBinaryOp) (left right : PlanExpr) (returnType : DataType)
  | agg (aggType : AggType) (arg : PlanExpr) (returnType : DataType)
  | aggStar (aggType : AggType) (returnType : DataType)

/-- Source: `plan_expression.h` NamedPlanExpr. -/
structure NamedPlanExpr where
  expr : PlanExpr
  aliasName : Bytes

/-! ## Printing -/

/-- The number of millionths nearest to a number of units, to the even one of two. -/
def millionths (mag : ℕ) : ℕ :=
  let n := mag * 10 ^ 6
  let q := n / unit
  let twice := 2 * (n % unit)
  if unit < twice ∨ (unit = twice ∧ q % 2 = 1) then q + 1 else q

/-- Six decimals. -/
def sixDigits (n : ℕ) : Bytes :=
  let digits := decimal n
  List.replicate (6 - digits.length) 48 ++ digits

/-- `std::to_string` of a double: six decimals. The sign of NaN is left out. -/
def doubleDecimal : Fp → Bytes
  | .nan => ascii ['n', 'a', 'n']
  | .inf neg => ascii (if neg then ['-', 'i', 'n', 'f'] else ['i', 'n', 'f'])
  | .num neg mag =>
    ascii (if neg then ['-'] else []) ++ decimal (millionths mag / 10 ^ 6) ++ ascii ['.'] ++
      sixDigits (millionths mag % 10 ^ 6)

/-- Source: `plan_expression.cpp` BinaryOpName. -/
def binaryOpName : PlanBinaryOp → Bytes
  | .add => ascii ['+']
  | .sub => ascii ['-']
  | .eq => ascii ['=']
  | .ne => ascii ['!', '=']
  | .gt => ascii ['>']
  | .ge => ascii ['>', '=']
  | .lt => ascii ['<']
  | .le => ascii ['<', '=']
  | .and => ascii ['A', 'N', 'D']
  | .or => ascii ['O', 'R']

/-- Source: `plan_expression.cpp` AggName. -/
def aggName : AggType → Bytes
  | .sum => ascii ['S', 'U', 'M']
  | .count => ascii ['C', 'O', 'U', 'N', 'T']
  | .avg => ascii ['A', 'V', 'G']
  | .min => ascii ['M', 'I', 'N']
  | .max => ascii ['M', 'A', 'X']
  | .invalid => ascii ['I', 'N', 'V', 'A', 'L', 'I', 'D']

/-- Source: `expression.h` BinaryOpExpr::ToString, the names. -/
def BinaryOp.name : BinaryOp → Bytes
  | .add => ascii ['+']
  | .sub => ascii ['-']
  | .eq => ascii ['=']
  | .ne => ascii ['!', '=']
  | .gt => ascii ['>']
  | .ge => ascii ['>', '=']
  | .lt => ascii ['<']
  | .le => ascii ['<', '=']
  | .and => ascii ['A', 'N', 'D']
  | .or => ascii ['O', 'R']

/-- Source: `expression.h` ToString. -/
def Expr.toString : Expr → Bytes
  | .columnRef columnName => columnName
  | .literal (.int32 v) => signedDecimal v.toInt
  | .literal (.double v) => doubleDecimal v.val
  | .literal (.string v) => 39 :: (v ++ [39])
  | .binaryOp op left right =>
    40 :: (left.toString ++ 32 :: (op.name ++ 32 :: (right.toString ++ [41])))
  | .aggFunc aggType arg => aggName aggType ++ 40 :: (arg.toString ++ [41])
  | .aggStar aggType => aggName aggType ++ [40, 42, 41]

namespace PlanExpr

def returnType : PlanExpr → DataType
  | .columnRef _ _ type | .literal _ type | .binary _ _ _ type | .agg _ _ type | .aggStar _ type => type

/-- Source: `plan_expression.cpp` ToString. -/
def toString : PlanExpr → Bytes
  | .columnRef tableOid colIdx _ => ascii ['#'] ++ decimal tableOid ++ ascii ['.'] ++ decimal colIdx
  | .literal (.int32 v) _ => signedDecimal v.toInt
  | .literal (.double v) _ => doubleDecimal v.val
  | .literal (.string v) _ => ascii ['\''] ++ v ++ ascii ['\'']
  | .binary op left right _ =>
    ascii ['('] ++ left.toString ++ ascii [' '] ++ binaryOpName op ++ ascii [' '] ++ right.toString ++
      ascii [')']
  | .agg aggType arg _ => aggName aggType ++ ascii ['('] ++ arg.toString ++ ascii [')']
  | .aggStar aggType _ => aggName aggType ++ ascii ['(', '*', ')']

/-- Source: `plan_expression.cpp` ContainsAggregate. -/
def containsAggregate : PlanExpr → Bool
  | .agg _ _ _ | .aggStar _ _ => true
  | .binary _ left right _ => left.containsAggregate || right.containsAggregate
  | _ => false

/-! ## The columns of an expression -/

/-- Source: `plan_expression.cpp` CollectColumnRefs. -/
def collectColumnRefs : PlanExpr → List ℕ
  | .columnRef _ colIdx _ => [colIdx]
  | .literal _ _ | .aggStar _ _ => []
  | .binary _ left right _ => left.collectColumnRefs ++ right.collectColumnRefs
  | .agg _ arg _ => arg.collectColumnRefs

/-- The expression has a reference to the column somewhere. -/
inductive Mentions (colIdx : ℕ) : PlanExpr → Prop
  | columnRef (tableOid : ℕ) (type : DataType) : Mentions colIdx (.columnRef tableOid colIdx type)
  | left {left : PlanExpr} (op : PlanBinaryOp) (right : PlanExpr) (type : DataType)
      (h : Mentions colIdx left) : Mentions colIdx (.binary op left right type)
  | right {right : PlanExpr} (op : PlanBinaryOp) (left : PlanExpr) (type : DataType)
      (h : Mentions colIdx right) : Mentions colIdx (.binary op left right type)
  | arg {arg : PlanExpr} (aggType : AggType) (type : DataType) (h : Mentions colIdx arg) :
      Mentions colIdx (.agg aggType arg type)

theorem mentions_binary_iff {colIdx : ℕ} {op : PlanBinaryOp} {left right : PlanExpr} {type : DataType} :
    (PlanExpr.binary op left right type).Mentions colIdx ↔
      left.Mentions colIdx ∨ right.Mentions colIdx := by
  constructor
  · intro h
    cases h with
    | left _ _ _ h => exact .inl h
    | right _ _ _ h => exact .inr h
  · rintro (h | h)
    · exact .left op right type h
    · exact .right op left type h

/-- The collected columns are the columns of the expression. -/
theorem mem_collectColumnRefs {colIdx : ℕ} {expr : PlanExpr} :
    colIdx ∈ expr.collectColumnRefs ↔ expr.Mentions colIdx := by
  induction expr with
  | columnRef tableOid idx type =>
    constructor
    · intro h
      obtain rfl := List.mem_singleton.mp h
      exact .columnRef tableOid type
    · rintro ⟨⟩
      exact List.mem_singleton_self colIdx
  | literal value type => exact iff_of_false (by simp [collectColumnRefs]) nofun
  | binary op left right type ihl ihr =>
    rw [collectColumnRefs, List.mem_append, ihl, ihr, mentions_binary_iff]
  | agg aggType arg type ih =>
    rw [collectColumnRefs, ih]
    constructor
    · exact .arg aggType type
    · rintro ⟨⟩
      assumption
  | aggStar aggType type => exact iff_of_false (by simp [collectColumnRefs]) nofun

end PlanExpr

/-! ## From bound expressions -/

/-- Source: `plan_expression.cpp` ToPlanBinaryOp. -/
def toPlanBinaryOp : BinaryOp → PlanBinaryOp
  | .add => .add
  | .sub => .sub
  | .eq => .eq
  | .ne => .ne
  | .gt => .gt
  | .ge => .ge
  | .lt => .lt
  | .le => .le
  | .and => .and
  | .or => .or

/-- Source: `plan_expression.cpp` BuildPlanExpr. -/
def buildPlanExpr : BoundExpr → Except String PlanExpr
  | .columnRef tableOid colIdx type => .ok (.columnRef tableOid colIdx type)
  | .literal value type => .ok (.literal value type)
  | .binaryOp op left right type => do
    return .binary (toPlanBinaryOp op) (← buildPlanExpr left) (← buildPlanExpr right) type
  | .aggFunc aggType arg type => do return .agg aggType (← buildPlanExpr arg) type
  | .aggStar aggType type => .ok (.aggStar aggType type)
  | .cast _ => .error "planner: CAST is not implemented in the mini_olap core subset"

/-- The columns of the expression are columns of the table, with their types. -/
def PlanExpr.OfTable (table : BoundTable) : PlanExpr → Prop
  | .columnRef oid colIdx type =>
    oid = table.oid ∧ colIdx < table.columns.length ∧ type = table.columnType colIdx
  | .literal value type => type = Binder.literalType value
  | .binary _ left right _ => left.OfTable table ∧ right.OfTable table
  | .agg _ arg _ => arg.OfTable table
  | .aggStar _ _ => True

/-- No literal of the expression is NaN. -/
def PlanExpr.NoNan : PlanExpr → Prop
  | .columnRef _ _ _ | .aggStar _ _ => True
  | .literal value _ => ¬ value.IsNan
  | .binary _ left right _ => left.NoNan ∧ right.NoNan
  | .agg _ arg _ => arg.NoNan

/-- A bound expression has a plan expression, over the same table and with the same literals. -/
theorem buildPlanExpr_spec {table : BoundTable} {bound : BoundExpr} (h : bound.OfTable table) :
    ∃ expr, buildPlanExpr bound = .ok expr ∧ expr.OfTable table ∧ (bound.NoNan → expr.NoNan) := by
  induction bound with
  | columnRef oid colIdx type => exact ⟨_, rfl, h, fun _ => trivial⟩
  | literal value type => exact ⟨_, rfl, h, id⟩
  | binaryOp op left right type ihl ihr =>
    obtain ⟨l, hl, hlt, hln⟩ := ihl h.1
    obtain ⟨r, hr, hrt, hrn⟩ := ihr h.2
    refine ⟨.binary (toPlanBinaryOp op) l r type, ?_, ⟨hlt, hrt⟩, fun hno => ⟨hln hno.1, hrn hno.2⟩⟩
    rw [buildPlanExpr, hl, hr]
    rfl
  | aggFunc aggType arg type ih =>
    obtain ⟨a, ha, hat, han⟩ := ih h
    refine ⟨.agg aggType a type, ?_, hat, han⟩
    rw [buildPlanExpr, ha]
    rfl
  | aggStar aggType type => exact ⟨_, rfl, trivial, fun _ => trivial⟩
  | cast type => exact h.elim

end SimpleOlap
