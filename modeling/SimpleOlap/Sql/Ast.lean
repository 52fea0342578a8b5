import SimpleOlap.Execution.Aggregate.HashAggregateState

/-!
# Statements, parsed and bound

* `Expr`, `SelectStatement`, `CreateTableStatement`: statements as the parser gives them, with columns by
  name.
* `BoundExpr`, `BoundSelectStatement`, `BoundInsertStatement`: a SELECT and an INSERT with columns by table
  and index, each expression with the type that was derived for it.

Source: `expression.h`, `statement.h`, `boundexpr.h`, `boundstat.h`.
-/

namespace SimpleOlap

open Lib

/-- The value of a literal. Source: `plan_expression.h` PlanLiteralValue, also the values of the parsed
and bound literals. -/
inductive PlanLiteralValue
  | int32 (v : Int32)
  | string (v : Bytes)
  | double (v : Double)
  deriving DecidableEq

namespace PlanLiteralValue

/-- A number that is not one. -/
def IsNan : PlanLiteralValue → Prop
  | .double v => v.val = .nan
  | _ => False

/-- `==` of two variants. -/
def eqv : PlanLiteralValue → PlanLiteralValue → Bool
  | .int32 a, .int32 b => a = b
  | .string a, .string b => a = b
  | .double a, .double b => a.val.eq b.val
  | _, _ => false

end PlanLiteralValue

/-! ## As parsed -/

/-- Source: `expression.h` BinaryOpExpr::OpType. -/
inductive BinaryOp
  | add | sub | eq | ne | gt | ge | lt | le | and | or
  deriving DecidableEq, Repr

/-- Source: `expression.h` Expr; an aggregate without an argument is `COUNT(*)`. -/
inductive Expr
  | columnRef (columnName : Bytes)
  | literal (value : PlanLiteralValue)
  | binaryOp (op : BinaryOp) (left right : Expr)
  | aggFunc (aggType : AggType) (arg : Expr)
  | aggStar (aggType : AggType)

/-- No literal of the expression is NaN. -/
def Expr.NoNan : Expr → Prop
  | .columnRef _ | .aggStar _ => True
  | .literal value => ¬ value.IsNan
  | .binaryOp _ left right => left.NoNan ∧ right.NoNan
  | .aggFunc _ arg => arg.NoNan

/-- Source: `statement.h` SelectItem. -/
structure SelectItem where
  expr : Expr
  aliasName : Bytes

/-- Source: `statement.h` SelectStatement. -/
structure SelectStatement where
  tableName : Bytes
  selectList : List SelectItem
  whereClause : Option Expr
  groupBy : List Expr

/-- Source: `statement.h` KeyConstraint. -/
structure KeyConstraint where
  type : KeyType
  name : Bytes
  columns : List Bytes

/-- Source: `statement.h` CreateTableStatement; `if_not_exists` is left out. -/
structure CreateTableStatement where
  tableName : Bytes
  columns : List ColumnSchema
  keys : List KeyConstraint

/-- Source: `statement.h` InsertStatement. -/
structure InsertStatement where
  tableName : Bytes
  columns : List Bytes
  values : List (List Expr)

/-- Source: `statement.h` Statement. -/
inductive Statement
  | select (stmt : SelectStatement)
  | createTable (stmt : CreateTableStatement)
  | insert (stmt : InsertStatement)

/-! ## As bound -/

/-- Source: `boundexpr.h` BoundExpr. -/
inductive BoundExpr
  | columnRef (tableOid colIdx : ℕ) (returnType : DataType)
  | literal (value : PlanLiteralValue) (returnType : DataType)
  | binaryOp (op : BinaryOp) (left right : BoundExpr) (returnType : DataType)
  | aggFunc (aggType : AggType) (arg : BoundExpr) (returnType : DataType)
  | aggStar (aggType : AggType) (returnType : DataType)
  | cast (returnType : DataType)

namespace BoundExpr

def returnType : BoundExpr → DataType
  | .columnRef _ _ type | .literal _ type | .binaryOp _ _ _ type | .aggFunc _ _ type
  | .aggStar _ type | .cast type => type

/-- Source: `boundexpr.cpp` IsExprEqual. Two aggregates without an argument are compared through a null
pointer there; the binder never compares aggregates. -/
def isExprEqual : BoundExpr → BoundExpr → Bool
  | .columnRef oid idx _, .columnRef oid' idx' _ => oid = oid' && idx = idx'
  | .literal value _, .literal value' _ => value.eqv value'
  | .binaryOp op left right _, .binaryOp op' left' right' _ =>
    op = op' && left.isExprEqual left' && right.isExprEqual right'
  | .aggFunc aggType arg _, .aggFunc aggType' arg' _ => aggType = aggType' && arg.isExprEqual arg'
  | _, _ => false

end BoundExpr

/-- Source: `boundstat.h` BoundSelectItem. -/
structure BoundSelectItem where
  expr : BoundExpr
  aliasName : Bytes

/-- Source: `boundstat.h` BoundSelectStatement. -/
structure BoundSelectStatement where
  tableOid : ℕ
  selectList : List BoundSelectItem
  whereClause : Option BoundExpr
  groupBy : List BoundExpr

/-- Source: `boundstat.h` BoundInsertStatement. -/
structure BoundInsertStatement where
  tableOid : ℕ
  targetColIndices : List ℕ
  values : List (List BoundExpr)

end SimpleOlap
