import SimpleOlap.Lib.Results
import SimpleOlap.Lib.Text
import SimpleOlap.Sql.Ast

/-!
# The binder, for CREATE TABLE and SELECT

* `Binder.bindCreateTable`: columns get their positions as ids, and the keys are checked.
  `idsArePositions_bindCreateTable` says the first for every schema it gives.
* `Binder.bindSelect`: names become columns of the one table, types are derived, and the aggregations are
  checked. Errors are the exceptions of the code, with their texts.
* `BoundExpr.OfTable`: the columns of an expression are columns of the table, with their types.
  `BoundSelectStatement.OfTable` says it of a statement, and the binder gives only such statements.

Source: `binder.h`, `binder.cpp`. The catalog is what it says of the table's name.
-/

namespace SimpleOlap

open Lib

/-- Source: `binder.h` SemanticException. -/
def semanticError {α : Type} (message : String) : Except String α :=
  .error ("Semantic Error: " ++ message)

/-! ## CREATE TABLE -/

namespace Binder

/-- Source: `binder.cpp` BindCreateTable, the loop over the columns, with those that are done. The id
that the parser gives is not read. -/
def bindColumns : List ColumnSchema → List ColumnSchema → Except String (List ColumnSchema)
  | bound, [] => .ok bound
  | bound, col :: cols =>
    if col.name = [] then semanticError "Column name cannot be empty"
    else if bound.any fun c => c.name == col.name then
      semanticError ("Duplicate column name: " ++ nameText col.name)
    else if col.type = .invalid then
      semanticError ("Invalid data type for column: " ++ nameText col.name)
    else bindColumns (bound ++ [⟨bound.length, col.name, col.type⟩]) cols

/-- Source: `binder.cpp` BindCreateTable, the loop over the columns of a key, with those that are done. -/
def bindKeyColumns (columns : List ColumnSchema) :
    List ColumnId → List Bytes → Except String (List ColumnId)
  | bound, [] => .ok bound
  | bound, columnName :: names =>
    match columns.find? fun c => c.name == columnName with
    | none => semanticError ("Key references unknown column: " ++ nameText columnName)
    | some column =>
      if column.columnId ∈ bound then
        semanticError ("Duplicate column in key definition: " ++ nameText columnName)
      else bindKeyColumns columns (bound ++ [column.columnId]) names

/-- Source: `datastructs.h` kPrimaryKeyName. -/
def kPrimaryKeyName : Bytes := ascii ['_', '_', 'p', 'r', 'i', 'm', 'a', 'r', 'y', '_', '_']

/-- The name of a secondary key. -/
def secondaryKeyName (keyId : KeyId) (name : Bytes) : Bytes :=
  if name = [] then ascii ['k', 'e', 'y', '_'] ++ decimal keyId else name

/-- One key constraint, on the schema so far. Source: `binder.cpp` BindCreateTable, the loop over the
keys. -/
def bindKey (schema : TableSchema) (keyId : KeyId) (key : KeyConstraint) : Except String TableSchema :=
  if key.columns = [] then semanticError "Key definition must contain at least one column"
  else do
    let columns ← bindKeyColumns schema.columns [] key.columns
    match key.type with
    | .primary =>
      if schema.primaryKey.isSome then semanticError "Multiple PRIMARY KEY definitions"
      else return { schema with primaryKey := some ⟨keyId, kPrimaryKeyName, .primary, columns⟩ }
    | .secondary =>
      let name := secondaryKeyName keyId key.name
      if schema.secondaryKeys.any fun k => k.name == name then
        semanticError ("Duplicate secondary key name: " ++ nameText name)
      else return { schema with
        secondaryKeys := schema.secondaryKeys ++ [⟨keyId, name, .secondary, columns⟩] }

/-- The keys that are left; the next key has the id `keyId`. -/
def bindKeys : TableSchema → KeyId → List KeyConstraint → Except String TableSchema
  | schema, _, [] => .ok schema
  | schema, keyId, key :: keys => do bindKeys (← bindKey schema keyId key) (keyId + 1) keys

/-- Source: `binder.cpp` BindCreateTable; `found` is whether the catalog has a table of the name. -/
def bindCreateTable (found : Bool) (stmt : CreateTableStatement) : Except String TableSchema :=
  if found then semanticError ("Table already exists: " ++ nameText stmt.tableName)
  else do
    let columns ← bindColumns [] stmt.columns
    bindKeys ⟨columns, none, []⟩ 0 stmt.keys

end Binder

/-- Column ids are positions. -/
def TableSchema.IdsArePositions (schema : TableSchema) : Prop :=
  ∀ i (h : i < schema.columns.length), schema.columns[i].columnId = i

namespace Binder

theorem idsArePositions_bindColumns {bound columns result : List ColumnSchema}
    (hbound : ∀ i (h : i < bound.length), bound[i].columnId = i)
    (h : bindColumns bound columns = .ok result) :
    ∀ i (hi : i < result.length), result[i].columnId = i := by
  induction columns generalizing bound with
  | nil =>
    cases h
    exact hbound
  | cons col cols ih =>
    rw [bindColumns] at h
    split_ifs at h
    · cases h
    · cases h
    · cases h
    refine ih (fun i hi => ?_) h
    rw [List.length_append, List.length_singleton] at hi
    rcases Nat.lt_succ_iff_lt_or_eq.mp hi with hlt | rfl
    · rw [List.getElem_append_left hlt]
      exact hbound i hlt
    · rw [List.getElem_append_right (le_refl _)]
      simp

theorem columns_bindKey {schema result : TableSchema} {keyId : KeyId} {key : KeyConstraint}
    (h : bindKey schema keyId key = .ok result) : result.columns = schema.columns := by
  unfold bindKey at h
  split at h
  · cases h
  · obtain ⟨columns, -, h⟩ := bind_eq_ok h
    split at h
    · split at h
      · cases h
      · cases h
        rfl
    · dsimp only at h
      split at h
      · cases h
      · cases h
        rfl

theorem columns_bindKeys {schema result : TableSchema} {keyId : KeyId} {keys : List KeyConstraint}
    (h : bindKeys schema keyId keys = .ok result) : result.columns = schema.columns := by
  induction keys generalizing schema keyId with
  | nil =>
    cases h
    rfl
  | cons key keys ih =>
    obtain ⟨next, hnext, h⟩ := bind_eq_ok h
    rw [ih h, columns_bindKey hnext]

/-- **Every table that CREATE TABLE makes has its columns' positions as their ids.** -/
theorem idsArePositions_bindCreateTable {found : Bool} {stmt : CreateTableStatement}
    {schema : TableSchema} (h : bindCreateTable found stmt = .ok schema) : schema.IdsArePositions := by
  unfold bindCreateTable at h
  split at h
  · cases h
  · obtain ⟨columns, hcolumns, h⟩ := bind_eq_ok h
    intro i hi
    have hids := idsArePositions_bindColumns (by simp) hcolumns
    simp only [columns_bindKeys h] at hi ⊢
    exact hids i hi

theorem length_bindColumns {bound columns result : List ColumnSchema}
    (h : bindColumns bound columns = .ok result) : result.length = bound.length + columns.length := by
  induction columns generalizing bound with
  | nil =>
    cases h
    rfl
  | cons col cols ih =>
    rw [bindColumns] at h
    split_ifs at h
    · cases h
    · cases h
    · cases h
    rw [ih h, List.length_append, List.length_singleton, List.length_cons]
    omega

/-- **Every table that CREATE TABLE makes has a column**, when it names a column or a key. -/
theorem columns_ne_nil_bindCreateTable {found : Bool} {stmt : CreateTableStatement}
    {schema : TableSchema} (hitems : stmt.columns ≠ [] ∨ stmt.keys ≠ [])
    (h : bindCreateTable found stmt = .ok schema) : schema.columns ≠ [] := by
  unfold bindCreateTable at h
  split at h
  · cases h
  obtain ⟨columns, hcolumns, h⟩ := bind_eq_ok h
  rw [columns_bindKeys h]
  have hlength := length_bindColumns hcolumns
  rcases hcols : stmt.columns with _ | ⟨col, cols⟩
  · -- a key of a table without columns names a column that the table does not have
    rw [hcols] at hlength
    obtain rfl : columns = [] := List.length_eq_zero_iff.mp hlength
    obtain ⟨key, keys, hkeys⟩ := List.exists_cons_of_ne_nil (hitems.resolve_left (not_not.mpr hcols))
    rw [hkeys] at h
    obtain ⟨next, hkey, -⟩ := bind_eq_ok h
    unfold bindKey at hkey
    split at hkey
    · cases hkey
    · rename_i hne
      obtain ⟨name, names, hnames⟩ := List.exists_cons_of_ne_nil hne
      rw [hnames] at hkey
      cases hkey
  · rw [hcols, List.length_cons] at hlength
    have hpos : 0 < columns.length := by omega
    exact List.ne_nil_of_length_pos hpos

end Binder

/-! ## SELECT -/

/-- Source: `binder.h` BoundTable; the alias is left out. -/
structure BoundTable where
  oid : ℕ
  columns : List ColumnSchema

namespace BoundTable

/-- Source: `binder.cpp` BinderContext::FindColumn. -/
def findColumn (table : BoundTable) (columnName : Bytes) : Option ℕ :=
  table.columns.findIdx? fun c => c.name == columnName

/-- Source: `binder.cpp` BinderContext::GetColumnType. -/
def columnType (table : BoundTable) (colIdx : ℕ) : DataType :=
  match table.columns[colIdx]? with
  | some c => c.type
  | none => .invalid

end BoundTable

namespace Binder

/-- Source: `binder.cpp` IsNumeric. -/
def isNumeric : DataType → Bool
  | .int32 | .int64 | .float | .double => true
  | _ => false

/-- Source: `binder.cpp` ContainsAggregate. -/
def containsAggregate : BoundExpr → Bool
  | .aggFunc _ _ _ | .aggStar _ _ => true
  | .binaryOp _ left right _ => containsAggregate left || containsAggregate right
  | _ => false

/-- The type of a literal. Source: `binder.cpp` BindLiteral. -/
def literalType : PlanLiteralValue → DataType
  | .int32 _ => .int32
  | .string _ => .varchar
  | .double _ => .double

/-- The type of an operation on operands of these types. Source: `binder.cpp` BindBinaryOp. -/
def binaryType (op : BinaryOp) (left right : DataType) : DataType :=
  match op with
  | .add | .sub => if left = .double ∨ right = .double then .double else left
  | _ => .int32

/-- Source: `binder.cpp` BindAggFunc, with the argument bound. -/
def bindAggFunc (aggType : AggType) (arg : BoundExpr) : Except String BoundExpr :=
  if containsAggregate arg then semanticError "Nested aggregate functions are not supported"
  else
    match aggType with
    | .count => .ok (.aggFunc aggType arg .int64)
    | .avg =>
      if isNumeric arg.returnType then .ok (.aggFunc aggType arg .double)
      else semanticError "AVG requires numeric input"
    | .sum =>
      if isNumeric arg.returnType then .ok (.aggFunc aggType arg .double)
      else semanticError "SUM requires numeric input"
    | .min | .max => .ok (.aggFunc aggType arg arg.returnType)
    | .invalid => semanticError "Unsupported aggregate function"

/-- Source: `binder.cpp` BindExpr. -/
def bindExpr (table : BoundTable) : Expr → Except String BoundExpr
  | .columnRef columnName =>
    match table.findColumn columnName with
    | none => semanticError ("Column not found: " ++ nameText columnName)
    | some colIdx => .ok (.columnRef table.oid colIdx (table.columnType colIdx))
  | .literal value => .ok (.literal value (literalType value))
  | .binaryOp op left right => do
    let left ← bindExpr table left
    let right ← bindExpr table right
    return .binaryOp op left right (binaryType op left.returnType right.returnType)
  | .aggStar aggType =>
    if aggType = .count then .ok (.aggStar .count .int64)
    else semanticError "Only COUNT(*) may omit aggregate argument"
  | .aggFunc aggType arg => do bindAggFunc aggType (← bindExpr table arg)

/-- The columns that `SELECT *` stands for. Source: `binder.cpp` BindSelectList. -/
def expandStar (table : BoundTable) : List BoundSelectItem :=
  (List.range table.columns.length).map fun i =>
    ⟨.columnRef table.oid i (table.columnType i), (table.columns[i]?.map ColumnSchema.name).getD []⟩

/-- The name that the parser gives to `*`. -/
def starName : Bytes := [42]

/-- The select list is the one item `*`. -/
def isStar : List SelectItem → Bool
  | [item] =>
    match item.expr with
    | .columnRef columnName => columnName = starName
    | _ => false
  | _ => false

/-- Source: `binder.cpp` BindSelectList. -/
def bindSelectList (table : BoundTable) (selectList : List SelectItem) :
    Except String (List BoundSelectItem) :=
  if isStar selectList then .ok (expandStar table)
  else selectList.mapM fun item => do return ⟨← bindExpr table item.expr, item.aliasName⟩

/-- Source: `binder.cpp` IsInGroupBy. -/
def isInGroupBy (expr : BoundExpr) (groupBy : List BoundExpr) : Bool :=
  groupBy.any fun groupExpr => expr.isExprEqual groupExpr

/-- Source: `binder.cpp` ValidateAggregations. -/
def validateAggregations (selectList : List BoundSelectItem) (groupBy : List BoundExpr) :
    Except String Unit :=
  if selectList.any fun item => !containsAggregate item.expr && !groupBy.isEmpty &&
      !isInGroupBy item.expr groupBy then
    semanticError "SELECT column must appear in GROUP BY clause."
  else .ok ()

/-- The WHERE clause, where there is one. -/
def bindWhere (table : BoundTable) : Option Expr → Except String (Option BoundExpr)
  | none => .ok none
  | some expr => do return some (← bindExpr table expr)

/-- Source: `binder.cpp` BindSelect; `entry` is what the catalog has under the table's name. -/
def bindSelect (entry : Option BoundTable) (stmt : SelectStatement) :
    Except String BoundSelectStatement :=
  match entry with
  | none => semanticError ("Table not found: " ++ nameText stmt.tableName)
  | some table => do
    let selectList ← bindSelectList table stmt.selectList
    let whereClause ← bindWhere table stmt.whereClause
    let groupBy ← stmt.groupBy.mapM (bindExpr table)
    validateAggregations selectList groupBy
    return ⟨table.oid, selectList, whereClause, groupBy⟩

end Binder

/-! ## What the binder gives -/

/-- The columns of the expression are columns of the table, with their types. -/
def BoundExpr.OfTable (table : BoundTable) : BoundExpr → Prop
  | .columnRef oid colIdx type =>
    oid = table.oid ∧ colIdx < table.columns.length ∧ type = table.columnType colIdx
  | .literal value type => type = Binder.literalType value
  | .binaryOp _ left right _ => left.OfTable table ∧ right.OfTable table
  | .aggFunc _ arg _ => arg.OfTable table
  | .aggStar _ _ => True
  | .cast _ => False

/-- No literal of the expression is NaN. -/
def BoundExpr.NoNan : BoundExpr → Prop
  | .columnRef _ _ _ | .aggStar _ _ | .cast _ => True
  | .literal value _ => ¬ value.IsNan
  | .binaryOp _ left right _ => left.NoNan ∧ right.NoNan
  | .aggFunc _ arg _ => arg.NoNan

/-- Every expression of the statement is one over the table. -/
structure BoundSelectStatement.OfTable (table : BoundTable) (stmt : BoundSelectStatement) : Prop where
  tableOid : stmt.tableOid = table.oid
  selectList : ∀ item ∈ stmt.selectList, item.expr.OfTable table
  whereClause : ∀ expr ∈ stmt.whereClause, expr.OfTable table
  groupBy : ∀ expr ∈ stmt.groupBy, expr.OfTable table

namespace Binder

variable {table : BoundTable}

theorem bindAggFunc_eq {aggType : AggType} {arg bound : BoundExpr}
    (h : bindAggFunc aggType arg = .ok bound) : ∃ type, bound = .aggFunc aggType arg type := by
  unfold bindAggFunc at h
  split at h
  · cases h
  · cases aggType with
    | invalid => cases h
    | count | min | max =>
      cases h
      exact ⟨_, rfl⟩
    | sum | avg =>
      simp only at h
      split at h
      · cases h
        exact ⟨_, rfl⟩
      · cases h

/-- **A bound expression refers to columns of its table only**, and has the literals of the parsed one. -/
theorem bindExpr_spec {expr : Expr} {bound : BoundExpr} (h : bindExpr table expr = .ok bound) :
    bound.OfTable table ∧ (expr.NoNan → bound.NoNan) := by
  induction expr generalizing bound with
  | columnRef columnName =>
    rw [bindExpr] at h
    rcases hfind : table.findColumn columnName with _ | colIdx
    · rw [hfind] at h
      cases h
    · rw [hfind] at h
      cases h
      obtain ⟨hlt, -⟩ := List.findIdx?_eq_some_iff_getElem.mp hfind
      exact ⟨⟨rfl, hlt, rfl⟩, fun _ => trivial⟩
  | literal value =>
    cases h
    exact ⟨rfl, id⟩
  | binaryOp op left right ihl ihr =>
    rw [bindExpr] at h
    obtain ⟨l, hl, h⟩ := bind_eq_ok h
    obtain ⟨r, hr, h⟩ := bind_eq_ok h
    cases h
    obtain ⟨hlt, hln⟩ := ihl hl
    obtain ⟨hrt, hrn⟩ := ihr hr
    exact ⟨⟨hlt, hrt⟩, fun hno => ⟨hln hno.1, hrn hno.2⟩⟩
  | aggFunc aggType arg ih =>
    rw [bindExpr] at h
    obtain ⟨a, ha, h⟩ := bind_eq_ok h
    obtain ⟨type, rfl⟩ := bindAggFunc_eq h
    obtain ⟨hof, hno⟩ := ih ha
    exact ⟨hof, hno⟩
  | aggStar aggType =>
    rw [bindExpr] at h
    split at h
    · cases h
      exact ⟨trivial, fun _ => trivial⟩
    · cases h

theorem ofTable_expandStar : ∀ item ∈ expandStar table, item.expr.OfTable table := by
  intro item hitem
  obtain ⟨i, hi, rfl⟩ := List.mem_map.mp hitem
  exact ⟨rfl, List.mem_range.mp hi, rfl⟩

theorem ofTable_bindSelectList {selectList : List SelectItem} {bound : List BoundSelectItem}
    (h : bindSelectList table selectList = .ok bound) : ∀ item ∈ bound, item.expr.OfTable table := by
  unfold bindSelectList at h
  split at h
  · cases h
    exact ofTable_expandStar
  · intro item hitem
    obtain ⟨parsed, -, hparsed⟩ := mem_of_mapM_eq_ok h hitem
    obtain ⟨expr, hexpr, hitem⟩ := bind_eq_ok hparsed
    cases hitem
    exact (bindExpr_spec hexpr).1

theorem bindWhere_spec {clause : Option Expr} {bound : Option BoundExpr}
    (h : bindWhere table clause = .ok bound) :
    ∀ expr ∈ bound, expr.OfTable table ∧ ((∀ e ∈ clause, e.NoNan) → expr.NoNan) := by
  rcases clause with _ | parsed
  · cases h
    intro expr hexpr
    cases hexpr
  · obtain ⟨expr, hexpr, hbound⟩ := bind_eq_ok h
    cases hbound
    rintro _ ⟨rfl⟩
    obtain ⟨hof, hno⟩ := bindExpr_spec hexpr
    exact ⟨hof, fun h => hno (h parsed rfl)⟩

/-- **A bound statement is one over its table.** -/
theorem bindSelect_spec {entry : Option BoundTable} {stmt : SelectStatement}
    {bound : BoundSelectStatement} (h : bindSelect entry stmt = .ok bound) :
    ∃ table, entry = some table ∧ bound.OfTable table ∧
      ((∀ e ∈ stmt.whereClause, e.NoNan) → ∀ e ∈ bound.whereClause, e.NoNan) := by
  rcases entry with _ | table
  · cases h
  · obtain ⟨selectList, hselect, h⟩ := bind_eq_ok h
    obtain ⟨whereClause, hwhere, h⟩ := bind_eq_ok h
    obtain ⟨groupBy, hgroup, h⟩ := bind_eq_ok h
    obtain ⟨_, -, h⟩ := bind_eq_ok h
    cases h
    refine ⟨table, rfl, ⟨rfl, ofTable_bindSelectList hselect, fun expr hexpr =>
      (bindWhere_spec hwhere expr hexpr).1, fun expr hexpr => ?_⟩, fun hno expr hexpr =>
      (bindWhere_spec hwhere expr hexpr).2 hno⟩
    obtain ⟨parsed, -, hparsed⟩ := mem_of_mapM_eq_ok hgroup hexpr
    exact (bindExpr_spec hparsed).1

end Binder

end SimpleOlap
