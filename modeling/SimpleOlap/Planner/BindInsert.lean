import SimpleOlap.Planner.PlanExpression

/-!
# The binder, for INSERT

* `Binder.bindInsert`: the columns of the statement get their places, and the values are bound one after the
  other. The context that names are looked up in is only set up for a SELECT; an access through it is an
  error of its own here.
* `Expr.constantType?`, `Expr.ReachesColumn`: the type of a value that is bound, and the values on which
  binding comes to a column reference.
* `bindInsert_constant_iff`: where the binder rejects what is not constant, and never comes to the context.

Source: `binder.cpp` BindInsert and the functions for expressions. The connection makes a binder for each
statement, so that an INSERT finds no context.
-/

namespace SimpleOlap

open Lib

/-! ## Values -/

namespace Expr

/-- A column reference or an aggregate, at the top. Source: `binder.cpp` BindInsert. -/
def isColumnOrAggregate : Expr → Bool
  | .columnRef _ | .aggFunc _ _ | .aggStar _ => true
  | _ => false

/-- A column reference somewhere. -/
def hasColumn : Expr → Bool
  | .columnRef _ => true
  | .literal _ | .aggStar _ => false
  | .binaryOp _ left right => left.hasColumn || right.hasColumn
  | .aggFunc _ arg => arg.hasColumn

/-- An aggregate somewhere. -/
def hasAggregate : Expr → Bool
  | .columnRef _ | .literal _ => false
  | .binaryOp _ left right => left.hasAggregate || right.hasAggregate
  | .aggFunc _ _ | .aggStar _ => true

/-- The type of an aggregate of an argument of a type, where it has one. -/
def aggregateType? : AggType → DataType → Option DataType
  | .count, _ => some .int64
  | .avg, type | .sum, type => if Binder.isNumeric type then some .double else none
  | .min, type | .max, type => some type
  | .invalid, _ => none

/-- The type of an expression without column references that is well-formed. -/
def constantType? : Expr → Option DataType
  | .columnRef _ => none
  | .literal value => some (Binder.literalType value)
  | .binaryOp op left right => do return Binder.binaryType op (← left.constantType?) (← right.constantType?)
  | .aggFunc aggType arg => do
    let type ← arg.constantType?
    if arg.hasAggregate then none else aggregateType? aggType type
  | .aggStar aggType => if aggType = .count then some .int64 else none

/-- Binding the expression comes to a column reference: everything to the left of it is bound. -/
def ReachesColumn : Expr → Prop
  | .columnRef _ => True
  | .literal _ | .aggStar _ => False
  | .binaryOp _ left right => left.ReachesColumn ∨ left.constantType?.isSome ∧ right.ReachesColumn
  | .aggFunc _ arg => arg.ReachesColumn

end Expr

/-- How binding an INSERT fails: with an exception, or with an access through the context that is not
there. -/
inductive InsertBindError
  | semantic (message : String)
  | noContext
  deriving DecidableEq

namespace Binder

/-- What throws for a SELECT throws for an INSERT. -/
def orThrow {α : Type} : Except String α → Except InsertBindError α
  | .ok a => .ok a
  | .error message => .error (.semantic message)

/-- Source: `binder.cpp` BindExpr, without a context. -/
def bindConstant : Expr → Except InsertBindError BoundExpr
  | .columnRef _ => .error .noContext
  | .literal value => .ok (.literal value (literalType value))
  | .binaryOp op left right => do
    let left ← bindConstant left
    let right ← bindConstant right
    return .binaryOp op left right (binaryType op left.returnType right.returnType)
  | .aggStar aggType =>
    if aggType = .count then .ok (.aggStar .count .int64)
    else orThrow (semanticError "Only COUNT(*) may omit aggregate argument")
  | .aggFunc aggType arg => do orThrow (bindAggFunc aggType (← bindConstant arg))

/-! ## The statement -/

/-- The places of the named columns, with the names that are done. Source: `binder.cpp` BindInsert, the
loop over the columns. -/
def bindTargets (schema : TableSchema) : List Bytes → List Bytes → Except InsertBindError (List ℕ)
  | _, [] => .ok []
  | seen, name :: names =>
    if name ∈ seen then orThrow (semanticError ("Duplicate column in INSERT: " ++ nameText name))
    else
      match schema.columns.findIdx? fun c => c.name == name with
      | none => orThrow (semanticError ("Column not found in table: " ++ nameText name))
      | some place => do return place :: (← bindTargets schema (name :: seen) names)

/-- The places that the values of a row are for. Source: `binder.cpp` BindInsert, the second part. -/
def targetIndices (schema : TableSchema) (stmt : InsertStatement) : Except InsertBindError (List ℕ) :=
  let mismatch (width : ℕ) : Bool := stmt.values.head?.any fun row => row.length != width
  if stmt.columns = [] then
    if mismatch schema.columns.length then
      orThrow (semanticError "INSERT VALUES size mismatch with table schema")
    else .ok (List.range schema.columns.length)
  else if mismatch stmt.columns.length then
    orThrow (semanticError "INSERT VALUES size mismatch with specified columns")
  else bindTargets schema [] stmt.columns

/-- The type of a column by its place. -/
def columnTypeAt (schema : TableSchema) (place : ℕ) : DataType :=
  (schema.columns[place]?.map ColumnSchema.type).getD .invalid

/-- One value, with the place that it is for. Source: `binder.cpp` BindInsert, the inner loop. -/
def bindInsertValue (schema : TableSchema) (value : Expr × ℕ) : Except InsertBindError BoundExpr :=
  if value.1.isColumnOrAggregate then
    orThrow (semanticError
      ("INSERT VALUES must be constant expressions, got: " ++ nameText value.1.toString))
  else do
    let bound ← bindConstant value.1
    if columnTypeAt schema value.2 = bound.returnType then return bound
    else orThrow (semanticError ("Type mismatch in INSERT for column index " ++ Nat.repr value.2))

/-- Source: `binder.cpp` BindInsert, the loop over the rows. -/
def bindInsertRow (schema : TableSchema) (targets : List ℕ) (row : List Expr) :
    Except InsertBindError (List BoundExpr) :=
  if row.length ≠ targets.length then orThrow (semanticError "INSERT row values size mismatch")
  else (row.zip targets).mapM (bindInsertValue schema)

/-- Source: `binder.cpp` BindInsert; `entry` is what the catalog has under the table's name. -/
def bindInsert (entry : Option (ℕ × TableSchema)) (stmt : InsertStatement) :
    Except InsertBindError BoundInsertStatement :=
  match entry with
  | none => orThrow (semanticError ("Table not found: " ++ nameText stmt.tableName))
  | some (tableOid, schema) => do
    let targets ← targetIndices schema stmt
    let values ← stmt.values.mapM (bindInsertRow schema targets)
    return ⟨tableOid, targets, values⟩

/-! ## What is bound -/

theorem bindAggFunc_spec {aggType : AggType} {arg : BoundExpr} :
    (∃ type, bindAggFunc aggType arg = .ok (.aggFunc aggType arg type) ∧ containsAggregate arg = false ∧
        Expr.aggregateType? aggType arg.returnType = some type) ∨
      (∃ message, bindAggFunc aggType arg = .error message) ∧
        (containsAggregate arg = true ∨ Expr.aggregateType? aggType arg.returnType = none) := by
  unfold bindAggFunc
  by_cases hnested : containsAggregate arg = true
  · rw [if_pos hnested]
    exact .inr ⟨⟨_, rfl⟩, .inl hnested⟩
  · rw [if_neg hnested]
    have hplain := Bool.eq_false_iff.mpr hnested
    cases aggType with
    | count | min | max => exact .inl ⟨_, rfl, hplain, rfl⟩
    | invalid => exact .inr ⟨⟨_, rfl⟩, .inr rfl⟩
    | sum | avg =>
      by_cases hnum : isNumeric arg.returnType = true
      · simp only [hnum, if_true]
        exact .inl ⟨_, rfl, hplain, by rw [Expr.aggregateType?, if_pos hnum]⟩
      · simp only [hnum, Bool.false_eq_true, if_false]
        exact .inr ⟨⟨_, rfl⟩, .inr (by rw [Expr.aggregateType?, if_neg hnum])⟩

/-- What binding a value without a context gives. -/
inductive BoundConstant (expr : Expr) : Except InsertBindError BoundExpr → Prop
  | ok {bound : BoundExpr} (htype : expr.constantType? = some bound.returnType)
      (hagg : containsAggregate bound = expr.hasAggregate) (hcolumn : expr.hasColumn = false)
      (hreach : ¬ expr.ReachesColumn) : BoundConstant expr (.ok bound)
  | semantic {message : String} (htype : expr.constantType? = none) (hreach : ¬ expr.ReachesColumn) :
      BoundConstant expr (.error (.semantic message))
  | noContext (htype : expr.constantType? = none) (hreach : expr.ReachesColumn) :
      BoundConstant expr (.error .noContext)

/-- **Binding a value** comes to the first column reference or error from the left. -/
theorem boundConstant (expr : Expr) : BoundConstant expr (bindConstant expr) := by
  induction expr with
  | columnRef columnName => exact .noContext rfl trivial
  | literal value => exact .ok rfl rfl rfl id
  | binaryOp op left right ihl ihr =>
    rw [bindConstant]
    generalize bindConstant left = l at ihl ⊢
    cases ihl with
    | semantic htype hreach =>
      refine .semantic (by rw [Expr.constantType?, htype]; rfl) ?_
      rintro (h | ⟨h, -⟩)
      · exact hreach h
      · simp [htype] at h
    | noContext htype hreach => exact .noContext (by rw [Expr.constantType?, htype]; rfl) (.inl hreach)
    | @ok boundLeft htype hagg hcolumn hreach =>
      generalize bindConstant right = r at ihr ⊢
      cases ihr with
      | semantic htype' hreach' =>
        refine .semantic (by rw [Expr.constantType?, htype, htype']; rfl) ?_
        rintro (h | ⟨-, h⟩)
        · exact hreach h
        · exact hreach' h
      | noContext htype' hreach' =>
        refine .noContext (by rw [Expr.constantType?, htype, htype']; rfl) (.inr ⟨?_, hreach'⟩)
        rw [htype]
        rfl
      | @ok boundRight htype' hagg' hcolumn' hreach' =>
        refine .ok (by rw [Expr.constantType?, htype, htype']; rfl) ?_ ?_ ?_
        · rw [containsAggregate, Expr.hasAggregate, hagg, hagg']
        · rw [Expr.hasColumn, hcolumn, hcolumn']
          rfl
        · rintro (h | ⟨-, h⟩)
          · exact hreach h
          · exact hreach' h
  | aggFunc aggType arg ih =>
    rw [bindConstant]
    generalize bindConstant arg = a at ih ⊢
    cases ih with
    | semantic htype hreach => exact .semantic (by rw [Expr.constantType?, htype]; rfl) hreach
    | noContext htype hreach => exact .noContext (by rw [Expr.constantType?, htype]; rfl) hreach
    | @ok bound htype hagg hcolumn hreach =>
      show BoundConstant _ (orThrow (bindAggFunc aggType bound))
      rcases @bindAggFunc_spec aggType bound with ⟨type, hbind, hplain, hagg'⟩ | ⟨⟨message, hbind⟩, hbad⟩
      · rw [hbind]
        refine .ok ?_ rfl hcolumn hreach
        rw [Expr.constantType?, htype, ← hagg, hplain]
        exact hagg'
      · rw [hbind]
        refine .semantic ?_ hreach
        rw [Expr.constantType?, htype, ← hagg]
        rcases hbad with hnested | hnone
        · rw [hnested]
          rfl
        · show (if containsAggregate bound = true then none else _) = _
          rw [hnone]
          exact ite_self none
  | aggStar aggType =>
    rw [bindConstant]
    by_cases hcount : aggType = .count
    · rw [if_pos hcount]
      exact .ok (if_pos hcount) rfl rfl id
    · rw [if_neg hcount]
      exact .semantic (if_neg hcount) id

/-- The value is accepted for the column at the place. -/
def ValueAccepted (schema : TableSchema) (value : Expr × ℕ) : Prop :=
  value.1.isColumnOrAggregate = false ∧ value.1.constantType? = some (columnTypeAt schema value.2)

/-- Binding the value comes to a column reference below its top. -/
def ValueReachesColumn (value : Expr × ℕ) : Prop :=
  value.1.isColumnOrAggregate = false ∧ value.1.ReachesColumn

/-- **One value** is accepted, or comes to the context, or is rejected. -/
theorem bindInsertValue_spec (schema : TableSchema) (value : Expr × ℕ) :
    ((∃ bound, bindInsertValue schema value = .ok bound) ↔ ValueAccepted schema value) ∧
      (bindInsertValue schema value = .error .noContext ↔ ValueReachesColumn value) := by
  unfold bindInsertValue ValueAccepted ValueReachesColumn
  by_cases hbare : value.1.isColumnOrAggregate = true
  · rw [if_pos hbare]
    exact ⟨iff_of_false nofun fun h => by simp [hbare] at h,
      iff_of_false nofun fun h => by simp [hbare] at h⟩
  · rw [if_neg hbare, and_iff_right (Bool.eq_false_iff.mpr hbare),
      and_iff_right (Bool.eq_false_iff.mpr hbare)]
    have hbound := boundConstant value.1
    generalize bindConstant value.1 = result at hbound ⊢
    cases hbound with
    | semantic htype hreach => exact ⟨iff_of_false nofun (by simp [htype]), iff_of_false nofun hreach⟩
    | noContext htype hreach => exact ⟨iff_of_false nofun (by simp [htype]), iff_of_true rfl hreach⟩
    | @ok bound htype hagg hcolumn hreach =>
      show ((∃ b, (if columnTypeAt schema value.2 = bound.returnType then _ else _) = Except.ok b) ↔ _) ∧
        ((if columnTypeAt schema value.2 = bound.returnType then _ else _) = Except.error _ ↔ _)
      rw [htype, Option.some.injEq]
      by_cases hsame : columnTypeAt schema value.2 = bound.returnType
      · rw [if_pos hsame]
        exact ⟨iff_of_true ⟨bound, rfl⟩ hsame.symm, iff_of_false nofun hreach⟩
      · rw [if_neg hsame]
        exact ⟨iff_of_false nofun fun h => hsame h.symm, iff_of_false nofun hreach⟩

/-- The row is accepted. -/
def RowAccepted (schema : TableSchema) (targets : List ℕ) (row : List Expr) : Prop :=
  row.length = targets.length ∧ ∀ value ∈ row.zip targets, ValueAccepted schema value

/-- Binding the row comes to a column reference: the values to the left of it are accepted. -/
def RowReachesColumn (schema : TableSchema) (targets : List ℕ) (row : List Expr) : Prop :=
  row.length = targets.length ∧ FirstAt (ValueAccepted schema) ValueReachesColumn (row.zip targets)

theorem bindInsertRow_spec (schema : TableSchema) (targets : List ℕ) (row : List Expr) :
    ((∃ bound, bindInsertRow schema targets row = .ok bound) ↔ RowAccepted schema targets row) ∧
      (bindInsertRow schema targets row = .error .noContext ↔ RowReachesColumn schema targets row) := by
  unfold bindInsertRow RowAccepted RowReachesColumn
  by_cases hlength : row.length = targets.length
  · rw [if_neg (not_not.mpr hlength), and_iff_right hlength, and_iff_right hlength, exists_mapM_eq_ok_iff,
      mapM_eq_error_iff]
    simp only [bindInsertValue_spec, and_self]
  · rw [if_pos hlength]
    exact ⟨iff_of_false nofun fun h => hlength h.1, iff_of_false nofun fun h => hlength h.1⟩

/-- Binding the rows comes to a column reference: the rows above it are accepted. -/
def ReachesColumn (schema : TableSchema) (targets : List ℕ) (rows : List (List Expr)) : Prop :=
  FirstAt (RowAccepted schema targets) (RowReachesColumn schema targets) rows

/-- An exception of the places of the columns is a semantic one. -/
theorem targetIndices_ne_noContext (schema : TableSchema) (stmt : InsertStatement) :
    targetIndices schema stmt ≠ .error .noContext := by
  have hloop : ∀ seen names, bindTargets schema seen names ≠ .error .noContext := by
    intro seen names
    induction names generalizing seen with
    | nil => exact nofun
    | cons name names ih =>
      unfold bindTargets
      split_ifs
      · exact nofun
      · split
        · exact nofun
        · intro h
          rcases hrest : bindTargets schema (name :: seen) names with e | places
          · rw [hrest] at h
            cases h
            exact ih _ hrest
          · rw [hrest] at h
            cases h
  unfold targetIndices
  dsimp only
  split_ifs
  · exact nofun
  · exact nofun
  · exact nofun
  · exact hloop [] stmt.columns

/-- The named columns have different places. -/
theorem places_of_bindTargets {schema : TableSchema} {seen names : List Bytes} {places : List ℕ}
    (h : bindTargets schema seen names = .ok places) :
    places.Nodup ∧ ∀ place ∈ places, ∃ column, schema.columns[place]? = some column ∧ column.name ∈ names ∧
      column.name ∉ seen := by
  induction names generalizing seen places with
  | nil =>
    cases h
    exact ⟨List.nodup_nil, List.forall_mem_nil _⟩
  | cons name names ih =>
    unfold bindTargets at h
    split_ifs at h with hseen
    · cases h
    · split at h
      · cases h
      · rename_i place hplace
        obtain ⟨rest, hrest, h⟩ := bind_eq_ok h
        cases h
        obtain ⟨hnodup, hall⟩ := ih hrest
        obtain ⟨hlt, hname, -⟩ := List.findIdx?_eq_some_iff_getElem.mp hplace
        have hcolumn : schema.columns[place]? = some schema.columns[place] := List.getElem?_eq_getElem hlt
        have hsame : schema.columns[place].name = name := by simpa using hname
        refine ⟨List.nodup_cons.mpr ⟨fun hmem => ?_, hnodup⟩, List.forall_mem_cons.mpr ⟨?_, ?_⟩⟩
        · obtain ⟨column, hcolumn', -, hnot⟩ := hall place hmem
          obtain rfl := Option.some.inj (hcolumn.symm.trans hcolumn')
          exact hnot (hsame ▸ List.mem_cons_self)
        · exact ⟨_, hcolumn, hsame ▸ List.mem_cons_self, hsame ▸ hseen⟩
        · intro other hother
          obtain ⟨column, hcolumn', hmem, hnot⟩ := hall other hother
          exact ⟨column, hcolumn', List.mem_cons_of_mem _ hmem, fun hin => hnot (List.mem_cons_of_mem _ hin)⟩

/-- The places that values are for are different columns of the table. -/
theorem places_of_targetIndices {schema : TableSchema} {stmt : InsertStatement} {targets : List ℕ}
    (h : targetIndices schema stmt = .ok targets) :
    targets.Nodup ∧ ∀ place ∈ targets, place < schema.columns.length := by
  unfold targetIndices at h
  dsimp only at h
  split_ifs at h
  · cases h
  · cases h
    exact ⟨List.nodup_range, fun place hplace => List.mem_range.mp hplace⟩
  · cases h
  · obtain ⟨hnodup, hall⟩ := places_of_bindTargets h
    refine ⟨hnodup, fun place hplace => ?_⟩
    obtain ⟨column, hcolumn, -⟩ := hall place hplace
    exact (List.getElem?_eq_some_iff.mp hcolumn).1

/-- The parts of a statement that is bound. -/
theorem bindInsert_eq_ok {tableOid : ℕ} {schema : TableSchema} {stmt : InsertStatement}
    {bound : BoundInsertStatement} (h : bindInsert (some (tableOid, schema)) stmt = .ok bound) :
    targetIndices schema stmt = .ok bound.targetColIndices ∧
      stmt.values.mapM (bindInsertRow schema bound.targetColIndices) = .ok bound.values := by
  obtain ⟨targets, htargets, h⟩ := bind_eq_ok h
  obtain ⟨values, hvalues, h⟩ := bind_eq_ok h
  cases h
  exact ⟨htargets, hvalues⟩

/-- The parts of a row that is bound. -/
theorem bindInsertRow_eq_ok {schema : TableSchema} {targets : List ℕ} {row : List Expr} {bound : List BoundExpr}
    (h : bindInsertRow schema targets row = .ok bound) :
    row.length = targets.length ∧ (row.zip targets).mapM (bindInsertValue schema) = .ok bound := by
  unfold bindInsertRow at h
  split_ifs at h with hlength
  · cases h
  · exact ⟨not_not.mp hlength, h⟩

/-- A value that is accepted is bound as an expression is. -/
theorem bindConstant_of_bindInsertValue {schema : TableSchema} {value : Expr × ℕ} {bound : BoundExpr}
    (h : bindInsertValue schema value = .ok bound) : bindConstant value.1 = .ok bound := by
  unfold bindInsertValue at h
  split_ifs at h
  · cases h
  · obtain ⟨b, hb, h⟩ := bind_eq_ok h
    split_ifs at h
    · cases h
      exact hb
    · cases h

/-- **What binding an INSERT gives**, once the columns have their places. -/
theorem bindInsert_spec {tableOid : ℕ} {schema : TableSchema} {stmt : InsertStatement} {targets : List ℕ}
    (htargets : targetIndices schema stmt = .ok targets) :
    ((∃ bound, bindInsert (some (tableOid, schema)) stmt = .ok bound) ↔
        ∀ row ∈ stmt.values, RowAccepted schema targets row) ∧
      (bindInsert (some (tableOid, schema)) stmt = .error .noContext ↔
        ReachesColumn schema targets stmt.values) := by
  have hpass : bindInsert (some (tableOid, schema)) stmt =
      (do return ⟨tableOid, targets, ← stmt.values.mapM (bindInsertRow schema targets)⟩) := by
    rw [bindInsert, htargets]
    rfl
  have hrows : ((∃ values, stmt.values.mapM (bindInsertRow schema targets) = .ok values) ↔
        ∀ row ∈ stmt.values, RowAccepted schema targets row) ∧
      (stmt.values.mapM (bindInsertRow schema targets) = .error .noContext ↔
        ReachesColumn schema targets stmt.values) := by
    rw [exists_mapM_eq_ok_iff, mapM_eq_error_iff]
    simp only [bindInsertRow_spec, ReachesColumn, and_self]
  rw [hpass, ← hrows.1, ← hrows.2]
  rcases stmt.values.mapM (bindInsertRow schema targets) with e | values
  · exact ⟨iff_of_false nofun nofun, ⟨fun h => by cases h; rfl, fun h => by cases h; rfl⟩⟩
  · exact ⟨iff_of_true ⟨_, rfl⟩ ⟨_, rfl⟩, iff_of_false nofun nofun⟩

/-- A column reference or an aggregate at any depth of a value. -/
def HasNonConstant (stmt : InsertStatement) : Prop :=
  ∃ row ∈ stmt.values, ∃ value ∈ row, value.hasColumn = true ∨ value.hasAggregate = true

/-- The statement is rejected where it has a column reference or an aggregate, and the context is left
alone. -/
def RejectsNonConstant (entry : Option (ℕ × TableSchema)) (stmt : InsertStatement) : Prop :=
  (HasNonConstant stmt → ∃ message, bindInsert entry stmt = .error (.semantic message)) ∧
    bindInsert entry stmt ≠ .error .noContext

/-- An accepted value has no column reference. -/
theorem ValueAccepted.hasColumn {schema : TableSchema} {value : Expr × ℕ} (h : ValueAccepted schema value) :
    value.1.hasColumn = false := by
  have hbound := boundConstant value.1
  cases hresult : bindConstant value.1 with
  | error e =>
    rw [hresult] at hbound
    cases hbound with
    | semantic htype | noContext htype => simp [h.2] at htype
  | ok bound =>
    rw [hresult] at hbound
    cases hbound with
    | ok _ _ hcolumn => exact hcolumn

/-- The values of an accepted row are accepted. -/
theorem RowAccepted.exists_accepted {schema : TableSchema} {targets : List ℕ} {row : List Expr}
    (h : RowAccepted schema targets row) {value : Expr} (hvalue : value ∈ row) :
    ∃ place, ValueAccepted schema (value, place) := by
  rw [← List.map_fst_zip h.1.le] at hvalue
  obtain ⟨⟨_, place⟩, hmem, rfl⟩ := List.mem_map.mp hvalue
  exact ⟨place, h.2 _ hmem⟩

/-- **INSERT accepts only constants** exactly where the binding does not come to a column reference below
the top of a value, and no aggregate is below the top of a value when all values are accepted. -/
theorem rejectsNonConstant_iff (entry : Option (ℕ × TableSchema)) (stmt : InsertStatement) :
    RejectsNonConstant entry stmt ↔
      ∀ tableOid schema targets, entry = some (tableOid, schema) → targetIndices schema stmt = .ok targets →
        ¬ ReachesColumn schema targets stmt.values ∧
        ((∀ row ∈ stmt.values, RowAccepted schema targets row) →
          ∀ row ∈ stmt.values, ∀ value ∈ row, value.hasAggregate = false) := by
  unfold RejectsNonConstant
  rcases entry with _ | ⟨tableOid, schema⟩
  · exact iff_of_true ⟨fun _ => ⟨_, rfl⟩, nofun⟩ nofun
  rcases htargets : targetIndices schema stmt with e | targets
  · -- the columns have no places
    have hresult : bindInsert (some (tableOid, schema)) stmt = .error e := by
      rw [bindInsert, htargets]
      rfl
    refine iff_of_true ?_ ?_
    · rw [hresult]
      cases e with
      | semantic message => exact ⟨fun _ => ⟨message, rfl⟩, nofun⟩
      | noContext => exact absurd htargets (targetIndices_ne_noContext schema stmt)
    · rintro _ _ targets ⟨rfl, rfl⟩ hok
      simp [htargets] at hok
  obtain ⟨hok, hcontext⟩ := @bindInsert_spec tableOid schema stmt targets htargets
  constructor
  · rintro ⟨hreject, hnone⟩ _ _ _ ⟨rfl, rfl⟩ htargets'
    obtain rfl := Except.ok.inj (htargets.symm.trans htargets')
    refine ⟨mt hcontext.mpr hnone, fun hall row hrow value hvalue => ?_⟩
    by_contra hagg
    obtain ⟨message, hmessage⟩ := hreject ⟨row, hrow, value, hvalue, .inr (by simpa using hagg)⟩
    obtain ⟨bound, hbound⟩ := hok.mpr hall
    simp [hmessage] at hbound
  · intro h
    obtain ⟨hreach, hconstant⟩ := h tableOid schema targets rfl htargets
    refine ⟨fun ⟨row, hrow, value, hvalue, hbad⟩ => ?_, mt hcontext.mp hreach⟩
    rcases hresult : bindInsert (some (tableOid, schema)) stmt with e | bound
    · cases e with
      | semantic message => exact ⟨message, rfl⟩
      | noContext => exact absurd (hcontext.mp hresult) hreach
    · have hall := hok.mp ⟨bound, hresult⟩
      obtain ⟨place, haccepted⟩ := (hall row hrow).exists_accepted hvalue
      rcases hbad with hcolumn | hagg
      · simp [haccepted.hasColumn] at hcolumn
      · simp [hconstant hall row hrow value hvalue] at hagg

/-! ## Values that are not constant -/

/-- A table with one INT32 column. -/
def countersSchema : TableSchema := ⟨[⟨0, [97], .int32⟩], none, []⟩

/-- `INSERT INTO t VALUES (1 + a)` looks `a` up in the context that is not there, and `1 + COUNT(*)` is
accepted. -/
theorem bindInsert_nested :
    bindInsert (some (0, countersSchema)) ⟨[116], [],
      [[.binaryOp .add (.literal (.int32 1)) (.columnRef [97])]]⟩ =
        .error .noContext ∧
      bindInsert (some (0, countersSchema)) ⟨[116], [],
        [[.binaryOp .add (.literal (.int32 1)) (.aggStar .count)]]⟩ =
        .ok ⟨0, [0], [[.binaryOp .add (.literal (.int32 1) .int32) (.aggStar .count .int64) .int32]]⟩ ∧
      ¬ ∀ entry stmt, RejectsNonConstant entry stmt := by
  refine ⟨rfl, rfl, fun h => ?_⟩
  exact (h (some (0, countersSchema))
    ⟨[116], [], [[.binaryOp .add (.literal (.int32 1)) (.columnRef [97])]]⟩).2 rfl

end Binder

end SimpleOlap
