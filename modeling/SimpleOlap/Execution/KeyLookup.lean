import SimpleOlap.Execution.OperatorTree
import SimpleOlap.Simd.Arithmetic
import SimpleOlap.Storage.Scan.Binding
import SimpleOlap.Storage.Scan.RowFilter

/-!
# Looking up a key instead of comparing its columns

The planner takes the equalities on the columns of a key for a lookup. The lookup compares bytes, the
sequential scan compares values.

* `matchKeyLookup_eq_some`: what a match consists of, column by column of the key.
* `LookupAgrees`: the lookup values are encoded, and the rows with the encoded key are those that satisfy
  the equalities.
* `KeepsEquality`: the literals for which the two comparisons are one. An integer on a FLOAT column is not
  encoded; zero has two patterns, and NaN equals nothing.
* `lookupAgrees_iff`: a lookup agrees with the scan if and only if its literals are such.
-/

namespace SimpleOlap

open Lib

/-! ## The match -/

/-- The literal that a key column is compared with. -/
def keyLiteral (predicates : List SimplePredicate) (id : ColumnId) : PlanLiteralValue :=
  match predicates.find? fun p => p.columnIndex = id ∧ p.op = .eq with
  | some p => p.value
  | none => .int32 0

/-- A key column that a lookup can use: it has an equality, all of its equalities are one, and the literal
can be used for a column of its type. -/
structure KeyColumnMatched (schema : TableSchema) (predicates : List SimplePredicate) (id : ColumnId) :
    Prop where
  exists_eq : ∃ p ∈ predicates, p.columnIndex = id ∧ p.op = .eq ∧ p.value = keyLiteral predicates id
  value_eq : ∀ p ∈ predicates, p.columnIndex = id → p.op = .eq → p.value = keyLiteral predicates id
  usable : literalUsableForKey schema id (keyLiteral predicates id) = true

/-- A column that is matched is not matched again. -/
theorem matchKeyColumn_some {id : ColumnId} {predicates : List SimplePredicate} {i j m : ℕ}
    (h : matchKeyColumn id i (some m) predicates = some j) :
    j = m ∧ ∀ p ∈ predicates, p.columnIndex = id → p.op ≠ .eq := by
  induction predicates generalizing i with
  | nil =>
    cases h
    exact ⟨rfl, fun p hp => absurd hp List.not_mem_nil⟩
  | cons p predicates ih =>
    rw [matchKeyColumn] at h
    split_ifs at h with hother hmatched
    · obtain ⟨hj, hrest⟩ := ih h
      refine ⟨hj, fun q hq hid => ?_⟩
      rcases List.mem_cons.mp hq with rfl | hq
      · rcases hother with hne | hne
        · exact absurd hid hne
        · exact hne
      · exact hrest q hq hid
    · exact absurd rfl hmatched

/-- The place that is matched holds the one equality on the column. -/
theorem matchKeyColumn_none {id : ColumnId} {predicates : List SimplePredicate} {i j : ℕ}
    (h : matchKeyColumn id i none predicates = some j) :
    ∃ p, i ≤ j ∧ predicates[j - i]? = some p ∧ p.columnIndex = id ∧ p.op = .eq ∧
      ∀ q ∈ predicates, q.columnIndex = id → q.op = .eq → q = p := by
  induction predicates generalizing i with
  | nil => cases h
  | cons p predicates ih =>
    rw [matchKeyColumn] at h
    split_ifs at h with hother
    · obtain ⟨q, hle, hq, hid, hop, honly⟩ := ih h
      refine ⟨q, by omega, ?_, hid, hop, fun r hr hrid hrop => ?_⟩
      · have hsub : j - i = (j - (i + 1)) + 1 := by omega
        rw [hsub, List.getElem?_cons_succ]
        exact hq
      · rcases List.mem_cons.mp hr with rfl | hr
        · rcases hother with hne | hne
          · exact absurd hrid hne
          · exact absurd hrop hne
        · exact honly r hr hrid hrop
    · obtain ⟨rfl, hrest⟩ := matchKeyColumn_some h
      have hp : p.columnIndex = id ∧ p.op = .eq := by simpa using hother
      refine ⟨p, le_rfl, by simp, hp.1, hp.2, fun q hq hid hop => ?_⟩
      rcases List.mem_cons.mp hq with rfl | hq
      · rfl
      · exact absurd hop (hrest q hq hid)

/-- The only predicate on a column is the first one found. -/
theorem find?_eq_some_of_only {id : ColumnId} {predicates : List SimplePredicate} {p : SimplePredicate}
    (hp : p ∈ predicates) (hid : p.columnIndex = id) (hop : p.op = .eq)
    (honly : ∀ q ∈ predicates, q.columnIndex = id → q.op = .eq → q = p) :
    keyLiteral predicates id = p.value := by
  rcases hfind : predicates.find? fun p => p.columnIndex = id ∧ p.op = .eq with _ | q
  · have := List.find?_eq_none.mp hfind p hp
    simp [hid, hop] at this
  · have hq : q.columnIndex = id ∧ q.op = .eq := by simpa using List.find?_some hfind
    rw [keyLiteral, hfind, honly q (List.mem_of_find?_eq_some hfind) hq.1 hq.2]

/-- All columns of a key are matched. -/
theorem matchKeyColumns_eq_some {schema : TableSchema} {predicates : List SimplePredicate}
    {columns : List ColumnId} {result found : KeyLookupMatch}
    (h : matchKeyColumns schema predicates result columns = some found) :
    found.values = result.values ++ columns.map (keyLiteral predicates) ∧
      ∀ id ∈ columns, KeyColumnMatched schema predicates id := by
  induction columns generalizing result with
  | nil =>
    cases h
    exact ⟨by simp, fun id hid => absurd hid List.not_mem_nil⟩
  | cons id columns ih =>
    rw [matchKeyColumns] at h
    obtain ⟨i, hi, h⟩ := Option.bind_eq_some_iff.mp h
    obtain ⟨p, hp, h⟩ := Option.bind_eq_some_iff.mp h
    obtain ⟨q, -, hq, hqid, hqop, honly⟩ := matchKeyColumn_none hi
    obtain rfl : q = p := by
      rw [Nat.sub_zero, hp] at hq
      exact (Option.some.inj hq).symm
    have hmem : q ∈ predicates := List.mem_of_getElem? hp
    have hvalue := find?_eq_some_of_only hmem hqid hqop honly
    split_ifs at h with husable
    obtain ⟨hvalues, hrest⟩ := ih h
    refine ⟨by simp [hvalues, hvalue], fun id' hid' => ?_⟩
    rcases List.mem_cons.mp hid' with rfl | hid'
    · exact ⟨⟨q, hmem, hqid, hqop, hvalue.symm⟩, fun r hr hrid hrop => by rw [honly r hr hrid hrop, hvalue],
        hvalue ▸ husable⟩
    · exact hrest id' hid'

/-- **A match has the literal of each key column**, and each of them can be used. -/
theorem matchKeyLookup_eq_some {schema : TableSchema} {key : KeySchema}
    {predicates : List SimplePredicate} {found : KeyLookupMatch}
    (h : matchKeyLookup schema key predicates = some found) :
    found.values = key.columns.map (keyLiteral predicates) ∧
      ∀ id ∈ key.columns, KeyColumnMatched schema predicates id :=
  matchKeyColumns_eq_some h

/-! ## The encoded literals -/

/-- The numeric literals that the planner takes for a key column of the type. -/
inductive KeyLiteral : DataType → PlanLiteralValue → Prop
  | int32 (v : Int32) : KeyLiteral .int32 (.int32 v)
  | int64 (v : Int32) : KeyLiteral .int64 (.int32 v)
  | floatInt (v : Int32) : KeyLiteral .float (.int32 v)
  | float (d : Double) : KeyLiteral .float (.double d)
  | doubleInt (v : Int32) : KeyLiteral .double (.int32 v)
  | double (d : Double) : KeyLiteral .double (.double d)

/-- A usable literal is one for its column. -/
theorem keyLiteral_of_usable {schema : TableSchema} {id : ColumnId} {value : PlanLiteralValue}
    (h : literalUsableForKey schema id value = true) (hnum : isNumericLiteral value = true) :
    (∃ column, findColumnSchema schema id = some column ∧ schema.typeOf id = column.type) ∧
      KeyLiteral (schema.typeOf id) value := by
  unfold literalUsableForKey at h
  rcases hcolumn : findColumnSchema schema id with _ | column
  · rw [hcolumn] at h
    cases h
  · have htype : schema.typeOf id = column.type := by rw [TableSchema.typeOf, hcolumn]
    refine ⟨⟨column, rfl, htype⟩, ?_⟩
    rw [hcolumn] at h
    rw [htype]
    cases value with
    | string v => cases hnum
    | int32 v =>
      cases hkind : column.type <;> simp only [hkind, reduceCtorEq] at h
      · exact .int32 v
      · exact .int64 v
      · exact .floatInt v
      · exact .doubleInt v
    | double d =>
      cases hkind : column.type <;> simp only [hkind, reduceCtorEq] at h
      · exact .float d
      · exact .double d

/-- The bytes of a literal as a value of a column type. -/
def lookupData (type : DataType) (value : PlanLiteralValue) : Bytes :=
  match type, value with
  | .int32, .int32 v => leBytes 4 v.toUInt32.toNat
  | .int64, .int32 v => leBytes 8 v.toInt64.toUInt64.toNat
  | .float, .double d => KeyEncoder.floatBytes d.narrow
  | .double, .int32 v => KeyEncoder.doubleBytes (Double.ofInt v.toInt)
  | .double, .double d => KeyEncoder.doubleBytes d
  | _, _ => []

/-- The encoder takes the literal: it has no conversion of an integer for a FLOAT column. -/
def EncodesLiteral (type : DataType) (value : PlanLiteralValue) : Prop :=
  type = .float → ∃ d, value = .double d

/-- The bytes of a scalar. -/
theorem encodeScalar_eq {type : DataType} {value : PlanLiteralValue} (h : KeyLiteral type value)
    (henc : EncodesLiteral type value) :
    KeyEncoder.encodeScalar type value.toScalar = .ok (encodeComponent type (lookupData type value)) := by
  cases h with
  | floatInt v =>
    obtain ⟨d, hd⟩ := henc rfl
    cases hd
  | int32 v | int64 v | float d | doubleInt v | double d => rfl

/-- What is encoded can be encoded. -/
theorem encodesLiteral_of_encodeScalar {type : DataType} {value : PlanLiteralValue} {data : Bytes}
    (h : KeyLiteral type value) (hok : KeyEncoder.encodeScalar type value.toScalar = .ok data) :
    EncodesLiteral type value := by
  cases h with
  | floatInt v => cases hok
  | float d => exact fun _ => ⟨d, rfl⟩
  | int32 v | int64 v | doubleInt v | double d => exact fun hfloat => by cases hfloat

/-- The bytes of a key have the size of the column. -/
theorem length_lookupData {type : DataType} {value : PlanLiteralValue} (h : KeyLiteral type value)
    (henc : EncodesLiteral type value) : (lookupData type value).length = typeElemSize type := by
  cases h with
  | floatInt v =>
    obtain ⟨d, hd⟩ := henc rfl
    cases hd
  | int32 v | int64 v | float d | doubleInt v | double d => exact length_leBytes _ _

/-- The cell with the bytes of a literal has the value that the scan compares with. -/
theorem cellValue_lookupData {type : DataType} {value : PlanLiteralValue} (h : KeyLiteral type value)
    (henc : EncodesLiteral type value) :
    cellValue type (lookupData type value) = boundLiteral type value.toLiteral := by
  cases h with
  | int32 v => exact congrArg Numeric.value (ArithmeticElement.read_write v)
  | int64 v =>
    have hread := congrArg Numeric.value (ArithmeticElement.read_write v.toInt64)
    refine hread.trans ?_
    show Fp.ofInt unit v.toInt64.toInt = Fp.ofInt unit v.toInt
    rw [Int32.toInt_toInt64]
  | floatInt v =>
    obtain ⟨d, hd⟩ := henc rfl
    cases hd
  | float d =>
    have hread := congrArg Numeric.value (ArithmeticElement.read_write d.narrow)
    refine hread.trans ?_
    show binary32.convert d.val = binary32.convert (binary64.convert d.val)
    rw [binary64.convert_of_mem d.property]
  | doubleInt v => exact congrArg Numeric.value (ArithmeticElement.read_write (Double.ofInt v.toInt))
  | double d =>
    have hread := congrArg Numeric.value (ArithmeticElement.read_write d)
    exact hread.trans (binary64.convert_of_mem d.property).symm

/-! ## Bytes and values -/

/-- A numeric cell that is not NaN is determined by its value. -/
theorem eq_of_cellValue_eq {type : DataType} {c c' : Bytes} (h : type.IsNumeric)
    (hc : c.length = typeElemSize type) (hc' : c'.length = typeElemSize type)
    (hnan : cellValue type c ≠ .nan) (heq : cellValue type c = cellValue type c') : c = c' := by
  apply leNat_inj (hc.trans hc'.symm)
  have hlt := leNat_lt c
  have hlt' := leNat_lt c'
  rw [hc] at hlt
  rw [hc'] at hlt'
  rcases h with rfl | rfl | rfl | rfl
  · have hkey : (Numeric.read c : Int32).toInt = (Numeric.read c' : Int32).toInt :=
      (Fp.key_ofInt_inj unit_pos _ _).mp (congrArg Fp.key heq)
    have hread : (UInt32.ofNat (leNat c)).toInt32 = (UInt32.ofNat (leNat c')).toInt32 := Int32.toInt_inj.mp hkey
    have hnat := congrArg UInt32.toNat (congrArg Int32.toUInt32 hread)
    have hmod : leNat c % 2 ^ 32 = leNat c' % 2 ^ 32 := by simpa using hnat
    exact (Nat.mod_eq_of_lt hlt).symm.trans (hmod.trans (Nat.mod_eq_of_lt hlt'))
  · have hkey : (Numeric.read c : Int64).toInt = (Numeric.read c' : Int64).toInt :=
      (Fp.key_ofInt_inj unit_pos _ _).mp (congrArg Fp.key heq)
    have hread : (UInt64.ofNat (leNat c)).toInt64 = (UInt64.ofNat (leNat c')).toInt64 := Int64.toInt_inj.mp hkey
    have hnat := congrArg UInt64.toNat (congrArg Int64.toUInt64 hread)
    have hmod : leNat c % 2 ^ 64 = leNat c' % 2 ^ 64 := by simpa using hnat
    exact (Nat.mod_eq_of_lt hlt).symm.trans (hmod.trans (Nat.mod_eq_of_lt hlt'))
  · have hbound := two_signBit.1
    exact binary32.decode_inj (lt_of_lt_of_eq hlt hbound.symm) (lt_of_lt_of_eq hlt' hbound.symm) hnan heq
  · have hbound := two_signBit.2
    exact binary64.decode_inj (lt_of_lt_of_eq hlt hbound.symm) (lt_of_lt_of_eq hlt' hbound.symm) hnan heq

/-- A value that no other pattern of its format equals: not zero, and not NaN. -/
def OnePattern (a : Fp) : Prop := a ≠ .nan ∧ a.key ≠ (((0 : ℤ) : WithTop ℤ) : WithBot (WithTop ℤ))

/-- The literals of a key column for which comparing bytes is comparing values. -/
structure KeepsEquality (type : DataType) (value : PlanLiteralValue) : Prop where
  encodes : EncodesLiteral type value
  onePattern : type = .float ∨ type = .double → OnePattern (boundLiteral type value.toLiteral)

/-- The literal is a number, as the scan compares with it. -/
theorem KeepsEquality.ne_nan {type : DataType} {value : PlanLiteralValue} (hkeeps : KeepsEquality type value)
    (h : KeyLiteral type value) : boundLiteral type value.toLiteral ≠ .nan := by
  cases h with
  | int32 v | int64 v => exact Fp.ofInt_ne_nan _
  | floatInt v | float d => exact (hkeeps.onePattern (.inl rfl)).1
  | doubleInt v | double d => exact (hkeeps.onePattern (.inr rfl)).1

/-- **A cell has the bytes of such a literal if and only if it equals the literal.** -/
theorem eq_lookupData_iff {type : DataType} {value : PlanLiteralValue} {c : Bytes}
    (h : KeyLiteral type value) (hkeeps : KeepsEquality type value) (hc : c.length = typeElemSize type) :
    c = lookupData type value ↔
      Fp.cmp .eq (cellValue type c) (boundLiteral type value.toLiteral) = true := by
  have hlen := length_lookupData h hkeeps.encodes
  have hvalue := cellValue_lookupData h hkeeps.encodes
  have hnan := hkeeps.ne_nan h
  have hnum : type.IsNumeric := by cases h <;> decide
  constructor
  · rintro rfl
    rw [hvalue]
    exact (Fp.eq_iff hnan hnan).mpr rfl
  · intro hcmp
    have hnan' : cellValue type c ≠ .nan := by
      intro hcell
      rw [hcell, Fp.cmp_nan_left] at hcmp
      cases hcmp
    have hkey := (Fp.eq_iff hnan' hnan).mp hcmp
    suffices heq : cellValue type c = cellValue type (lookupData type value) from
      eq_of_cellValue_eq hnum hc hlen hnan' heq
    by_cases hfloat : type = .float ∨ type = .double
    · rw [hvalue]
      exact (Fp.eq_of_key_eq hnan hnan' (hkeeps.onePattern hfloat).2 hkey.symm).symm
    · have hint : type = .int32 ∨ type = .int64 := by
        rcases hnum with h | h | h | h
        · exact .inl h
        · exact .inr h
        · exact absurd (.inl h) hfloat
        · exact absurd (.inr h) hfloat
      obtain ⟨x, hx, -⟩ := exists_cellValue_eq_ofInt hint c
      obtain ⟨y, hy, -⟩ := exists_cellValue_eq_ofInt hint (lookupData type value)
      rw [← hvalue, hx, hy] at hkey
      rw [hx, hy, (Fp.key_ofInt_inj unit_pos x y).mp hkey]

/-- A value with two patterns is a zero. -/
theorem exists_num_zero {a : Fp} (hnan : a ≠ .nan) (h : ¬ OnePattern a) : ∃ s, a = .num s 0 := by
  have hkey : a.key = (((0 : ℤ) : WithTop ℤ) : WithBot (WithTop ℤ)) := by
    by_contra hne
    exact h ⟨hnan, hne⟩
  rcases a with _ | s | ⟨s, m⟩
  · exact absurd rfl hnan
  · cases s with
    | false => exact absurd (WithBot.coe_inj.mp hkey) WithTop.top_ne_coe
    | true => exact absurd hkey WithBot.bot_ne_coe
  · have hzero : Fp.signed s m = 0 := by simpa [Fp.key] using hkey
    have hm : m = 0 := by cases s <;> simpa [Fp.signed] using hzero
    exact ⟨s, by rw [hm]⟩

/-- The cell of the other zero has other bytes, and equals the literal. -/
theorem exists_cell_of_not_onePattern {type : DataType} {value : PlanLiteralValue} (h : KeyLiteral type value)
    (henc : EncodesLiteral type value) (hnan : boundLiteral type value.toLiteral ≠ .nan)
    (hfloat : type = .float ∨ type = .double) (hnot : ¬ OnePattern (boundLiteral type value.toLiteral)) :
    ∃ c, c.length = typeElemSize type ∧ c ≠ lookupData type value ∧
      Fp.cmp .eq (cellValue type c) (boundLiteral type value.toLiteral) = true := by
  obtain ⟨s, hs⟩ := exists_num_zero hnan hnot
  obtain ⟨c, hlen, hc⟩ : ∃ c, c.length = typeElemSize type ∧ cellValue type c = .num (!s) 0 := by
    rcases hfloat with rfl | rfl
    · have hmem : binary32.Mem (.num s 0) := hs ▸ binary32.mem_convert _
      let other : Single := ⟨.num (!s) 0, hmem⟩
      exact ⟨ArithmeticElement.write other, ArithmeticElement.length_write other,
        congrArg Subtype.val (ArithmeticElement.read_write other)⟩
    · have hmem : binary64.Mem (.num s 0) := hs ▸ binary64.mem_convert _
      let other : Double := ⟨.num (!s) 0, hmem⟩
      exact ⟨ArithmeticElement.write other, ArithmeticElement.length_write other,
        congrArg Subtype.val (ArithmeticElement.read_write other)⟩
  refine ⟨c, hlen, fun heq => ?_, ?_⟩
  · have hvalue := cellValue_lookupData h henc
    rw [← heq, hc, hs] at hvalue
    cases s <;> cases hvalue
  · rw [hc, hs]
    cases s <;> decide

/-! ## The encoded key -/

section Encoded

variable {schema : TableSchema} {key : KeySchema} {predicates : List SimplePredicate}

/-- The columns of a matched key, with numeric literals. -/
structure NumericMatch (schema : TableSchema) (key : KeySchema) (predicates : List SimplePredicate) :
    Prop where
  column : ∀ id ∈ key.columns,
    ∃ column, findColumnSchema schema id = some column ∧ schema.typeOf id = column.type
  literal : ∀ id ∈ key.columns, KeyLiteral (schema.typeOf id) (keyLiteral predicates id)

/-- The encoded lookup values of a matched key. -/
def lookupKey (schema : TableSchema) (key : KeySchema) (predicates : List SimplePredicate) : EncodedKey :=
  key.columns.flatMap fun id =>
    encodeComponent (schema.typeOf id) (lookupData (schema.typeOf id) (keyLiteral predicates id))

/-- A match of numeric literals. -/
theorem numericMatch_of_matchKeyLookup {found : KeyLookupMatch}
    (hnum : ∀ p ∈ predicates, isNumericLiteral p.value = true)
    (h : matchKeyLookup schema key predicates = some found) : NumericMatch schema key predicates := by
  have hliteral : ∀ id ∈ key.columns, isNumericLiteral (keyLiteral predicates id) = true := by
    intro id hid
    obtain ⟨p, hp, -, -, hvalue⟩ := ((matchKeyLookup_eq_some h).2 id hid).exists_eq
    exact hvalue ▸ hnum p hp
  have hkey : ∀ id ∈ key.columns, _ := fun id hid =>
    keyLiteral_of_usable ((matchKeyLookup_eq_some h).2 id hid).usable (hliteral id hid)
  exact ⟨fun id hid => (hkey id hid).1, fun id hid => (hkey id hid).2⟩

/-- The value form of the encoder goes through the literals of the key columns. -/
theorem encodeValues_eq :
    KeyEncoder.encodeValues schema key
        ((key.columns.map (keyLiteral predicates)).map PlanLiteralValue.toScalar) =
      (key.columns.mapM fun id =>
        match findColumnSchema schema id with
        | none => .error "key encoder: key column not found in schema"
        | some column => KeyEncoder.encodeScalar column.type (keyLiteral predicates id).toScalar) >>=
      fun parts => .ok parts.flatten := by
  rw [KeyEncoder.encodeValues, if_neg (by simp), List.map_map, ← List.map_prod_left_eq_zip, List.mapM_map]
  rfl

/-- The lookup values of a matched key are encoded where each literal is. -/
theorem encodeValues_eq_ok (h : NumericMatch schema key predicates)
    (henc : ∀ id ∈ key.columns, EncodesLiteral (schema.typeOf id) (keyLiteral predicates id)) :
    KeyEncoder.encodeValues schema key
        ((key.columns.map (keyLiteral predicates)).map PlanLiteralValue.toScalar) =
      .ok (lookupKey schema key predicates) := by
  rw [encodeValues_eq, mapM_eq_ok (g := fun id =>
    encodeComponent (schema.typeOf id) (lookupData (schema.typeOf id) (keyLiteral predicates id))) ?_]
  · exact congrArg Except.ok List.flatMap_def.symm
  · intro id hid
    obtain ⟨column, hcolumn, htype⟩ := h.column id hid
    have hscalar := encodeScalar_eq (h.literal id hid) (henc id hid)
    rw [htype] at hscalar ⊢
    rw [hcolumn]
    exact hscalar

/-- The literals of a key that is encoded can be encoded. -/
theorem encodesLiteral_of_encodeValues (h : NumericMatch schema key predicates) {k : EncodedKey}
    (hok : KeyEncoder.encodeValues schema key
      ((key.columns.map (keyLiteral predicates)).map PlanLiteralValue.toScalar) = .ok k) :
    ∀ id ∈ key.columns, EncodesLiteral (schema.typeOf id) (keyLiteral predicates id) := by
  intro id hid
  rw [encodeValues_eq] at hok
  obtain ⟨parts, hparts, -⟩ := bind_eq_ok hok
  obtain ⟨part, -, hpart⟩ := exists_of_mem_left (forall₂_of_mapM hparts) hid
  obtain ⟨column, hcolumn, htype⟩ := h.column id hid
  rw [hcolumn] at hpart
  have hscalar : KeyEncoder.encodeScalar (schema.typeOf id) (keyLiteral predicates id).toScalar = .ok part := by
    rw [htype]
    exact hpart
  exact encodesLiteral_of_encodeScalar (h.literal id hid) hscalar

/-- Components are equal where their cells are. -/
theorem encodeComponent_inj {type : DataType} {c c' : Bytes} (hlen : c.length = c'.length) :
    encodeComponent type c = encodeComponent type c' ↔ c = c' := by
  rw [encodeComponent, encodeComponent, hlen, List.append_cancel_left_eq, List.append_cancel_left_eq]

/-- **The key of a row is that of the lookup if and only if the cells of the key columns are the bytes of the
literals.** -/
theorem rowKey_eq_lookupKey_iff (h : NumericMatch schema key predicates)
    (henc : ∀ id ∈ key.columns, EncodesLiteral (schema.typeOf id) (keyLiteral predicates id)) {row : Row}
    (hrow : ∀ id ∈ key.columns, (rowCell schema row id).length = typeElemSize (schema.typeOf id)) :
    rowKey schema key row = lookupKey schema key predicates ↔
      ∀ id ∈ key.columns,
        rowCell schema row id = lookupData (schema.typeOf id) (keyLiteral predicates id) := by
  have hlen : ∀ id ∈ key.columns, (rowCell schema row id).length =
      (lookupData (schema.typeOf id) (keyLiteral predicates id)).length := fun id hid =>
    (hrow id hid).trans (length_lookupData (h.literal id hid) (henc id hid)).symm
  have hcell : ∀ id ∈ key.columns, encodeCell (schema.typeOf id) (rowCell schema row id) =
      encodeComponent (schema.typeOf id) (rowCell schema row id) := by
    intro id hid
    refine if_neg fun hvarchar => ?_
    have hliteral := h.literal id hid
    rw [hvarchar] at hliteral
    cases hliteral
  have hkey : rowKey schema key row =
      (key.columns.map fun id => encodeComponent (schema.typeOf id) (rowCell schema row id)).flatten := by
    rw [rowKey, List.flatMap_def, List.map_congr_left hcell]
  have hlengths : (key.columns.map fun id =>
        encodeComponent (schema.typeOf id) (rowCell schema row id)).map List.length =
      (key.columns.map fun id => encodeComponent (schema.typeOf id)
        (lookupData (schema.typeOf id) (keyLiteral predicates id))).map List.length := by
    rw [List.map_map, List.map_map]
    refine List.map_congr_left fun id hid => ?_
    simp [encodeComponent, hlen id hid]
  rw [hkey, lookupKey, List.flatMap_def, ← and_iff_left (a := _ = _) hlengths, ← List.eq_iff_flatten_eq,
    List.map_inj_left]
  exact forall₂_congr fun id hid => encodeComponent_inj (hlen id hid)

end Encoded

/-! ## The scan of the same equalities -/

/-- Predicates on numeric columns are prepared. -/
theorem prepare_isOk_of_isNumeric {columns : List ColumnId} {schema : TableSchema} {cond : Condition}
    (hcolumn : cond.column ∈ columns) (htype : (schema.typeOf cond.column).IsNumeric)
    (hliteral : cond.value.IsNumeric) : ∃ p, PreparedScanPredicates.prepare columns schema cond = .ok p := by
  unfold PreparedScanPredicates.prepare
  obtain ⟨slot, hslot⟩ : ∃ slot, columns.findIdx? (fun id => id == cond.column) = some slot := by
    rw [← Option.isSome_iff_exists, List.findIdx?_isSome, List.any_eq_true]
    exact ⟨cond.column, hcolumn, beq_self_eq_true _⟩
  rw [hslot]
  have hinteger : ∀ type p, ∃ q, PreparedScanPredicates.bindIntegerPredicate type cond.op cond p = .ok q := by
    intro type p
    unfold PreparedScanPredicates.bindIntegerPredicate
    rcases hvalue : cond.value with v | v | d | s
    · exact ⟨_, rfl⟩
    · exact ⟨_, rfl⟩
    · exact ⟨_, rfl⟩
    · rw [hvalue] at hliteral
      exact absurd hliteral id
  have hfloating : ∀ type p, ∃ q, PreparedScanPredicates.bindFloatingPredicate type cond.op cond p = .ok q := by
    intro type p
    unfold PreparedScanPredicates.bindFloatingPredicate
    rw [condValueAsDouble_of_isNumeric hliteral]
    exact ⟨_, rfl⟩
  rcases htype with htype | htype | htype | htype <;> rw [htype]
  · exact hinteger _ _
  · exact hinteger _ _
  · exact hfloating _ _
  · exact hfloating _ _

/-- A predicate sees the column it is on. -/
theorem Prepared.passesRow_project {columns : List ColumnId} {schema : TableSchema} {cond : Condition}
    {p : PreparedStoragePredicate} (h : Prepared columns schema cond p) (row : Row) :
    p.passesRow (project schema columns row) =
      Fp.cmp cond.op (cellValue (schema.typeOf cond.column) (rowCell schema row cond.column))
        (boundLiteral (schema.typeOf cond.column) cond.value) := by
  obtain ⟨hlt, hfound, -⟩ := List.findIdx?_eq_some_iff_getElem.mp h.slot
  have hid : columns[p.outputSlot] = cond.column := by simpa using hfound
  have hcell : (project schema columns row).getD p.outputSlot [] = rowCell schema row cond.column := by
    simp [project, hlt, hid]
  rw [PreparedStoragePredicate.passesRow, h.passes, h.type, hcell]

/-- The predicates that a lookup by the key answers. -/
def keyEqualities (key : KeySchema) (predicates : List SimplePredicate) : List SimplePredicate :=
  predicates.filter fun p => p.columnIndex ∈ key.columns ∧ p.op = .eq

/-- A row satisfies the equalities on the key columns, as the sequential scan decides it: they are prepared,
and the row filter evaluates them all. -/
def ScanAccepts (schema : TableSchema) (key : KeySchema) (predicates : List SimplePredicate) (row : Row) :
    Prop :=
  ∃ prepared, PreparedScanPredicates.build
      ⟨key.columns, (keyEqualities key predicates).map SimplePredicate.toCondition⟩ schema = .ok prepared ∧
    rowPasses prepared [] (project schema key.columns row) = true

section Accepts

variable {schema : TableSchema} {key : KeySchema} {predicates : List SimplePredicate}

/-- A literal of a key is numeric. -/
theorem KeyLiteral.isNumeric {type : DataType} {value : PlanLiteralValue} (h : KeyLiteral type value) :
    type.IsNumeric ∧ value.toLiteral.IsNumeric := by
  cases h <;> exact ⟨by decide, trivial⟩

/-- **The scan accepts a row if and only if its key cells equal the literals.** -/
theorem scanAccepts_iff (h : NumericMatch schema key predicates)
    (hmatched : ∀ id ∈ key.columns, KeyColumnMatched schema predicates id) (row : Row) :
    ScanAccepts schema key predicates row ↔
      ∀ id ∈ key.columns, Fp.cmp .eq (cellValue (schema.typeOf id) (rowCell schema row id))
        (boundLiteral (schema.typeOf id) (keyLiteral predicates id).toLiteral) = true := by
  have hequality : ∀ p ∈ keyEqualities key predicates, p.columnIndex ∈ key.columns ∧ p.op = .eq ∧
      p.value = keyLiteral predicates p.columnIndex := by
    intro p hp
    obtain ⟨hmem, hcond⟩ := List.mem_filter.mp hp
    obtain ⟨hcolumn, hop⟩ : p.columnIndex ∈ key.columns ∧ p.op = .eq := by simpa using hcond
    exact ⟨hcolumn, hop, (hmatched _ hcolumn).value_eq p hmem rfl hop⟩
  obtain ⟨prepared, hbuild⟩ : ∃ prepared, PreparedScanPredicates.build
      ⟨key.columns, (keyEqualities key predicates).map SimplePredicate.toCondition⟩ schema = .ok prepared := by
    unfold PreparedScanPredicates.build
    refine mapM_isOk fun cond hcond => ?_
    obtain ⟨p, hp, rfl⟩ := List.mem_map.mp hcond
    obtain ⟨hcolumn, -, hvalue⟩ := hequality p hp
    obtain ⟨htype, hliteral⟩ := (h.literal _ hcolumn).isNumeric
    refine prepare_isOk_of_isNumeric hcolumn htype ?_
    rw [SimplePredicate.toCondition, hvalue]
    exact hliteral
  have haccepts : ScanAccepts schema key predicates row ↔
      rowPasses prepared [] (project schema key.columns row) = true := by
    constructor
    · rintro ⟨prepared', hbuild', hpasses⟩
      rw [hbuild] at hbuild'
      exact Except.ok.inj hbuild' ▸ hpasses
    · exact fun hpasses => ⟨prepared, hbuild, hpasses⟩
  rw [haccepts, rowPasses_nil, List.all_eq_true]
  constructor
  · intro hall id hid
    obtain ⟨p, hp, rfl, hop, hvalue⟩ := (hmatched id hid).exists_eq
    have hmem : p.toCondition ∈ (keyEqualities key predicates).map SimplePredicate.toCondition :=
      List.mem_map_of_mem (List.mem_filter.mpr ⟨hp, by simpa using ⟨hid, hop⟩⟩)
    obtain ⟨q, hq, hprepared⟩ := exists_of_mem_left (build_eq_ok hbuild) hmem
    have hpasses := hprepared.passesRow_project row
    rw [hall q hq, SimplePredicate.toCondition, hop, hvalue] at hpasses
    exact hpasses.symm
  · intro hcells q hq
    obtain ⟨cond, hcond, hprepare⟩ := mem_of_mapM_eq_ok hbuild hq
    obtain ⟨p, hp, rfl⟩ := List.mem_map.mp hcond
    obtain ⟨hcolumn, hop, hvalue⟩ := hequality p hp
    rw [(prepare_eq_ok hprepare).passesRow_project row, SimplePredicate.toCondition, hop, hvalue]
    exact hcells _ hcolumn

end Accepts

/-! ## Rows with given cells -/

/-- A chunk of one row, with the given cells. -/
def chunkOfRow (schema : TableSchema) (cells : ColumnId → Bytes) : DataChunk where
  size := 1
  sliceStart := 0
  chunks := schema.columns.map fun column =>
    let width := typeElemSize column.type
    (cells column.columnId ++ List.replicate width 0).take width
  elementSizes := schema.columns.map fun column => typeElemSize column.type

/-- A chunk of one row fits. -/
theorem fits_chunkOfRow (schema : TableSchema) (cells : ColumnId → Bytes) :
    (chunkOfRow schema cells).Fits schema where
  columns := by simp [chunkOfRow]
  sizes := rfl
  inside i hi := by
    have hi' : i < schema.columns.length := by simpa [chunkOfRow] using hi
    simp [chunkOfRow, DataChunk.elementSize, hi']
  small := by simp [chunkOfRow]

/-- Its row has the given cell in every column whose type the cell fits. -/
theorem rowCell_chunkOfRow {schema : TableSchema} {cells : ColumnId → Bytes} {id : ColumnId}
    (h : schema.HasColumn id) (hlen : (cells id).length = typeElemSize (schema.typeOf id)) :
    rowCell schema ((chunkOfRow schema cells).row 0) id = cells id := by
  obtain ⟨i, hindex, hi, -, htype⟩ := findColumnSchema_eq_some h
  obtain ⟨j, hindex', hj, hid, -⟩ := columnIndex_eq_some h
  obtain rfl : j = i := Option.some.inj (hindex'.symm.trans hindex)
  rw [htype] at hlen
  rw [rowCell, hindex]
  simp [DataChunk.row, DataChunk.bufferRow, DataChunk.bufferCell, DataChunk.elementSize, chunkOfRow, hi, hid, cell,
    ← hlen]

/-- The cells of a chunk have the size of their type. -/
theorem length_rowCell {schema : TableSchema} {chunk : DataChunk} (hf : chunk.Fits schema) {r : ℕ}
    (hr : r < chunk.size) {id : ColumnId} (h : schema.HasColumn id) :
    (rowCell schema (chunk.row r) id).length = typeElemSize (schema.typeOf id) := by
  obtain ⟨i, hindex, hi, -, htype⟩ := findColumnSchema_eq_some h
  have hi' : i < chunk.chunks.length := hf.columns ▸ hi
  have hcell : rowCell schema (chunk.row r) id = chunk.bufferCell (chunk.sliceStart + r) i := by
    rw [rowCell, hindex]
    simp [DataChunk.row, DataChunk.bufferRow, hi']
  rw [hcell, DataChunk.bufferCell, length_cell, hf.elementSize_eq hi, htype]
  calc (chunk.sliceStart + r + 1) * chunk.elementSize i
      ≤ (chunk.sliceStart + chunk.size) * chunk.elementSize i := Nat.mul_le_mul_right _ (by omega)
    _ ≤ (chunk.chunks.getD i []).length := hf.inside i hi'

/-! ## Lookup and scan -/

/-- The values of a lookup are encoded, and the rows with the encoded key are those that satisfy the
equalities on the key columns. -/
def LookupAgrees (schema : TableSchema) (key : KeySchema) (predicates : List SimplePredicate)
    (found : KeyLookupMatch) : Prop :=
  ∃ k, KeyEncoder.encodeValues schema key (found.values.map PlanLiteralValue.toScalar) = .ok k ∧
    ∀ chunk : DataChunk, chunk.Fits schema → ∀ r < chunk.size,
      (KeyEncoder.encodeChunk schema key chunk r = .ok k ↔
        ScanAccepts schema key predicates (chunk.row r))

section Agrees

variable {schema : TableSchema} {key : KeySchema} {predicates : List SimplePredicate}

/-- The table has the columns of the key. -/
theorem NumericMatch.hasColumn (h : NumericMatch schema key predicates) :
    ∀ id ∈ key.columns, schema.HasColumn id := by
  intro id hid
  obtain ⟨column, hcolumn, -⟩ := h.column id hid
  exact ⟨column, List.mem_of_find?_eq_some hcolumn, by simpa using List.find?_some hcolumn⟩

/-- What agreeing means for the cells of a row. -/
theorem lookupAgrees_cells {found : KeyLookupMatch} (h : NumericMatch schema key predicates)
    (hfound : matchKeyLookup schema key predicates = some found)
    (hagrees : LookupAgrees schema key predicates found) (cells : ColumnId → Bytes)
    (hlen : ∀ id ∈ key.columns, (cells id).length = typeElemSize (schema.typeOf id)) :
    (∀ id ∈ key.columns, cells id = lookupData (schema.typeOf id) (keyLiteral predicates id)) ↔
      ∀ id ∈ key.columns, Fp.cmp .eq (cellValue (schema.typeOf id) (cells id))
        (boundLiteral (schema.typeOf id) (keyLiteral predicates id).toLiteral) = true := by
  obtain ⟨hvalues, hmatched⟩ := matchKeyLookup_eq_some hfound
  obtain ⟨k, hk, hrows⟩ := hagrees
  rw [hvalues] at hk
  have henc := encodesLiteral_of_encodeValues h hk
  obtain rfl : lookupKey schema key predicates = k :=
    Except.ok.inj ((encodeValues_eq_ok h henc).symm.trans hk)
  have hrow : ∀ id ∈ key.columns, rowCell schema ((chunkOfRow schema cells).row 0) id = cells id :=
    fun id hid => rowCell_chunkOfRow (h.hasColumn id hid) (hlen id hid)
  have hiff := hrows _ (fits_chunkOfRow schema cells) 0 Nat.zero_lt_one
  rw [KeyEncoder.encodeChunk_eq h.hasColumn (fits_chunkOfRow schema cells), Except.ok.injEq,
    rowKey_eq_lookupKey_iff h henc fun id hid => by rw [hrow id hid, hlen id hid],
    scanAccepts_iff h hmatched] at hiff
  have hcells := forall₂_congr (fun id hid => by rw [hrow id hid] :
    ∀ id ∈ key.columns, (rowCell schema ((chunkOfRow schema cells).row 0) id =
      lookupData (schema.typeOf id) (keyLiteral predicates id)) ↔
        cells id = lookupData (schema.typeOf id) (keyLiteral predicates id))
  refine hcells.symm.trans (hiff.trans (forall₂_congr fun id hid => ?_))
  rw [hrow id hid]

/-- The literals of an agreeing lookup are numbers: the row of their bytes has the key of the lookup. -/
theorem ne_nan_of_lookupAgrees {found : KeyLookupMatch} (h : NumericMatch schema key predicates)
    (hfound : matchKeyLookup schema key predicates = some found)
    (hagrees : LookupAgrees schema key predicates found)
    (henc : ∀ id ∈ key.columns, EncodesLiteral (schema.typeOf id) (keyLiteral predicates id)) :
    ∀ id ∈ key.columns, boundLiteral (schema.typeOf id) (keyLiteral predicates id).toLiteral ≠ .nan := by
  have hcells := (lookupAgrees_cells h hfound hagrees
    (fun id => lookupData (schema.typeOf id) (keyLiteral predicates id))
    fun id hid => length_lookupData (h.literal id hid) (henc id hid)).mp fun id _ => rfl
  intro id hid hnan
  have hcmp := hcells id hid
  rw [hnan, Fp.cmp_nan_right] at hcmp
  cases hcmp

/-- They are not zero either: the row with the other zero in one column satisfies the equalities. -/
theorem onePattern_of_lookupAgrees {found : KeyLookupMatch} (h : NumericMatch schema key predicates)
    (hfound : matchKeyLookup schema key predicates = some found)
    (hagrees : LookupAgrees schema key predicates found)
    (henc : ∀ id ∈ key.columns, EncodesLiteral (schema.typeOf id) (keyLiteral predicates id)) {id : ColumnId}
    (hid : id ∈ key.columns) (hfloat : schema.typeOf id = .float ∨ schema.typeOf id = .double) :
    OnePattern (boundLiteral (schema.typeOf id) (keyLiteral predicates id).toLiteral) := by
  have hnan := ne_nan_of_lookupAgrees h hfound hagrees henc
  by_contra hnot
  obtain ⟨c, hlen, hne, hcmp⟩ := exists_cell_of_not_onePattern (h.literal id hid) (henc id hid) (hnan id hid)
    hfloat hnot
  let cells : ColumnId → Bytes := Function.update
    (fun id => lookupData (schema.typeOf id) (keyLiteral predicates id)) id c
  have hcells := lookupAgrees_cells h hfound hagrees cells fun id' hid' => by
    by_cases heq : id' = id
    · subst heq
      simpa [cells] using hlen
    · simpa [cells, heq] using length_lookupData (h.literal id' hid') (henc id' hid')
  refine hne ?_
  have hbytes := hcells.mpr fun id' hid' => by
    by_cases heq : id' = id
    · subst heq
      simpa [cells] using hcmp
    · simp only [cells, Function.update_of_ne heq, cellValue_lookupData (h.literal id' hid') (henc id' hid')]
      exact (Fp.eq_iff (hnan id' hid') (hnan id' hid')).mpr rfl
  simpa [cells] using hbytes id hid

/-- Literals that keep equality make the lookup agree. -/
theorem lookupAgrees_of_keepsEquality {found : KeyLookupMatch} (h : NumericMatch schema key predicates)
    (hfound : matchKeyLookup schema key predicates = some found)
    (hkeeps : ∀ id ∈ key.columns, KeepsEquality (schema.typeOf id) (keyLiteral predicates id)) :
    LookupAgrees schema key predicates found := by
  obtain ⟨hvalues, hmatched⟩ := matchKeyLookup_eq_some hfound
  have henc := fun id hid => (hkeeps id hid).encodes
  refine ⟨lookupKey schema key predicates, by rw [hvalues, encodeValues_eq_ok h henc], ?_⟩
  intro chunk hf r hr
  have hlen : ∀ id ∈ key.columns, (rowCell schema (chunk.row r) id).length = typeElemSize (schema.typeOf id) :=
    fun id hid => length_rowCell hf hr (h.hasColumn id hid)
  rw [KeyEncoder.encodeChunk_eq h.hasColumn hf, Except.ok.injEq, rowKey_eq_lookupKey_iff h henc hlen,
    scanAccepts_iff h hmatched]
  exact forall₂_congr fun id hid => eq_lookupData_iff (h.literal id hid) (hkeeps id hid) (hlen id hid)

/-- **A lookup by a key agrees with the scan of its equalities if and only if every literal of the key
keeps equality**: no FLOAT column is compared with an integer, and none of the numbers that FLOAT and DOUBLE
columns are compared with is zero or NaN. -/
theorem lookupAgrees_iff {found : KeyLookupMatch} (hnum : ∀ p ∈ predicates, isNumericLiteral p.value = true)
    (hfound : matchKeyLookup schema key predicates = some found) :
    LookupAgrees schema key predicates found ↔
      ∀ p ∈ keyEqualities key predicates, KeepsEquality (schema.typeOf p.columnIndex) p.value := by
  have h := numericMatch_of_matchKeyLookup hnum hfound
  have hmatched := (matchKeyLookup_eq_some hfound).2
  constructor
  · intro hagrees p hp
    obtain ⟨hmem, hcond⟩ := List.mem_filter.mp hp
    obtain ⟨hid, hop⟩ : p.columnIndex ∈ key.columns ∧ p.op = .eq := by simpa using hcond
    have henc : ∀ id ∈ key.columns, EncodesLiteral (schema.typeOf id) (keyLiteral predicates id) := by
      obtain ⟨k, hk, -⟩ := hagrees
      rw [(matchKeyLookup_eq_some hfound).1] at hk
      exact encodesLiteral_of_encodeValues h hk
    rw [(hmatched _ hid).value_eq p hmem rfl hop]
    exact ⟨henc _ hid, fun hfloat => onePattern_of_lookupAgrees h hfound hagrees henc hid hfloat⟩
  · intro hkeeps
    refine lookupAgrees_of_keepsEquality h hfound fun id hid => ?_
    obtain ⟨p, hp, rfl, hop, hvalue⟩ := (hmatched id hid).exists_eq
    rw [← hvalue]
    exact hkeeps p (List.mem_filter.mpr ⟨hp, by simpa using ⟨hid, hop⟩⟩)

end Agrees

/-- A table with a key of two columns. -/
def pairKeyTable : TableSchema :=
  ⟨[⟨0, [97], .int64⟩, ⟨1, [98], .double⟩], some ⟨0, [107], .primary, [0, 1]⟩, []⟩

/-- Two nonzero numbers. -/
theorem lookupAgrees_iff_pair :
    LookupAgrees pairKeyTable ⟨0, [107], .primary, [0, 1]⟩ [⟨1, .eq, .int32 1⟩, ⟨0, .eq, .int32 7⟩]
      ⟨[.int32 7, .int32 1], [1, 0]⟩ := by
  refine (lookupAgrees_iff (by decide) rfl).mpr fun p hp => ?_
  have hone : OnePattern (boundLiteral .double (.int32 1)) := by
    have hval : boundLiteral .double (.int32 1) = .ofInt unit 1 := Double.val_ofInt (z := 1) (by decide)
    rw [hval]
    refine ⟨Fp.ofInt_ne_nan 1, fun hzero => ?_⟩
    have hkey : (Fp.ofInt unit 1).key = (Fp.ofInt unit 0).key := by
      rw [hzero, Fp.key_ofInt, zero_mul]
    exact absurd ((Fp.key_ofInt_inj unit_pos 1 0).mp hkey) (by decide)
  have hp' : p = ⟨1, .eq, .int32 1⟩ ∨ p = ⟨0, .eq, .int32 7⟩ := by
    have hmem := (List.mem_filter.mp hp).1
    simpa using hmem
  rcases hp' with rfl | rfl
  · exact ⟨(fun hfloat => by cases hfloat), fun _ => hone⟩
  · refine ⟨(fun hfloat => by cases hfloat), fun hfloat => ?_⟩
    rcases hfloat with hfloat | hfloat <;> cases hfloat

/-- A table with one FLOAT column, which is its key. -/
def floatKeyTable : TableSchema := ⟨[⟨0, [118], .float⟩], some ⟨0, [107], .primary, [0]⟩, []⟩

/-- The planner takes an integer for the key, and the encoder throws. -/
theorem floatKey_not_encoded :
    ∃ found, matchKeyLookup floatKeyTable ⟨0, [107], .primary, [0]⟩ [⟨0, .eq, .int32 1⟩] = some found ∧
      KeyEncoder.encodeValues floatKeyTable ⟨0, [107], .primary, [0]⟩
        (found.values.map PlanLiteralValue.toScalar) =
          .error "key encoder: literal type does not match key column type" ∧
      ¬ LookupAgrees floatKeyTable ⟨0, [107], .primary, [0]⟩ [⟨0, .eq, .int32 1⟩] found := by
  refine ⟨_, rfl, rfl, fun hagrees => ?_⟩
  obtain ⟨k, hk, -⟩ := hagrees
  cases hk

end SimpleOlap
