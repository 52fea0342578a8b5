import SimpleOlap.Execution.SelectBuilds
import SimpleOlap.Planner.BindInsert
import SimpleOlap.Sql.RoundTrip

/-!
# Outputs that are group keys

The builder takes an output for the first GROUP BY expression that has its type and its text.

* `SamePrinted`, `toString_append_inj`: expressions with the same text are the same but for `double`
  literals, which are printed with six decimals.
* `PairsSound`, `StatementsSound`: expressions that are taken as the same, and outputs and their group
  keys, have the same values on every row.
* `PlacedByLiterals`, `groupIndex_sound_iff`: the first group expression with the text of an output has its value
  where it has its literals; and which literals may occur for all to be sound.

Source: `executor_builder.cpp` PlanExprEquivalent, FindGroupIndex and BuildAggregateSpec,
`plan_expression.cpp` ToString. Strings are without quotes, as the lexer ends a string at the first quote.
-/

namespace SimpleOlap

open Lib

/-! ## The texts of numbers -/

/-- A character of a number. -/
def isNumberChar (c : UInt8) : Bool :=
  isDigit c || c == 45 || c == 46 || c == 97 || c == 102 || c == 105 || c == 110

/-- A digit is a character of a number. -/
theorem isNumberChar_of_isDigit {c : UInt8} (h : isDigit c = true) : isNumberChar c = true := by
  simp [isNumberChar, h]

/-- An integer has digits and a sign. -/
theorem mem_signedDecimal {z : ℤ} {c : UInt8} (h : c ∈ signedDecimal z) : isDigit c = true ∨ c = 45 := by
  unfold signedDecimal at h
  split_ifs at h
  · rcases List.mem_append.mp h with h | h
    · exact .inr (List.mem_singleton.mp h)
    · exact .inl (Lexer.isDigit_of_mem_decimal h)
  · exact .inl (Lexer.isDigit_of_mem_decimal h)

/-- There is no minus among the digits. -/
theorem minus_notMem_decimal (n : ℕ) : (45 : UInt8) ∉ decimal n := fun h => by
  cases Lexer.isDigit_of_mem_decimal h

/-- An integer is known by its digits. -/
theorem signedDecimal_injective {z w : ℤ} (h : signedDecimal z = signedDecimal w) : z = w := by
  unfold signedDecimal at h
  split_ifs at h with hz hw hw
  · have habs := decimal_injective (List.append_cancel_left h)
    omega
  · exact absurd (h ▸ List.mem_append_left _ (List.mem_singleton_self _)) (minus_notMem_decimal w.natAbs)
  · exact absurd (h ▸ List.mem_append_left _ (List.mem_singleton_self _)) (minus_notMem_decimal z.natAbs)
  · have habs := decimal_injective h
    omega

/-- The point of a number. -/
theorem point_mem_doubleDecimal (neg : Bool) (mag : ℕ) : (46 : UInt8) ∈ doubleDecimal (.num neg mag) := by
  rw [doubleDecimal]
  exact List.mem_append_left _ (List.mem_append_right _ (List.mem_singleton_self _))

/-- A `double` has a point, or is spelled with an `n`. -/
theorem exists_mem_doubleDecimal (v : Fp) : ∃ c ∈ doubleDecimal v, c = 46 ∨ c = 110 := by
  cases v with
  | nan => exact ⟨110, by decide +kernel, .inr rfl⟩
  | inf neg => exact ⟨110, by cases neg <;> decide +kernel, .inr rfl⟩
  | num neg mag => exact ⟨46, point_mem_doubleDecimal neg mag, .inl rfl⟩

/-- The text of an integer has characters of numbers. -/
theorem isNumberChar_of_mem_signedDecimal {z : ℤ} {c : UInt8} (h : c ∈ signedDecimal z) :
    isNumberChar c = true := by
  rcases mem_signedDecimal h with h | rfl
  · exact isNumberChar_of_isDigit h
  · rfl

/-- So does the text of a double. -/
theorem isNumberChar_of_mem_doubleDecimal {v : Fp} {c : UInt8} (h : c ∈ doubleDecimal v) :
    isNumberChar c = true := by
  have hdecimal : ∀ {n : ℕ}, c ∈ decimal n → isNumberChar c = true := fun h =>
    isNumberChar_of_isDigit (Lexer.isDigit_of_mem_decimal h)
  cases v with
  | nan =>
    have hall : ∀ c ∈ doubleDecimal .nan, isNumberChar c = true := by decide +kernel
    exact hall c h
  | inf neg =>
    have hall : ∀ neg, ∀ c ∈ doubleDecimal (.inf neg), isNumberChar c = true := by decide +kernel
    exact hall neg c h
  | num neg mag =>
    simp only [doubleDecimal, sixDigits, List.mem_append] at h
    rcases h with ((h | h) | h) | h | h
    · cases neg
      · cases h
      · obtain rfl := List.mem_singleton.mp h
        rfl
    · exact hdecimal h
    · obtain rfl := List.mem_singleton.mp h
      rfl
    · obtain ⟨-, rfl⟩ := List.mem_replicate.mp h
      rfl
    · exact hdecimal h

/-- No number is printed as NaN is. -/
theorem eq_nan_of_doubleDecimal {v : Fp} (h : doubleDecimal v = doubleDecimal .nan) : v = .nan := by
  cases v with
  | nan => rfl
  | inf neg => cases neg <;> cases h
  | num neg mag =>
    have hpoint : (46 : UInt8) ∈ doubleDecimal .nan := h ▸ point_mem_doubleDecimal neg mag
    exact absurd hpoint (by decide +kernel)

/-- An integer is not printed as a `double` is. -/
theorem signedDecimal_ne_doubleDecimal (z : ℤ) (v : Fp) : signedDecimal z ≠ doubleDecimal v := by
  intro h
  obtain ⟨c, hmem, hc⟩ := exists_mem_doubleDecimal v
  rw [← h] at hmem
  rcases mem_signedDecimal hmem with hdigit | rfl
  · rcases hc with rfl | rfl <;> cases hdigit
  · rcases hc with hc | hc <;> cases hc

/-! ## The texts of expressions -/

/-- Operators of the binder are different in the plan. -/
theorem toPlanBinaryOp_injective : Function.Injective toPlanBinaryOp := by
  intro op op' h
  cases op <;> cases op' <;> first | rfl | cases h

namespace PlanExpr

variable {D : Set Double}

/-- The `double` literals are of a set, and the strings are without quotes. -/
def LiteralsIn (D : Set Double) : PlanExpr → Prop
  | .literal (.double v) _ => v ∈ D
  | .literal (.string v) _ => 39 ∉ v
  | .binary _ left right _ => left.LiteralsIn D ∧ right.LiteralsIn D
  | .agg _ arg _ => arg.LiteralsIn D
  | _ => True

/-- The same expressions, but for the types and for literals of the set with the same text. -/
inductive SamePrinted (D : Set Double) : PlanExpr → PlanExpr → Prop
  | columnRef {tableOid colIdx : ℕ} {type type' : DataType} :
      SamePrinted D (.columnRef tableOid colIdx type) (.columnRef tableOid colIdx type')
  | int32 {v : Int32} {type type' : DataType} :
      SamePrinted D (.literal (.int32 v) type) (.literal (.int32 v) type')
  | double {v w : Double} {type type' : DataType} (hv : v ∈ D) (hw : w ∈ D)
      (h : doubleDecimal v.val = doubleDecimal w.val) :
      SamePrinted D (.literal (.double v) type) (.literal (.double w) type')
  | string {v : Bytes} {type type' : DataType} :
      SamePrinted D (.literal (.string v) type) (.literal (.string v) type')
  | binary {op : PlanBinaryOp} {left left' right right' : PlanExpr} {type type' : DataType}
      (hleft : SamePrinted D left left') (hright : SamePrinted D right right') :
      SamePrinted D (.binary op left right type) (.binary op left' right' type')
  | agg {aggType : AggType} {arg arg' : PlanExpr} {type type' : DataType} (harg : SamePrinted D arg arg') :
      SamePrinted D (.agg aggType arg type) (.agg aggType arg' type')
  | aggStar {aggType : AggType} {type type' : DataType} :
      SamePrinted D (.aggStar aggType type) (.aggStar aggType type')

/-- The `double` literals, from left to right. -/
def doubles : PlanExpr → List Double
  | .literal (.double v) _ => [v]
  | .binary _ left right _ => left.doubles ++ right.doubles
  | .agg _ arg _ => arg.doubles
  | _ => []

/-- The kinds of expressions that their first character tells apart. -/
def kind : PlanExpr → ℕ
  | .columnRef _ _ _ => 0
  | .literal (.string _) _ => 1
  | .binary _ _ _ _ => 2
  | .agg _ _ _ | .aggStar _ _ => 3
  | .literal _ _ => 4

/-- The kind of expression that a character begins. -/
def headKind (c : UInt8) : ℕ :=
  if c = 35 then 0 else if c = 39 then 1 else if c = 40 then 2 else if 65 ≤ c ∧ c ≤ 90 then 3 else 4

/-- What a text starts with where it starts with a number. -/
theorem headKind_of_isNumberChar {c : UInt8} (h : isNumberChar c = true) : headKind c = 4 := by
  simp only [isNumberChar, isDigit, Bool.or_eq_true, Bool.and_eq_true, decide_eq_true_eq, beq_iff_eq,
    UInt8.le_iff_toNat_le, UInt8.ext_iff, UInt8.reduceToNat] at h
  simp only [headKind, UInt8.le_iff_toNat_le, UInt8.ext_iff, UInt8.reduceToNat]
  split_ifs <;> omega

/-- A text of number characters begins as a number. -/
theorem exists_head_of_number {bs : Bytes} (hne : bs ≠ []) (h : ∀ c ∈ bs, isNumberChar c = true) :
    ∃ c rest, bs = c :: rest ∧ headKind c = 4 := by
  obtain ⟨c, rest, rfl⟩ := List.exists_cons_of_ne_nil hne
  exact ⟨c, rest, rfl, headKind_of_isNumberChar (h c List.mem_cons_self)⟩

/-- The text of an integer is not empty. -/
theorem signedDecimal_ne_nil (z : ℤ) : signedDecimal z ≠ [] := by
  have hdecimal : ∀ n, decimal n ≠ [] := fun n h => by
    have hmap : Nat.toDigits 10 n = [] := List.map_eq_nil_iff.mp h
    exact Nat.toDigits_ne_nil hmap
  unfold signedDecimal
  split_ifs
  · simp [ascii]
  · exact hdecimal _

/-- **The first character tells the kind.** -/
theorem exists_head (p : PlanExpr) : ∃ c rest, p.toString = c :: rest ∧ headKind c = p.kind := by
  cases p with
  | columnRef tableOid colIdx type => exact ⟨35, _, rfl, rfl⟩
  | literal value type =>
    cases value with
    | int32 v =>
      exact exists_head_of_number (signedDecimal_ne_nil _) fun c hc => isNumberChar_of_mem_signedDecimal hc
    | double v =>
      refine exists_head_of_number ?_ fun c hc => isNumberChar_of_mem_doubleDecimal hc
      obtain ⟨c, hc, -⟩ := exists_mem_doubleDecimal v.val
      exact List.ne_nil_of_mem hc
    | string v => exact ⟨39, _, rfl, rfl⟩
  | binary op left right type => exact ⟨40, _, rfl, rfl⟩
  | agg aggType arg type => cases aggType <;> exact ⟨_, _, rfl, rfl⟩
  | aggStar aggType type => cases aggType <;> exact ⟨_, _, rfl, rfl⟩

/-- Expressions whose texts begin alike are of one kind. -/
theorem kind_eq {p q : PlanExpr} {s t : Bytes} (h : p.toString ++ s = q.toString ++ t) :
    p.kind = q.kind := by
  obtain ⟨c, rest, hp, hc⟩ := exists_head p
  obtain ⟨d, rest', hq, hd⟩ := exists_head q
  rw [hp, hq, List.cons_append, List.cons_append] at h
  rw [← hc, ← hd, (List.cons.inj h).1]

/-! ### Texts with what follows -/

/-- What follows a number ends it. -/
def EndsNumber (t : Bytes) : Prop := ∀ c ∈ t.head?, isNumberChar c = false

/-- A number ends at a space. -/
theorem endsNumber_space (t : Bytes) : EndsNumber (32 :: t) := by
  intro c hc
  obtain rfl := Option.some.inj hc
  rfl

/-- A number ends at a closing parenthesis. -/
theorem endsNumber_rparen (t : Bytes) : EndsNumber (41 :: t) := by
  intro c hc
  obtain rfl := Option.some.inj hc
  rfl

/-- The text of a column, and what follows. -/
theorem toString_columnRef_append (tableOid colIdx : ℕ) (type : DataType) (t : Bytes) :
    (columnRef tableOid colIdx type).toString ++ t =
      35 :: (decimal tableOid ++ 46 :: (decimal colIdx ++ t)) := by
  simp only [toString, List.append_assoc]
  rfl

/-- The text of a string, and what follows. -/
theorem toString_string_append (v : Bytes) (type : DataType) (t : Bytes) :
    (literal (.string v) type).toString ++ t = 39 :: (v ++ 39 :: t) := by
  simp only [toString, List.append_assoc]
  rfl

/-- The text of an operation, and what follows. -/
theorem toString_binary_append (op : PlanBinaryOp) (left right : PlanExpr) (type : DataType) (t : Bytes) :
    (binary op left right type).toString ++ t =
      40 :: (left.toString ++ 32 :: (binaryOpName op ++ 32 :: (right.toString ++ 41 :: t))) := by
  simp only [toString, List.append_assoc]
  rfl

/-- The text of a call, and what follows. -/
theorem toString_agg_append (aggType : AggType) (arg : PlanExpr) (type : DataType) (t : Bytes) :
    (agg aggType arg type).toString ++ t = aggName aggType ++ 40 :: (arg.toString ++ 41 :: t) := by
  simp only [toString, List.append_assoc]
  rfl

/-- The text of a call on all rows, and what follows. -/
theorem toString_aggStar_append (aggType : AggType) (type : DataType) (t : Bytes) :
    (aggStar aggType type).toString ++ t = aggName aggType ++ 40 :: 42 :: 41 :: t := by
  simp only [toString, List.append_assoc]
  rfl

/-- Names of operators end before the space. -/
theorem binaryOpName_append_inj {op op' : PlanBinaryOp} {s t : Bytes}
    (h : binaryOpName op ++ 32 :: s = binaryOpName op' ++ 32 :: t) : op = op' ∧ s = t := by
  have hclass : ∀ op, ∀ c ∈ binaryOpName op, (c != 32) = true := by
    intro op
    cases op <;> decide +kernel
  have hspace : ∀ t : Bytes, ∀ c ∈ (32 :: t).head?, (c != 32) = false := by
    intro t c hc
    obtain rfl := Option.some.inj hc
    rfl
  obtain ⟨hname, hrest⟩ := append_inj_of_class (hclass op) (hclass op') (hspace s) (hspace t) h
  refine ⟨?_, (List.cons.inj hrest).2⟩
  cases op <;> cases op' <;> first | rfl | exact absurd hname (by decide)

/-- Names of aggregates end before the parenthesis. -/
theorem aggName_append_inj {aggType aggType' : AggType} {s t : Bytes}
    (h : aggName aggType ++ 40 :: s = aggName aggType' ++ 40 :: t) : aggType = aggType' ∧ s = t := by
  have hclass : ∀ aggType, ∀ c ∈ aggName aggType, (c != 40) = true := by
    intro aggType
    cases aggType <;> decide +kernel
  have hparen : ∀ t : Bytes, ∀ c ∈ (40 :: t).head?, (c != 40) = false := by
    intro t c hc
    obtain rfl := Option.some.inj hc
    rfl
  obtain ⟨hname, hrest⟩ := append_inj_of_class (hclass aggType) (hclass aggType') (hparen s) (hparen t) h
  refine ⟨?_, (List.cons.inj hrest).2⟩
  cases aggType <;> cases aggType' <;> first | rfl | exact absurd hname (by decide)

/-- No argument is printed as a star. -/
theorem toString_append_ne_star (p : PlanExpr) (s t : Bytes) : p.toString ++ s ≠ 42 :: t := by
  intro h
  obtain ⟨c, rest, hp, hc⟩ := exists_head p
  rw [hp, List.cons_append] at h
  obtain rfl := (List.cons.inj h).1
  have hstar : headKind 42 = 4 := rfl
  cases p with
  | literal value type =>
    cases value with
    | int32 v =>
      have hmem : (42 : UInt8) ∈ signedDecimal v.toInt :=
        (show signedDecimal v.toInt = _ from hp) ▸ List.mem_cons_self
      cases isNumberChar_of_mem_signedDecimal hmem
    | double v =>
      have hmem : (42 : UInt8) ∈ doubleDecimal v.val :=
        (show doubleDecimal v.val = _ from hp) ▸ List.mem_cons_self
      cases isNumberChar_of_mem_doubleDecimal hmem
    | string v => cases hc
  | columnRef | binary | agg | aggStar => cases hc

/-- A number that ends is not followed by a digit. -/
theorem EndsNumber.isDigit {t : Bytes} (h : EndsNumber t) : ∀ c ∈ t.head?, isDigit c = false := by
  intro c hc
  apply Bool.eq_false_iff.mpr
  intro hdigit
  have hnot := h c hc
  rw [isNumberChar_of_isDigit hdigit] at hnot
  cases hnot

/-- A number is known where it ends. -/
theorem decimal_append_inj {m n : ℕ} {s t : Bytes} (hs : ∀ c ∈ s.head?, isDigit c = false)
    (ht : ∀ c ∈ t.head?, isDigit c = false) (h : decimal m ++ s = decimal n ++ t) : m = n ∧ s = t := by
  obtain ⟨hdigits, hrest⟩ := append_inj_of_class (fun c hc => Lexer.isDigit_of_mem_decimal hc)
    (fun c hc => Lexer.isDigit_of_mem_decimal hc) hs ht h
  exact ⟨decimal_injective hdigits, hrest⟩

/-- Strings end at their quotes. -/
theorem quoted_append_inj {v w s t : Bytes} (hv : 39 ∉ v) (hw : 39 ∉ w) (h : v ++ 39 :: s = w ++ 39 :: t) :
    v = w ∧ s = t := by
  have hclass : ∀ {v : Bytes}, 39 ∉ v → ∀ c ∈ v, (c != 39) = true := by
    intro v hv c hc
    refine bne_iff_ne.mpr ?_
    rintro rfl
    exact hv hc
  have hquote : ∀ t : Bytes, ∀ c ∈ (39 :: t).head?, (c != 39) = false := by
    intro t c hc
    obtain rfl := Option.some.inj hc
    rfl
  obtain ⟨hvw, hrest⟩ := append_inj_of_class (hclass hv) (hclass hw) (hquote s) (hquote t) h
  exact ⟨hvw, (List.cons.inj hrest).2⟩

/-- Literals with the same text. -/
theorem toString_literal_append_inj {v w : PlanLiteralValue} {type type' : DataType}
    (hv : (literal v type).LiteralsIn D) (hw : (literal w type').LiteralsIn D) {s t : Bytes}
    (hs : EndsNumber s) (ht : EndsNumber t) (h :
      (literal v type).toString ++ s = (literal w type').toString ++ t) :
    SamePrinted D (literal v type) (literal w type') ∧ s = t := by
  have hkind := kind_eq h
  have hint : ∀ {z : ℤ}, ∀ c ∈ signedDecimal z, isNumberChar c = true := fun c hc =>
    isNumberChar_of_mem_signedDecimal hc
  have hdouble : ∀ {v : Fp}, ∀ c ∈ doubleDecimal v, isNumberChar c = true := fun c hc =>
    isNumberChar_of_mem_doubleDecimal hc
  cases v with
  | int32 v =>
    cases w with
    | int32 w =>
      obtain ⟨htext, hrest⟩ := append_inj_of_class hint hint hs ht h
      obtain rfl := Int32.toInt_inj.mp (signedDecimal_injective htext)
      exact ⟨.int32, hrest⟩
    | double w =>
      obtain ⟨htext, -⟩ := append_inj_of_class hint hdouble hs ht h
      exact absurd htext (signedDecimal_ne_doubleDecimal _ _)
    | string w => cases hkind
  | double v =>
    cases w with
    | int32 w =>
      obtain ⟨htext, -⟩ := append_inj_of_class hdouble hint hs ht h
      exact absurd htext.symm (signedDecimal_ne_doubleDecimal _ _)
    | double w =>
      obtain ⟨htext, hrest⟩ := append_inj_of_class hdouble hdouble hs ht h
      exact ⟨.double hv hw htext, hrest⟩
    | string w => cases hkind
  | string v =>
    cases w with
    | string w =>
      rw [toString_string_append, toString_string_append] at h
      obtain ⟨rfl, hrest⟩ := quoted_append_inj hv hw (List.cons.inj h).2
      exact ⟨.string, hrest⟩
    | int32 | double => cases hkind

/-- **Printing is unambiguous**, but for the digits that `double` literals lose. -/
theorem toString_append_inj {p q : PlanExpr} (hp : p.LiteralsIn D) (hq : q.LiteralsIn D) {s t : Bytes}
    (hs : EndsNumber s) (ht : EndsNumber t) (h : p.toString ++ s = q.toString ++ t) :
    SamePrinted D p q ∧ s = t := by
  induction p generalizing q s t with
  | columnRef tableOid colIdx type =>
    have hkind := kind_eq h
    cases q with
    | columnRef tableOid' colIdx' type' =>
      rw [toString_columnRef_append, toString_columnRef_append] at h
      have hpoint : ∀ t : Bytes, ∀ c ∈ (46 :: t).head?, isDigit c = false := by
        intro t c hc
        obtain rfl := Option.some.inj hc
        rfl
      obtain ⟨rfl, hidx⟩ := decimal_append_inj (hpoint _) (hpoint _) (List.cons.inj h).2
      obtain ⟨rfl, hrest⟩ := decimal_append_inj hs.isDigit ht.isDigit (List.cons.inj hidx).2
      exact ⟨.columnRef, hrest⟩
    | literal value => cases value <;> cases hkind
    | binary | agg | aggStar => cases hkind
  | literal value type =>
    have hkind := kind_eq h
    cases q with
    | literal value' type' => exact toString_literal_append_inj hp hq hs ht h
    | columnRef | binary | agg | aggStar => cases value <;> cases hkind
  | binary op left right type ihl ihr =>
    have hkind := kind_eq h
    cases q with
    | binary op' left' right' type' =>
      rw [toString_binary_append, toString_binary_append] at h
      obtain ⟨hl, hrest⟩ := ihl hp.1 hq.1 (endsNumber_space _) (endsNumber_space _) (List.cons.inj h).2
      obtain ⟨rfl, hright⟩ := binaryOpName_append_inj (List.cons.inj hrest).2
      obtain ⟨hr, hrest⟩ := ihr hp.2 hq.2 (endsNumber_rparen _) (endsNumber_rparen _) hright
      exact ⟨.binary hl hr, (List.cons.inj hrest).2⟩
    | literal value => cases value <;> cases hkind
    | columnRef | agg | aggStar => cases hkind
  | agg aggType arg type ih =>
    have hkind := kind_eq h
    cases q with
    | agg aggType' arg' type' =>
      rw [toString_agg_append, toString_agg_append] at h
      obtain ⟨rfl, harg⟩ := aggName_append_inj h
      have harg' : arg'.LiteralsIn D := hq
      obtain ⟨ha, hrest⟩ := ih hp harg' (endsNumber_rparen _) (endsNumber_rparen _) harg
      exact ⟨.agg ha, (List.cons.inj hrest).2⟩
    | aggStar aggType' type' =>
      rw [toString_agg_append, toString_aggStar_append] at h
      exact absurd (aggName_append_inj h).2 (toString_append_ne_star arg _ _)
    | literal value => cases value <;> cases hkind
    | columnRef | binary => cases hkind
  | aggStar aggType type =>
    have hkind := kind_eq h
    cases q with
    | aggStar aggType' type' =>
      rw [toString_aggStar_append, toString_aggStar_append] at h
      obtain ⟨rfl, hrest⟩ := aggName_append_inj h
      exact ⟨.aggStar, (List.cons.inj (List.cons.inj hrest).2).2⟩
    | agg aggType' arg' type' =>
      rw [toString_agg_append, toString_aggStar_append] at h
      exact absurd (aggName_append_inj h).2.symm (toString_append_ne_star arg' _ _)
    | literal value => cases value <;> cases hkind
    | columnRef | binary => cases hkind

/-- **Expressions with the same text** are the same but for the types and the digits of `double`
literals. -/
theorem samePrinted_of_toString_eq {p q : PlanExpr} (hp : p.LiteralsIn D) (hq : q.LiteralsIn D)
    (h : p.toString = q.toString) : SamePrinted D p q := by
  have hnil : EndsNumber [] := by
    intro c hc
    cases hc
  have happend : p.toString ++ [] = q.toString ++ [] := by rw [h]
  exact (toString_append_inj hp hq hnil hnil happend).1

/-! ### The types -/

/-- The types are those that the binder derives. -/
def Typed (table : BoundTable) : PlanExpr → Prop
  | .columnRef _ colIdx type => type = table.columnType colIdx
  | .literal value type => type = Binder.literalType value
  | .binary op left right type =>
    (left.Typed table ∧ right.Typed table) ∧
      ∃ parsed, op = toPlanBinaryOp parsed ∧ type =
        Binder.binaryType parsed left.returnType right.returnType
  | .agg aggType arg type => arg.Typed table ∧ Expr.aggregateType? aggType arg.returnType = some type
  | .aggStar _ type => type = .int64

/-- Expressions with the same text have as many `double` literals. -/
theorem SamePrinted.length_doubles {p q : PlanExpr} (h : SamePrinted D p q) :
    p.doubles.length = q.doubles.length := by
  induction h with
  | columnRef | int32 | double | string | aggStar => rfl
  | binary _ _ ihl ihr => rw [doubles, doubles, List.length_append, List.length_append, ihl, ihr]
  | agg _ ih => exact ih

/-- They have the same ones, where no two literals of the set share a text. -/
theorem SamePrinted.doubles_eq {p q : PlanExpr} (h : SamePrinted D p q)
    (hD : Set.InjOn (fun v : Double => doubleDecimal v.val) D) : p.doubles = q.doubles := by
  induction h with
  | columnRef | int32 | string | aggStar => rfl
  | double hv hw h => rw [hD hv hw h]; rfl
  | binary _ _ ihl ihr => rw [doubles, doubles, ihl, ihr]
  | agg _ ih => exact ih

/-- **Typed expressions with the same text and the same literals are the same.** -/
theorem SamePrinted.eq_of_doubles {table : BoundTable} {p q : PlanExpr} (h : SamePrinted D p q)
    (hdoubles : p.doubles = q.doubles) (hp : p.Typed table) (hq : q.Typed table) : p = q := by
  induction h with
  | columnRef => rw [show _ = _ from hp, show _ = _ from hq]
  | int32 => rw [show _ = _ from hp, show _ = _ from hq]
  | double =>
    obtain rfl := List.singleton_inj.mp hdoubles
    rw [show _ = _ from hp, show _ = _ from hq]
  | string => rw [show _ = _ from hp, show _ = _ from hq]
  | binary hleft _ ihl ihr =>
    obtain ⟨⟨hpl, hpr⟩, parsed, hop, hptype⟩ := hp
    obtain ⟨⟨hql, hqr⟩, parsed', hop', hqtype⟩ := hq
    obtain ⟨hl, hr⟩ := List.append_inj hdoubles hleft.length_doubles
    obtain rfl := ihl hl hpl hql
    obtain rfl := ihr hr hpr hqr
    obtain rfl : parsed = parsed' := toPlanBinaryOp_injective (hop.symm.trans hop')
    rw [hptype, hqtype]
  | agg _ ih =>
    obtain rfl := ih hdoubles hp.1 hq.1
    rw [Option.some.inj (hp.2.symm.trans hq.2)]
  | aggStar => rw [show _ = _ from hp, show _ = _ from hq]

/-- So are typed expressions with the same text, where no two literals of the set share a text. -/
theorem SamePrinted.eq {table : BoundTable} {p q : PlanExpr} (h : SamePrinted D p q)
    (hD : Set.InjOn (fun v : Double => doubleDecimal v.val) D) (hp : p.Typed table) (hq : q.Typed table) :
    p = q := h.eq_of_doubles (h.doubles_eq hD) hp hq

end PlanExpr

/-! ## From the statement to its outputs -/

section

variable {D : Set Double} {table : BoundTable}

/-- Planning keeps the type. -/
theorem PlanExpr.typed_buildPlanExpr {bound : BoundExpr} {expr : PlanExpr} (hbound : bound.Typed table)
    (h : buildPlanExpr bound = .ok expr) : expr.Typed table ∧ expr.returnType = bound.returnType := by
  induction bound generalizing expr with
  | columnRef oid colIdx type =>
    cases h
    exact ⟨hbound, rfl⟩
  | literal value type =>
    cases h
    exact ⟨hbound, rfl⟩
  | binaryOp op left right type ihl ihr =>
    obtain ⟨⟨hleft, hright⟩, htype⟩ := hbound
    obtain ⟨l, hl, h⟩ := bind_eq_ok h
    obtain ⟨r, hr, h⟩ := bind_eq_ok h
    cases h
    obtain ⟨hltyped, hltype⟩ := ihl hleft hl
    obtain ⟨hrtyped, hrtype⟩ := ihr hright hr
    exact ⟨⟨⟨hltyped, hrtyped⟩, op, rfl, by rw [hltype, hrtype, htype]⟩, rfl⟩
  | aggFunc aggType arg type ih =>
    obtain ⟨harg, htype⟩ := hbound
    obtain ⟨a, ha, h⟩ := bind_eq_ok h
    cases h
    obtain ⟨hatyped, hatype⟩ := ih harg ha
    refine ⟨⟨hatyped, ?_⟩, rfl⟩
    rcases @Binder.bindAggFunc_spec aggType arg with
      ⟨type', hbind, -, hfound⟩ | ⟨⟨message, hbind⟩, -⟩
    · rw [hbind] at htype
      cases htype
      rw [hatype, hfound]
    · rw [hbind] at htype
      cases htype
  | aggStar aggType type =>
    cases h
    exact ⟨hbound, rfl⟩
  | cast type => cases h

/-- The `double` literals are of a set, and the strings are without quotes. -/
def Expr.LiteralsIn (D : Set Double) : Expr → Prop
  | .literal (.double v) => v ∈ D
  | .literal (.string v) => 39 ∉ v
  | .binaryOp _ left right => left.LiteralsIn D ∧ right.LiteralsIn D
  | .aggFunc _ arg => arg.LiteralsIn D
  | _ => True

/-- The plan expression of a parsed one. -/
def Expr.PlansTo (table : BoundTable) (e : Expr) (expr : PlanExpr) : Prop :=
  ∃ bound, Binder.bindExpr table e = .ok bound ∧ buildPlanExpr bound = .ok expr

/-- Typed, and with literals of the set. -/
structure PlanExpr.Admitted (table : BoundTable) (D : Set Double) (expr : PlanExpr) : Prop where
  typed : expr.Typed table
  literalsIn : expr.LiteralsIn D

/-- Planning keeps the literals. -/
theorem Expr.PlansTo.literalsIn {e : Expr} {expr : PlanExpr} (h : e.PlansTo table expr)
    (he : e.LiteralsIn D) :
    expr.LiteralsIn D := by
  obtain ⟨bound, hbind, hbuild⟩ := h
  induction e generalizing bound expr with
  | columnRef columnName =>
    rw [Binder.bindExpr] at hbind
    split at hbind
    · cases hbind
    · cases hbind
      cases hbuild
      trivial
  | literal value =>
    cases hbind
    cases hbuild
    cases value <;> exact he
  | binaryOp op left right ihl ihr =>
    obtain ⟨l, hl, hbind⟩ := bind_eq_ok hbind
    obtain ⟨r, hr, hbind⟩ := bind_eq_ok hbind
    cases hbind
    obtain ⟨l', hl', hbuild⟩ := bind_eq_ok hbuild
    obtain ⟨r', hr', hbuild⟩ := bind_eq_ok hbuild
    cases hbuild
    exact ⟨ihl he.1 l hl hl', ihr he.2 r hr hr'⟩
  | aggFunc aggType arg ih =>
    obtain ⟨a, ha, hbind⟩ := bind_eq_ok hbind
    obtain ⟨type, rfl⟩ := Binder.bindAggFunc_eq hbind
    obtain ⟨a', ha', hbuild⟩ := bind_eq_ok hbuild
    cases hbuild
    have harg := ih he a ha ha'
    exact harg
  | aggStar aggType =>
    rw [Binder.bindExpr] at hbind
    split at hbind
    · cases hbind
      cases hbuild
      trivial
    · cases hbind

/-- What a statement may contain, planned. -/
theorem Expr.PlansTo.admitted {e : Expr} {expr : PlanExpr} (h : e.PlansTo table expr)
    (he : e.LiteralsIn D) :
    expr.Admitted table D := by
  refine ⟨?_, h.literalsIn he⟩
  obtain ⟨bound, hbind, hbuild⟩ := h
  exact (PlanExpr.typed_buildPlanExpr (Binder.typed_bindExpr hbind) hbuild).1

/-- **Expressions that the builder takes as the same are the same.** -/
theorem eq_of_planExprEquivalent {p q : PlanExpr} (hD : Set.InjOn (fun v : Double => doubleDecimal v.val) D)
    (hp : p.Admitted table D) (hq : q.Admitted table D) (h : planExprEquivalent p q = true) : p = q := by
  obtain ⟨-, htext⟩ := Bool.and_eq_true_iff.mp h
  have hprinted := PlanExpr.samePrinted_of_toString_eq hp.literalsIn hq.literalsIn (of_decide_eq_true htext)
  exact hprinted.eq hD hp.typed hq.typed

/-- **Expressions that the builder takes as the same are the same exactly where they have the same literals.** -/
theorem doubles_eq_iff {p q : PlanExpr} (hp : p.Admitted table D) (hq : q.Admitted table D)
    (h : planExprEquivalent p q = true) : p.doubles = q.doubles ↔ p = q := by
  obtain ⟨-, htext⟩ := Bool.and_eq_true_iff.mp h
  have hprinted := PlanExpr.samePrinted_of_toString_eq hp.literalsIn hq.literalsIn (of_decide_eq_true htext)
  exact ⟨fun hdoubles => hprinted.eq_of_doubles hdoubles hp.typed hq.typed, congrArg PlanExpr.doubles⟩

/-- A `double` literal has the value of another expression with its text only where that is the literal too. -/
theorem doubles_eq_of_value {v : Double} {type : DataType} {q : PlanExpr}
    (hp : (PlanExpr.literal (.double v) type).Admitted table D) (hq : q.Admitted table D)
    (h : planExprEquivalent (.literal (.double v) type) q = true)
    (hvalue : ∀ column, (PlanExpr.literal (.double v) type).value column = q.value column) :
    (PlanExpr.literal (.double v) type).doubles = q.doubles := by
  obtain ⟨-, htext⟩ := Bool.and_eq_true_iff.mp h
  cases PlanExpr.samePrinted_of_toString_eq hp.literalsIn hq.literalsIn (of_decide_eq_true htext) with
  | double =>
    have hsame := hvalue fun _ => .error ""
    cases hsame
    rfl

/-- The literals of the select list and of GROUP BY. -/
structure SelectStatement.LiteralsIn (D : Set Double) (stmt : SelectStatement) : Prop where
  selectList : ∀ item ∈ stmt.selectList, item.expr.LiteralsIn D
  groupBy : ∀ e ∈ stmt.groupBy, e.LiteralsIn D

section

variable {stmt : SelectStatement} {bound : BoundSelectStatement}

/-- The outputs of a statement, planned. -/
theorem admitted_outputs {outputs : List NamedPlanExpr} (hstmt : stmt.LiteralsIn D)
    (hbind : Binder.bindSelect (some table) stmt = .ok bound)
      (h : buildOutputs bound.selectList = .ok outputs) :
    ∀ output ∈ outputs, output.expr.Admitted table D := by
  intro output houtput
  obtain ⟨hselect, -⟩ := Binder.bindSelect_eq_ok hbind
  obtain ⟨item, hitem, hbuild⟩ := mem_of_mapM_eq_ok h houtput
  obtain ⟨expr, hexpr, hbuild⟩ := bind_eq_ok hbuild
  cases hbuild
  cases hstar : Binder.isStar stmt.selectList with
  | true =>
    rw [Binder.bindSelectList, if_pos hstar] at hselect
    rw [← Except.ok.inj hselect] at hitem
    obtain ⟨i, -, rfl⟩ := List.mem_map.mp hitem
    cases hexpr
    exact ⟨rfl, trivial⟩
  | false =>
    obtain ⟨parsed, hparsed, hbound⟩ := (Binder.mem_bindSelectList hstar hselect).2 item hitem
    exact Expr.PlansTo.admitted ⟨_, hbound, hexpr⟩ (hstmt.selectList parsed hparsed)

/-- The group expressions of a statement, planned. -/
theorem admitted_groups {groups : List PlanExpr} (hstmt : stmt.LiteralsIn D)
    (hbind : Binder.bindSelect (some table) stmt = .ok bound)
    (h : bound.groupBy.mapM buildPlanExpr = .ok groups) : ∀ group ∈ groups, group.Admitted table D := by
  intro group hgroup
  obtain ⟨-, -, hgroups, -⟩ := Binder.bindSelect_eq_ok hbind
  obtain ⟨b, hb, hbuild⟩ := mem_of_mapM_eq_ok h hgroup
  obtain ⟨e, he, hbound⟩ := mem_of_mapM_eq_ok hgroups hb
  exact Expr.PlansTo.admitted ⟨b, hbound, hbuild⟩ (hstmt.groupBy e he)

end

/-! ## The places of outputs -/

/-- The output is an aggregate, or its place is that of the group expression that was found. -/
def PlacedByText (groups : List PlanExpr) (output : NamedPlanExpr) (spec : AggregateOutputSpec) : Prop :=
  spec.isGroupKey = true → findGroupIndex output.expr groups = some spec.index

/-- An output is placed by its text. -/
theorem placedByText_addAggregateOutput {groups : List PlanExpr} {schema : ExecSchema}
    {calls : List AggCallSpec} {output : NamedPlanExpr} {result : List AggCallSpec × AggregateOutputSpec}
    (h : addAggregateOutput groups schema calls output.expr = .ok result) :
    PlacedByText groups output result.2 := by
  have hgroup : addGroupKeyOutput groups calls output.expr = .ok result →
    PlacedByText groups output result.2 := by
    intro h
    unfold addGroupKeyOutput at h
    rcases hfind : findGroupIndex output.expr groups with _ | index
    · rw [hfind] at h
      cases h
    · rw [hfind] at h
      cases h
      exact fun _ => hfind
  unfold addAggregateOutput at h
  split at h
  · obtain ⟨arg, -, h⟩ := bind_eq_ok h
    cases h
    exact nofun
  · cases h
    exact nofun
  · exact hgroup h

/-- So are all outputs. -/
theorem placedByText_addAggregateOutputs {groups : List PlanExpr} {schema : ExecSchema}
    {calls : List AggCallSpec} {outputs : List NamedPlanExpr}
    {result : List AggCallSpec × List AggregateOutputSpec}
    (h : addAggregateOutputs groups schema calls outputs = .ok result) :
    List.Forall₂ (PlacedByText groups) outputs result.2 := by
  induction outputs generalizing calls result with
  | nil =>
    cases h
    exact .nil
  | cons output outputs ih =>
    obtain ⟨first, hfirst, h⟩ := bind_eq_ok h
    obtain ⟨rest, hrest, h⟩ := bind_eq_ok h
    cases h
    exact .cons (placedByText_addAggregateOutput hfirst) (ih hrest)

/-- So are the outputs of a specification. -/
theorem placedByText_buildAggregateSpec {groups : List PlanExpr} {schema : ExecSchema}
    {outputs : List NamedPlanExpr} {spec : AggregateSpec}
    (h : buildAggregateSpec groups outputs schema = .ok spec) :
    List.Forall₂ (PlacedByText groups) outputs spec.outputs := by
  obtain ⟨exprs, -, h⟩ := bind_eq_ok h
  obtain ⟨placed, hplaced, h⟩ := bind_eq_ok h
  cases h
  exact placedByText_addAggregateOutputs hplaced

/-! ## Soundness -/

/-- Expressions with literals of the set that the builder takes as the same have the same value on every
row. -/
def PairsSound (table : BoundTable) (D : Set Double) : Prop :=
  ∀ {e g : Expr} {p q : PlanExpr}, e.LiteralsIn D → g.LiteralsIn D → e.PlansTo table p → g.PlansTo table q →
    planExprEquivalent p q = true → ∀ column, p.value column = q.value column

/-- The output is an aggregate, or it has the value of the group expression at its place on every row. -/
def PlacedByValue (groups : List PlanExpr) (output : NamedPlanExpr) (spec : AggregateOutputSpec) : Prop :=
  spec.isGroupKey = true →
    ∃ group, groups[spec.index]? = some group ∧ ∀ column, output.expr.value column = group.value column

/-- The output is an aggregate, or the group expression at its place is the first with its type and text. This is the
output's own expression exactly where it has its literals, and has then its value on every row; an output that is a
`double` literal has the value of the group expression only then. -/
def PlacedByLiterals (groups : List PlanExpr) (output : NamedPlanExpr) (spec : AggregateOutputSpec) : Prop :=
  spec.isGroupKey = true →
    ∃ group, groups[spec.index]? = some group ∧ findGroupIndex output.expr groups = some spec.index ∧
      (output.expr.doubles = group.doubles ↔ output.expr = group) ∧
      (output.expr.doubles = group.doubles → ∀ column, output.expr.value column = group.value column) ∧
      ∀ v type, output.expr = .literal (.double v) type →
        ((∀ column, output.expr.value column = group.value column) ↔ output.expr.doubles = group.doubles)

/-- Of every accepted statement with literals of the set, each output that is no aggregate is placed at a
group expression with its values. -/
def StatementsSound (table : BoundTable) (D : Set Double) : Prop :=
  ∀ {stmt : SelectStatement} {bound : BoundSelectStatement} {outputs : List NamedPlanExpr}
    {groups : List PlanExpr} {schema : ExecSchema} {spec : AggregateSpec},
    stmt.LiteralsIn D → Binder.bindSelect (some table) stmt = .ok bound →
    buildOutputs bound.selectList = .ok outputs → bound.groupBy.mapM buildPlanExpr = .ok groups →
    buildAggregateSpec groups outputs schema = .ok spec →
    List.Forall₂ (PlacedByValue groups) outputs spec.outputs

/-- Where the texts of the literals differ, the comparison of texts is sound. -/
theorem pairsSound_of_injOn (hD : Set.InjOn (fun v : Double => doubleDecimal v.val) D) :
    PairsSound table D := by
  intro e g p q he hg hp hq h column
  rw [eq_of_planExprEquivalent hD (hp.admitted he) (hq.admitted hg) h]

/-- The outputs of an accepted statement. -/
theorem placedByLiterals_buildAggregateSpec {stmt : SelectStatement} {bound : BoundSelectStatement}
    {outputs : List NamedPlanExpr} {groups : List PlanExpr} {schema : ExecSchema} {spec : AggregateSpec}
    (hstmt : stmt.LiteralsIn D) (hbind : Binder.bindSelect (some table) stmt = .ok bound)
    (houtputs : buildOutputs bound.selectList = .ok outputs) (hgroups : bound.groupBy.mapM buildPlanExpr = .ok groups)
    (hspec : buildAggregateSpec groups outputs schema = .ok spec) :
    List.Forall₂ (PlacedByLiterals groups) outputs spec.outputs := by
  have houts := admitted_outputs hstmt hbind houtputs
  have hgrps := admitted_groups hstmt hbind hgroups
  refine ((List.forall₂_and_left _ _).mpr ⟨houts, placedByText_buildAggregateSpec hspec⟩).imp ?_
  rintro output place ⟨hadm, htext⟩ hkey
  obtain ⟨hlt, hequal, -⟩ := List.findIdx?_eq_some_iff_getElem.mp (htext hkey)
  have hgroup := hgrps _ (List.getElem_mem hlt)
  have hiff := doubles_eq_iff hadm hgroup hequal
  have hvalue : output.expr.doubles = groups[place.index].doubles →
      ∀ column, output.expr.value column = groups[place.index].value column := fun hdoubles column => by
    rw [← hiff.mp hdoubles]
  refine ⟨groups[place.index], List.getElem?_eq_getElem hlt, htext hkey, hiff, hvalue, fun v type hliteral =>
    ⟨fun hsame => ?_, hvalue⟩⟩
  rw [hliteral] at hadm hequal hsame ⊢
  exact doubles_eq_of_value hadm hgroup hequal hsame

/-- So is it for statements. -/
theorem statementsSound_of_injOn (hD : Set.InjOn (fun v : Double => doubleDecimal v.val) D) :
    StatementsSound table D := by
  intro stmt bound outputs groups schema spec hstmt hbind houtputs hgroups hspec
  have houts := admitted_outputs hstmt hbind houtputs
  have hgrps := admitted_groups hstmt hbind hgroups
  have hplaced := placedByText_buildAggregateSpec hspec
  have hboth := (List.forall₂_and_left _ _).mpr ⟨houts, hplaced⟩
  refine hboth.imp ?_
  rintro output out ⟨hadm, htext⟩ hkey
  obtain ⟨hlt, hequal, -⟩ := List.findIdx?_eq_some_iff_getElem.mp (htext hkey)
  refine ⟨groups[out.index], List.getElem?_eq_getElem hlt, fun column => ?_⟩
  rw [eq_of_planExprEquivalent hD hadm (hgrps _ (List.getElem_mem hlt)) hequal]

/-- The plan of a `double` literal. -/
def planDouble (v : Double) : PlanExpr := .literal (.double v) .double

/-- Two literals with one text count as one expression. -/
theorem planExprEquivalent_planDouble {v w : Double} (h : doubleDecimal v.val = doubleDecimal w.val) :
    planExprEquivalent (planDouble v) (planDouble w) = true := by
  apply Bool.and_eq_true_iff.mpr
  exact ⟨rfl, decide_eq_true h⟩

/-- Where the comparison is sound for all pairs, the texts of the literals differ. -/
theorem injOn_of_pairsSound (h : PairsSound table D) :
    Set.InjOn (fun v : Double => doubleDecimal v.val) D := by
  intro v hv w hw htext
  have hplans : ∀ x : Double, (Expr.literal (.double x)).PlansTo table (planDouble x) :=
    fun x => ⟨_, rfl, rfl⟩
  have hvalue := h (e := .literal (.double v)) (g := .literal (.double w)) hv hw (hplans v) (hplans w)
    (planExprEquivalent_planDouble htext) fun _ => .error ""
  cases hvalue
  rfl

/-- `SELECT w FROM t GROUP BY v, w`. -/
def selectSecond (v w : Double) : SelectStatement where
  tableName := ascii ['t']
  selectList := [⟨.literal (.double w), []⟩]
  whereClause := none
  groupBy := [.literal (.double v), .literal (.double w)]

/-- The statement, bound. -/
def boundSecond (table : BoundTable) (v w : Double) : BoundSelectStatement where
  tableOid := table.oid
  selectList := [⟨.literal (.double w) .double, []⟩]
  whereClause := none
  groupBy := [.literal (.double v) .double, .literal (.double w) .double]

/-- The statement is bound. -/
theorem bindSelect_selectSecond {v w : Double} (hw : w.val ≠ .nan) :
    Binder.bindSelect (some table) (selectSecond v w) = .ok (boundSecond table v w) := by
  have hself : (BoundExpr.literal (.double w) .double).isExprEqual (.literal (.double w) .double) = true :=
    (Fp.eq_iff hw hw).mpr rfl
  have hin : Binder.isInGroupBy (.literal (.double w) .double)
      [.literal (.double v) .double, .literal (.double w) .double] = true :=
    List.any_eq_true.mpr ⟨_, by simp, hself⟩
  have hvalid : Binder.validateAggregations [⟨.literal (.double w) .double, []⟩]
      [.literal (.double v) .double, .literal (.double w) .double] = .ok () := by
    rw [Binder.validateAggregations, if_neg]
    simp [hin]
  have hbind : Binder.bindSelect (some table) (selectSecond v w) = do
      Binder.validateAggregations [⟨.literal (.double w) .double, []⟩]
        [.literal (.double v) .double, .literal (.double w) .double]
      return boundSecond table v w := rfl
  rw [hbind, hvalid]
  rfl

/-- The plans of its group expressions. -/
def groupsSecond (v w : Double) : List PlanExpr := [planDouble v, planDouble w]

/-- What the builder makes of the statement, where both literals have the same text. -/
def specSecond (v w : Double) : AggregateSpec where
  groupExprs := [.literal (.double v) .double, .literal (.double w) .double]
  aggCalls := []
  outputs := [⟨true, 0, .double⟩]

/-- The second literal is taken for the first group expression. -/
theorem buildAggregateSpec_selectSecond {v w : Double} (schema : ExecSchema)
    (h : doubleDecimal v.val = doubleDecimal w.val) :
    buildAggregateSpec (groupsSecond v w) [⟨planDouble w, []⟩] schema = .ok (specSecond v w) := by
  have hfind : findGroupIndex (planDouble w) (groupsSecond v w) = some 0 := by
    rw [findGroupIndex, groupsSecond, List.findIdx?_cons, planExprEquivalent_planDouble h.symm]
    rfl
  have hout : addAggregateOutput (groupsSecond v w) schema [] (planDouble w) =
    .ok ([], ⟨true, 0, .double⟩) := by
    rw [planDouble, addAggregateOutput, addGroupKeyOutput]
    · rw [planDouble] at hfind
      rw [hfind]
      rfl
    all_goals
      intros
      contradiction
  have hgroups : (groupsSecond v w).mapM (compileExecExpr schema) = .ok (specSecond v w).groupExprs := rfl
  have houts : addAggregateOutputs (groupsSecond v w) schema [] [⟨planDouble w, []⟩] =
      .ok ([], (specSecond v w).outputs) := by
    rw [addAggregateOutputs, hout]
    rfl
  rw [buildAggregateSpec, hgroups, houts]
  rfl

/-- Where the comparison is sound for all statements, the texts of the literals differ. -/
theorem injOn_of_statementsSound (h : StatementsSound table D) :
    Set.InjOn (fun v : Double => doubleDecimal v.val) D := by
  intro v hv w hw htext
  by_cases hnan : w.val = .nan
  · have hvnan : v.val = .nan := eq_nan_of_doubleDecimal (hnan ▸ htext)
    exact Subtype.ext (hvnan.trans hnan.symm)
  · have hliterals : (selectSecond v w).LiteralsIn D := by
      constructor
      · intro item hitem
        obtain rfl := List.mem_singleton.mp hitem
        exact hw
      · intro e he
        rcases List.mem_pair.mp he with rfl | rfl
        · exact hv
        · exact hw
    have hplaced := h hliterals (bindSelect_selectSecond hnan) rfl rfl
      (buildAggregateSpec_selectSecond [] htext)
    obtain ⟨group, hgroup, hvalue⟩ := (List.forall₂_cons.mp hplaced).1 rfl
    cases hgroup
    cases hvalue fun _ => .error ""
    rfl

/-- **Expressions that are taken as the same are the same exactly where they have the same `double` literals**, and
have then the same values. In an accepted statement, each output that is no aggregate is placed at the first group
expression with its text, which has its value where it has its literals, and for an output that is a literal only
there. All expressions and statements with literals of a set are sound exactly where no two literals of it have the same
six decimals. -/
theorem groupIndex_sound_iff (table : BoundTable) :
    (∀ {e g : Expr} {p q : PlanExpr}, e.LiteralsIn Set.univ → g.LiteralsIn Set.univ → e.PlansTo table p →
      g.PlansTo table q → planExprEquivalent p q = true →
        (p.doubles = q.doubles ↔ p = q) ∧ (p.doubles = q.doubles → ∀ column, p.value column = q.value column)) ∧
    (∀ {stmt : SelectStatement} {bound : BoundSelectStatement} {outputs : List NamedPlanExpr}
      {groups : List PlanExpr} {schema : ExecSchema} {spec : AggregateSpec},
      stmt.LiteralsIn Set.univ → Binder.bindSelect (some table) stmt = .ok bound →
      buildOutputs bound.selectList = .ok outputs → bound.groupBy.mapM buildPlanExpr = .ok groups →
      buildAggregateSpec groups outputs schema = .ok spec →
      List.Forall₂ (PlacedByLiterals groups) outputs spec.outputs) ∧
    ∀ D : Set Double, (PairsSound table D ↔ Set.InjOn (fun v : Double => doubleDecimal v.val) D) ∧
      (StatementsSound table D ↔ Set.InjOn (fun v : Double => doubleDecimal v.val) D) := by
  refine ⟨fun he hg hp hq h => ?_, placedByLiterals_buildAggregateSpec,
    fun D => ⟨⟨injOn_of_pairsSound, pairsSound_of_injOn⟩, ⟨injOn_of_statementsSound, statementsSound_of_injOn⟩⟩⟩
  have hiff := doubles_eq_iff (hp.admitted he) (hq.admitted hg) h
  exact ⟨hiff, fun hdoubles column => by rw [hiff.mp hdoubles]⟩

/-! ### Two literals with the same six decimals -/

/-- `0.1234561`. -/
def lowerLiteral : Double := ⟨binary64.decode 0x3fbf9ad1a7fde06b, binary64.mem_decode⟩

/-- `0.1234562`. -/
def upperLiteral : Double := ⟨binary64.decode 0x3fbf9ad3557d0a17, binary64.mem_decode⟩

/-- The two literals have one text. -/
theorem doubleDecimal_lowerLiteral : doubleDecimal lowerLiteral.val = doubleDecimal upperLiteral.val := by
  decide +kernel

/-- The two literals are different, and not NaN. -/
theorem upperLiteral_ne : upperLiteral.val ≠ lowerLiteral.val ∧ upperLiteral.val ≠ .nan := by
  decide +kernel

/-- **`SELECT 0.1234562 FROM t GROUP BY 0.1234561, 0.1234562`** is accepted, and its output is placed at
the first group expression. -/
theorem selectSecond_misplaced :
    Binder.bindSelect (some ⟨7, columnA.columns⟩) (selectSecond lowerLiteral upperLiteral) =
        .ok (boundSecond ⟨7, columnA.columns⟩ lowerLiteral upperLiteral) ∧
      buildOutputs (boundSecond ⟨7, columnA.columns⟩ lowerLiteral upperLiteral).selectList =
        .ok [⟨planDouble upperLiteral, []⟩] ∧
      (boundSecond ⟨7, columnA.columns⟩ lowerLiteral upperLiteral).groupBy.mapM buildPlanExpr =
        .ok [planDouble lowerLiteral, planDouble upperLiteral] ∧
      (∀ schema, ∃ spec,
        buildAggregateSpec [planDouble lowerLiteral, planDouble upperLiteral]
          [⟨planDouble upperLiteral, []⟩]
          schema = .ok spec ∧ spec.outputs = [⟨true, 0, .double⟩]) ∧
      ∀ column, (planDouble upperLiteral).value column ≠ (planDouble lowerLiteral).value column := by
  refine ⟨bindSelect_selectSecond upperLiteral_ne.2, rfl, rfl, fun schema => ?_, fun column hvalue => ?_⟩
  · exact ⟨_, buildAggregateSpec_selectSecond schema doubleDecimal_lowerLiteral, rfl⟩
  · have hsame : upperLiteral = lowerLiteral := by
      injection hvalue with hvalue
      injection hvalue
    exact upperLiteral_ne.1 (congrArg Subtype.val hsame)

end

end SimpleOlap
