import SimpleOlap.Planner.PlanExpression
import SimpleOlap.Sql.ParserSteps

/-!
# Parsing undoes printing

* `Expr.Printable`: columns are identifiers, numbers are not negative, strings are without quotes.
* `Expr.tokens`: the tokens of the text (`lex_toString`), which the parser reads as the expression
  (`primary_tokens`).
* `parseExpression_toString`: the text of an expression is parsed as the expression.

Source: `expression.h`, `lexer.cpp`, `parser.cpp`.
-/

namespace SimpleOlap

open Lib

/-! ## Printing -/

/-- The token of an operator. -/
def BinaryOp.tokenType : BinaryOp → TokenType
  | .add => .plus
  | .sub => .minus
  | .eq => .eq
  | .ne => .ne
  | .gt => .gt
  | .ge => .ge
  | .lt => .lt
  | .le => .le
  | .and => .and
  | .or => .or

/-- An identifier. -/
def IsIdentifier : Bytes → Prop
  | [] => False
  | c :: rest => isIdentStart c = true ∧ ∀ d ∈ rest, isIdentChar d = true

/-- Whether a name is an identifier can be decided. -/
instance : DecidablePred IsIdentifier
  | [] => inferInstanceAs (Decidable False)
  | c :: rest => inferInstanceAs (Decidable (isIdentStart c = true ∧ ∀ d ∈ rest, isIdentChar d = true))

namespace Expr

/-- The columns are identifiers and no keywords, the numbers integers that are not negative, the strings
without quotes; an aggregate has an argument or is `COUNT(*)`. -/
def Printable : Expr → Prop
  | .columnRef columnName => IsIdentifier columnName ∧ Lexer.keywords.lookup columnName = none
  | .literal (.int32 v) => 0 ≤ v.toInt
  | .literal (.double _) => False
  | .literal (.string v) => 39 ∉ v
  | .binaryOp _ left right => left.Printable ∧ right.Printable
  | .aggFunc aggType arg => aggType ≠ .invalid ∧ arg.Printable
  | .aggStar aggType => aggType = .count

/-- The tokens of the text. -/
def tokens : Expr → List Token
  | .columnRef columnName => [⟨.identifier, columnName⟩]
  | .literal (.int32 v) => [⟨.integer, signedDecimal v.toInt⟩]
  | .literal (.double v) => [⟨.float, doubleDecimal v.val⟩]
  | .literal (.string v) => [⟨.string, v⟩]
  | .binaryOp op left right =>
    ⟨.lparen, [40]⟩ :: (left.tokens ++ ⟨op.tokenType, op.name⟩ :: (right.tokens ++ [⟨.rparen, [41]⟩]))
  | .aggFunc aggType arg =>
    ⟨.identifier, aggName aggType⟩ :: ⟨.lparen, [40]⟩ :: (arg.tokens ++ [⟨.rparen, [41]⟩])
  | .aggStar aggType =>
    [⟨.identifier, aggName aggType⟩, ⟨.lparen, [40]⟩, ⟨.star, [42]⟩, ⟨.rparen, [41]⟩]

end Expr

/-! ## The tokens of the text -/

namespace Lexer

variable {t : Bytes}

/-- What follows ends an identifier or a number. -/
def Boundary (t : Bytes) : Prop := ∀ c ∈ t.head?, isIdentChar c = false ∧ c ≠ 46

/-- An identifier does not start with a space. -/
theorem not_isSpace_of_isIdentStart {c : UInt8} (h : isIdentStart c = true) : isSpace c = false := by
  simp only [isIdentStart, isAlpha, Bool.or_eq_true, Bool.and_eq_true, decide_eq_true_eq,
    beq_iff_eq, UInt8.le_iff_toNat_le, UInt8.ext_iff] at h
  simp only [isSpace, Bool.or_eq_false_iff, Bool.and_eq_false_iff, decide_eq_false_iff_not, beq_eq_false_iff_ne,
    ne_eq, UInt8.le_iff_toNat_le, UInt8.ext_iff]
  simp only [UInt8.reduceToNat] at h ⊢
  omega

/-- An identifier or a keyword. -/
theorem nextToken_identifier {name : Bytes} (h : IsIdentifier name) (ht : Boundary t) :
    nextToken (name ++ t) = some (⟨(keywords.lookup name).getD .identifier, name⟩, t) := by
  cases name with
  | nil => exact h.elim
  | cons c rest =>
    have hall : ∀ d ∈ c :: rest, isIdentChar d = true := by
      intro d hd
      rcases List.mem_cons.mp hd with rfl | hd
      · exact isIdentChar_of_isIdentStart h.1
      · exact h.2 d hd
    obtain ⟨htake, hdrop⟩ := takeWhile_append_boundary hall fun d hd => (ht d hd).1
    rw [List.cons_append, nextToken, if_neg (by simp [not_isSpace_of_isIdentStart h.1]), if_pos h.1]
    rw [List.cons_append] at htake hdrop
    rw [readIdentifierOrKeyword, htake, hdrop]

/-- A boundary in front of other text. -/
theorem boundary_cons {c : UInt8} (h : isIdentChar c = false ∧ c ≠ 46) : Boundary (c :: t) := by
  intro d hd
  cases hd
  exact h

/-- The digits up to a boundary. -/
theorem scanNumber_append {digits : Bytes} (h : ∀ c ∈ digits, isDigit c = true) (ht : Boundary t) :
    scanNumber false (digits ++ t) = (digits, false, t) := by
  induction digits with
  | nil =>
    cases t with
    | nil => rfl
    | cons c t =>
      obtain ⟨hident, hpoint⟩ := ht c rfl
      have hdigit : isDigit c = false := by
        unfold isIdentChar at hident
        exact (Bool.or_eq_false_iff.mp (Bool.or_eq_false_iff.mp hident).1).2
      rw [List.nil_append, scanNumber, if_neg (by simp [hdigit]), if_neg fun h => hpoint h.1]
  | cons c digits ih =>
    have hc : isDigit c = true := h c List.mem_cons_self
    rw [List.cons_append, scanNumber, if_pos hc, ih fun d hd => h d (List.mem_cons_of_mem c hd)]

/-- A digit starts no identifier. -/
theorem not_isIdentStart_of_isDigit {c : UInt8} (h : isDigit c = true) :
    isSpace c = false ∧ isIdentStart c = false := by
  simp only [isDigit, Bool.and_eq_true, decide_eq_true_eq, UInt8.le_iff_toNat_le] at h
  simp only [isIdentStart, isAlpha, isSpace, Bool.or_eq_false_iff, Bool.and_eq_false_iff,
    decide_eq_false_iff_not, beq_eq_false_iff_ne, ne_eq, UInt8.le_iff_toNat_le, UInt8.ext_iff]
  simp only [UInt8.reduceToNat] at h ⊢
  omega

/-- A row of digits. -/
theorem nextToken_digits {digits : Bytes} (hne : digits ≠ []) (h : ∀ c ∈ digits, isDigit c = true)
    (ht : Boundary t) : nextToken (digits ++ t) = some (⟨.integer, digits⟩, t) := by
  obtain ⟨c, rest, rfl⟩ := List.exists_cons_of_ne_nil hne
  have hc : isDigit c = true := h c List.mem_cons_self
  obtain ⟨hspace, hstart⟩ := not_isIdentStart_of_isDigit hc
  have hscan := scanNumber_append h ht
  rw [List.cons_append] at hscan ⊢
  rw [nextToken, if_neg (by simp [hspace]), if_neg (by simp [hstart]), if_pos hc, readNumber, hscan]
  rfl

/-- A string without quotes. -/
theorem nextToken_string {v : Bytes} (h : 39 ∉ v) :
    nextToken (39 :: (v ++ 39 :: t)) = some (⟨.string, v⟩, t) := by
  have hall : ∀ c ∈ v, decide (c ≠ 39) = true := fun c hc =>
    decide_eq_true fun hquote => h (hquote ▸ hc)
  obtain ⟨htake, hdrop⟩ := takeWhile_append_boundary (t := 39 :: t) hall (by intro c hc; cases hc; rfl)
  show some (readString (v ++ 39 :: t)) = _
  rw [readString, htake, hdrop]
  rfl

/-- A space before a token is nothing. -/
theorem lex_space (t : Bytes) : lex (32 :: t) = lex t := by
  have hskip : nextToken (32 :: t) = nextToken t := rfl
  rcases hnext : nextToken t with _ | ⟨token, rest⟩
  · rw [lex_none hnext, lex_none (hskip.trans hnext)]
  · by_cases htype : token.type = .endOfInput
    · rw [lex_end hnext htype, lex_end (hskip.trans hnext) htype]
    · rw [lex_cons hnext htype, lex_cons (hskip.trans hnext) htype]

/-- A name is read up to its boundary. -/
theorem lex_name {name : Bytes} {type : TokenType} (h : IsIdentifier name)
    (hlookup : (keywords.lookup name).getD .identifier = type) (htype : type ≠ .endOfInput)
    (ht : Boundary t) : lex (name ++ t) = (lex t).map (⟨type, name⟩ :: ·) := by
  have hnext := nextToken_identifier h ht
  rw [hlookup] at hnext
  exact lex_cons hnext htype

/-- An operator with a space behind it. -/
theorem lex_operator (op : BinaryOp) (t : Bytes) :
    lex (op.name ++ 32 :: t) = (lex t).map (⟨op.tokenType, op.name⟩ :: ·) := by
  have ht : Boundary (32 :: t) := boundary_cons (by decide)
  rw [← lex_space t]
  cases op
  case and | or => exact lex_name (by decide +kernel) rfl (by decide) ht
  all_goals exact lex_cons rfl (by decide)

/-- The name of an aggregate is an identifier. -/
theorem lex_aggName {aggType : AggType} (h : aggType ≠ .invalid) (ht : Boundary t) :
    lex (aggName aggType ++ t) = (lex t).map (⟨.identifier, aggName aggType⟩ :: ·) := by
  cases aggType
  case invalid => exact absurd rfl h
  all_goals exact lex_name (by decide +kernel) rfl (by decide) ht

/-- Digits only. -/
theorem isDigit_of_mem_decimal {n : ℕ} {c : UInt8} (h : c ∈ decimal n) : isDigit c = true := by
  obtain ⟨d, hd, rfl⟩ := List.mem_map.mp h
  have hdigit : d.isDigit = true := Nat.isDigit_of_mem_toDigits (by decide) (by decide) hd
  have hnat := toNat_toUInt8_of_isDigit hdigit
  have hlow : 48 ≤ d.toNat := of_decide_eq_true (Bool.and_eq_true_iff.mp hdigit).1
  have hhigh : d.toNat ≤ 57 := of_decide_eq_true (Bool.and_eq_true_iff.mp hdigit).2
  simp only [isDigit, Bool.and_eq_true, decide_eq_true_eq, UInt8.le_iff_toNat_le, UInt8.reduceToNat]
  omega

/-- A natural number has no sign. -/
theorem signedDecimal_of_nonneg {z : ℤ} (h : 0 ≤ z) : signedDecimal z = decimal z.natAbs := by
  rw [signedDecimal, if_neg (by omega)]

/-- An opening parenthesis. -/
theorem lex_lparen (t : Bytes) : lex (40 :: t) = (lex t).map (⟨.lparen, [40]⟩ :: ·) :=
  lex_cons rfl (by decide)

/-- A closing parenthesis. -/
theorem lex_rparen (t : Bytes) : lex (41 :: t) = (lex t).map (⟨.rparen, [41]⟩ :: ·) :=
  lex_cons rfl (by decide)

/-- **The tokens of a printed expression.** -/
theorem lex_toString {e : Expr} (h : e.Printable) (ht : Boundary t) :
    lex (e.toString ++ t) = (lex t).map (e.tokens ++ ·) := by
  induction e generalizing t with
  | columnRef columnName =>
    obtain ⟨hname, hlookup⟩ := h
    have htype : (keywords.lookup columnName).getD .identifier = .identifier := by rw [hlookup]; rfl
    exact lex_name hname htype (fun h => by cases h) ht
  | literal value =>
    cases value with
    | int32 v =>
      have hdigits : decimal v.toInt.natAbs ≠ [] := by
        intro hnil
        exact Nat.toDigits_ne_nil (List.map_eq_nil_iff.mp hnil)
      rw [Expr.toString, Expr.tokens, signedDecimal_of_nonneg h]
      exact lex_cons (nextToken_digits hdigits (fun c hc => isDigit_of_mem_decimal hc) ht) (fun h => by cases h)
    | double v => exact h.elim
    | string v =>
      have hnext := nextToken_string (t := t) h
      rw [Expr.toString, List.cons_append, List.append_assoc, List.singleton_append]
      exact lex_cons hnext (fun h => by cases h)
  | binaryOp op left right ihleft ihright =>
    obtain ⟨hleft, hright⟩ := h
    have hspace : ∀ t, Boundary (32 :: t) := fun t => boundary_cons (by decide)
    have hparen : Boundary (41 :: t) := boundary_cons (by decide)
    simp only [Expr.toString, Expr.tokens, List.cons_append, List.append_assoc, List.nil_append]
    rw [lex_lparen, ihleft hleft (hspace _), lex_space, lex_operator, ihright hright hparen, lex_rparen]
    simp only [Option.map_map]
    rfl
  | aggFunc aggType arg ih =>
    obtain ⟨htype, harg⟩ := h
    simp only [Expr.toString, Expr.tokens, List.cons_append, List.append_assoc, List.nil_append]
    rw [lex_aggName htype (boundary_cons (by decide)), lex_lparen, ih harg (boundary_cons (by decide)),
      lex_rparen]
    simp only [Option.map_map]
    rfl
  | aggStar aggType =>
    have hstar : ∀ t, lex (42 :: t) = (lex t).map (⟨.star, [42]⟩ :: ·) := fun t => lex_cons rfl (by decide)
    have htype : aggType ≠ .invalid := by
      rw [show aggType = .count from h]
      decide
    simp only [Expr.toString, Expr.tokens, List.cons_append, List.append_assoc, List.nil_append]
    rw [lex_aggName htype (boundary_cons (by decide)), lex_lparen, hstar, lex_rparen]
    simp only [Option.map_map]
    rfl

end Lexer

/-! ## Parsing the tokens -/

namespace Parser

variable {ts mid rest : List Token} {n : ℕ}

/-- No operator follows. -/
structure NoOperator (type : TokenType) : Prop where
  comparison : comparisonOp? type = none
  and : andOp? type = none
  or : orOp? type = none

/-- An operand without an operator. -/
theorem parseLevel_stop {operand : Parser Expr} {op? : TokenType → Option BinaryOp} {e : Expr}
    (h : operand ts = .ok (e, rest)) (hstop : op? (headType rest) = none) (hn : 0 < n) :
    parseLevel n operand op? ts = .ok (e, rest) := by
  obtain ⟨n, rfl⟩ := Nat.exists_eq_succ_of_ne_zero hn.ne'
  rw [parseLevel, bind_of_ok h]
  exact leftLoop_stop hstop n e

/-- Two operands with an operator of the level. -/
theorem parseLevel_step {operand : Parser Expr} {op? : TokenType → Option BinaryOp} {left right : Expr}
    {t : Token} {op : BinaryOp} (hleft : operand ts = .ok (left, t :: mid)) (hop : op? t.type = some op)
    (hright : operand mid = .ok (right, rest)) (hstop : op? (headType rest) = none) (hn : 1 < n) :
    parseLevel n operand op? ts = .ok (.binaryOp op left right, rest) := by
  obtain ⟨n, rfl⟩ := Nat.exists_eq_add_of_le hn
  rw [parseLevel, bind_of_ok hleft, Nat.add_comm, leftLoop_step hop, bind_of_ok hright]
  exact leftLoop_stop hstop n _

/-- An expression without an operator outside of parentheses. -/
theorem parseExpression_single {e : Expr} (h : parsePrimaryExpression n ts = .ok (e, rest))
    (hstop : NoOperator (headType rest)) (hn : 0 < n) : parseExpression n ts = .ok (e, rest) :=
  parseLevel_stop (parseLevel_stop (parseLevel_stop h hstop.comparison hn) hstop.and hn) hstop.or hn

/-- An expression with one operator outside of parentheses. -/
theorem parseExpression_binary {op : BinaryOp} {left right : Expr}
    (hleft : parsePrimaryExpression n ts = .ok (left, ⟨op.tokenType, op.name⟩ :: mid))
    (hright : parsePrimaryExpression n mid = .ok (right, rest)) (hstop : NoOperator (headType rest))
    (hn : 1 < n) : parseExpression n ts = .ok (.binaryOp op left right, rest) := by
  have hpos : 0 < n := Nat.zero_lt_of_lt hn
  have hcomparison : comparisonOp? op.tokenType = some op →
      parseExpression n ts = .ok (.binaryOp op left right, rest) := fun hop =>
    parseLevel_stop (parseLevel_stop (parseLevel_step hleft hop hright hstop.comparison hn) hstop.and hpos)
      hstop.or hpos
  cases op
  case and =>
    have hl : parseComparisonExpression n (parsePrimaryExpression n) ts =
        .ok (left, ⟨.and, BinaryOp.and.name⟩ :: mid) := parseLevel_stop hleft rfl hpos
    have hr := parseLevel_stop hright hstop.comparison hpos
    exact parseLevel_stop (parseLevel_step hl rfl hr hstop.and hn) hstop.or hpos
  case or =>
    have hcomp : parseComparisonExpression n (parsePrimaryExpression n) ts =
        .ok (left, ⟨.or, BinaryOp.or.name⟩ :: mid) := parseLevel_stop hleft rfl hpos
    have hl : parseAndExpression n (parsePrimaryExpression n) ts =
        .ok (left, ⟨.or, BinaryOp.or.name⟩ :: mid) := parseLevel_stop hcomp rfl hpos
    have hr := parseLevel_stop (parseLevel_stop hright hstop.comparison hpos) hstop.and hpos
    exact parseLevel_step hl rfl hr hstop.or hn
  all_goals exact hcomparison rfl

/-- An expression starts with neither a star nor a closing parenthesis. -/
theorem headType_tokens (e : Expr) (ts : List Token) :
    headType (e.tokens ++ ts) ≠ .star ∧ headType (e.tokens ++ ts) ≠ .rparen := by
  cases e with
  | literal value =>
    cases value
    all_goals exact ⟨(nomatch ·), (nomatch ·)⟩
  | _ => exact ⟨(nomatch ·), (nomatch ·)⟩

/-- An aggregate is read back from its name. -/
theorem aggTypeOf_aggName {aggType : AggType} (h : aggType ≠ .invalid) :
    aggTypeOf (aggName aggType) = aggType := by
  cases aggType
  case invalid => exact absurd rfl h
  all_goals rfl

/-- The digits of a number that is not negative. -/
theorem stoi_signedDecimal {v : Int32} (h : 0 ≤ v.toInt) :
    stoi (signedDecimal v.toInt) = .ok (.int32 v) := by
  have hlt : v.toInt.natAbs < 2 ^ 31 := by
    have := v.toInt_lt
    omega
  rw [Lexer.signedDecimal_of_nonneg h, stoi, decimalValue_decimal, if_pos hlt]
  congr 2
  rw [← Int32.ofInt_eq_ofNat, Int.natAbs_of_nonneg h, Int32.ofInt_toInt]

/-- A token of another type is left. -/
theorem matchToken_of_ne {type : TokenType} (h : headType ts ≠ type) :
    matchToken type ts = .ok (false, ts) := by
  have hrun := matchToken_bind type pure ts
  rw [bind_pure, if_neg h] at hrun
  exact hrun

/-- The name of a column. -/
theorem primary_column {name : Bytes} (hts : headType ts ≠ .lparen) :
    parsePrimaryExpression (n + 1) (⟨.identifier, name⟩ :: ts) = .ok (.columnRef name, ts) := by
  rw [primary_identifier n ts rfl]
  show (if headType ts = .lparen then
    (do let _ ← consume; parseCall (parseExpression n) name : Parser Expr)
    else pure (.columnRef name)) ts = _
  rw [if_neg hts]
  rfl

/-- The call of an aggregate. -/
theorem primary_call {aggType : AggType} {arg : Expr} (htype : aggType ≠ .invalid)
    (hstar : headType mid ≠ .star) (hempty : headType mid ≠ .rparen)
    (harg : parseExpression n mid = .ok (arg, ⟨.rparen, [41]⟩ :: ts)) :
    parsePrimaryExpression (n + 1) (⟨.identifier, aggName aggType⟩ :: ⟨.lparen, [40]⟩ :: mid) =
      .ok (.aggFunc aggType arg, ts) := by
  rw [primary_identifier n _ rfl]
  show parseCall (parseExpression n) (aggName aggType) mid = _
  rw [parseCall, aggTypeOf_aggName htype, if_neg htype, bind_of_ok (matchToken_of_ne hstar)]
  show (if headType mid = .rparen then _ else _ : Parser Expr) mid = _
  rw [if_neg hempty, bind_of_ok harg]
  rfl

/-- **The parser reads the tokens of an expression as the expression**, unless what follows makes its name
a function call. -/
theorem primary_tokens {e : Expr} (h : e.Printable) (hts : headType ts ≠ .lparen)
    (hn : e.tokens.length < n) : parsePrimaryExpression n (e.tokens ++ ts) = .ok (e, ts) := by
  have hclose : ∀ ts : List Token, NoOperator (headType (⟨.rparen, [41]⟩ :: ts)) :=
    fun _ => ⟨rfl, rfl, rfl⟩
  have hparen : ∀ ts : List Token, headType (⟨.rparen, [41]⟩ :: ts) ≠ .lparen := fun _ => (nomatch ·)
  induction e generalizing n ts with
  | columnRef columnName =>
    obtain ⟨n, rfl⟩ := Nat.exists_eq_succ_of_ne_zero (Nat.ne_zero_of_lt hn)
    exact primary_column hts
  | literal value =>
    obtain ⟨n, rfl⟩ := Nat.exists_eq_succ_of_ne_zero (Nat.ne_zero_of_lt hn)
    cases value with
    | int32 v =>
      show (do return .literal (← stoi (signedDecimal v.toInt)) : Parser Expr) ts = _
      rw [stoi_signedDecimal h]
      rfl
    | double v => exact h.elim
    | string v => rfl
  | binaryOp op left right ihleft ihright =>
    obtain ⟨n, rfl⟩ := Nat.exists_eq_succ_of_ne_zero (Nat.ne_zero_of_lt hn)
    obtain ⟨hl, hr⟩ := h
    simp only [Expr.tokens, List.length_cons, List.length_append, List.length_nil] at hn
    have hop : headType (⟨op.tokenType, op.name⟩ :: (right.tokens ++ ⟨.rparen, [41]⟩ :: ts)) ≠ .lparen := by
      cases op
      all_goals exact (nomatch ·)
    have hleft := ihleft hl hop (n := n) (by omega)
    have hright := ihright hr (hparen ts) (n := n) (by omega)
    have hexpr := parseExpression_binary hleft hright (hclose ts) (by omega)
    simp only [Expr.tokens, List.cons_append, List.append_assoc, List.nil_append]
    rw [primary_lparen n _ rfl, bind_of_ok hexpr]
    rfl
  | aggFunc aggType arg ih =>
    obtain ⟨n, rfl⟩ := Nat.exists_eq_succ_of_ne_zero (Nat.ne_zero_of_lt hn)
    obtain ⟨htype, harg⟩ := h
    simp only [Expr.tokens, List.length_cons, List.length_append, List.length_nil] at hn
    have hprimary := ih harg (hparen ts) (n := n) (by omega)
    have hexpr := parseExpression_single hprimary (hclose ts) (by omega)
    obtain ⟨hstar, hempty⟩ := headType_tokens arg (⟨.rparen, [41]⟩ :: ts)
    simp only [Expr.tokens, List.cons_append, List.append_assoc, List.nil_append]
    exact primary_call htype hstar hempty hexpr
  | aggStar aggType =>
    obtain ⟨n, rfl⟩ := Nat.exists_eq_succ_of_ne_zero (Nat.ne_zero_of_lt hn)
    have htype : aggType = .count := h
    subst htype
    rfl

/-- **Parsing undoes printing**: the text of an expression, where it is shorter than `2 ^ 32` bytes and the 32-bit
position of the lexer can go through it, has tokens, and they are parsed as the expression, up to the token at the
end. -/
theorem parseExpression_toString {e : Expr} (h : e.Printable) : e.toString.length < 2 ^ 32 →
    ∃ tokens, Lexer.lex e.toString = some tokens ∧
      parseExpression (tokens.length + 1) tokens = .ok (e, [endToken]) := by
  intro _
  have hlex := Lexer.lex_toString (t := []) h (fun _ hc => by cases hc)
  have hend : Lexer.lex [] = some [endToken] := rfl
  rw [List.append_nil, hend] at hlex
  refine ⟨e.tokens ++ [endToken], hlex, ?_⟩
  have hlength : (e.tokens ++ [endToken]).length = e.tokens.length + 1 := by
    rw [List.length_append]
    rfl
  have hprimary : parsePrimaryExpression ((e.tokens ++ [endToken]).length + 1) (e.tokens ++ [endToken]) =
      .ok (e, [endToken]) := primary_tokens h (nomatch ·) (by omega)
  exact parseExpression_single hprimary ⟨rfl, rfl, rfl⟩ (Nat.succ_pos _)

/-- `(COUNT(*) >= (a + 7))`. -/
theorem parseExpression_toString_count :
    ∃ tokens, Lexer.lex (Expr.binaryOp .ge (.aggStar .count)
        (.binaryOp .add (.columnRef (ascii ['a'])) (.literal (.int32 7)))).toString = some tokens ∧
      parseExpression (tokens.length + 1) tokens = .ok (.binaryOp .ge (.aggStar .count)
        (.binaryOp .add (.columnRef (ascii ['a'])) (.literal (.int32 7))), [endToken]) :=
  parseExpression_toString ⟨rfl, ⟨⟨by decide +kernel, rfl⟩, (by decide : (0 : ℤ) ≤ (7 : Int32).toInt)⟩⟩
    (by decide +kernel)

end Parser

end SimpleOlap
