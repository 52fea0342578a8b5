import SimpleOlap.Lib.Results
import SimpleOlap.Sql.Parser

/-!
# The steps of the parser

The loops of the parser and its nested expressions count down from a number of steps. What a parser
leaves is never longer than what it was given (`Shrinks`), so any number of steps above the number of
tokens gives the same: `settled_parseExpression`, `settled_parseStatementIn`.
-/

namespace SimpleOlap

open Lib

namespace Parser

variable {α β σ : Type}

/-! ## Running a parser -/

/-- The type of the first token. -/
def headType (ts : List Token) : TokenType := (ts.head?.getD endToken).type

/-- A sequence that succeeds, taken apart. -/
theorem bind_eq_ok {p : Parser α} {f : α → Parser β} {ts rest : List Token} {b : β}
    (h : (p >>= f) ts = .ok (b, rest)) : ∃ a mid, p ts = .ok (a, mid) ∧ f a mid = .ok (b, rest) := by
  obtain ⟨⟨a, mid⟩, ha, hf⟩ := Lib.bind_eq_ok h
  exact ⟨a, mid, ha, hf⟩

/-- A sequence whose first part succeeds. -/
theorem bind_of_ok {p : Parser α} {f : α → Parser β} {ts mid : List Token} {a : α}
    (h : p ts = .ok (a, mid)) : (p >>= f) ts = f a mid := by
  show (p ts).bind (fun x => f x.1 x.2) = f a mid
  rw [h]
  rfl

/-- `pure` consumes nothing. -/
theorem pure_eq_ok {a b : α} {ts rest : List Token} (h : (pure a : Parser α) ts = .ok (b, rest)) :
    b = a ∧ rest = ts := by
  cases h
  exact ⟨rfl, rfl⟩

/-- No operator of the level follows. -/
theorem leftLoop_stop {operand : Parser Expr} {op? : TokenType → Option BinaryOp} {ts : List Token}
    (h : op? (ts.head?.getD endToken).type = none) (n : ℕ) (left : Expr) :
    leftLoop operand op? (n + 1) left ts = .ok (left, ts) := by
  unfold leftLoop
  rw [bind_of_ok rfl, h]
  rfl

/-- An operator of the level follows. -/
theorem leftLoop_step {operand : Parser Expr} {op? : TokenType → Option BinaryOp} {t : Token}
    {ts : List Token} {op : BinaryOp} (h : op? t.type = some op) (n : ℕ) (left : Expr) :
    leftLoop operand op? (n + 1) left (t :: ts) =
      (operand >>= fun right => leftLoop operand op? n (.binaryOp op left right)) ts := by
  have hpeek : peek (t :: ts) = .ok (t, t :: ts) := rfl
  rw [leftLoop, bind_of_ok hpeek, h]
  rfl

/-- There is no primary expression at the end of the tokens. -/
theorem primary_nil (n : ℕ) :
    parsePrimaryExpression (n + 1) [] = .error ("Unexpected token in expression: " ++ nameText []) := by
  have hpeek : peek [] = .ok (endToken, []) := rfl
  rw [parsePrimaryExpression, bind_of_ok hpeek]
  rfl

/-- A primary expression at an identifier: a column, or a call. -/
theorem primary_identifier (n : ℕ) {t : Token} (ts : List Token) (h : t.type = .identifier) :
    parsePrimaryExpression (n + 1) (t :: ts) = parseName (parseExpression n) (t :: ts) := by
  have hpeek : peek (t :: ts) = .ok (t, t :: ts) := rfl
  rw [parsePrimaryExpression, bind_of_ok hpeek, h]
  rfl

/-- A primary expression at a parenthesis. -/
theorem primary_lparen (n : ℕ) {t : Token} (ts : List Token) (h : t.type = .lparen) :
    parsePrimaryExpression (n + 1) (t :: ts) = (do
      let expr ← parseExpression n
      let _ ← expect .rparen "Expected ')'"
      return expr : Parser Expr) ts := by
  have hpeek : peek (t :: ts) = .ok (t, t :: ts) := rfl
  rw [parsePrimaryExpression, bind_of_ok hpeek, h]
  rfl

/-- A literal takes no steps. -/
theorem primary_other (n m : ℕ) {t : Token} (ts : List Token) (hname : t.type ≠ .identifier)
    (hparen : t.type ≠ .lparen) :
    parsePrimaryExpression (n + 1) (t :: ts) = parsePrimaryExpression (m + 1) (t :: ts) := by
  have hpeek : peek (t :: ts) = .ok (t, t :: ts) := rfl
  rw [parsePrimaryExpression, parsePrimaryExpression, bind_of_ok hpeek, bind_of_ok hpeek]
  cases htype : t.type
  case identifier => exact absurd htype hname
  case lparen => exact absurd htype hparen
  all_goals rfl

/-! ## What is left -/

/-- What the parser leaves is not longer than what it was given. -/
def Shrinks (p : Parser α) : Prop := ∀ ts a rest, p ts = .ok (a, rest) → rest.length ≤ ts.length

namespace Shrinks

/-- `pure` leaves the tokens. -/
theorem pure (a : α) : Shrinks (Pure.pure a : Parser α) := by
  intro ts b rest h
  rw [(pure_eq_ok h).2]

/-- An error leaves nothing. -/
theorem fail (message : String) : Shrinks (Parser.fail message : Parser α) := by
  intro ts b rest h
  cases h

/-- In sequence. -/
theorem bind {p : Parser α} {f : α → Parser β} (hp : Shrinks p) (hf : ∀ a, Shrinks (f a)) :
    Shrinks (p >>= f) := by
  intro ts b rest h
  obtain ⟨a, mid, ha, hb⟩ := bind_eq_ok h
  exact (hf a mid b rest hb).trans (hp ts a mid ha)

/-- On either branch. -/
theorem ite {c : Prop} [Decidable c] {p q : Parser α} (hp : Shrinks p) (hq : Shrinks q) :
    Shrinks (if c then p else q) := by
  split
  · exact hp
  · exact hq

/-- Looking at a token. -/
theorem peek : Shrinks Parser.peek := by
  intro ts a rest h
  cases h
  exact le_rfl

/-- Taking a token. -/
theorem consume : Shrinks Parser.consume := by
  intro ts a rest h
  cases h
  exact (List.tail_suffix ts).length_le

/-- A computation that reads no token. -/
theorem lift (e : Except String α) : Shrinks (liftM e : Parser α) := by
  intro ts a rest h
  cases e with
  | error message => cases h
  | ok b =>
    cases h
    exact le_rfl

/-- Source: `parser.cpp` Match. -/
theorem matchToken (type : TokenType) : Shrinks (Parser.matchToken type) :=
  bind peek fun _ => ite (bind consume fun _ => pure true) (pure false)

/-- Source: `parser.cpp` Expect. -/
theorem expect (type : TokenType) (message : String) : Shrinks (Parser.expect type message) :=
  bind peek fun _ => ite (fail _) consume

/-- A loop over items and commas. -/
theorem commaLoop {item : σ → Parser σ} (h : ∀ s, Shrinks (item s)) :
    ∀ n s, Shrinks (Parser.commaLoop item n s)
  | 0, _ => fail _
  | n + 1, s => bind (h s) fun s => bind (matchToken .comma) fun _ => ite (commaLoop h n s) (pure s)

/-- A loop over operands and operators. -/
theorem leftLoop {operand : Parser Expr} (h : Shrinks operand) (op? : TokenType → Option BinaryOp) :
    ∀ n left, Shrinks (Parser.leftLoop operand op? n left)
  | 0, _ => fail _
  | n + 1, left => bind peek fun token => by
    split
    · exact pure left
    · exact bind consume fun _ => bind h fun _ => leftLoop h op? n _

/-- One level of the binary operators. -/
theorem parseLevel {operand : Parser Expr} (h : Shrinks operand) (op? : TokenType → Option BinaryOp)
    (n : ℕ) : Shrinks (Parser.parseLevel n operand op?) :=
  bind h fun left => leftLoop h op? n left

/-- All levels of the binary operators. -/
theorem parseOrExpression {primary : Parser Expr} (h : Shrinks primary) (n : ℕ) :
    Shrinks (Parser.parseOrExpression n primary) :=
  parseLevel (parseLevel (parseLevel h _ n) _ n) _ n

/-- The arguments of a call. -/
theorem parseCall {expression : Parser Expr} (h : Shrinks expression) (name : Bytes) :
    Shrinks (Parser.parseCall expression name) :=
  ite (fail _) <| bind (matchToken .star) fun _ =>
    ite (ite (fail _) (bind (expect _ _) fun _ => pure _)) <|
      bind peek fun _ => ite (fail _) (bind h fun _ => bind (expect _ _) fun _ => pure _)

/-- A column, or a call. -/
theorem parseName {expression : Parser Expr} (h : Shrinks expression) :
    Shrinks (Parser.parseName expression) :=
  bind consume fun _ => bind peek fun _ => ite (bind consume fun _ => parseCall h _) (pure _)

/-- A primary expression, at any fuel. -/
theorem parsePrimaryExpression : ∀ n, Shrinks (Parser.parsePrimaryExpression n)
  | 0 => fail _
  | n + 1 => bind peek fun token => by
    have h := parseOrExpression (parsePrimaryExpression n) n
    split
    · exact bind consume fun _ => bind (lift _) fun _ => pure _
    · exact bind consume fun _ => bind (lift _) fun _ => pure _
    · exact bind consume fun _ => pure _
    · exact parseName h
    · exact bind consume fun _ => bind h fun _ => bind (expect _ _) fun _ => pure _
    · exact fail _

/-- An expression. -/
theorem parseExpression (n : ℕ) : Shrinks (Parser.parseExpression n) :=
  parseOrExpression (parsePrimaryExpression n) n

/-- An item of the select list. -/
theorem parseSelectItem (n : ℕ) : Shrinks (Parser.parseSelectItem n) :=
  bind peek fun _ => ite (bind consume fun _ => pure _) <| bind (parseExpression n) fun _ =>
    bind peek fun _ => ite (bind consume fun _ => bind peek fun _ =>
      ite (fail _) (bind consume fun _ => pure _)) <| ite (bind consume fun _ => pure _) (pure _)

/-- The type of a column. -/
theorem parseDataType : Shrinks Parser.parseDataType :=
  bind (expect _ _) fun _ => ite (fail _) (pure _)

/-- The name of a column. -/
theorem parseColumnName (message : String) (names : List Bytes) :
    Shrinks (Parser.parseColumnName message names) :=
  bind (expect _ _) fun _ => pure _

/-- The columns of a key. -/
theorem parseKeyColumnList (n : ℕ) : Shrinks (Parser.parseKeyColumnList n) :=
  bind (expect _ _) fun _ => bind (commaLoop (parseColumnName _) n _) fun _ =>
    bind (expect _ _) fun _ => pure _

/-- The key behind a column. -/
theorem parseColumnKey (name : Bytes) : Shrinks (Parser.parseColumnKey name) :=
  bind peek fun _ => ite (bind consume fun _ => bind (expect _ _) fun _ => pure _) (pure _)

/-- The name of a key. -/
theorem parseKeyName : Shrinks Parser.parseKeyName :=
  bind peek fun _ => ite (bind consume fun _ => pure _) (pure _)

/-- A PRIMARY KEY item. -/
theorem parsePrimaryKey (n : ℕ) : Shrinks (Parser.parsePrimaryKey n) :=
  bind consume fun _ => bind (expect _ _) fun _ => bind (parseKeyColumnList n) fun _ => pure _

/-- A KEY item. -/
theorem parseSecondaryKey (n : ℕ) : Shrinks (Parser.parseSecondaryKey n) :=
  bind consume fun _ => bind parseKeyName fun _ => bind (parseKeyColumnList n) fun _ => pure _

/-- An item of CREATE TABLE. -/
theorem parseCreateItem (n : ℕ) (stmt : CreateTableStatement) : Shrinks (Parser.parseCreateItem n stmt) :=
  bind peek fun _ => ite (bind (parsePrimaryKey n) fun _ => pure _) <|
    ite (bind (parseSecondaryKey n) fun _ => pure _) <|
      bind (expect _ _) fun _ => bind parseDataType fun _ => bind (parseColumnKey _) fun _ => pure _

/-- WHERE. -/
theorem parseWhere (n : ℕ) : Shrinks (Parser.parseWhere n) :=
  bind (matchToken _) fun _ => ite (bind (parseExpression n) fun _ => pure _) (pure _)

/-- GROUP BY. -/
theorem parseGroupBy (n : ℕ) : Shrinks (Parser.parseGroupBy n) :=
  bind (matchToken _) fun _ => ite (bind (expect _ _) fun _ =>
    commaLoop (fun _ => bind (parseExpression n) fun _ => pure _) n _) (pure _)

/-- SELECT. -/
theorem parseSelect (n : ℕ) : Shrinks (Parser.parseSelect n) :=
  bind (commaLoop (fun _ => bind (parseSelectItem n) fun _ => pure _) n _) fun _ =>
    bind (expect _ _) fun _ => bind (expect _ _) fun _ => bind (parseWhere n) fun _ =>
      bind (parseGroupBy n) fun _ => bind (matchToken _) fun _ => bind peek fun _ =>
        ite (fail _) (pure _)

/-- CREATE TABLE. -/
theorem parseCreateTable (n : ℕ) : Shrinks (Parser.parseCreateTable n) :=
  bind (expect _ _) fun _ => bind (expect _ _) fun _ => bind (expect _ _) fun _ =>
    bind (commaLoop (parseCreateItem n) n _) fun _ => bind (expect _ _) fun _ => pure _

/-- The columns of INSERT. -/
theorem parseColumnList (n : ℕ) : Shrinks (Parser.parseColumnList n) :=
  bind (matchToken _) fun _ => ite (bind (commaLoop (parseColumnName _) n _) fun _ =>
    bind (expect _ _) fun _ => pure _) (pure _)

/-- A row of VALUES. -/
theorem parseRow (n : ℕ) : Shrinks (Parser.parseRow n) :=
  bind (expect _ _) fun _ => bind (commaLoop (fun _ => bind (parseExpression n) fun _ => pure _) n _)
    fun _ => bind (expect _ _) fun _ => pure _

/-- INSERT. -/
theorem parseInsert (n : ℕ) : Shrinks (Parser.parseInsert n) :=
  bind (expect _ _) fun _ => bind (expect _ _) fun _ => bind (parseColumnList n) fun _ =>
    bind (expect _ _) fun _ => bind (commaLoop (fun _ => bind (parseRow n) fun _ => pure _) n _) fun _ =>
      bind (matchToken _) fun _ => pure _

end Shrinks

/-! ## Any number of steps -/

/-- What follows a `Match`, by the token at the front. -/
theorem matchToken_bind (type : TokenType) (f : Bool → Parser β) (ts : List Token) :
    (matchToken type >>= f) ts =
      if headType ts = type then f true ts.tail else f false ts := by
  show ((if headType ts = type then
    (do let _ ← Parser.consume; return true : Parser Bool) else pure false) ts).bind _ = _
  by_cases h : headType ts = type
  · rw [if_pos h, if_pos h]
    rfl
  · rw [if_neg h, if_neg h]
    rfl

/-- Two parsers do the same on fewer tokens than this. -/
def Agree (N : ℕ) (p q : Parser α) : Prop := ∀ ts, ts.length < N → p ts = q ts

namespace Agree

variable {N : ℕ}

/-- A parser agrees with itself. -/
theorem refl (p : Parser α) : Agree N p p := fun _ _ => rfl

/-- Agreement on fewer tokens. -/
theorem mono {M : ℕ} {p q : Parser α} (h : Agree N p q) (hM : M ≤ N) : Agree M p q :=
  fun ts hts => h ts (lt_of_lt_of_le hts hM)

/-- In sequence, where the first part does not add tokens. -/
theorem bind {p q : Parser α} {f g : α → Parser β} (hp : Agree N p q) (hshrinks : Shrinks p)
    (hf : ∀ a, Agree N (f a) (g a)) : Agree N (p >>= f) (q >>= g) := by
  intro ts hts
  show (p ts).bind (fun x => f x.1 x.2) = (q ts).bind fun x => g x.1 x.2
  rw [← hp ts hts]
  rcases hrun : p ts with message | ⟨a, rest⟩
  · rfl
  · exact hf a rest (lt_of_le_of_lt (hshrinks ts a rest hrun) hts)

/-- A first step that is the same in both. -/
theorem step {p : Parser α} {f g : α → Parser β} (hshrinks : Shrinks p) (hf : ∀ a, Agree N (f a) (g a)) :
    Agree N (p >>= f) (p >>= g) := bind (refl p) hshrinks hf

/-- On either branch. -/
theorem ite {c : Prop} [Decidable c] {p p' q q' : Parser α} (hp : c → Agree N p p') (hq : Agree N q q') :
    Agree N (if c then p else q) (if c then p' else q') := by
  split
  · exact hp ‹_›
  · exact hq

/-- A token that is matched is taken off. -/
theorem matchThen {type : TokenType} (htype : type ≠ .endOfInput) {p p' q q' : Parser β}
    (hp : Agree N p p') (hq : Agree (N + 1) q q') :
    Agree (N + 1) (do if ← Parser.matchToken type then p else q)
      (do if ← Parser.matchToken type then p' else q') := by
  intro ts hts
  rw [matchToken_bind, matchToken_bind]
  split
  · rename_i hhead
    cases ts with
    | nil => exact absurd hhead.symm htype
    | cons t ts => exact hp ts (Nat.lt_of_succ_lt_succ hts)
  · exact hq ts hts

/-- A loop over items and commas, whatever its fuel. -/
theorem commaLoop {item item' : σ → Parser σ} (hitem : ∀ s, Agree N (item s) (item' s))
    (hshrinks : ∀ s, Shrinks (item s)) {n m : ℕ} (hn : N ≤ n) (hm : N ≤ m) (s : σ) :
    Agree N (Parser.commaLoop item n s) (Parser.commaLoop item' m s) := by
  induction N generalizing n m s with
  | zero => exact fun ts hts => absurd hts (Nat.not_lt_zero _)
  | succ N ih =>
    obtain ⟨n, rfl⟩ := Nat.exists_eq_succ_of_ne_zero (Nat.ne_of_gt (Nat.lt_of_lt_of_le N.succ_pos hn))
    obtain ⟨m, rfl⟩ := Nat.exists_eq_succ_of_ne_zero (Nat.ne_of_gt (Nat.lt_of_lt_of_le N.succ_pos hm))
    refine bind (hitem s) (hshrinks s) fun s => matchThen (by decide) ?_ (refl _)
    exact ih (fun s => (hitem s).mono N.le_succ) (Nat.le_of_succ_le_succ hn) (Nat.le_of_succ_le_succ hm) s

/-- A loop over operands and operators, whatever its fuel. -/
theorem leftLoop {operand operand' : Parser Expr} {op? : TokenType → Option BinaryOp}
    (hop : op? .endOfInput = none) (hoperand : Agree N operand operand') (hshrinks : Shrinks operand)
    {n m : ℕ} (hn : N ≤ n) (hm : N ≤ m) (left : Expr) :
    Agree N (Parser.leftLoop operand op? n left) (Parser.leftLoop operand' op? m left) := by
  induction N generalizing n m left with
  | zero => exact fun ts hts => absurd hts (Nat.not_lt_zero _)
  | succ N ih =>
    obtain ⟨n, rfl⟩ := Nat.exists_eq_succ_of_ne_zero (Nat.ne_of_gt (Nat.lt_of_lt_of_le N.succ_pos hn))
    obtain ⟨m, rfl⟩ := Nat.exists_eq_succ_of_ne_zero (Nat.ne_of_gt (Nat.lt_of_lt_of_le N.succ_pos hm))
    intro ts hts
    rcases hhead : op? (ts.head?.getD endToken).type with _ | op
    · rw [leftLoop_stop hhead, leftLoop_stop hhead]
    · cases ts with
      | nil =>
        rw [show (([] : List Token).head?.getD endToken).type = .endOfInput from rfl, hop] at hhead
        cases hhead
      | cons t ts =>
        have hop' : op? t.type = some op := hhead
        rw [leftLoop_step hop', leftLoop_step hop']
        refine bind (hoperand.mono N.le_succ) hshrinks (fun right => ?_) ts (Nat.lt_of_succ_lt_succ hts)
        exact ih (hoperand.mono N.le_succ) (Nat.le_of_succ_le_succ hn) (Nat.le_of_succ_le_succ hm) _

section

variable {n m : ℕ}

/-- One level of the binary operators. -/
theorem parseLevel {operand operand' : Parser Expr} {op? : TokenType → Option BinaryOp}
    (hop : op? .endOfInput = none) (h : Agree N operand operand') (hshrinks : Shrinks operand)
    (hn : N ≤ n) (hm : N ≤ m) :
    Agree N (Parser.parseLevel n operand op?) (Parser.parseLevel m operand' op?) :=
  bind h hshrinks fun left => leftLoop hop h hshrinks hn hm left

/-- All levels of the binary operators. -/
theorem parseOrExpression {primary primary' : Parser Expr} (h : Agree N primary primary')
    (hshrinks : Shrinks primary) (hn : N ≤ n) (hm : N ≤ m) :
    Agree N (Parser.parseOrExpression n primary) (Parser.parseOrExpression m primary') := by
  have hcomparison : Agree N (Parser.parseComparisonExpression n primary)
      (Parser.parseComparisonExpression m primary') := parseLevel rfl h hshrinks hn hm
  have hand : Agree N (Parser.parseAndExpression n primary) (Parser.parseAndExpression m primary') :=
    parseLevel rfl hcomparison (Shrinks.parseLevel hshrinks _ n) hn hm
  exact parseLevel rfl hand (Shrinks.parseLevel (Shrinks.parseLevel hshrinks _ n) _ n) hn hm

/-- The arguments of a call. -/
theorem parseCall {expression expression' : Parser Expr} (h : Agree N expression expression')
    (hshrinks : Shrinks expression) (name : Bytes) :
    Agree N (Parser.parseCall expression name) (Parser.parseCall expression' name) :=
  ite (fun _ => refl _) <| step (Shrinks.matchToken _) fun _ => ite (fun _ => refl _) <|
    step Shrinks.peek fun _ => ite (fun _ => refl _) (bind h hshrinks fun _ => refl _)

/-- A name is taken off before anything else is read. -/
theorem parseName {expression expression' : Parser Expr} (h : Agree N expression expression')
    (hshrinks : Shrinks expression) (t : Token) {ts : List Token} (hts : ts.length < N) :
    Parser.parseName expression (t :: ts) = Parser.parseName expression' (t :: ts) := by
  have hrest : Agree N
      (do if (← Parser.peek).type = .lparen then
            let _ ← Parser.consume
            Parser.parseCall expression t.text
          else return .columnRef t.text)
      (do if (← Parser.peek).type = .lparen then
            let _ ← Parser.consume
            Parser.parseCall expression' t.text
          else return .columnRef t.text) :=
    step Shrinks.peek fun _ => ite (fun _ => step Shrinks.consume fun _ => parseCall h hshrinks _)
      (refl _)
  exact hrest ts hts

/-- **A primary expression does not depend on the fuel**, where there is enough. -/
theorem parsePrimaryExpression (hn : N ≤ n) (hm : N ≤ m) :
    Agree N (Parser.parsePrimaryExpression n) (Parser.parsePrimaryExpression m) := by
  induction n generalizing N m with
  | zero => exact fun ts hts => absurd (lt_of_lt_of_le hts hn) (Nat.not_lt_zero _)
  | succ n ih =>
    intro ts hts
    obtain ⟨N, rfl⟩ := Nat.exists_eq_succ_of_ne_zero (Nat.ne_zero_of_lt hts)
    obtain ⟨m, rfl⟩ := Nat.exists_eq_succ_of_ne_zero (Nat.ne_of_gt (Nat.lt_of_lt_of_le N.succ_pos hm))
    cases ts with
    | nil => rw [primary_nil, primary_nil]
    | cons t ts =>
      have hts : ts.length < N := Nat.lt_of_succ_lt_succ hts
      have hn : N ≤ n := Nat.le_of_succ_le_succ hn
      have hm : N ≤ m := Nat.le_of_succ_le_succ hm
      have hshrinks := Shrinks.parsePrimaryExpression n
      have hexpr : Agree N (Parser.parseExpression n) (Parser.parseExpression m) :=
        parseOrExpression (ih hn hm) hshrinks hn hm
      have hexprShrinks := Shrinks.parseExpression n
      by_cases hname : t.type = .identifier
      · rw [primary_identifier n ts hname, primary_identifier m ts hname]
        exact parseName hexpr hexprShrinks t hts
      by_cases hparen : t.type = .lparen
      · rw [primary_lparen n ts hparen, primary_lparen m ts hparen]
        exact (bind hexpr hexprShrinks fun _ => refl _) ts hts
      · exact primary_other n m ts hname hparen

/-- An expression. -/
theorem parseExpression (hn : N ≤ n) (hm : N ≤ m) :
    Agree N (Parser.parseExpression n) (Parser.parseExpression m) :=
  parseOrExpression (parsePrimaryExpression hn hm) (Shrinks.parsePrimaryExpression n) hn hm

/-- An item of the select list. -/
theorem parseSelectItem (hn : N ≤ n) (hm : N ≤ m) :
    Agree N (Parser.parseSelectItem n) (Parser.parseSelectItem m) :=
  step Shrinks.peek fun _ => ite (fun _ => refl _) <|
    bind (parseExpression hn hm) (Shrinks.parseExpression n) fun _ => refl _

/-- WHERE. -/
theorem parseWhere (hn : N ≤ n) (hm : N ≤ m) :
    Agree N (Parser.parseWhere n) (Parser.parseWhere m) :=
  step (Shrinks.matchToken _) fun _ => ite (fun _ =>
    bind (parseExpression hn hm) (Shrinks.parseExpression n) fun _ => refl _) (refl _)

/-- A list of expressions. -/
theorem parseExpressions (hn : N ≤ n) (hm : N ≤ m) (exprs : List Expr) :
    Agree N (Parser.commaLoop (fun exprs => do return exprs ++ [← Parser.parseExpression n]) n exprs)
      (Parser.commaLoop (fun exprs => do return exprs ++ [← Parser.parseExpression m]) m exprs) :=
  commaLoop (fun _ => bind (parseExpression hn hm) (Shrinks.parseExpression n) fun _ => refl _)
    (fun _ => Shrinks.bind (Shrinks.parseExpression n) fun _ => Shrinks.pure _) hn hm exprs

/-- GROUP BY. -/
theorem parseGroupBy (hn : N ≤ n) (hm : N ≤ m) :
    Agree N (Parser.parseGroupBy n) (Parser.parseGroupBy m) :=
  step (Shrinks.matchToken _) fun _ => ite (fun _ =>
    step (Shrinks.expect _ _) fun _ => parseExpressions hn hm []) (refl _)

/-- SELECT. -/
theorem parseSelect (hn : N ≤ n) (hm : N ≤ m) :
    Agree N (Parser.parseSelect n) (Parser.parseSelect m) := by
  have hitems : ∀ items, Shrinks (do return items ++ [← Parser.parseSelectItem n]) := fun _ =>
    Shrinks.bind (Shrinks.parseSelectItem n) fun _ => Shrinks.pure _
  refine bind (commaLoop (fun items => ?_) hitems hn hm []) (Shrinks.commaLoop hitems n []) fun _ => ?_
  · exact bind (parseSelectItem hn hm) (Shrinks.parseSelectItem n) fun _ => refl _
  refine step (Shrinks.expect _ _) fun _ => step (Shrinks.expect _ _) fun _ => ?_
  refine bind (parseWhere hn hm) (Shrinks.parseWhere n) fun _ => ?_
  exact bind (parseGroupBy hn hm) (Shrinks.parseGroupBy n) fun _ => refl _

/-- The columns of a key. -/
theorem parseKeyColumnList (hn : N ≤ n) (hm : N ≤ m) :
    Agree N (Parser.parseKeyColumnList n) (Parser.parseKeyColumnList m) :=
  step (Shrinks.expect _ _) fun _ => bind
    (commaLoop (fun _ => refl _) (Shrinks.parseColumnName _) hn hm [])
    (Shrinks.commaLoop (Shrinks.parseColumnName _) n []) fun _ => refl _

/-- A PRIMARY KEY item. -/
theorem parsePrimaryKey (hn : N ≤ n) (hm : N ≤ m) :
    Agree N (Parser.parsePrimaryKey n) (Parser.parsePrimaryKey m) :=
  step Shrinks.consume fun _ => step (Shrinks.expect _ _) fun _ =>
    bind (parseKeyColumnList hn hm) (Shrinks.parseKeyColumnList n) fun _ => refl _

/-- A KEY item. -/
theorem parseSecondaryKey (hn : N ≤ n) (hm : N ≤ m) :
    Agree N (Parser.parseSecondaryKey n) (Parser.parseSecondaryKey m) :=
  step Shrinks.consume fun _ => step Shrinks.parseKeyName fun _ =>
    bind (parseKeyColumnList hn hm) (Shrinks.parseKeyColumnList n) fun _ => refl _

/-- An item of CREATE TABLE. -/
theorem parseCreateItem (hn : N ≤ n) (hm : N ≤ m) (stmt : CreateTableStatement) :
    Agree N (Parser.parseCreateItem n stmt) (Parser.parseCreateItem m stmt) :=
  step Shrinks.peek fun _ => ite
    (fun _ => bind (parsePrimaryKey hn hm) (Shrinks.parsePrimaryKey n) fun _ => refl _) <| ite
    (fun _ => bind (parseSecondaryKey hn hm) (Shrinks.parseSecondaryKey n) fun _ => refl _) (refl _)

/-- CREATE TABLE. -/
theorem parseCreateTable (hn : N ≤ n) (hm : N ≤ m) :
    Agree N (Parser.parseCreateTable n) (Parser.parseCreateTable m) :=
  step (Shrinks.expect _ _) fun _ => step (Shrinks.expect _ _) fun _ => step (Shrinks.expect _ _) fun _ =>
    bind (commaLoop (parseCreateItem hn hm) (Shrinks.parseCreateItem n) hn hm _)
      (Shrinks.commaLoop (Shrinks.parseCreateItem n) n _) fun _ => refl _

/-- The columns of INSERT. -/
theorem parseColumnList (hn : N ≤ n) (hm : N ≤ m) :
    Agree N (Parser.parseColumnList n) (Parser.parseColumnList m) :=
  step (Shrinks.matchToken _) fun _ => ite (fun _ => bind
    (commaLoop (fun _ => refl _) (Shrinks.parseColumnName _) hn hm [])
    (Shrinks.commaLoop (Shrinks.parseColumnName _) n []) fun _ => refl _) (refl _)

/-- A row of VALUES. -/
theorem parseRow (hn : N ≤ n) (hm : N ≤ m) : Agree N (Parser.parseRow n) (Parser.parseRow m) :=
  step (Shrinks.expect _ _) fun _ => bind (parseExpressions hn hm [])
    (Shrinks.commaLoop (fun _ => Shrinks.bind (Shrinks.parseExpression n) fun _ => Shrinks.pure _) n [])
    fun _ => refl _

/-- INSERT. -/
theorem parseInsert (hn : N ≤ n) (hm : N ≤ m) :
    Agree N (Parser.parseInsert n) (Parser.parseInsert m) := by
  have hrows : ∀ rows, Shrinks (do return rows ++ [← Parser.parseRow n]) := fun _ =>
    Shrinks.bind (Shrinks.parseRow n) fun _ => Shrinks.pure _
  refine step (Shrinks.expect _ _) fun _ => step (Shrinks.expect _ _) fun _ => ?_
  refine bind (parseColumnList hn hm) (Shrinks.parseColumnList n) fun _ => ?_
  refine step (Shrinks.expect _ _) fun _ => bind (commaLoop (fun _ => ?_) hrows hn hm [])
    (Shrinks.commaLoop hrows n []) fun _ => refl _
  exact bind (parseRow hn hm) (Shrinks.parseRow n) fun _ => refl _

/-- **Any number of steps above the number of tokens is enough.** -/
theorem parseStatementIn (hn : N ≤ n) (hm : N ≤ m) :
    Agree N (Parser.parseStatementIn n) (Parser.parseStatementIn m) :=
  step (Shrinks.matchToken _) fun _ => ite (fun _ =>
    bind (parseSelect hn hm) (Shrinks.parseSelect n) fun _ => refl _) <|
  step (Shrinks.matchToken _) fun _ => ite (fun _ =>
    bind (parseCreateTable hn hm) (Shrinks.parseCreateTable n) fun _ => refl _) <|
  step (Shrinks.matchToken _) fun _ => ite (fun _ =>
    bind (parseInsert hn hm) (Shrinks.parseInsert n) fun _ => refl _) (refl _)

end

end Agree

/-! ## What a CREATE TABLE names -/

/-- Whatever an item does to a list, the list has it at the end. -/
theorem commaLoop_last {Q : σ → Prop} {item : σ → Parser σ}
    (h : ∀ s ts s' rest, item s ts = .ok (s', rest) → Q s') {n : ℕ} {s s' : σ} {ts rest : List Token}
    (hrun : commaLoop item n s ts = .ok (s', rest)) : Q s' := by
  induction n generalizing s ts with
  | zero => cases hrun
  | succ n ih =>
    obtain ⟨s₁, mid, hitem, hrun⟩ := bind_eq_ok hrun
    obtain ⟨more, mid', -, hrun⟩ := bind_eq_ok hrun
    split at hrun
    · exact ih hrun
    · obtain ⟨rfl, -⟩ := pure_eq_ok hrun
      exact h s ts _ mid hitem

/-- A CREATE TABLE names a column or a key. -/
theorem parseCreateTable_items {n : ℕ} {ts rest : List Token} {stmt : CreateTableStatement}
    (h : parseCreateTable n ts = .ok (stmt, rest)) : stmt.columns ≠ [] ∨ stmt.keys ≠ [] := by
  obtain ⟨_, _, -, h⟩ := bind_eq_ok h
  obtain ⟨_, _, -, h⟩ := bind_eq_ok h
  obtain ⟨_, _, -, h⟩ := bind_eq_ok h
  obtain ⟨s, mid, hloop, h⟩ := bind_eq_ok h
  obtain ⟨_, _, -, h⟩ := bind_eq_ok h
  obtain ⟨rfl, -⟩ := pure_eq_ok h
  refine commaLoop_last (Q := fun s => s.columns ≠ [] ∨ s.keys ≠ []) (fun s ts s' rest hitem => ?_) hloop
  obtain ⟨token, mid, -, hitem⟩ := bind_eq_ok hitem
  split at hitem
  · obtain ⟨_, _, -, hitem⟩ := bind_eq_ok hitem
    obtain ⟨rfl, -⟩ := pure_eq_ok hitem
    exact .inr (by simp)
  · split at hitem
    · obtain ⟨_, _, -, hitem⟩ := bind_eq_ok hitem
      obtain ⟨rfl, -⟩ := pure_eq_ok hitem
      exact .inr (by simp)
    · obtain ⟨_, _, -, hitem⟩ := bind_eq_ok hitem
      obtain ⟨_, _, -, hitem⟩ := bind_eq_ok hitem
      obtain ⟨_, _, -, hitem⟩ := bind_eq_ok hitem
      obtain ⟨rfl, -⟩ := pure_eq_ok hitem
      exact .inl (by simp)

end Parser

end SimpleOlap
