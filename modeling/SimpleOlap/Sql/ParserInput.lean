import SimpleOlap.Sql.ParserSteps

/-!
# What a statement leaves of its tokens

* `groupsEnd`: the tokens behind a parenthesis that closes what was opened.
* `Moved`: tokens are taken off whose parentheses match, and neither VALUES nor the end of the input is
  among them. `Moves` says it of a parser, up to parentheses that it opens or closes.
* `accepted_consumed_iff`: an accepted statement leaves nothing, or one semicolon, if and only if nothing
  but semicolons is behind it. A SELECT always is so; a CREATE TABLE or INSERT need not be.
-/

namespace SimpleOlap

open Lib

namespace Parser

/-! ## Groups -/

/-- The tokens behind the parenthesis that closes what was opened, where `d` are open. Where the token
behind it says so, another group follows. -/
def groupsEnd (again : TokenType → Bool) : ℕ → List Token → List Token
  | _, [] => []
  | d, t :: ts =>
    match t.type with
    | .lparen => groupsEnd again (d + 1) ts
    | .rparen =>
      if 1 < d then groupsEnd again (d - 1) ts
      else if again (ts.head?.getD endToken).type then groupsEnd again 0 ts
      else ts
    | _ => groupsEnd again d ts

/-- The tokens behind the first VALUES. -/
def behindValues : List Token → List Token
  | [] => []
  | t :: ts => if t.type = .values then ts else behindValues ts

/-- A token that is no parenthesis, and neither VALUES nor the end of the input. -/
def Plain (type : TokenType) : Prop :=
  type ≠ .lparen ∧ type ≠ .rparen ∧ type ≠ .values ∧ type ≠ .endOfInput

/-- Which tokens are plain can be decided. -/
instance : DecidablePred Plain := fun _ => inferInstanceAs (Decidable (_ ∧ _))

section

variable {again : TokenType → Bool} {d : ℕ} {t : Token} {ts : List Token}

/-- An opening parenthesis is one more to close. -/
theorem groupsEnd_lparen (h : t.type = .lparen) :
    groupsEnd again d (t :: ts) = groupsEnd again (d + 1) ts := by
  rw [groupsEnd, h]

/-- A closing parenthesis inside another. -/
theorem groupsEnd_rparen (h : t.type = .rparen) (hd : 1 < d) :
    groupsEnd again d (t :: ts) = groupsEnd again (d - 1) ts := by
  rw [groupsEnd, h]
  exact if_pos hd

/-- Any other token is passed over. -/
theorem groupsEnd_other (hl : t.type ≠ .lparen) (hr : t.type ≠ .rparen) :
    groupsEnd again d (t :: ts) = groupsEnd again d ts := by
  rw [groupsEnd]
  split
  · exact absurd ‹_› hl
  · exact absurd ‹_› hr
  · rfl

end

/-! ## Tokens that are taken off -/

/-- From the first tokens to the second, tokens are taken off whose parentheses match, but for `i` that
are closed and `j` that are opened. -/
structure Moved (i j : ℕ) (ts rest : List Token) : Prop where
  endsOnce : Lexer.EndsOnce rest
  groups : ∀ again d, 1 ≤ d → groupsEnd again (d + i) ts = groupsEnd again (d + j) rest
  values : behindValues ts = behindValues rest

/-- Behind a token that is not END, there is still one END. -/
theorem endsOnce_tail {t : Token} {ts : List Token} (h : Lexer.EndsOnce (t :: ts))
    (ht : t.type ≠ .endOfInput) : Lexer.EndsOnce ts := by
  obtain ⟨init, last, heq, hlast, hinit⟩ := h
  cases init with
  | nil =>
    cases heq
    exact absurd hlast ht
  | cons t' init =>
    cases heq
    exact ⟨init, last, rfl, hlast, fun t ht => hinit t (List.mem_cons_of_mem _ ht)⟩

namespace Moved

variable {i j k : ℕ} {t : Token} {ts mid rest : List Token}

/-- Nothing consumed. -/
theorem refl (i : ℕ) (h : Lexer.EndsOnce ts) : Moved i i ts ts := ⟨h, fun _ _ _ => rfl, rfl⟩

/-- One step after the other. -/
theorem trans (h : Moved i j ts mid) (h' : Moved j k mid rest) : Moved i k ts rest :=
  ⟨h'.endsOnce, fun again d hd => (h.groups again d hd).trans (h'.groups again d hd),
    h.values.trans h'.values⟩

/-- A token that is no parenthesis. -/
theorem plain (i : ℕ) (h : Lexer.EndsOnce (t :: ts)) (ht : Plain t.type) : Moved i i (t :: ts) ts :=
  ⟨endsOnce_tail h ht.2.2.2, fun _ _ _ => groupsEnd_other ht.1 ht.2.1, if_neg ht.2.2.1⟩

/-- The front token, outside all parentheses. -/
theorem tail (h : Lexer.EndsOnce ts) (ht : Plain (headType ts)) : Moved 0 0 ts ts.tail := by
  cases ts with
  | nil => exact absurd rfl ht.2.2.2
  | cons t ts => exact plain 0 h ht

/-- An opening parenthesis. -/
theorem lparen (i : ℕ) (h : Lexer.EndsOnce (t :: ts)) (ht : t.type = .lparen) :
    Moved i (i + 1) (t :: ts) ts :=
  ⟨endsOnce_tail h (by rw [ht]; decide), fun _ _ _ => groupsEnd_lparen ht,
    if_neg (by rw [ht]; decide)⟩

/-- A closing parenthesis. -/
theorem rparen (i : ℕ) (h : Lexer.EndsOnce (t :: ts)) (ht : t.type = .rparen) :
    Moved (i + 1) i (t :: ts) ts :=
  ⟨endsOnce_tail h (by rw [ht]; decide), fun _ d hd => groupsEnd_rparen ht (by omega),
    if_neg (by rw [ht]; decide)⟩

end Moved

/-- Where the parser succeeds on the tokens, it takes tokens off. -/
def MovesAt {α : Type} (i j : ℕ) (p : Parser α) (ts : List Token) : Prop :=
  Lexer.EndsOnce ts → ∀ a rest, p ts = .ok (a, rest) → Moved i j ts rest

/-- The parser takes tokens off any that it succeeds on. -/
def Moves {α : Type} (i j : ℕ) (p : Parser α) : Prop := ∀ ts, MovesAt i j p ts

namespace Moves

variable {α β σ : Type} {i j k : ℕ} {ts : List Token}

/-- `pure` consumes nothing. -/
theorem pure (a : α) : Moves i i (Pure.pure a : Parser α) := by
  intro ts hts b rest h
  rw [(pure_eq_ok h).2]
  exact Moved.refl i hts

/-- An error consumes nothing that counts. -/
theorem fail (message : String) : Moves i j (Parser.fail message : Parser α) := by
  intro ts _ a rest h
  cases h

/-- In sequence, at these tokens. -/
theorem bindAt {p : Parser α} {f : α → Parser β} (hp : MovesAt i j p ts)
    (hf : ∀ a mid, p ts = .ok (a, mid) → MovesAt j k (f a) mid) : MovesAt i k (p >>= f) ts := by
  intro hts b rest h
  obtain ⟨a, mid, ha, hb⟩ := bind_eq_ok h
  have hmoved := hp hts a mid ha
  exact hmoved.trans (hf a mid ha hmoved.endsOnce b rest hb)

/-- In sequence. -/
theorem bind {p : Parser α} {f : α → Parser β} (hp : Moves i j p) (hf : ∀ a, Moves j k (f a)) :
    Moves i k (p >>= f) :=
  fun ts => bindAt (hp ts) fun a mid _ => hf a mid

/-- On either branch. -/
theorem ite {c : Prop} [Decidable c] {p q : Parser α} (hp : c → MovesAt i j p ts)
    (hq : ¬ c → MovesAt i j q ts) : MovesAt i j (if c then p else q) ts := by
  split
  · exact hp ‹_›
  · exact hq ‹_›

/-- A computation that reads no token. -/
theorem lift (e : Except String α) : Moves i i (liftM e : Parser α) := by
  intro ts hts a rest h
  cases e with
  | error message => cases h
  | ok b =>
    cases h
    exact Moved.refl i hts

/-- Looking at the first token. -/
theorem peek {f : Token → Parser β} (h : MovesAt i j (f (ts.head?.getD endToken)) ts) :
    MovesAt i j (Parser.peek >>= f) ts := by
  intro hts b rest hrun
  rw [bind_of_ok rfl] at hrun
  exact h hts b rest hrun

/-- Taking a token that is not END. -/
theorem consumeOf (hne : headType ts ≠ .endOfInput)
    (h : ∀ t ts', ts = t :: ts' → Lexer.EndsOnce ts → Moved i j ts ts') :
    MovesAt i j Parser.consume ts := by
  intro hts a rest hrun
  cases ts with
  | nil => exact absurd rfl hne
  | cons t ts' =>
    cases hrun
    exact h t ts' rfl hts

/-- Taking a plain token. -/
theorem consumePlain (h : Plain (headType ts)) : MovesAt i i Parser.consume ts :=
  consumeOf h.2.2.2 fun t ts' heq hts => by
    subst heq
    exact Moved.plain i hts h

/-- Taking an opening parenthesis. -/
theorem consumeLparen (h : headType ts = .lparen) : MovesAt i (i + 1) Parser.consume ts :=
  consumeOf (by rw [h]; decide) fun t ts' heq hts => by
    subst heq
    exact Moved.lparen i hts h

/-- Taking a closing parenthesis. -/
theorem consumeRparen (h : headType ts = .rparen) : MovesAt (i + 1) i Parser.consume ts :=
  consumeOf (by rw [h]; decide) fun t ts' heq hts => by
    subst heq
    exact Moved.rparen i hts h

/-- Taking the expected token. -/
theorem expectOf {type : TokenType} (h : ∀ ts, headType ts = type → MovesAt i j Parser.consume ts)
    (message : String) : Moves i j (Parser.expect type message) := fun ts =>
  peek <| ite (fun _ => fail _ ts) fun htype => h ts (not_not.mp htype)

/-- Taking the expected plain token. -/
theorem expect {type : TokenType} (h : Plain type) (message : String) :
    Moves i i (Parser.expect type message) :=
  expectOf (fun _ htype => consumePlain (by rwa [htype])) message

/-- Taking the expected opening parenthesis. -/
theorem expectLparen (message : String) : Moves i (i + 1) (Parser.expect .lparen message) :=
  expectOf (fun _ => consumeLparen) message

/-- Taking the expected closing parenthesis. -/
theorem expectRparen (message : String) : Moves (i + 1) i (Parser.expect .rparen message) :=
  expectOf (fun _ => consumeRparen) message

/-- Taking a plain token where it is there. -/
theorem matchToken {type : TokenType} (h : Plain type) : Moves i i (Parser.matchToken type) := fun ts =>
  peek <| ite
    (fun htype => bindAt (consumePlain (by rw [headType, htype]; exact h)) fun _ mid _ => pure true mid)
    fun _ => pure false ts

/-- A parenthesis that is matched is opened. -/
theorem matchLparen {p q : Parser α} (hp : Moves (i + 1) j p) (hq : Moves i j q) :
    Moves i j (do if ← Parser.matchToken .lparen then p else q) := by
  intro ts hts a rest hrun
  rw [matchToken_bind] at hrun
  split at hrun
  · rename_i htype
    have hmoved : Moved i (i + 1) ts ts.tail := consumeLparen htype hts _ _ rfl
    exact hmoved.trans (hp _ hmoved.endsOnce a rest hrun)
  · exact hq ts hts a rest hrun

/-- A loop over items and commas. -/
theorem commaLoop {item : σ → Parser σ} (h : ∀ s, Moves i i (item s)) :
    ∀ n s, Moves i i (Parser.commaLoop item n s)
  | 0, _ => fail _
  | n + 1, s => bind (h s) fun s => bind (matchToken (by decide)) fun _ ts =>
    ite (fun _ => commaLoop h n s ts) fun _ => pure s ts

/-! ### Expressions -/

/-- A loop over operands and operators. -/
theorem leftLoop {operand : Parser Expr} (h : Moves i i operand) {op? : TokenType → Option BinaryOp}
    (hop : ∀ type op, op? type = some op → Plain type) :
    ∀ n left, Moves i i (Parser.leftLoop operand op? n left)
  | 0, _ => fail _
  | n + 1, left => fun ts => peek <| by
    split
    · exact pure left ts
    · rename_i op htype
      exact bindAt (consumePlain (hop _ op htype)) fun _ mid _ =>
        bind h (fun _ => leftLoop h hop n _) mid

/-- One level of the binary operators. -/
theorem parseLevel {operand : Parser Expr} (h : Moves i i operand) {op? : TokenType → Option BinaryOp}
    (hop : ∀ type op, op? type = some op → Plain type) (n : ℕ) :
    Moves i i (Parser.parseLevel n operand op?) :=
  bind h fun left => leftLoop h hop n left

/-- Comparisons are plain tokens. -/
theorem plain_of_comparisonOp? (type : TokenType) (op : BinaryOp) (h : comparisonOp? type = some op) :
    Plain type := by
  cases type <;> cases h <;> decide

/-- AND is a plain token. -/
theorem plain_of_andOp? (type : TokenType) (op : BinaryOp) (h : andOp? type = some op) : Plain type := by
  cases type <;> cases h
  decide

/-- OR is a plain token. -/
theorem plain_of_orOp? (type : TokenType) (op : BinaryOp) (h : orOp? type = some op) : Plain type := by
  cases type <;> cases h
  decide

/-- All levels of the binary operators. -/
theorem parseOrExpression {primary : Parser Expr} (h : Moves i i primary) (n : ℕ) :
    Moves i i (Parser.parseOrExpression n primary) :=
  parseLevel (parseLevel (parseLevel h plain_of_comparisonOp? n) plain_of_andOp? n) plain_of_orOp? n

/-- Behind the opening parenthesis, a call ends with the closing one. -/
theorem parseCall {expression : Parser Expr} (h : Moves (i + 1) (i + 1) expression) (name : Bytes) :
    Moves (i + 1) i (Parser.parseCall expression name) := fun ts =>
  ite (fun _ => fail _ ts) fun _ => bind (matchToken (by decide)) (fun _ ts =>
    ite (fun _ => ite (fun _ => fail _ ts) fun _ => bind (expectRparen _) (fun _ => pure _) ts) fun _ =>
      peek <| ite (fun _ => fail _ ts) fun _ =>
        bind h (fun _ => bind (expectRparen _) fun _ => pure _) ts) ts

/-- A column, or a call. -/
theorem parseName {expression : Parser Expr} (h : Moves (i + 1) (i + 1) expression)
    (htype : headType ts = .identifier) : MovesAt i i (Parser.parseName expression) ts :=
  bindAt (consumePlain (by rw [htype]; decide)) fun name mid _ => peek <|
    ite (fun hparen => bindAt (consumeLparen hparen) fun _ mid _ => parseCall h name.text mid)
      fun _ => pure _ mid

/-- **A primary expression closes the parentheses that it opens.** -/
theorem parsePrimaryExpression : ∀ n i, Moves i i (Parser.parsePrimaryExpression n)
  | 0, _ => fail _
  | n + 1, i => fun ts => peek <| by
    have h := parseOrExpression (parsePrimaryExpression n (i + 1)) n
    have hplain : ∀ type, (ts.head?.getD endToken).type = type → Plain type →
        MovesAt i i Parser.consume ts := fun type htype hplain =>
      consumePlain (by rw [headType, htype]; exact hplain)
    split
    · exact bindAt (hplain _ ‹_› (by decide)) fun _ mid _ => bind (lift _) (fun _ => pure _) mid
    · exact bindAt (hplain _ ‹_› (by decide)) fun _ mid _ => bind (lift _) (fun _ => pure _) mid
    · exact bindAt (hplain _ ‹_› (by decide)) fun _ mid _ => pure _ mid
    · exact parseName h ‹_›
    · exact bindAt (consumeLparen ‹_›) fun _ mid _ =>
        bind h (fun _ => bind (expectRparen _) fun _ => pure _) mid
    · exact fail _ ts

/-- An expression. -/
theorem parseExpression (n : ℕ) : Moves i i (Parser.parseExpression n) :=
  parseOrExpression (parsePrimaryExpression n i) n

/-! ### Statements -/

/-- A list of expressions. -/
theorem parseExpressions (n : ℕ) (exprs : List Expr) :
    Moves i i (Parser.commaLoop (fun exprs => do return exprs ++ [← Parser.parseExpression n]) n exprs) :=
  commaLoop (fun _ => bind (parseExpression n) fun _ => pure _) n exprs

/-- An item of the select list. -/
theorem parseSelectItem (n : ℕ) : Moves i i (Parser.parseSelectItem n) := fun ts => peek <| ite
  (fun hstar => bindAt (consumePlain (by rw [headType, hstar]; decide)) fun _ mid _ => pure _ mid)
  fun _ => bind (parseExpression n) (fun expr ts => peek <| ite
    (fun has => bindAt (consumePlain (by rw [headType, has]; decide)) fun _ mid _ => peek <|
      ite (fun _ => fail _ mid) fun hname =>
        bindAt (consumePlain (by rw [headType, not_not.mp hname]; decide)) fun _ mid _ => pure _ mid)
    fun _ => ite
      (fun hname => bindAt (consumePlain (by rw [headType, hname]; decide)) fun _ mid _ => pure _ mid)
      fun _ => pure _ ts) ts

/-- WHERE. -/
theorem parseWhere (n : ℕ) : Moves i i (Parser.parseWhere n) :=
  bind (matchToken (by decide)) fun _ ts => ite
    (fun _ => bind (parseExpression n) (fun _ => pure _) ts) fun _ => pure _ ts

/-- GROUP BY. -/
theorem parseGroupBy (n : ℕ) : Moves i i (Parser.parseGroupBy n) :=
  bind (matchToken (by decide)) fun _ ts => ite
    (fun _ => bind (expect (by decide) _) (fun _ => parseExpressions n []) ts) fun _ => pure _ ts

/-- SELECT. -/
theorem parseSelect (n : ℕ) : Moves i i (Parser.parseSelect n) :=
  bind (commaLoop (fun _ => bind (parseSelectItem n) fun _ => pure _) n _) fun _ =>
    bind (expect (by decide) _) fun _ => bind (expect (by decide) _) fun _ => bind (parseWhere n) fun _ =>
      bind (parseGroupBy n) fun _ => bind (matchToken (by decide)) fun _ ts => peek <|
        ite (fun _ => fail _ ts) fun _ => pure _ ts

/-- The type of a column. -/
theorem parseDataType : Moves i i Parser.parseDataType :=
  bind (expect (by decide) _) fun _ ts => ite (fun _ => fail _ ts) fun _ => pure _ ts

/-- The name of a column. -/
theorem parseColumnName (message : String) (names : List Bytes) :
    Moves i i (Parser.parseColumnName message names) :=
  bind (expect (by decide) _) fun _ => pure _

/-- The columns of a key. -/
theorem parseKeyColumnList (n : ℕ) : Moves i i (Parser.parseKeyColumnList n) :=
  bind (expectLparen _) fun _ => bind (commaLoop (parseColumnName _) n _) fun _ =>
    bind (expectRparen _) fun _ => pure _

/-- The name of a key. -/
theorem parseKeyName : Moves i i Parser.parseKeyName := fun ts => peek <| ite
  (fun hname => bindAt (consumePlain (by rw [headType, hname]; decide)) fun _ mid _ => pure _ mid)
  fun _ => pure _ ts

/-- A PRIMARY KEY item. -/
theorem parsePrimaryKey (n : ℕ) (h : Plain (headType ts)) : MovesAt i i (Parser.parsePrimaryKey n) ts :=
  bindAt (consumePlain h) fun _ mid _ => bind (expect (by decide) _)
    (fun _ => bind (parseKeyColumnList n) fun _ => pure _) mid

/-- A KEY item. -/
theorem parseSecondaryKey (n : ℕ) (h : Plain (headType ts)) :
    MovesAt i i (Parser.parseSecondaryKey n) ts :=
  bindAt (consumePlain h) fun _ mid _ => bind parseKeyName
    (fun _ => bind (parseKeyColumnList n) fun _ => pure _) mid

/-- The key behind a column. -/
theorem parseColumnKey (name : Bytes) : Moves i i (Parser.parseColumnKey name) := fun ts => peek <| ite
  (fun hkey => bindAt (consumePlain (by rw [headType, hkey]; decide)) fun _ mid _ =>
    bind (expect (by decide) _) (fun _ => pure _) mid)
  fun _ => pure _ ts

/-- An item of CREATE TABLE. -/
theorem parseCreateItem (n : ℕ) (stmt : CreateTableStatement) :
    Moves i i (Parser.parseCreateItem n stmt) := fun ts => peek <| ite
  (fun hkey => bindAt (parsePrimaryKey n (by rw [headType, hkey]; decide)) fun _ mid _ => pure _ mid)
  fun _ => ite
    (fun hkey => bindAt (parseSecondaryKey n (by rw [headType, hkey]; decide)) fun _ mid _ => pure _ mid)
    fun _ => bind (expect (by decide) _) (fun _ => bind parseDataType fun _ =>
      bind (parseColumnKey _) fun _ => pure _) ts

/-- The columns of INSERT. -/
theorem parseColumnList (n : ℕ) : Moves i i (Parser.parseColumnList n) :=
  matchLparen (bind (commaLoop (parseColumnName _) n _) fun _ => bind (expectRparen _) fun _ => pure _)
    (pure _)

end Moves

/-! ## Where a statement ends -/

section

variable {α : Type} {ts rest : List Token}

/-- The expected token was there. -/
theorem expect_eq_ok {type : TokenType} {message : String} {a : Token}
    (h : expect type message ts = .ok (a, rest)) : headType ts = type ∧ rest = ts.tail := by
  unfold expect at h
  rw [bind_of_ok rfl] at h
  split at h
  · cases h
  · rename_i htype
    cases h
    exact ⟨not_not.mp htype, rfl⟩

/-- What a `Match` leaves. -/
theorem matchToken_eq_ok {type : TokenType} {matched : Bool}
    (h : matchToken type ts = .ok (matched, rest)) :
    rest = if headType ts = type then ts.tail else ts := by
  unfold matchToken at h
  rw [bind_of_ok rfl] at h
  split at h
  · rename_i htype
    cases h
    exact (if_pos htype).symm
  · rename_i htype
    cases h
    exact (if_neg htype).symm

/-- A plain token at the front is passed over. -/
theorem groupsEnd_tail {again : TokenType → Bool} {d : ℕ} (h : Plain (headType ts)) :
    groupsEnd again d ts = groupsEnd again d ts.tail := by
  cases ts with
  | nil => exact absurd rfl h.2.2.2
  | cons t ts => exact groupsEnd_other h.1 h.2.1

/-- Behind VALUES at the front. -/
theorem behindValues_tail (h : headType ts = .values) : behindValues ts = ts.tail := by
  cases ts with
  | nil => cases h
  | cons t ts => exact if_pos h

/-- Behind a front token that is not END, there is still one END. -/
theorem endsOnce_tail_of_headType (h : Lexer.EndsOnce ts) (hne : headType ts ≠ .endOfInput) :
    Lexer.EndsOnce ts.tail := by
  cases ts with
  | nil => exact absurd rfl hne
  | cons t ts => exact endsOnce_tail h hne

/-- What follows a group that was read between its parentheses. -/
theorem groupsEnd_group {σ : Type} {p : Parser σ} (hp : Moves 0 0 p) {f : σ → α} {a : α}
    {opening closing : String} (hts : Lexer.EndsOnce ts)
    (h : (do
      let _ ← expect .lparen opening
      let x ← p
      let _ ← expect .rparen closing
      return f x : Parser α) ts = .ok (a, rest)) :
    Lexer.EndsOnce rest ∧ ∀ again, groupsEnd again 0 ts =
      if again (headType rest) then groupsEnd again 0 rest else rest := by
  obtain ⟨_, inner, hopen, h⟩ := bind_eq_ok h
  obtain ⟨x, behind, hx, h⟩ := bind_eq_ok h
  obtain ⟨_, mid, hclose, h⟩ := bind_eq_ok h
  obtain ⟨-, rfl⟩ := pure_eq_ok h
  have hinner := Moves.expectLparen (i := 0) opening ts hts _ _ hopen
  have hbehind := hp inner hinner.endsOnce _ _ hx
  have hrest := Moves.expectRparen (i := 0) closing behind hbehind.endsOnce _ _ hclose
  refine ⟨hrest.endsOnce, fun again => ?_⟩
  obtain ⟨hlparen, rfl⟩ := expect_eq_ok hopen
  obtain ⟨hrparen, rfl⟩ := expect_eq_ok hclose
  have hstart : groupsEnd again 0 ts = groupsEnd again 1 ts.tail := by
    cases ts with
    | nil => cases hlparen
    | cons t ts => exact groupsEnd_lparen hlparen
  rw [hstart, hbehind.groups again 1 le_rfl]
  cases behind with
  | nil => cases hrparen
  | cons t behind =>
    rw [groupsEnd, show t.type = .rparen from hrparen]
    rfl

/-- Rows follow each other behind commas. -/
theorem groupsEnd_rows (n : ℕ) {k : ℕ} {rows result : List (List Expr)} (hts : Lexer.EndsOnce ts)
    (h : commaLoop (fun rows => do return rows ++ [← parseRow n]) k rows ts = .ok (result, rest)) :
    Lexer.EndsOnce rest ∧ groupsEnd (fun type => type = .comma) 0 ts = rest := by
  induction k generalizing rows ts with
  | zero => cases h
  | succ k ih =>
    obtain ⟨rows', mid, hrow, h⟩ := bind_eq_ok h
    obtain ⟨row, mid', hparse, hrow⟩ := bind_eq_ok hrow
    obtain ⟨-, rfl⟩ := pure_eq_ok hrow
    obtain ⟨hmid, hgroup⟩ := groupsEnd_group (f := id) (Moves.parseExpressions n []) hts hparse
    have hgroup := hgroup fun type => type = .comma
    rw [matchToken_bind] at h
    by_cases hcomma : headType mid = .comma
    · rw [if_pos hcomma] at h
      have hplain : Plain (headType mid) := by
        rw [hcomma]
        decide
      obtain ⟨hrest, hend⟩ := ih (endsOnce_tail_of_headType hmid hplain.2.2.2) h
      refine ⟨hrest, ?_⟩
      rw [hgroup, if_pos (decide_eq_true hcomma), groupsEnd_tail hplain, hend]
    · rw [if_neg hcomma] at h
      obtain ⟨-, rfl⟩ := pure_eq_ok h
      refine ⟨hmid, ?_⟩
      rw [hgroup, if_neg (by simpa using hcomma)]

/-- Where CREATE TABLE ends. -/
theorem groupsEnd_createTable (n : ℕ) {stmt : CreateTableStatement} (hts : Lexer.EndsOnce ts)
    (h : parseCreateTable n ts = .ok (stmt, rest)) : groupsEnd (fun _ => false) 0 ts = rest := by
  obtain ⟨_, _, hexpect, h⟩ := bind_eq_ok h
  obtain ⟨htable, rfl⟩ := expect_eq_ok hexpect
  obtain ⟨tableName, _, hexpect', h⟩ := bind_eq_ok h
  obtain ⟨hname, rfl⟩ := expect_eq_ok hexpect'
  have htablePlain : Plain (headType ts) := by
    rw [htable]
    decide
  have hnamePlain : Plain (headType ts.tail) := by
    rw [hname]
    decide
  have hbehind := endsOnce_tail_of_headType (endsOnce_tail_of_headType hts htablePlain.2.2.2)
    hnamePlain.2.2.2
  have hloop : Moves 0 0 (commaLoop (parseCreateItem n) n ⟨tableName.text, [], []⟩) :=
    Moves.commaLoop (Moves.parseCreateItem n) n _
  obtain ⟨-, hgroup⟩ := groupsEnd_group (f := id) hloop hbehind h
  rw [groupsEnd_tail htablePlain, groupsEnd_tail hnamePlain, hgroup, if_neg (by decide)]

/-- Where INSERT ends: behind the last row. -/
theorem groupsEnd_insert (n : ℕ) {stmt : InsertStatement} (hts : Lexer.EndsOnce ts)
    (h : parseInsert n ts = .ok (stmt, rest)) :
    ∃ behind, groupsEnd (fun type => type = .comma) 0 (behindValues ts) = behind ∧
      rest = if headType behind = .semicolon then behind.tail else behind := by
  obtain ⟨_, mid₁, hinto, h⟩ := bind_eq_ok h
  obtain ⟨_, mid₂, hname, h⟩ := bind_eq_ok h
  obtain ⟨_, mid₃, hcolumns, h⟩ := bind_eq_ok h
  obtain ⟨_, mid₄, hvalues, h⟩ := bind_eq_ok h
  obtain ⟨_, mid₅, hrows, h⟩ := bind_eq_ok h
  obtain ⟨_, mid₆, hsemicolon, h⟩ := bind_eq_ok h
  obtain ⟨-, rfl⟩ := pure_eq_ok h
  have hmoved₁ := Moves.expect (i := 0) (by decide) _ ts hts _ _ hinto
  have hmoved₂ := Moves.expect (i := 0) (by decide) _ mid₁ hmoved₁.endsOnce _ _ hname
  have hmoved₃ := Moves.parseColumnList (i := 0) n mid₂ hmoved₂.endsOnce _ _ hcolumns
  obtain ⟨htype, rfl⟩ := expect_eq_ok hvalues
  have hends := endsOnce_tail_of_headType hmoved₃.endsOnce (by rw [htype]; decide)
  refine ⟨mid₅, ?_, matchToken_eq_ok hsemicolon⟩
  rw [hmoved₁.values, hmoved₂.values, hmoved₃.values, behindValues_tail htype]
  exact (groupsEnd_rows n hends hrows).2

/-- A SELECT is accepted at the end of its tokens only. -/
theorem headType_select (n : ℕ) {stmt : SelectStatement} (h : parseSelect n ts = .ok (stmt, rest)) :
    headType rest = .endOfInput := by
  obtain ⟨_, _, -, h⟩ := bind_eq_ok h
  obtain ⟨_, _, -, h⟩ := bind_eq_ok h
  obtain ⟨_, _, -, h⟩ := bind_eq_ok h
  obtain ⟨_, _, -, h⟩ := bind_eq_ok h
  obtain ⟨_, _, -, h⟩ := bind_eq_ok h
  obtain ⟨_, _, -, h⟩ := bind_eq_ok h
  rw [bind_of_ok rfl] at h
  split at h
  · cases h
  · rename_i htype
    obtain ⟨-, rfl⟩ := pure_eq_ok h
    exact not_not.mp htype

/-! ## What is left over -/

/-- Nothing but up to so many semicolons is there before the end of the input. -/
def OnlySemicolons (k : ℕ) (ts : List Token) : Prop :=
  ∃ j ≤ k, ts.map Token.type = List.replicate j .semicolon ++ [.endOfInput]

/-- The statement consumed its tokens, but for one semicolon at most. -/
def Consumed (rest : List Token) : Prop := OnlySemicolons 1 rest

/-- Behind a CREATE TABLE or an INSERT there are only semicolons: one, or two where the statement takes
one itself. -/
def EndsWell (tokens : List Token) : Prop :=
  match headType tokens with
  | .select => True
  | .create => OnlySemicolons 1 (groupsEnd (fun _ => false) 0 tokens)
  | .insert => OnlySemicolons 2 (groupsEnd (fun type => type = .comma) 0 (behindValues tokens))
  | _ => False

/-- A semicolon at the front is one of those that may follow. -/
theorem onlySemicolons_tail (k : ℕ) : OnlySemicolons k (if headType ts = .semicolon then ts.tail else ts) ↔
    OnlySemicolons (k + 1) ts := by
  split_ifs with htype
  · cases ts with
    | nil => cases htype
    | cons t ts =>
      have htype : t.type = .semicolon := htype
      constructor
      · rintro ⟨j, hj, heq⟩
        refine ⟨j + 1, Nat.succ_le_succ hj, ?_⟩
        rw [List.map_cons, htype, show ts.map Token.type = _ from heq]
        rfl
      · rintro ⟨j, hj, heq⟩
        cases j with
        | zero =>
          rw [List.map_cons, htype] at heq
          cases heq
        | succ j => exact ⟨j, Nat.le_of_succ_le_succ hj, (List.cons.inj heq).2⟩
  · constructor
    · rintro ⟨j, hj, heq⟩
      exact ⟨j, Nat.le_succ_of_le hj, heq⟩
    · rintro ⟨j, hj, heq⟩
      cases j with
      | zero => exact ⟨0, Nat.zero_le k, heq⟩
      | succ j =>
        cases ts with
        | nil => cases heq
        | cons t ts => exact absurd (List.cons.inj heq).1 htype

/-- END at the front is all that is left. -/
theorem consumed_of_headType (hrest : Lexer.EndsOnce rest) (h : headType rest = .endOfInput) :
    Consumed rest := by
  obtain ⟨init, last, rfl, hlast, hinit⟩ := hrest
  cases init with
  | nil => exact ⟨0, Nat.zero_le 1, by simp [hlast]⟩
  | cons t init => exact absurd h (hinit t List.mem_cons_self)

/-- **What an accepted statement leaves over.** Of the tokens of any text, an accepted statement leaves
nothing but a semicolon if and only if nothing but semicolons is behind the parenthesis that closes a
CREATE TABLE or the last row of an INSERT. -/
theorem accepted_consumed_iff {sql : Bytes} {tokens : List Token} (hlex : Lexer.lex sql = some tokens)
    {stmt : Statement} (h : parseStatement tokens = .ok (stmt, rest)) :
    Consumed rest ↔ EndsWell tokens := by
  have hends := Lexer.endsOnce_lex hlex
  unfold parseStatement parseStatementIn at h
  rw [matchToken_bind] at h
  by_cases hselect : headType tokens = .select
  · rw [if_pos hselect] at h
    obtain ⟨select, rest', hparse, h⟩ := bind_eq_ok h
    obtain ⟨-, rfl⟩ := pure_eq_ok h
    have htail := endsOnce_tail_of_headType hends (by rw [hselect]; decide)
    have hmoved := Moves.parseSelect (i := 0) _ _ htail _ _ hparse
    rw [EndsWell, hselect]
    exact iff_of_true (consumed_of_headType hmoved.endsOnce (headType_select _ hparse)) trivial
  rw [if_neg hselect, if_neg (by decide), matchToken_bind] at h
  by_cases hcreate : headType tokens = .create
  · rw [if_pos hcreate] at h
    obtain ⟨create, rest', hparse, h⟩ := bind_eq_ok h
    obtain ⟨-, rfl⟩ := pure_eq_ok h
    have hplain : Plain (headType tokens) := by
      rw [hcreate]
      decide
    have htail := endsOnce_tail_of_headType hends hplain.2.2.2
    rw [EndsWell, hcreate]
    simp only [groupsEnd_tail hplain, groupsEnd_createTable _ htail hparse]
    rfl
  rw [if_neg hcreate, if_neg (by decide), matchToken_bind] at h
  by_cases hinsert : headType tokens = .insert
  · rw [if_pos hinsert] at h
    obtain ⟨insert, rest', hparse, h⟩ := bind_eq_ok h
    obtain ⟨-, rfl⟩ := pure_eq_ok h
    have hplain : Plain (headType tokens) := by
      rw [hinsert]
      decide
    have htail := endsOnce_tail_of_headType hends hplain.2.2.2
    obtain ⟨behind, hbehind, hrest⟩ := groupsEnd_insert _ htail hparse
    have hvalues : behindValues tokens = behindValues tokens.tail :=
      (Moved.tail hends hplain).values
    rw [EndsWell, hinsert]
    simp only [hvalues, hbehind]
    rw [hrest]
    exact onlySemicolons_tail 1
  · rw [if_neg hinsert, if_neg (by decide), bind_of_ok rfl] at h
    cases h

/-! ## Two rows without a comma -/

/-- `INSERT INTO t VALUES (1) (2)`. -/
def insertTwo : Bytes := ascii
  ['I', 'N', 'S', 'E', 'R', 'T', ' ', 'I', 'N', 'T', 'O', ' ', 't', ' ', 'V', 'A', 'L', 'U', 'E', 'S', ' ',
    '(', '1', ')', ' ', '(', '2', ')']

/-- Its tokens. -/
def insertTwoTokens : List Token :=
  [⟨.insert, ascii ['I', 'N', 'S', 'E', 'R', 'T']⟩, ⟨.into, ascii ['I', 'N', 'T', 'O']⟩,
    ⟨.identifier, ascii ['t']⟩, ⟨.values, ascii ['V', 'A', 'L', 'U', 'E', 'S']⟩, ⟨.lparen, ascii ['(']⟩,
    ⟨.integer, ascii ['1']⟩, ⟨.rparen, ascii [')']⟩, ⟨.lparen, ascii ['(']⟩, ⟨.integer, ascii ['2']⟩,
    ⟨.rparen, ascii [')']⟩, endToken]

/-- Its tokens. -/
theorem lex_insertTwo : Lexer.lex insertTwo = some insertTwoTokens := by decide +kernel

/-- **The second row is dropped.** -/
theorem insertTwo_drops : Lexer.lex insertTwo = some insertTwoTokens ∧
    (∃ stmt, parseStatement insertTwoTokens = .ok (.insert stmt, insertTwoTokens.drop 7)) ∧
    ¬ Consumed (insertTwoTokens.drop 7) := by
  refine ⟨lex_insertTwo, ⟨_, rfl⟩, ?_⟩
  rintro ⟨j, hj, heq⟩
  have hlen := congrArg List.length heq
  rw [List.length_map, List.length_append, List.length_replicate] at hlen
  have hfour : (insertTwoTokens.drop 7).length = 4 := rfl
  rw [hfour, List.length_singleton] at hlen
  omega

/-- `INSERT INTO t VALUES (1);`. -/
def insertOne : Bytes := ascii
  ['I', 'N', 'S', 'E', 'R', 'T', ' ', 'I', 'N', 'T', 'O', ' ', 't', ' ', 'V', 'A', 'L', 'U', 'E', 'S', ' ',
    '(', '1', ')', ';']

/-- Its tokens. -/
def insertOneTokens : List Token := insertTwoTokens.take 7 ++ [⟨.semicolon, ascii [';']⟩, endToken]

/-- The row is followed by the end of the input. -/
theorem accepted_consumed_iff_one : Consumed [endToken] ↔ EndsWell insertOneTokens := by
  have hlex : Lexer.lex insertOne = some insertOneTokens := by decide +kernel
  have hparse : parseStatement insertOneTokens =
      .ok (.insert ⟨ascii ['t'], [], [[.literal (.int32 1)]]⟩, [endToken]) := rfl
  exact accepted_consumed_iff hlex hparse

end

end Parser

end SimpleOlap
