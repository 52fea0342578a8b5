import SimpleOlap.Lib.Text

/-!
# The lexer

* `Lexer.nextToken`: the next token and the text behind it; none where the call does not return.
* `Lexer.lex`: all tokens, up to the end of the input.
* `Lexer.lex_cons`, `Lexer.lex_end`: the tokens of a text are its first token and the tokens of the rest.
* `Lexer.endsOnce_lex`: the last token, and no other, is the end of the input.

Source: `token.h`, `lexer.cpp`. The place of a token in the text is left out, and the token types that the
lexer never gives.
-/

namespace SimpleOlap

open Lib

/-- Source: `token.h` TokenType. -/
inductive TokenType
  | endOfInput
  | identifier | integer | float | string
  | select | fromKw | whereKw | group | byKw | create | table | primary | key | insert | into | values | asKw
  | star | comma | semicolon | lparen | rparen
  | eq | ne | lt | le | gt | ge | plus | minus
  | and | or
  deriving DecidableEq, Repr

/-- Source: `token.h` Token. -/
structure Token where
  type : TokenType
  text : Bytes
  deriving DecidableEq, Repr

/-- The token at the end of the input. -/
def endToken : Token := ⟨.endOfInput, []⟩

/-! ## Characters -/

/-- `std::isspace`. -/
def isSpace (c : UInt8) : Bool := c == 32 || (9 ≤ c && c ≤ 13)

/-- `std::isalpha`. -/
def isAlpha (c : UInt8) : Bool := (65 ≤ c && c ≤ 90) || (97 ≤ c && c ≤ 122)

/-- `std::isdigit`. -/
def isDigit (c : UInt8) : Bool := 48 ≤ c && c ≤ 57

/-- A character that an identifier begins with. -/
def isIdentStart (c : UInt8) : Bool := isAlpha c || c == 95

/-- A character of an identifier. -/
def isIdentChar (c : UInt8) : Bool := isAlpha c || isDigit c || c == 95

namespace Lexer

/-! ## Reading -/

/-- Source: `lexer.cpp` ReadIdentifierOrKeyword, the comparisons. -/
def keywords : List (Bytes × TokenType) :=
  [(ascii ['S', 'E', 'L', 'E', 'C', 'T'], .select), (ascii ['F', 'R', 'O', 'M'], .fromKw),
    (ascii ['W', 'H', 'E', 'R', 'E'], .whereKw), (ascii ['G', 'R', 'O', 'U', 'P'], .group),
    (ascii ['B', 'Y'], .byKw), (ascii ['C', 'R', 'E', 'A', 'T', 'E'], .create),
    (ascii ['T', 'A', 'B', 'L', 'E'], .table), (ascii ['P', 'R', 'I', 'M', 'A', 'R', 'Y'], .primary),
    (ascii ['K', 'E', 'Y'], .key), (ascii ['I', 'N', 'S', 'E', 'R', 'T'], .insert),
    (ascii ['I', 'N', 'T', 'O'], .into), (ascii ['V', 'A', 'L', 'U', 'E', 'S'], .values),
    (ascii ['A', 'S'], .asKw), (ascii ['A', 'N', 'D'], .and), (ascii ['O', 'R'], .or)]

/-- Source: `lexer.cpp` ReadIdentifierOrKeyword. -/
def readIdentifierOrKeyword (sql : Bytes) : Token × Bytes :=
  let text := sql.takeWhile isIdentChar
  (⟨(keywords.lookup text).getD .identifier, text⟩, sql.dropWhile isIdentChar)

/-- The text of a number, whether it has a point, and what is behind it. Source: `lexer.cpp` ReadNumber,
the loop. -/
def scanNumber : Bool → Bytes → Bytes × Bool × Bytes
  | isFloat, [] => ([], isFloat, [])
  | isFloat, c :: rest =>
    if isDigit c then
      let (text, isFloat, rest) := scanNumber isFloat rest
      (c :: text, isFloat, rest)
    else if c = 46 ∧ isFloat = false then
      let (text, isFloat, rest) := scanNumber true rest
      (c :: text, isFloat, rest)
    else ([], isFloat, c :: rest)

/-- Source: `lexer.cpp` ReadNumber. -/
def readNumber (sql : Bytes) : Token × Bytes :=
  let (text, isFloat, rest) := scanNumber false sql
  (⟨if isFloat then .float else .integer, text⟩, rest)

/-- The text is the one behind the opening quote. Source: `lexer.cpp` ReadString. -/
def readString (sql : Bytes) : Token × Bytes :=
  (⟨.string, sql.takeWhile (· ≠ 39)⟩, (sql.dropWhile (· ≠ 39)).tail)

/-- An operator of one character, or of two where the second is `=`. -/
def orEqual (one two : Token) (rest : Bytes) : Token × Bytes :=
  match rest with
  | 61 :: rest => (two, rest)
  | _ => (one, rest)

/-- Operators and punctuation, without `-`. Source: `lexer.cpp` NextToken, the switch. -/
def operator? (c : UInt8) (rest : Bytes) : Option (Token × Bytes) :=
  match Char.ofUInt8 c with
  | '(' => some (⟨.lparen, [c]⟩, rest)
  | ')' => some (⟨.rparen, [c]⟩, rest)
  | ',' => some (⟨.comma, [c]⟩, rest)
  | ';' => some (⟨.semicolon, [c]⟩, rest)
  | '*' => some (⟨.star, [c]⟩, rest)
  | '+' => some (⟨.plus, [c]⟩, rest)
  | '=' => some (⟨.eq, [c]⟩, rest)
  | '<' => some (orEqual ⟨.lt, [c]⟩ ⟨.le, [c, 61]⟩ rest)
  | '>' => some (orEqual ⟨.gt, [c]⟩ ⟨.ge, [c, 61]⟩ rest)
  -- a `!` without `=` ends the input
  | '!' => some (orEqual endToken ⟨.ne, [c, 61]⟩ rest)
  | _ => none

/-- Source: `lexer.cpp` NextToken. -/
def nextToken : Bytes → Option (Token × Bytes)
  | [] => some (endToken, [])
  | c :: rest =>
    if isSpace c then nextToken rest
    else if isIdentStart c then some (readIdentifierOrKeyword (c :: rest))
    else if isDigit c then some (readNumber (c :: rest))
    else if c = 39 then some (readString rest)
    else if c = 45 then
      -- at `--` the function calls itself at the same place
      if rest.head? = some 45 then none else some (⟨.minus, [c]⟩, rest)
    else
      match operator? c rest with
      | some result => some result
      | none => nextToken rest

/-- The tokens that are left, where `n` are enough. Source: `lexer.cpp` Tokenize. -/
def tokenize : ℕ → Bytes → Option (List Token)
  | 0, _ => none
  | n + 1, sql => do
    let (token, rest) ← nextToken sql
    if token.type = .endOfInput then return [token]
    else return token :: (← tokenize n rest)

/-- Source: `lexer.cpp` Lex. -/
def lex (sql : Bytes) : Option (List Token) := tokenize (sql.length + 1) sql

/-! ## The tokens of a text -/

theorem length_scanNumber (isFloat : Bool) (sql : Bytes) :
    (scanNumber isFloat sql).2.2.length ≤ sql.length := by
  induction sql generalizing isFloat with
  | nil => rfl
  | cons c rest ih =>
    unfold scanNumber
    split_ifs
    · exact (ih isFloat).trans (Nat.le_succ _)
    · exact (ih true).trans (Nat.le_succ _)
    · exact le_rfl

theorem length_orEqual (one two : Token) (rest : Bytes) : (orEqual one two rest).2.length ≤ rest.length := by
  unfold orEqual
  split
  · exact Nat.le_succ _
  · exact le_rfl

theorem length_operator? {c : UInt8} {sql rest : Bytes} {token : Token}
    (h : operator? c sql = some (token, rest)) : rest.length ≤ sql.length := by
  have hpair : ∀ {result : Token × Bytes}, some result = some (token, rest) →
      result.2.length ≤ sql.length → rest.length ≤ sql.length := by
    intro result hresult hle
    cases hresult
    exact hle
  unfold operator? at h
  split at h
  case h_8 | h_9 | h_10 => exact hpair h (length_orEqual _ _ sql)
  case h_11 => cases h
  all_goals exact hpair h le_rfl

theorem isIdentChar_of_isIdentStart {c : UInt8} (h : isIdentStart c = true) : isIdentChar c = true := by
  unfold isIdentStart at h
  unfold isIdentChar
  rw [Bool.or_right_comm, h, Bool.true_or]

/-- Every token but the last takes something off the text. -/
theorem length_nextToken {sql rest : Bytes} {token : Token} (h : nextToken sql = some (token, rest))
    (htype : token.type ≠ .endOfInput) : rest.length < sql.length := by
  induction sql with
  | nil =>
    cases h
    exact absurd rfl htype
  | cons c sql ih =>
    unfold nextToken at h
    rw [List.length_cons, Nat.lt_succ_iff]
    split_ifs at h with hspace hstart hdigit hquote hminus hcomment
    · exact (ih h).le
    · cases h
      rw [List.dropWhile_cons_of_pos (isIdentChar_of_isIdentStart hstart)]
      exact (List.dropWhile_suffix _).length_le
    · cases h
      show (scanNumber false (c :: sql)).2.2.length ≤ sql.length
      unfold scanNumber
      rw [if_pos hdigit]
      exact length_scanNumber false sql
    · cases h
      exact (List.tail_suffix _).length_le.trans (List.dropWhile_suffix _).length_le
    · cases h
      exact le_rfl
    · split at h
      · cases h
        exact length_operator? ‹_›
      · exact (ih h).le

/-- Any number of steps that is above the length of the text is enough. -/
theorem tokenize_eq_lex {sql : Bytes} {n : ℕ} (hn : sql.length < n) : tokenize n sql = lex sql := by
  suffices h : ∀ n m sql, List.length sql < n → sql.length < m → tokenize n sql = tokenize m sql from
    h n (sql.length + 1) sql hn (Nat.lt_succ_self _)
  intro n
  induction n with
  | zero => exact fun _ sql h => absurd h (Nat.not_lt_zero _)
  | succ n ih =>
    intro m sql hn hm
    obtain ⟨m, rfl⟩ := Nat.exists_eq_succ_of_ne_zero (Nat.ne_zero_of_lt hm)
    rw [tokenize, tokenize]
    rcases hnext : nextToken sql with _ | ⟨token, rest⟩
    · rfl
    · simp only [Option.bind_eq_bind, Option.bind_some]
      split_ifs with htype
      · rfl
      · have hlen := length_nextToken hnext htype
        rw [ih m rest (by omega) (by omega)]

/-- **The first token, and the tokens of the rest.** -/
theorem lex_cons {sql rest : Bytes} {token : Token} (h : nextToken sql = some (token, rest))
    (htype : token.type ≠ .endOfInput) : lex sql = (lex rest).map (token :: ·) := by
  rw [lex, tokenize, h]
  simp only [Option.bind_eq_bind, Option.bind_some, if_neg htype]
  rw [tokenize_eq_lex (length_nextToken h htype)]
  cases lex rest <;> rfl

/-- The last token. -/
theorem lex_end {sql rest : Bytes} {token : Token} (h : nextToken sql = some (token, rest))
    (htype : token.type = .endOfInput) : lex sql = some [token] := by
  rw [lex, tokenize, h]
  simp only [Option.bind_eq_bind, Option.bind_some, if_pos htype]
  rfl

theorem lex_none {sql : Bytes} (h : nextToken sql = none) : lex sql = none := by
  rw [lex, tokenize, h]
  rfl

/-- The last of the tokens, and no other, is the end of the input. -/
def EndsOnce (tokens : List Token) : Prop :=
  ∃ init last, tokens = init ++ [last] ∧ last.type = .endOfInput ∧ ∀ t ∈ init, t.type ≠ .endOfInput

/-- **The tokens of a text end with the end of the input.** -/
theorem endsOnce_lex {sql : Bytes} {tokens : List Token} (h : lex sql = some tokens) :
    EndsOnce tokens := by
  induction hn : sql.length using Nat.strong_induction_on generalizing sql tokens with
  | _ n ih =>
    rcases hnext : nextToken sql with _ | ⟨token, rest⟩
    · rw [lex_none hnext] at h
      cases h
    · by_cases htype : token.type = .endOfInput
      · rw [lex_end hnext htype] at h
        cases h
        exact ⟨[], token, rfl, htype, fun _ ht => absurd ht List.not_mem_nil⟩
      · rw [lex_cons hnext htype] at h
        obtain ⟨behind, hbehind, rfl⟩ := Option.map_eq_some_iff.mp h
        obtain ⟨init, last, rfl, hlast, hinit⟩ :=
          ih rest.length (hn ▸ length_nextToken hnext htype) hbehind rfl
        refine ⟨token :: init, last, rfl, hlast, fun t ht => ?_⟩
        rcases List.mem_cons.mp ht with rfl | ht
        · exact htype
        · exact hinit t ht

end Lexer

end SimpleOlap
