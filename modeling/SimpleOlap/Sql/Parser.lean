import SimpleOlap.Sql.Ast
import SimpleOlap.Sql.Lexer

/-!
# The parser

* `Parser`: a reader of tokens; its state is the tokens that are left.
* `parseExpression` and the levels below it; `parseSelect`, `parseCreateTable`, `parseInsert`.
* `parseStatement`: the statement of a token list, with the tokens that are left over.

Source: `parser.h`, `parser.cpp`. Loops and nested expressions count down from a number of steps;
`Settled` shows that any number above that of the tokens gives the same.
-/

namespace SimpleOlap

open Lib

/-- A reader of tokens, or an exception. -/
abbrev Parser := StateT (List Token) (Except String)

namespace Parser

/-! ## Tokens -/

/-- An exception. -/
def fail {α : Type} (message : String) : Parser α := fun _ => .error message

/-- Source: `parser.cpp` Peek. -/
def peek : Parser Token := fun tokens => .ok (tokens.head?.getD endToken, tokens)

/-- Source: `parser.cpp` Consume. -/
def consume : Parser Token := fun tokens => .ok (tokens.head?.getD endToken, tokens.tail)

/-- Source: `parser.cpp` Match. -/
def matchToken (type : TokenType) : Parser Bool := do
  if (← peek).type = type then
    let _ ← consume
    return true
  else return false

/-- Source: `parser.cpp` Expect. -/
def expect (type : TokenType) (message : String) : Parser Token := do
  let token ← peek
  if token.type ≠ type then fail (message ++ ", got: " ++ nameText token.text) else consume

/-- The steps do not suffice, which `Settled` excludes. -/
def outOfSteps {α : Type} : Parser α := fail "out of steps"

/-- `do { item } while (Match(COMMA))`. -/
def commaLoop {σ : Type} (item : σ → Parser σ) : ℕ → σ → Parser σ
  | 0, _ => outOfSteps
  | n + 1, s => do
    let s ← item s
    if ← matchToken .comma then commaLoop item n s else return s

/-! ## Literals -/

/-- `std::stoi` of a row of digits. -/
def stoi (text : Bytes) : Except String PlanLiteralValue :=
  if decimalValue text < 2 ^ 31 then .ok (.int32 (Int32.ofNat (decimalValue text))) else .error "stoi"

/-- A ratio of magnitudes, rounded to the format's precision. -/
def roundRatio (F : Format) (n d : ℕ) : ℕ := rneDiv n (d * 2 ^ F.quantum (n / d)) * 2 ^ F.quantum (n / d)

/-- `std::stod` of digits with a point among them: the nearest double, or an exception where it is not
finite, or below the normal range and not exact. -/
def stod (text : Bytes) : Except String PlanLiteralValue :=
  let whole := text.takeWhile isDigit
  let fraction := text.drop (whole.length + 1)
  let n := decimalValue (whole ++ fraction) * unit
  let d := 10 ^ fraction.length
  let mag := roundRatio binary64 n d
  if binary64.overflow ≤ mag ∨ (mag < 2 ^ 52 ∧ mag * d ≠ n) then .error "stod"
  else .ok (.double (toDouble (.num false mag)))

/-! ## Expressions -/

/-- Source: `parser.cpp` ParseComparisonExpression, the switch. -/
def comparisonOp? : TokenType → Option BinaryOp
  | .plus => some .add
  | .minus => some .sub
  | .eq => some .eq
  | .ne => some .ne
  | .gt => some .gt
  | .ge => some .ge
  | .lt => some .lt
  | .le => some .le
  | _ => none

def andOp? : TokenType → Option BinaryOp
  | .and => some .and
  | _ => none

def orOp? : TokenType → Option BinaryOp
  | .or => some .or
  | _ => none

/-- Operators of one level, from the left. -/
def leftLoop (operand : Parser Expr) (op? : TokenType → Option BinaryOp) : ℕ → Expr → Parser Expr
  | 0, _ => outOfSteps
  | n + 1, left => do
    match op? (← peek).type with
    | none => return left
    | some op =>
      let _ ← consume
      let right ← operand
      leftLoop operand op? n (.binaryOp op left right)

/-- Operands of one level with the operators between. -/
def parseLevel (n : ℕ) (operand : Parser Expr) (op? : TokenType → Option BinaryOp) : Parser Expr := do
  let left ← operand
  leftLoop operand op? n left

/-- Source: `parser.cpp` ParseComparisonExpression. -/
def parseComparisonExpression (n : ℕ) (primary : Parser Expr) : Parser Expr :=
  parseLevel n primary comparisonOp?

/-- Source: `parser.cpp` ParseAndExpression. -/
def parseAndExpression (n : ℕ) (primary : Parser Expr) : Parser Expr :=
  parseLevel n (parseComparisonExpression n primary) andOp?

/-- Source: `parser.cpp` ParseOrExpression. -/
def parseOrExpression (n : ℕ) (primary : Parser Expr) : Parser Expr :=
  parseLevel n (parseAndExpression n primary) orOp?

/-- Source: `parser.cpp` ParsePrimaryExpression, the names of functions. -/
def aggTypeOf (name : Bytes) : AggType :=
  if name = ascii ['S', 'U', 'M'] then .sum
  else if name = ascii ['C', 'O', 'U', 'N', 'T'] then .count
  else if name = ascii ['A', 'V', 'G'] then .avg
  else if name = ascii ['M', 'I', 'N'] then .min
  else if name = ascii ['M', 'A', 'X'] then .max
  else .invalid

/-- A function call behind its name and `(`. Source: `parser.cpp` ParsePrimaryExpression. -/
def parseCall (expression : Parser Expr) (name : Bytes) : Parser Expr :=
  if aggTypeOf name = .invalid then fail ("Unknown function: " ++ nameText name)
  else do
    if ← matchToken .star then
      if aggTypeOf name ≠ .count then fail "Only COUNT(*) supports '*' as aggregate argument"
      else
        let _ ← expect .rparen "Expected ')' after function argument"
        return .aggStar (aggTypeOf name)
    else if (← peek).type = .rparen then
      fail ("Aggregate function requires an argument: " ++ nameText name)
    else
      let arg ← expression
      let _ ← expect .rparen "Expected ')' after function argument"
      return .aggFunc (aggTypeOf name) arg

/-- An identifier, with what makes it a function call. Source: `parser.cpp` ParsePrimaryExpression. -/
def parseName (expression : Parser Expr) : Parser Expr := do
  let name ← consume
  if (← peek).type = .lparen then
    let _ ← consume
    parseCall expression name.text
  else return .columnRef name.text

/-- Source: `parser.cpp` ParsePrimaryExpression. -/
def parsePrimaryExpression : ℕ → Parser Expr
  | 0 => outOfSteps
  | n + 1 => do
    let token ← peek
    match token.type with
    | .integer =>
      let token ← consume
      return .literal (← stoi token.text)
    | .float =>
      let token ← consume
      return .literal (← stod token.text)
    | .string =>
      let token ← consume
      return .literal (.string token.text)
    | .identifier => parseName (parseOrExpression n (parsePrimaryExpression n))
    | .lparen =>
      let _ ← consume
      let expr ← parseOrExpression n (parsePrimaryExpression n)
      let _ ← expect .rparen "Expected ')'"
      return expr
    | _ => fail ("Unexpected token in expression: " ++ nameText token.text)

/-- Source: `parser.cpp` ParseExpression. -/
def parseExpression (n : ℕ) : Parser Expr := parseOrExpression n (parsePrimaryExpression n)

/-! ## SELECT -/

/-- Source: `parser.cpp` ParseSelectItem. -/
def parseSelectItem (n : ℕ) : Parser SelectItem := do
  if (← peek).type = .star then
    let _ ← consume
    return ⟨.columnRef (ascii ['*']), []⟩
  else
    let expr ← parseExpression n
    let token ← peek
    if token.type = .asKw then
      let _ ← consume
      if (← peek).type ≠ .identifier then fail "Expected alias identifier after AS"
      else return ⟨expr, (← consume).text⟩
    else if token.type = .identifier then return ⟨expr, (← consume).text⟩
    else return ⟨expr, []⟩

/-- Source: `parser.cpp` ParseSelect, the WHERE clause. -/
def parseWhere (n : ℕ) : Parser (Option Expr) := do
  if ← matchToken .whereKw then return some (← parseExpression n) else return none

/-- Source: `parser.cpp` ParseSelect, the GROUP BY clause. -/
def parseGroupBy (n : ℕ) : Parser (List Expr) := do
  if ← matchToken .group then
    let _ ← expect .byKw "Expected BY after GROUP"
    commaLoop (fun exprs => do return exprs ++ [← parseExpression n]) n []
  else return []

/-- Source: `parser.cpp` ParseSelect, behind SELECT. -/
def parseSelect (n : ℕ) : Parser SelectStatement := do
  let selectList ← commaLoop (fun items => do return items ++ [← parseSelectItem n]) n []
  let _ ← expect .fromKw "Expected FROM clause"
  let tableName ← expect .identifier "Expected table name after FROM"
  let whereClause ← parseWhere n
  let groupBy ← parseGroupBy n
  let _ ← matchToken .semicolon
  let token ← peek
  if token.type ≠ .endOfInput then
    fail ("Unexpected token after SELECT statement: " ++ nameText token.text)
  else return ⟨tableName.text, selectList, whereClause, groupBy⟩

/-! ## CREATE TABLE -/

/-- `std::toupper`. -/
def toUpper (c : UInt8) : UInt8 := if 97 ≤ c ∧ c ≤ 122 then c - 32 else c

/-- The type of a name in capitals. -/
def dataTypeOf (upper : Bytes) : DataType :=
  if upper = ascii ['I', 'N', 'T'] ∨ upper = ascii ['I', 'N', 'T', 'E', 'G', 'E', 'R'] then .int32
  else if upper = ascii ['B', 'I', 'G', 'I', 'N', 'T'] then .int64
  else if upper = ascii ['F', 'L', 'O', 'A', 'T'] then .float
  else if upper = ascii ['D', 'O', 'U', 'B', 'L', 'E'] then .double
  else if upper = ascii ['V', 'A', 'R', 'C', 'H', 'A', 'R'] then .varchar
  else .invalid

/-- Source: `parser.cpp` ParseDataType. -/
def parseDataType : Parser DataType := do
  let token ← expect .identifier "Expected data type"
  if dataTypeOf (token.text.map toUpper) = .invalid then
    fail ("Unknown data type: " ++ nameText token.text)
  else return dataTypeOf (token.text.map toUpper)

/-- A name that is appended to a list. -/
def parseColumnName (message : String) (names : List Bytes) : Parser (List Bytes) := do
  return names ++ [(← expect .identifier message).text]

/-- Source: `parser.cpp` ParseKeyColumnList. -/
def parseKeyColumnList (n : ℕ) : Parser (List Bytes) := do
  let _ ← expect .lparen "Expected '(' in key definition"
  let columns ← commaLoop (parseColumnName "Expected column name in key definition") n []
  let _ ← expect .rparen "Expected ')' after key columns"
  return columns

/-- PRIMARY KEY with its columns. -/
def parsePrimaryKey (n : ℕ) : Parser KeyConstraint := do
  let _ ← consume
  let _ ← expect .key "Expected 'KEY' after PRIMARY"
  return ⟨.primary, [], ← parseKeyColumnList n⟩

/-- The name of a key, where it has one. -/
def parseKeyName : Parser Bytes := do
  if (← peek).type = .identifier then return (← consume).text else return []

/-- KEY with its name and columns. -/
def parseSecondaryKey (n : ℕ) : Parser KeyConstraint := do
  let _ ← consume
  let name ← parseKeyName
  return ⟨.secondary, name, ← parseKeyColumnList n⟩

/-- PRIMARY KEY behind a column. -/
def parseColumnKey (name : Bytes) : Parser (List KeyConstraint) := do
  if (← peek).type = .primary then
    let _ ← consume
    let _ ← expect .key "Expected 'KEY' after PRIMARY"
    return [⟨.primary, [], [name]⟩]
  else return []

/-- A column or a key. Source: `parser.cpp` ParseCreateTable, the loop. -/
def parseCreateItem (n : ℕ) (stmt : CreateTableStatement) : Parser CreateTableStatement := do
  let token ← peek
  if token.type = .primary then
    let key ← parsePrimaryKey n
    return { stmt with keys := stmt.keys ++ [key] }
  else if token.type = .key then
    let key ← parseSecondaryKey n
    return { stmt with keys := stmt.keys ++ [key] }
  else
    let name ← expect .identifier "Expected column name"
    let type ← parseDataType
    let keys ← parseColumnKey name.text
    return { stmt with
      columns := stmt.columns ++ [⟨stmt.columns.length, name.text, type⟩], keys := stmt.keys ++ keys }

/-- Source: `parser.cpp` ParseCreateTable, behind CREATE. -/
def parseCreateTable (n : ℕ) : Parser CreateTableStatement := do
  let _ ← expect .table "Expected 'TABLE' after CREATE"
  let tableName ← expect .identifier "Expected table name"
  let _ ← expect .lparen "Expected '(' after table name"
  let stmt ← commaLoop (parseCreateItem n) n ⟨tableName.text, [], []⟩
  let _ ← expect .rparen "Expected ')' after columns"
  return stmt

/-! ## INSERT -/

/-- The list of columns, where there is one. Source: `parser.cpp` ParseInsert. -/
def parseColumnList (n : ℕ) : Parser (List Bytes) := do
  if ← matchToken .lparen then
    let columns ← commaLoop (parseColumnName "Expected column name") n []
    let _ ← expect .rparen "Expected ')' after column list"
    return columns
  else return []

/-- One row. Source: `parser.cpp` ParseInsert, the loop. -/
def parseRow (n : ℕ) : Parser (List Expr) := do
  let _ ← expect .lparen "Expected '(' before row values"
  let row ← commaLoop (fun exprs => do return exprs ++ [← parseExpression n]) n []
  let _ ← expect .rparen "Expected ')' after row values"
  return row

/-- Source: `parser.cpp` ParseInsert, behind INSERT. -/
def parseInsert (n : ℕ) : Parser InsertStatement := do
  let _ ← expect .into "Expected 'INTO' after INSERT"
  let tableName ← expect .identifier "Expected table name"
  let columns ← parseColumnList n
  let _ ← expect .values "Expected 'VALUES' keyword"
  let values ← commaLoop (fun rows => do return rows ++ [← parseRow n]) n []
  let _ ← matchToken .semicolon
  return ⟨tableName.text, columns, values⟩

/-! ## Statements -/

/-- A statement, in so many steps. Source: `parser.cpp` ParseStatement. -/
def parseStatementIn (n : ℕ) : Parser Statement := do
  if ← matchToken .select then return .select (← parseSelect n)
  else if ← matchToken .create then return .createTable (← parseCreateTable n)
  else if ← matchToken .insert then return .insert (← parseInsert n)
  else
    let token ← peek
    fail ("Unsupported statement type at token: " ++ nameText token.text)

/-- The statement of a token list, and the tokens that are left over. Source: `parser.cpp`
ParseStatement. -/
def parseStatement (tokens : List Token) : Except String (Statement × List Token) :=
  parseStatementIn (tokens.length + 1) tokens

end Parser

end SimpleOlap
