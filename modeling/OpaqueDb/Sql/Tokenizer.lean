/-
# Sql.Tokenizer -- the bounded tokenizer of the SQL subset

Keywords are case-insensitive, identifiers keep their case, a value is a bound
parameter, a quoted string or a run of digits.  The input length, the token count and
the lengths of identifiers, parameter names and string literals are bounded.

`lexToken` reads one token at a byte that is not whitespace and reports how many bytes
it took; `tokenizeLoop` is the scanning loop, with the input length as fuel.
-/
import OpaqueDb.Core.Text

namespace OpaqueDb.Sql

open OpaqueDb.Core

set_option autoImplicit false

def kMaxSqlLength : Nat := 64 * 1024
def kMaxTokens : Nat := 4096
def kMaxIdentifierLength : Nat := 256

inductive TokenType where
  | select | count | from_ | where_ | and_ | or_ | in_ | like | between | limit | offset
  | order | by_ | asc | desc | distinct | as_ | create | table | key | index
  | identifier | parameter | stringLiteral | numberLiteral
  | comma | star | lParen | rParen
  | eq | ne | lt | le | gt | ge
  | end_
  deriving DecidableEq, Repr

def TokenType.toBytes : TokenType → Bytes
  | .select => "SELECT"
  | .count => "COUNT"
  | .from_ => "FROM"
  | .where_ => "WHERE"
  | .and_ => "AND"
  | .or_ => "OR"
  | .in_ => "IN"
  | .like => "LIKE"
  | .between => "BETWEEN"
  | .limit => "LIMIT"
  | .offset => "OFFSET"
  | .order => "ORDER"
  | .by_ => "BY"
  | .asc => "ASC"
  | .desc => "DESC"
  | .distinct => "DISTINCT"
  | .as_ => "AS"
  | .create => "CREATE"
  | .table => "TABLE"
  | .key => "KEY"
  | .index => "INDEX"
  | .identifier => "identifier"
  | .parameter => "parameter"
  | .stringLiteral => "string literal"
  | .numberLiteral => "number literal"
  | .comma => "','"
  | .star => "'*'"
  | .lParen => "'('"
  | .rParen => "')'"
  | .eq => "'='"
  | .ne => "'<>'"
  | .lt => "'<'"
  | .le => "'<='"
  | .gt => "'>'"
  | .ge => "'>='"
  | .end_ => "end of input"

structure Token where
  type : TokenType
  text : Bytes
  pos : Nat
  deriving DecidableEq, Repr

/-! ## Characters -/

def underscore : UInt8 := 95
def colon : UInt8 := 58
def singleQuote : UInt8 := 39
def doubleQuote : UInt8 := 34

variable (c : UInt8)

def isIdentifierStart : Bool :=
  isAlpha c || c == underscore

def isIdentifierChar : Bool :=
  isAlnum c || c == underscore

/-- The keywords, in the order the source tries them. -/
def keywords : List (Bytes × TokenType) :=
  [("SELECT", .select), ("COUNT", .count), ("FROM", .from_),
    ("WHERE", .where_), ("AND", .and_), ("OR", .or_), ("IN", .in_),
    ("LIKE", .like), ("BETWEEN", .between), ("LIMIT", .limit),
    ("OFFSET", .offset), ("ORDER", .order), ("BY", .by_), ("ASC", .asc),
    ("DESC", .desc), ("DISTINCT", .distinct), ("AS", .as_),
    ("CREATE", .create), ("TABLE", .table), ("KEY", .key),
    ("INDEX", .index)]

def keywordOrIdentifier (word : Bytes) : TokenType :=
  match keywords.lookup (asciiStrToUpper word) with
  | some type => type
  | none => .identifier

/-! ## One token -/

/-- A token without its position, and the number of bytes it covers. -/
structure Lexeme where
  type : TokenType
  text : Bytes
  length : Nat
  deriving DecidableEq, Repr

variable (pos : Nat)

def unexpectedCharacter : Status :=
  invalidArgument ["unexpected character '", [c], "' at offset ", dec pos]

variable (rest : Bytes)

def lexWord : StatusOr Lexeme :=
  let word := c :: rest.takeWhile isIdentifierChar
  if word.length > kMaxIdentifierLength then
    .error (invalidArgument ["identifier is too long"])
  else
    let type := keywordOrIdentifier word
    .ok ⟨type, if type = .identifier then word else [], word.length⟩

def lexParameter : StatusOr Lexeme :=
  if rest.head?.all (fun d => !isIdentifierStart d) then
    .error (invalidArgument ["expected a parameter name after ':' at offset ", dec pos])
  else
    let name := rest.takeWhile isIdentifierChar
    if name.length > kMaxIdentifierLength then
      .error (invalidArgument ["parameter name is too long"])
    else .ok ⟨.parameter, name, name.length + 1⟩

/-- A quoted string ends at the next quote of its own kind.  The length check runs
inside the scan, so an over-long body is refused before a missing quote. -/
def lexString (quote : UInt8) (rest : Bytes) : StatusOr Lexeme :=
  let body := rest.takeWhile (· != quote)
  if body.length > kMaxIdentifierLength then
    .error (invalidArgument ["string literal is too long"])
  else if body.length = rest.length then
    .error (invalidArgument ["unterminated string literal at offset ", dec pos])
  else .ok ⟨.stringLiteral, body, body.length + 2⟩

def lexNumber : Lexeme :=
  let digits := c :: rest.takeWhile isDigit
  ⟨.numberLiteral, digits, digits.length⟩

/-- The two-character operators. -/
def twoCharOperator (next : Option UInt8) : Option TokenType :=
  if c = 60 ∧ next = some 61 then some .le
  else if c = 62 ∧ next = some 61 then some .ge
  else if c = 60 ∧ next = some 62 then some .ne
  else if c = 33 ∧ next = some 61 then some .ne
  else none

def oneCharOperator : Option TokenType :=
  if c = 44 then some .comma
  else if c = 42 then some .star
  else if c = 40 then some .lParen
  else if c = 41 then some .rParen
  else if c = 61 then some .eq
  else if c = 60 then some .lt
  else if c = 62 then some .gt
  else none

/-- Operators and punctuation; the two-character operators are tried first. -/
def lexOperator (c : UInt8) (rest : Bytes) : StatusOr Lexeme :=
  match twoCharOperator c rest.head? with
  | some type => .ok ⟨type, [], 2⟩
  | none =>
    match oneCharOperator c with
    | some type => .ok ⟨type, [], 1⟩
    | none => .error (unexpectedCharacter c pos)

def lexToken (c : UInt8) (rest : Bytes) : StatusOr Lexeme :=
  if isIdentifierStart c then lexWord c rest
  else if c = colon then lexParameter pos rest
  else if c = singleQuote ∨ c = doubleQuote then lexString pos c rest
  else if isDigit c then .ok (lexNumber c rest)
  else lexOperator pos c rest

/-! ## The scan -/

/-- `push`: the token count is bounded. -/
def push (count : Nat) : StatusOr Unit :=
  if count ≥ kMaxTokens then .error (invalidArgument ["SQL has too many tokens"]) else .ok ()

/-- The scan from `pos` on, with `count` tokens already pushed.  Every turn consumes
at least one byte, so the number of bytes is enough fuel. -/
def tokenizeLoop : Nat → Bytes → Nat → Nat → StatusOr (List Token)
  | _, [], pos, count => do
    push count
    return [⟨.end_, [], pos⟩]
  | 0, _ :: _, _, _ => .error ⟨.undefinedRead, []⟩
  | fuel + 1, c :: rest, pos, count =>
    if isSpace c then tokenizeLoop fuel rest (pos + 1) count
    else do
      let lexeme ← lexToken pos c rest
      push count
      let tokens ← tokenizeLoop fuel ((c :: rest).drop lexeme.length) (pos + lexeme.length)
        (count + 1)
      return ⟨lexeme.type, lexeme.text, pos⟩ :: tokens

def tokenize (sql : Bytes) : StatusOr (List Token) :=
  if sql.length > kMaxSqlLength then
    .error (invalidArgument ["SQL is ", dec sql.length, " bytes, over the ",
      dec kMaxSqlLength, " limit"])
  else tokenizeLoop sql.length sql 0 0

example : (tokenize (bytes "k<>5 ;")).isOk = false := by decide

end OpaqueDb.Sql
