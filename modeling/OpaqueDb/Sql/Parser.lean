/-
# Sql.Parser -- the recursive-descent parser and the client's rewriting

The parser reads a token list from the left; every function returns what it parsed
and the tokens that remain.  The source's loops run on fuel, the number of remaining
tokens, and each turn consumes one.  A read past the last token, which the source
does not guard, is the status `readPastEnd`.

`prepareClientQuery` lifts the literals of a statement out of its text: it parses
the statement, tokenizes it again, and splices a bound parameter over every literal
from right to left.
-/
import OpaqueDb.Core.Schema
import OpaqueDb.Sql.Tokenizer

namespace OpaqueDb.Sql

open OpaqueDb.Core

set_option autoImplicit false

universe u v

/-! ## The syntax tree -/

inductive CompareOp where
  | eq | ne | lt | le | gt | ge
  deriving DecidableEq, Repr

def CompareOp.toBytes : CompareOp → Bytes
  | .eq => bytes "="
  | .ne => bytes "<>"
  | .lt => bytes "<"
  | .le => bytes "<="
  | .gt => bytes ">"
  | .ge => bytes ">="

/-- The matched value: a bound parameter or an inline literal, never both. -/
inductive Parameter where
  | bound (name : Bytes)
  | literal (value : Value)
  deriving DecidableEq, Repr

def Parameter.isLiteral : Parameter → Bool
  | .bound _ => false
  | .literal _ => true

/-- A predicate tree over its value positions. -/
inductive Predicate (α : Type u) where
  | comparison (column : Bytes) (op : CompareOp) (param : α)
  | inList (column : Bytes) (params : List α)
  | like (column : Bytes) (param : α)
  | between (column : Bytes) (low high : α)
  | and (left right : Predicate α)
  | or (left right : Predicate α)
  deriving DecidableEq, Repr

/-- The value positions from left to right. -/
def Predicate.values {α : Type u} : Predicate α → List α
  | .comparison _ _ param => [param]
  | .inList _ params => params
  | .like _ param => [param]
  | .between _ low high => [low, high]
  | .and left right => left.values ++ right.values
  | .or left right => left.values ++ right.values

structure OrderByItem where
  column : Bytes
  descending : Bool := false
  deriving DecidableEq, Repr

structure SelectStatement where
  projection : List Bytes := []
  projectionAliases : List Bytes := []
  selectAll : Bool := false
  distinct : Bool := false
  countStar : Bool := false
  table : Bytes
  where_ : Option (Predicate Parameter) := none
  orderBy : List OrderByItem := []
  limit : Option Nat := none
  offset : Option Nat := none
  deriving DecidableEq, Repr

/-! ## The cursor -/

def readPastEnd : Status :=
  ⟨.undefinedRead, []⟩

variable (type : TokenType)

/-- `Match`: the rest of the tokens if the next one has the type. -/
def accept : List Token → Option (List Token)
  | [] => none
  | t :: ts => if t.type = type then some ts else none

variable (what : Bytes) (t : Token)

/-- `expected ... but found ... at offset ...` -/
def expectedBut : Status :=
  invalidArgument ["expected ", what, " but found ", t.type.toBytes,
    " at offset ", dec t.pos]

def expect : List Token → StatusOr (List Token)
  | [] => .error readPastEnd
  | t :: ts => if t.type = type then .ok ts else .error (expectedBut type.toBytes t)

def parseIdentifier : List Token → StatusOr (Bytes × List Token)
  | [] => .error readPastEnd
  | t :: ts => if t.type = .identifier then .ok (t.text, ts) else .error (expectedBut what t)

/-- The number after LIMIT or OFFSET. -/
def parseCount : List Token → StatusOr (Nat × List Token)
  | [] => .error readPastEnd
  | t :: ts =>
    if t.type = .numberLiteral then
      match simpleAtou64 t.text with
      | some n => .ok (n, ts)
      | none => .error (invalidArgument [what, " value '", t.text,
          "' is out of range at offset ", dec t.pos])
    else .error (expectedBut (bytes "a number after " ++ what) t)

/-- The value a literal token stands for; a number may be out of range. -/
def literalValue : Option Value :=
  if t.type = .stringLiteral then some (.text t.text)
  else if t.type = .numberLiteral then (simpleAtoi64 t.text).map fun i => .int (Int64.ofInt i)
  else none

def parseParameter : List Token → StatusOr (Parameter × List Token)
  | [] => .error readPastEnd
  | t :: ts =>
    if t.type = .stringLiteral ∨ t.type = .numberLiteral then
      match literalValue t with
      | some value => .ok (.literal value, ts)
      | none => .error (invalidArgument ["number literal '", t.text,
          "' is out of range at offset ", dec t.pos])
    else if t.type = .parameter then .ok (.bound t.text, ts)
    else .error (expectedBut (bytes "a bound parameter (:name) or a literal") t)

/-! ## Clauses -/

/-- One or more items separated by commas. -/
def commaList {α : Type} (item : List Token → StatusOr (α × List Token)) :
    Nat → List Token → StatusOr (List α × List Token)
  | 0, _ => .error readPastEnd
  | fuel + 1, ts => do
    let (first, ts) ← item ts
    match accept .comma ts with
    | some ts => do
      let (others, ts) ← commaList item fuel ts
      return (first :: others, ts)
    | none => return ([first], ts)

variable (ts : List Token)

/-- A projected column and its display name. -/
def parseColumn : StatusOr ((Bytes × Bytes) × List Token) := do
  let (column, ts) ← parseIdentifier (bytes "a column name") ts
  match accept .as_ ts with
  | some ts => do
    let (display, ts) ← parseIdentifier (bytes "an alias name") ts
    return ((column, display), ts)
  | none => return ((column, column), ts)

def parseColumns : StatusOr (List (Bytes × Bytes) × List Token) :=
  commaList parseColumn ts.length ts

/-- One ORDER BY term; ASC is the default and is consumed if present. -/
def parseOrderItem : StatusOr (OrderByItem × List Token) := do
  let (column, ts) ← parseIdentifier (bytes "a column name") ts
  match accept .desc ts with
  | some ts => return (⟨column, true⟩, ts)
  | none => return (⟨column, false⟩, (accept .asc ts).getD ts)

def parseOrderBy : StatusOr (List OrderByItem × List Token) :=
  commaList parseOrderItem ts.length ts

variable (column : Bytes)

def parseIn (ts : List Token) : StatusOr (Predicate Parameter × List Token) := do
  let ts ← expect .lParen ts
  let (params, ts) ← commaList parseParameter ts.length ts
  let ts ← expect .rParen ts
  return (.inList column params, ts)

def parseLike (ts : List Token) : StatusOr (Predicate Parameter × List Token) := do
  let (param, ts) ← parseParameter ts
  return (.like column param, ts)

/-- The AND between the two bounds. -/
def betweenAnd : List Token → StatusOr (List Token)
  | [] => .error readPastEnd
  | t :: ts =>
    if t.type = .and_ then .ok ts
    else .error (invalidArgument ["expected AND in BETWEEN at offset ", dec t.pos])

def parseBetween (ts : List Token) : StatusOr (Predicate Parameter × List Token) := do
  let (low, ts) ← parseParameter ts
  let ts ← betweenAnd ts
  let (high, ts) ← parseParameter ts
  return (.between column low high, ts)

def compareOpOf : TokenType → Option CompareOp
  | .eq => some .eq
  | .ne => some .ne
  | .lt => some .lt
  | .le => some .le
  | .gt => some .gt
  | .ge => some .ge
  | _ => none

def parseOperator : List Token → StatusOr (Predicate Parameter × List Token)
  | [] => .error readPastEnd
  | t :: ts =>
    match compareOpOf t.type with
    | some op => do
      let (param, ts) ← parseParameter ts
      return (.comparison column op param, ts)
    | none => .error (expectedBut
        (bytes "a comparison operator after column '" ++ column ++ bytes "'") t)

def parseComparison : StatusOr (Predicate Parameter × List Token) := do
  let (column, ts) ← parseIdentifier (bytes "a column name") ts
  match accept .in_ ts with
  | some ts => parseIn column ts
  | none =>
    match accept .like ts with
    | some ts => parseLike column ts
    | none =>
      match accept .between ts with
      | some ts => parseBetween column ts
      | none => parseOperator column ts

/-- Further terms joined to the left by a separator. -/
def chainLoop (separator : TokenType) (term : List Token → StatusOr (Predicate Parameter × List Token))
    (join : Predicate Parameter → Predicate Parameter → Predicate Parameter) :
    Nat → Predicate Parameter → List Token → StatusOr (Predicate Parameter × List Token)
  | 0, node, ts => .ok (node, ts)
  | fuel + 1, node, ts =>
    match accept separator ts with
    | some ts => do
      let (right, ts) ← term ts
      chainLoop separator term join fuel (join node right) ts
    | none => .ok (node, ts)

def parseChain (separator : TokenType) (term : List Token → StatusOr (Predicate Parameter × List Token))
    (join : Predicate Parameter → Predicate Parameter → Predicate Parameter) (ts : List Token) :
    StatusOr (Predicate Parameter × List Token) := do
  let (left, ts) ← term ts
  chainLoop separator term join ts.length left ts

/-- `or_term := and_term (AND and_term)*` -/
def parseOrTerm : List Token → StatusOr (Predicate Parameter × List Token) :=
  parseChain .and_ parseComparison .and

/-- `predicate := or_term (OR or_term)*` -/
def parsePredicate : List Token → StatusOr (Predicate Parameter × List Token) :=
  parseChain .or_ parseOrTerm .or

/-! ## The statement -/

/-- What SELECT returns: `COUNT(*)`, `*`, or columns with their display names. -/
inductive Projection where
  | countStar
  | all
  | columns (named : List (Bytes × Bytes))
  deriving DecidableEq, Repr

def parseProjection (distinct : Bool) (ts : List Token) : StatusOr (Projection × List Token) :=
  match accept .count ts with
  | some ts =>
    if distinct then .error (invalidArgument ["DISTINCT with COUNT(*) is not supported"])
    else do
      let ts ← expect .lParen ts
      let ts ← expect .star ts
      let ts ← expect .rParen ts
      return (.countStar, ts)
  | none =>
    match accept .star ts with
    | some ts => .ok (.all, ts)
    | none => do
      let (columns, ts) ← parseColumns ts
      return (.columns columns, ts)

def parseWhere : StatusOr (Option (Predicate Parameter) × List Token) :=
  match accept .where_ ts with
  | some ts => do
    let (predicate, ts) ← parsePredicate ts
    return (some predicate, ts)
  | none => .ok (none, ts)

def parseOrder : StatusOr (List OrderByItem × List Token) :=
  match accept .order ts with
  | some ts => do
    let ts ← expect .by_ ts
    parseOrderBy ts
  | none => .ok ([], ts)

def parseLimit : StatusOr (Option Nat × List Token) :=
  match accept .limit ts with
  | some ts => do
    let (n, ts) ← parseCount (bytes "LIMIT") ts
    if n = 0 then .error (invalidArgument ["LIMIT must be at least 1"])
    else return (some n, ts)
  | none => .ok (none, ts)

def parseOffset : StatusOr (Option Nat × List Token) :=
  match accept .offset ts with
  | some ts => do
    let (m, ts) ← parseCount (bytes "OFFSET") ts
    return (some m, ts)
  | none => .ok (none, ts)

def parseEnd : List Token → StatusOr Unit
  | [] => .error readPastEnd
  | t :: _ =>
    if t.type = .end_ then .ok ()
    else .error (invalidArgument ["unexpected trailing input near offset ", dec t.pos])

def Projection.columnsOf : Projection → List (Bytes × Bytes)
  | .columns named => named
  | _ => []

def parseStatement : StatusOr SelectStatement := do
  let ts ← expect .select ts
  let distinct := (accept .distinct ts).isSome
  let ts := (accept .distinct ts).getD ts
  let (projection, ts) ← parseProjection distinct ts
  let ts ← expect .from_ ts
  let (table, ts) ← parseIdentifier (bytes "table name") ts
  let (where_, ts) ← parseWhere ts
  let (orderBy, ts) ← parseOrder ts
  let (limit, ts) ← parseLimit ts
  let (offset, ts) ← parseOffset ts
  parseEnd ts
  return {
    projection := projection.columnsOf.map Prod.fst
    projectionAliases := projection.columnsOf.map Prod.snd
    selectAll := projection = .all
    distinct := distinct
    countStar := projection = .countStar
    table := table
    where_ := where_
    orderBy := orderBy
    limit := limit
    offset := offset }

variable (sql : Bytes)

/-- Surrounding whitespace and one trailing semicolon. -/
def trimStatement : Bytes :=
  let t := stripAsciiWhitespace sql
  stripAsciiWhitespace (if t.getLast? = some 59 then t.dropLast else t)

def parse : StatusOr SelectStatement := do
  let tokens ← tokenize (trimStatement sql)
  parseStatement tokens

/-! ## The client's rewriting -/

structure PreparedQuery where
  sqlTemplate : Bytes
  literals : List Value := []
  count : Bool := false
  limit : Option Nat := none
  offset : Option Nat := none
  deriving DecidableEq, Repr

/-- The literal tokens to lift: every one but the number after LIMIT or OFFSET. -/
def liftedTokens : TokenType → List Token → List Token
  | _, [] => []
  | prev, t :: ts =>
    if (prev = .limit ∨ prev = .offset) ∧ t.type = .numberLiteral then liftedTokens t.type ts
    else if t.type = .stringLiteral ∨ t.type = .numberLiteral then t :: liftedTokens t.type ts
    else liftedTokens t.type ts

/-- Bytes of the source text a literal token covers, quotes included. -/
def literalSpan : Nat :=
  if t.type = .stringLiteral then t.text.length + 2 else t.text.length

/-- The parameter name of literal `i` of `n`. -/
def parameterName (n i : Nat) : Bytes :=
  if n = 1 then bytes "v" else bytes "v" ++ dec i

def spliceOne (templated : Bytes) (t : Token) (name : Bytes) : Bytes :=
  templated.take t.pos ++ (colon :: name) ++ templated.drop (t.pos + literalSpan t)

/-- Splice a parameter over every literal, from right to left. -/
def spliceAll (src : Bytes) (literals : List Token) : Bytes :=
  literals.zipIdx.foldr
    (fun p templated => spliceOne templated p.1 (parameterName literals.length p.2)) src

def liftLiteral : StatusOr Value :=
  match literalValue t with
  | some value => .ok value
  | none => .error (invalidArgument ["number literal '", t.text, "' is out of range"])

def prepareClientQuery : StatusOr PreparedQuery := do
  let src := trimStatement sql
  let stmt ← parse src
  let tokens ← tokenize src
  let literals := liftedTokens .end_ tokens
  if literals.isEmpty then
    return { sqlTemplate := src, limit := stmt.limit, offset := stmt.offset, count := stmt.countStar }
  else
    let values ← literals.mapM liftLiteral
    return {
      sqlTemplate := spliceAll src literals
      literals := values
      count := stmt.countStar
      limit := stmt.limit
      offset := stmt.offset }

example : (prepareClientQuery (bytes "SELECT a FROM t WHERE k IN (5, 'x') LIMIT 2;")).map
    PreparedQuery.sqlTemplate = .ok (bytes "SELECT a FROM t WHERE k IN (:v0, :v1) LIMIT 2") := by
  decide

end OpaqueDb.Sql
