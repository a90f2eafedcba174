/-
# Sql.Cursor -- the parser's cursor

The parser as the source has it: a vector of tokens, a position in it, and member functions that
look at the token there and move the position on.  Nothing compares the position with the
length of the vector; a read behind the last token is the status `readPastEnd`.

Every function does on the tokens from the position on what its namesake in `Sql.Parser`
does, and stays at or before the end token (`Reads`).  Only the last step of an accepted
statement consumes that token, and nothing is read behind it (`parser_reads_grammar`).
-/
import OpaqueDb.Sql.Recognition
import OpaqueDb.Theory.Calls

namespace OpaqueDb.Sql

open OpaqueDb.Core Theory List Theory.Call

set_option autoImplicit false

/-- A member function of the parser: the position survives a failure. -/
abbrev Cursor : Type → Type :=
  Call Status Nat

namespace Cursor

/-! ## The member functions -/

section Parser

variable (tokens : List Token)

def peek : Cursor Token := do
  let pos ← current
  match tokens[pos]? with
  | some t => return t
  | none => lift (.error readPastEnd)

def advance : Cursor Token := do
  let t ← peek tokens
  change (· + 1)
  return t

def check (type : TokenType) : Cursor Bool := do
  let t ← peek tokens
  return t.type = type

/-- `Match`. -/
def accept (type : TokenType) : Cursor Bool := do
  if ← check tokens type then
    change (· + 1)
    return true
  else return false

def fail {α : Type} (status : Token → Status) : Cursor α := do
  let t ← peek tokens
  lift (.error (status t))

def expect (type : TokenType) : Cursor Unit := do
  if ← check tokens type then change (· + 1)
  else fail tokens (expectedBut type.toBytes)

def parseIdentifier (what : Bytes) : Cursor Bytes := do
  if ← check tokens .identifier then
    let t ← advance tokens
    return t.text
  else fail tokens (expectedBut what)

def parseCount (what : Bytes) : Cursor Nat := do
  if ← check tokens .numberLiteral then
    let t ← advance tokens
    match simpleAtou64 t.text with
    | some n => return n
    | none => lift (.error (invalidArgument [what, " value '", t.text,
        "' is out of range at offset ", dec t.pos]))
  else fail tokens (expectedBut (bytes "a number after " ++ what))

def parseParameter : Cursor Parameter := do
  if ← check tokens .stringLiteral then
    let t ← advance tokens
    return .literal (.text t.text)
  else if ← check tokens .numberLiteral then
    let t ← advance tokens
    match simpleAtoi64 t.text with
    | some i => return .literal (.int (Int64.ofInt i))
    | none => lift (.error (invalidArgument ["number literal '", t.text,
        "' is out of range at offset ", dec t.pos]))
  else if ← check tokens .parameter then
    let t ← advance tokens
    return .bound t.text
  else fail tokens (expectedBut (bytes "a bound parameter (:name) or a literal"))

/-- A loop runs on the number of tokens left; every turn consumes one. -/
def withFuel {α : Type} (loop : Nat → Cursor α) : Cursor α := do
  let pos ← current
  loop (tokens.length - pos)

/-- `do ... while (Match(kComma))`. -/
def commaList {α : Type} (item : Cursor α) : Nat → Cursor (List α)
  | 0 => lift (.error readPastEnd)
  | fuel + 1 => do
    let first ← item
    if ← accept tokens .comma then
      let others ← commaList item fuel
      return first :: others
    else return [first]

def parseColumn : Cursor (Bytes × Bytes) := do
  let column ← parseIdentifier tokens (bytes "a column name")
  if ← accept tokens .as_ then
    let display ← parseIdentifier tokens (bytes "an alias name")
    return (column, display)
  else return (column, column)

def parseColumns : Cursor (List (Bytes × Bytes)) :=
  withFuel tokens (commaList tokens (parseColumn tokens))

def parseOrderItem : Cursor OrderByItem := do
  let column ← parseIdentifier tokens (bytes "a column name")
  if ← accept tokens .desc then return ⟨column, true⟩
  else
    let _ ← accept tokens .asc
    return ⟨column, false⟩

def parseOrderBy : Cursor (List OrderByItem) :=
  withFuel tokens (commaList tokens (parseOrderItem tokens))

def parseIn (column : Bytes) : Cursor (Predicate Parameter) := do
  expect tokens .lParen
  let params ← withFuel tokens (commaList tokens (parseParameter tokens))
  expect tokens .rParen
  return .inList column params

def parseLike (column : Bytes) : Cursor (Predicate Parameter) := do
  let param ← parseParameter tokens
  return .like column param

/-- The AND between the two bounds, with a message of its own. -/
def betweenAnd : Cursor Unit := do
  if ← check tokens .and_ then change (· + 1)
  else fail tokens fun t =>
    invalidArgument ["expected AND in BETWEEN at offset ", dec t.pos]

def parseBetween (column : Bytes) : Cursor (Predicate Parameter) := do
  let low ← parseParameter tokens
  betweenAnd tokens
  let high ← parseParameter tokens
  return .between column low high

/-- The operators the source tries one after another. -/
def operators : List (TokenType × CompareOp) :=
  [(.eq, .eq), (.ne, .ne), (.lt, .lt), (.le, .le), (.gt, .gt), (.ge, .ge)]

def parseOperator (column : Bytes) : List (TokenType × CompareOp) → Cursor (Predicate Parameter)
  | [] => fail tokens (expectedBut
      (bytes "a comparison operator after column '" ++ column ++ bytes "'"))
  | (type, op) :: others => do
    if ← accept tokens type then
      let param ← parseParameter tokens
      return .comparison column op param
    else parseOperator column others

def parseComparison : Cursor (Predicate Parameter) := do
  let column ← parseIdentifier tokens (bytes "a column name")
  if ← accept tokens .in_ then parseIn tokens column
  else if ← accept tokens .like then parseLike tokens column
  else if ← accept tokens .between then parseBetween tokens column
  else parseOperator tokens column operators

/-- `while (Match(separator))`. -/
def chainLoop (separator : TokenType) (term : Cursor (Predicate Parameter))
    (join : Predicate Parameter → Predicate Parameter → Predicate Parameter) :
    Predicate Parameter → Nat → Cursor (Predicate Parameter)
  | node, 0 => return node
  | node, fuel + 1 => do
    if ← accept tokens separator then
      let right ← term
      chainLoop separator term join (join node right) fuel
    else return node

def parseChain (separator : TokenType) (term : Cursor (Predicate Parameter))
    (join : Predicate Parameter → Predicate Parameter → Predicate Parameter) :
    Cursor (Predicate Parameter) := do
  let left ← term
  withFuel tokens (chainLoop tokens separator term join left)

def parseOrTerm : Cursor (Predicate Parameter) :=
  parseChain tokens .and_ (parseComparison tokens) .and

def parsePredicate : Cursor (Predicate Parameter) :=
  parseChain tokens .or_ (parseOrTerm tokens) .or

def parseProjection (distinct : Bool) : Cursor Projection := do
  if ← accept tokens .count then
    if distinct then
      lift (.error (invalidArgument ["DISTINCT with COUNT(*) is not supported"]))
    else
      expect tokens .lParen
      expect tokens .star
      expect tokens .rParen
      return .countStar
  else if ← accept tokens .star then return .all
  else
    let columns ← parseColumns tokens
    return .columns columns

def parseWhere : Cursor (Option (Predicate Parameter)) := do
  if ← accept tokens .where_ then
    let predicate ← parsePredicate tokens
    return some predicate
  else return none

def parseOrder : Cursor (List OrderByItem) := do
  if ← accept tokens .order then
    expect tokens .by_
    parseOrderBy tokens
  else return []

def parseLimit : Cursor (Option Nat) := do
  if ← accept tokens .limit then
    let n ← parseCount tokens (bytes "LIMIT")
    if n = 0 then lift (.error (invalidArgument ["LIMIT must be at least 1"]))
    else return some n
  else return none

def parseOffset : Cursor (Option Nat) := do
  if ← accept tokens .offset then
    let m ← parseCount tokens (bytes "OFFSET")
    return some m
  else return none

def parseEnd : Cursor Unit := do
  if ← check tokens .end_ then change (· + 1)
  else fail tokens fun t =>
    invalidArgument ["unexpected trailing input near offset ", dec t.pos]

def parseStatement : Cursor SelectStatement := do
  expect tokens .select
  let distinct ← accept tokens .distinct
  let projection ← parseProjection tokens distinct
  expect tokens .from_
  let table ← parseIdentifier tokens (bytes "table name")
  let where_ ← parseWhere tokens
  let orderBy ← parseOrder tokens
  let limit ← parseLimit tokens
  let offset ← parseOffset tokens
  parseEnd tokens
  return {
    projection := projection.columnsOf.map Prod.fst
    projectionAliases := projection.columnsOf.map Prod.snd
    selectAll := projection = .all
    distinct := distinct
    countStar := projection = .countStar
    table := table
    where_ := where_
    orderBy := orderBy
    limit := limit
    offset := offset }

end Parser

/-! ## Reading as far as the end token -/

/-- The only end token stands at this position. -/
structure EndsAt (tokens : List Token) (last : Nat) : Prop where
  here : ∃ t, tokens[last]? = some t ∧ t.type = .end_
  only : ∀ {pos t}, tokens[pos]? = some t → t.type = .end_ → pos = last

/-- The cursor and the function on lists come to one result, and the cursor has moved forward to
where the list goes on, at or before the last token. -/
inductive Outcome {α : Type} (tokens : List Token) (last pos : Nat) :
    Except Status α × Nat → StatusOr (α × List Token) → Prop
  | ok {pos' : Nat} (a : α) (forward : pos ≤ pos') (within : pos' ≤ last) :
      Outcome tokens last pos (.ok a, pos') (.ok (a, tokens.drop pos'))
  | error {pos' : Nat} {status : Status} (forward : pos ≤ pos') (within : pos' ≤ last)
      (known : status ≠ readPastEnd) : Outcome tokens last pos (.error status, pos') (.error status)

def Reads {α : Type} (tokens : List Token) (last : Nat) (call : Cursor α)
    (f : List Token → StatusOr (α × List Token)) : Prop :=
  ∀ pos ≤ last, Outcome tokens last pos (call.eval pos) (f (tokens.drop pos))

variable (parts : List Bytes)

theorem invalidArgument_known : invalidArgument parts ≠ readPastEnd := by
  rintro ⟨⟩

variable {type : TokenType}

section Rules

variable {α β : Type} {tokens : List Token} {last pos : Nat}

theorem Outcome.forward {run : Except Status α × Nat} {result : StatusOr (α × List Token)}
    {start : Nat} (outcome : Outcome tokens last pos run result) (before : start ≤ pos) :
    Outcome tokens last start run result := by
  cases outcome with
  | ok a forward within => exact .ok a (before.trans forward) within
  | error forward within known => exact .error (before.trans forward) within known

/-- The token under a cursor that has not passed the last one. -/
theorem EndsAt.token (ends : EndsAt tokens last) (within : pos ≤ last) :
    ∃ t, tokens[pos]? = some t ∧ tokens.drop pos = t :: tokens.drop (pos + 1) := by
  obtain ⟨final, found, _⟩ := ends.here
  obtain ⟨below, _⟩ := List.getElem?_eq_some_iff.1 found
  have inside : pos < tokens.length := by omega
  exact ⟨tokens[pos], getElem?_eq_getElem inside, drop_eq_getElem_cons inside⟩

variable {t : Token}

/-- A token that is not the end token has one behind it. -/
theorem EndsAt.next (ends : EndsAt tokens last) (within : pos ≤ last)
    (found : tokens[pos]? = some t) (other : t.type ≠ .end_) : pos + 1 ≤ last := by
  obtain ⟨final, here, type⟩ := ends.here
  rcases Nat.lt_or_eq_of_le within with below | rfl
  · exact below
  · rw [found] at here
    cases here
    exact absurd type other

section

variable (found : tokens[pos]? = some t)
include found

theorem eval_peek : (peek tokens).eval pos = (.ok t, pos) := by
  rw [peek, eval_bind_ok (eval_current pos), found]
  rfl

theorem eval_check (type : TokenType) :
    (check tokens type).eval pos = (.ok (decide (t.type = type)), pos) := by
  rw [check, eval_bind_ok (eval_peek found)]
  rfl

theorem eval_advance : (advance tokens).eval pos = (.ok t, pos + 1) := by
  rw [advance, eval_bind_ok (eval_peek found)]
  rfl

theorem eval_fail (status : Token → Status) :
    (fail tokens status : Cursor α).eval pos = (.error (status t), pos) := by
  rw [fail, eval_bind_ok (eval_peek found)]
  rfl

theorem eval_accept (type : TokenType) : (accept tokens type).eval pos =
      if t.type = type then (.ok true, pos + 1) else (.ok false, pos) := by
  rw [accept, eval_bind_ok (eval_check found type)]
  by_cases here : t.type = type
  · simp only [here]
    rfl
  · simp only [here]
    rfl

/-- A token of one type or a message. -/
theorem eval_require (type : TokenType) (status : Token → Status) :
    eval (check tokens type >>= fun here =>
      if here = true then change (· + 1) else fail tokens status) pos =
      if t.type = type then (.ok (), pos + 1) else (.error (status t), pos) := by
  rw [eval_bind_ok (eval_check found type)]
  by_cases here : t.type = type
  · simp only [here]
    rfl
  · simp only [here]
    exact eval_fail found status

end

theorem Reads.pure (a : α) : Reads tokens last (Pure.pure a) fun ts => .ok (a, ts) :=
  fun _ within => .ok a le_rfl within

theorem Reads.fail : Reads tokens last (lift (.error (invalidArgument parts)) : Cursor α)
      fun _ => .error (invalidArgument parts) :=
  fun _ within => .error le_rfl within (invalidArgument_known parts)

theorem Outcome.bind {call : Cursor α} {f : List Token → StatusOr (α × List Token)}
    (first : Outcome tokens last pos (call.eval pos) (f (tokens.drop pos))) {next : α → Cursor β}
    {h : α × List Token → StatusOr (β × List Token)}
    (later : ∀ a pos', pos ≤ pos' → pos' ≤ last →
      Outcome tokens last pos' ((next a).eval pos') (h (a, tokens.drop pos'))) :
    Outcome tokens last pos (eval (call >>= next) pos) (f (tokens.drop pos) >>= h) := by
  generalize ran : call.eval pos = run at first
  generalize f (tokens.drop pos) = result at first ⊢
  cases first with
  | @ok pos' a forward within =>
    rw [eval_bind_ok ran]
    exact (later a pos' forward within).forward forward
  | error forward within known =>
    rw [eval_bind_error ran]
    exact .error forward within known

/-- Both sides of a `Match`. -/
theorem Outcome.branch (ends : EndsAt tokens last) {type : TokenType} (other : type ≠ .end_)
    (within : pos ≤ last) {yes no : Cursor α} {f g : List Token → StatusOr (α × List Token)}
    (taken : pos + 1 ≤ last →
      Outcome tokens last (pos + 1) (yes.eval (pos + 1)) (f (tokens.drop (pos + 1))))
    (skipped : Outcome tokens last pos (no.eval pos) (g (tokens.drop pos))) :
    Outcome tokens last pos
      (eval (accept tokens type >>= fun found => if found = true then yes else no) pos)
      (match Sql.accept type (tokens.drop pos) with
        | some ts => f ts
        | none => g (tokens.drop pos)) := by
  obtain ⟨t, found, dropped⟩ := ends.token within
  have step := eval_accept found type
  by_cases here : t.type = type
  · have read : Sql.accept type (tokens.drop pos) = some (tokens.drop (pos + 1)) := by
      rw [dropped, accept_of_type here]
    rw [if_pos here] at step
    rw [eval_bind_ok step, read]
    exact (taken (ends.next within found (here ▸ other))).forward (Nat.le_succ pos)
  · have read : Sql.accept type (tokens.drop pos) = none := by
      rw [dropped, accept_of_ne here]
    rw [if_neg here] at step
    rw [eval_bind_ok step, read]
    exact skipped

theorem Reads.bind {call : Cursor α} {f : List Token → StatusOr (α × List Token)}
    (first : Reads tokens last call f) {next : α → Cursor β}
    {h : α × List Token → StatusOr (β × List Token)}
    (later : ∀ a, Reads tokens last (next a) fun ts => h (a, ts)) :
    Reads tokens last (call >>= next) fun ts => f ts >>= h :=
  fun pos within => (first pos within).bind fun a pos' _ within' => later a pos' within'

section

variable (ends : EndsAt tokens last)
include ends

theorem Reads.branch {type : TokenType} (other : type ≠ .end_) {yes no : Cursor α}
    {f g : List Token → StatusOr (α × List Token)} (taken : Reads tokens last yes f)
    (skipped : Reads tokens last no g) :
    Reads tokens last (accept tokens type >>= fun found => if found = true then yes else no)
      fun ts => match Sql.accept type ts with
        | some ts => f ts
        | none => g ts :=
  fun pos within => .branch ends other within (taken (pos + 1)) (skipped pos within)

/-- `Match` by itself. -/
theorem accept_moves (other : type ≠ .end_) (within : pos ≤ last) :
    ∃ pos', pos ≤ pos' ∧ pos' ≤ last ∧
      (accept tokens type).eval pos = (.ok (Sql.accept type (tokens.drop pos)).isSome, pos') ∧
      (Sql.accept type (tokens.drop pos)).getD (tokens.drop pos) = tokens.drop pos' := by
  obtain ⟨t, found, dropped⟩ := ends.token within
  rw [eval_accept found]
  by_cases here : t.type = type
  · refine ⟨pos + 1, Nat.le_succ pos, ends.next within found (here ▸ other), ?_, ?_⟩
    · rw [if_pos here, dropped, accept_of_type here]
      rfl
    · rw [dropped, accept_of_type here]
      rfl
  · refine ⟨pos, le_rfl, within, ?_, ?_⟩
    · rw [if_neg here, dropped, accept_of_ne here]
      rfl
    · rw [dropped, accept_of_ne here]
      rfl

theorem Reads.require (other : type ≠ .end_) {status : Token → Status}
    (known : ∀ t, status t ≠ readPastEnd) {next : Cursor α}
    {f : List Token → StatusOr (α × List Token)} {required : List Token → StatusOr (List Token)}
    (same : ∀ t ts, required (t :: ts) = if t.type = type then .ok ts else .error (status t))
    (later : Reads tokens last next f) : Reads tokens last
      ((check tokens type >>= fun here =>
        if here = true then change (· + 1) else Cursor.fail tokens status) >>= fun _ => next)
      fun ts => required ts >>= f := by
  intro pos within
  obtain ⟨t, found, dropped⟩ := ends.token within
  have step := eval_require found type status
  dsimp only
  rw [dropped, same]
  by_cases here : t.type = type
  · rw [if_pos here] at step
    rw [eval_bind_ok step, if_pos here]
    exact (later (pos + 1) (ends.next within found (here ▸ other))).forward (Nat.le_succ pos)
  · rw [if_neg here] at step
    rw [eval_bind_error step, if_neg here]
    exact .error le_rfl within (known t)

theorem Reads.expect (other : type ≠ .end_) {next : Cursor α}
    {f : List Token → StatusOr (α × List Token)} (later : Reads tokens last next f) :
    Reads tokens last (expect tokens type >>= fun _ => next) fun ts => Sql.expect type ts >>= f :=
  .require ends other (fun _ => invalidArgument_known _) (fun _ _ => rfl) later

end

/-- The fuel of a loop is the number of tokens left. -/
theorem Reads.withFuel {loop : Nat → Cursor α} {f : Nat → List Token → StatusOr (α × List Token)}
    (loops : ∀ pos ≤ last, Outcome tokens last pos ((loop (tokens.length - pos)).eval pos)
      (f (tokens.length - pos) (tokens.drop pos))) :
    Reads tokens last (withFuel tokens loop) fun ts => f ts.length ts := by
  intro pos within
  dsimp only
  rw [length_drop]
  exact loops pos within

end Rules

/-! ## The functions read as their namesakes do -/

section Functions

variable {tokens : List Token} {last : Nat} (ends : EndsAt tokens last)

include ends

theorem parseIdentifier_reads (what : Bytes) :
    Reads tokens last (parseIdentifier tokens what) (Sql.parseIdentifier what) := by
  intro pos within
  obtain ⟨t, found, dropped⟩ := ends.token within
  rw [parseIdentifier, eval_bind_ok (eval_check found _), dropped, Sql.parseIdentifier]
  by_cases here : t.type = .identifier
  · simp only [here, decide_true, if_true]
    rw [eval_bind_ok (eval_advance found)]
    exact .ok t.text (Nat.le_succ pos) (ends.next within found (by simp [here]))
  · simp only [here, decide_false, Bool.false_eq_true, if_false]
    rw [eval_fail found]
    exact .error le_rfl within (invalidArgument_known _)

theorem parseCount_reads (what : Bytes) :
    Reads tokens last (parseCount tokens what) (Sql.parseCount what) := by
  intro pos within
  obtain ⟨t, found, dropped⟩ := ends.token within
  rw [parseCount, eval_bind_ok (eval_check found _), dropped, Sql.parseCount]
  by_cases here : t.type = .numberLiteral
  · have next := ends.next within found (by simp [here])
    simp only [here, decide_true, if_true]
    rw [eval_bind_ok (eval_advance found)]
    cases simpleAtou64 t.text with
    | some n => exact .ok n (Nat.le_succ pos) next
    | none => exact .error (Nat.le_succ pos) next (invalidArgument_known _)
  · simp only [here, decide_false, Bool.false_eq_true, if_false]
    rw [eval_fail found]
    exact .error le_rfl within (invalidArgument_known _)

theorem parseParameter_reads : Reads tokens last (parseParameter tokens) Sql.parseParameter := by
  intro pos within
  obtain ⟨t, found, dropped⟩ := ends.token within
  have checked := fun type => eval_check found type
  rw [parseParameter, eval_bind_ok (checked _), dropped, Sql.parseParameter]
  by_cases string : t.type = .stringLiteral
  · simp only [string, decide_true, if_true, literalValue]
    rw [eval_bind_ok (eval_advance found)]
    exact .ok _ (Nat.le_succ pos) (ends.next within found (by simp [string]))
  simp only [string, decide_false, Bool.false_eq_true, if_false]
  rw [eval_bind_ok (checked _)]
  by_cases number : t.type = .numberLiteral
  · have next := ends.next within found (by simp [number])
    simp only [number, decide_true, if_true, literalValue]
    rw [eval_bind_ok (eval_advance found)]
    cases simpleAtoi64 t.text with
    | some i => exact .ok _ (Nat.le_succ pos) next
    | none => exact .error (Nat.le_succ pos) next (invalidArgument_known _)
  simp only [number, decide_false, Bool.false_eq_true, if_false]
  rw [eval_bind_ok (checked _)]
  by_cases bound : t.type = .parameter
  · simp only [bound, decide_true, if_true]
    rw [eval_bind_ok (eval_advance found)]
    exact .ok _ (Nat.le_succ pos) (ends.next within found (by simp [bound]))
  · simp only [bound, decide_false, Bool.false_eq_true, if_false]
    rw [eval_fail found]
    exact .error le_rfl within (invalidArgument_known _)

/-- The list ends before its fuel does: every further item has used up a comma. -/
theorem commaList_reads {α : Type} {item : Cursor α} {f : List Token → StatusOr (α × List Token)}
    (reads : Reads tokens last item f) (fuel : Nat) : ∀ pos ≤ last, tokens.length - pos ≤ fuel →
      Outcome tokens last pos ((commaList tokens item fuel).eval pos)
        (Sql.commaList f fuel (tokens.drop pos)) := by
  induction fuel with
  | zero =>
    intro pos within enough
    obtain ⟨t, found, _⟩ := ends.token within
    obtain ⟨below, _⟩ := List.getElem?_eq_some_iff.1 found
    omega
  | succ fuel ih =>
    intro pos within enough
    refine (reads pos within).bind fun first pos₁ forward within₁ => ?_
    refine .branch ends (by simp) within₁ (g := fun ts => .ok ([first], ts)) (fun within₂ => ?_)
      (.ok [first] le_rfl within₁)
    exact (ih (pos₁ + 1) within₂ (by omega)).bind fun others pos₂ _ within₃ =>
      .ok (first :: others) le_rfl within₃

theorem list_reads {α : Type} {item : Cursor α} {f : List Token → StatusOr (α × List Token)}
    (reads : Reads tokens last item f) :
    Reads tokens last (withFuel tokens (commaList tokens item)) fun ts =>
      Sql.commaList f ts.length ts :=
  .withFuel fun pos within => commaList_reads ends reads _ pos within le_rfl

theorem parseColumn_reads : Reads tokens last (parseColumn tokens) Sql.parseColumn :=
  .bind (parseIdentifier_reads ends _) fun _ => .branch ends (by simp)
    (.bind (parseIdentifier_reads ends _) fun _ => .pure _) (.pure _)

theorem parseOrderItem_reads : Reads tokens last (parseOrderItem tokens) Sql.parseOrderItem := by
  refine .bind (parseIdentifier_reads ends _) fun column =>
    .branch ends (by simp) (.pure _) fun pos within => ?_
  -- ASC is consumed if it is there
  obtain ⟨pos', forward, within', ran, rest⟩ :=
    accept_moves ends (show TokenType.asc ≠ .end_ by simp) within
  rw [eval_bind_ok ran, rest]
  exact .ok _ forward within'

theorem parseIn_reads (column : Bytes) :
    Reads tokens last (parseIn tokens column) (Sql.parseIn column) :=
  .expect ends (by simp) (.bind (list_reads ends (parseParameter_reads ends)) fun _ =>
    .expect ends (by simp) (.pure _))

theorem parseLike_reads (column : Bytes) :
    Reads tokens last (parseLike tokens column) (Sql.parseLike column) :=
  .bind (parseParameter_reads ends) fun _ => .pure _

theorem parseBetween_reads (column : Bytes) :
    Reads tokens last (parseBetween tokens column) (Sql.parseBetween column) :=
  .bind (parseParameter_reads ends) fun _ =>
    .require ends (by simp) (fun _ => invalidArgument_known _) (fun _ _ => rfl)
      (.bind (parseParameter_reads ends) fun _ => .pure _)

theorem parseOperator_reads (column : Bytes) :
    Reads tokens last (parseOperator tokens column operators) (Sql.parseOperator column) := by
  intro pos within
  obtain ⟨t, found, dropped⟩ := ends.token within
  -- trying one operator after another is looking the type up among them
  have tried : ∀ ops : List (TokenType × CompareOp), (∀ op ∈ ops, op.1 ≠ .end_) →
      Outcome tokens last pos ((parseOperator tokens column ops).eval pos)
        ((ops.lookup t.type).elim (.error (expectedBut
          (bytes "a comparison operator after column '" ++ column ++ bytes "'") t)) fun op =>
            Sql.parseParameter (tokens.drop (pos + 1)) >>= fun read =>
              .ok (.comparison column op read.1, read.2)) := by
    intro ops others
    induction ops with
    | nil =>
      rw [parseOperator, eval_fail found]
      exact .error le_rfl within (invalidArgument_known _)
    | cons op ops ih =>
      obtain ⟨type, op⟩ := op
      have step := eval_accept found type
      by_cases here : t.type = type
      · rw [if_pos here] at step
        have next := ends.next within found (here ▸ others _ mem_cons_self)
        rw [parseOperator, eval_bind_ok step, lookup_cons, here, beq_self_eq_true]
        refine Outcome.forward (Outcome.bind (parseParameter_reads ends (pos + 1) next)
          fun param _ _ within' => ?_) (Nat.le_succ pos)
        exact .ok _ le_rfl within'
      · rw [if_neg here] at step
        rw [parseOperator, eval_bind_ok step, lookup_cons, beq_false_of_ne here]
        exact ih fun other member => others other (mem_cons_of_mem _ member)
  have whole := tried operators (by simp [operators])
  have same : operators.lookup t.type = compareOpOf t.type := by
    cases t.type <;> rfl
  rw [dropped, Sql.parseOperator]
  rw [same] at whole
  generalize compareOpOf t.type = found at whole ⊢
  cases found with
  | none => exact whole
  | some op => exact whole

theorem parseComparison_reads : Reads tokens last (parseComparison tokens) Sql.parseComparison :=
  .bind (parseIdentifier_reads ends _) fun column =>
    .branch ends (by simp) (parseIn_reads ends column) (.branch ends (by simp)
      (parseLike_reads ends column) (.branch ends (by simp) (parseBetween_reads ends column)
        (parseOperator_reads ends column)))

section Chain

variable {separator : TokenType} (other : separator ≠ .end_) {term : Cursor (Predicate Parameter)}
  {f : List Token → StatusOr (Predicate Parameter × List Token)} (reads : Reads tokens last term f)
  (join : Predicate Parameter → Predicate Parameter → Predicate Parameter)

include other reads

theorem chainLoop_reads (fuel : Nat) : ∀ node,
    Reads tokens last (chainLoop tokens separator term join node fuel)
      (Sql.chainLoop separator f join fuel node) := by
  induction fuel with
  | zero => exact fun node => .pure node
  | succ fuel ih =>
    intro node
    exact .branch ends other (.bind reads fun right => ih (join node right)) (.pure node)

theorem parseChain_reads :
    Reads tokens last (parseChain tokens separator term join) (Sql.parseChain separator f join) :=
  .bind reads fun left =>
    .withFuel (f := fun fuel => Sql.chainLoop separator f join fuel left) fun pos within =>
      chainLoop_reads ends other reads join (tokens.length - pos) left pos within

end Chain

theorem parsePredicate_reads : Reads tokens last (parsePredicate tokens) Sql.parsePredicate :=
  parseChain_reads ends (by simp)
    (parseChain_reads ends (by simp) (parseComparison_reads ends) .and) .or

theorem parseProjection_reads (distinct : Bool) :
    Reads tokens last (parseProjection tokens distinct) (Sql.parseProjection distinct) := by
  refine .branch ends (by simp) ?_ (.branch ends (by simp) (.pure _)
    (.bind (list_reads ends (parseColumn_reads ends)) fun _ => .pure _))
  cases distinct with
  | true => exact .fail _
  | false =>
    exact .expect ends (by simp) (.expect ends (by simp) (.expect ends (by simp) (.pure _)))

theorem parseWhere_reads : Reads tokens last (parseWhere tokens) Sql.parseWhere :=
  .branch ends (by simp) (.bind (parsePredicate_reads ends) fun _ => .pure _) (.pure _)

theorem parseOrder_reads : Reads tokens last (parseOrder tokens) Sql.parseOrder :=
  .branch ends (by simp) (.expect ends (by simp) (list_reads ends (parseOrderItem_reads ends)))
    (.pure _)

theorem parseLimit_reads : Reads tokens last (parseLimit tokens) Sql.parseLimit := by
  refine .branch ends (by simp) (.bind (parseCount_reads ends _) fun n => ?_) (.pure _)
  by_cases zero : n = 0
  · simp only [zero]
    exact .fail _
  · simp only [zero]
    exact .pure _

theorem parseOffset_reads : Reads tokens last (parseOffset tokens) Sql.parseOffset :=
  .branch ends (by simp) (.bind (parseCount_reads ends _) fun _ => .pure _) (.pure _)

end Functions

/-! ## A whole statement -/

/-- The run of a statement and its result: a failure leaves the cursor at or before the end token,
and only success consumes it. -/
inductive Finish {α : Type} (last : Nat) : Except Status α × Nat → StatusOr α → Prop
  | ok (a : α) : Finish last (.ok a, last + 1) (.ok a)
  | error {pos' : Nat} {status : Status} (within : pos' ≤ last) (known : status ≠ readPastEnd) :
      Finish last (.error status, pos') (.error status)

def Finishes {α : Type} (tokens : List Token) (last : Nat) (call : Cursor α)
    (f : List Token → StatusOr α) : Prop :=
  ∀ pos ≤ last, Finish last (call.eval pos) (f (tokens.drop pos))

section Finish

variable {α β : Type} {tokens : List Token} {last : Nat}

theorem Finishes.bind {call : Cursor α} {f : List Token → StatusOr (α × List Token)}
    (first : Reads tokens last call f) {next : α → Cursor β} {h : α × List Token → StatusOr β}
    (later : ∀ a, Finishes tokens last (next a) fun ts => h (a, ts)) :
    Finishes tokens last (call >>= next) fun ts => f ts >>= h := by
  intro pos within
  have outcome := first pos within
  dsimp only
  generalize ran : call.eval pos = run at outcome
  generalize f (tokens.drop pos) = result at outcome ⊢
  cases outcome with
  | @ok pos' a forward within' =>
    rw [eval_bind_ok ran]
    exact later a pos' within'
  | error forward within' known =>
    rw [eval_bind_error ran]
    exact .error within' known

theorem Finishes.expect (ends : EndsAt tokens last) (other : type ≠ .end_) {next : Cursor α}
    {f : List Token → StatusOr α} (later : Finishes tokens last next f) :
    Finishes tokens last (expect tokens type >>= fun _ => next) fun ts => Sql.expect type ts >>= f := by
  intro pos within
  obtain ⟨t, found, dropped⟩ := ends.token within
  have step : (Cursor.expect tokens type).eval pos = _ := eval_require found type _
  dsimp only
  rw [dropped, Sql.expect]
  by_cases here : t.type = type
  · rw [if_pos here] at step
    rw [eval_bind_ok step, if_pos here]
    exact later (pos + 1) (ends.next within found (here ▸ other))
  · rw [if_neg here] at step
    rw [eval_bind_error step, if_neg here]
    exact .error within (invalidArgument_known _)

theorem Finishes.end_ (ends : EndsAt tokens last) (a : α) :
    Finishes tokens last (parseEnd tokens >>= fun _ => pure a) fun ts =>
      Sql.parseEnd ts >>= fun _ => .ok a := by
  intro pos within
  obtain ⟨t, found, dropped⟩ := ends.token within
  have step : (parseEnd tokens).eval pos = _ := eval_require found .end_ _
  dsimp only
  rw [dropped, Sql.parseEnd]
  by_cases here : t.type = .end_
  · rw [if_pos here] at step
    obtain rfl := ends.only found here
    rw [eval_bind_ok step, if_pos here]
    exact .ok a
  · rw [if_neg here] at step
    rw [eval_bind_error step, if_neg here]
    exact .error within (invalidArgument_known _)

end Finish

/-- The statement's run comes to the result of the parser on lists. -/
theorem parseStatement_finishes {tokens : List Token} {last : Nat} (ends : EndsAt tokens last) :
    Finishes tokens last (parseStatement tokens) Sql.parseStatement := by
  refine .expect ends (by simp) fun pos within => ?_
  obtain ⟨pos', _, within', ran, rest⟩ :=
    accept_moves ends (show TokenType.distinct ≠ .end_ by simp) within
  rw [eval_bind_ok ran]
  rw [rest]
  refine Finishes.bind (parseProjection_reads ends _) (fun projection => ?_) pos' within'
  refine .expect ends (show TokenType.from_ ≠ .end_ by simp) ?_
  refine .bind (parseIdentifier_reads ends _) fun table => ?_
  refine .bind (parseWhere_reads ends) fun where_ => ?_
  refine .bind (parseOrder_reads ends) fun orderBy => ?_
  refine .bind (parseLimit_reads ends) fun limit => ?_
  refine .bind (parseOffset_reads ends) fun offset => ?_
  exact .end_ ends _

end Cursor

theorem Ended.endsAt {body : List Token} {last : Token} (ended : Ended body last) :
    Cursor.EndsAt (body ++ [last]) body.length where
  here := ⟨last, getElem?_concat_length, ended.closed⟩
  only := by
    intro pos t found type
    rcases Nat.lt_trichotomy pos body.length with below | same | above
    · rw [getElem?_append_left below] at found
      exact absurd type (ended.open_ t (mem_of_getElem? found))
    · exact same
    · rw [getElem?_eq_none (by rw [length_append, length_singleton]; omega)] at found
      cases found

/-- **The parser reads the documented grammar.**  It accepts exactly the sentences and returns
their only meaning; a statement that is not accepted leaves the cursor at or before the end token,
an accepted one has consumed it as its last step, and nothing is read behind it. -/
theorem parser_reads_grammar {body : List Token} {last : Token} (ended : Ended body last) :
    ∃ result pos, (Cursor.parseStatement (body ++ [last])).eval 0 = (result, pos) ∧
      (∀ stmt, result = .ok stmt ↔ Sentence (body ++ [last]) stmt) ∧
      (∀ stmt stmt', Sentence (body ++ [last]) stmt → Sentence (body ++ [last]) stmt' → stmt = stmt') ∧
      result ≠ .error readPastEnd ∧
      ((∃ stmt, result = .ok stmt) ∧ pos = body.length + 1 ∨
        (∃ status, result = .error status) ∧ pos ≤ body.length) := by
  have finish := Cursor.parseStatement_finishes ended.endsAt 0 (Nat.zero_le _)
  have accepts : ∀ stmt, parseStatement (body ++ [last]) = .ok stmt ↔ Sentence (body ++ [last]) stmt :=
    fun _ => parseStatement_iff ended
  rw [drop_zero] at finish
  generalize (Cursor.parseStatement (body ++ [last])).eval 0 = run at finish
  generalize parseStatement (body ++ [last]) = result at finish accepts
  cases finish with
  | ok stmt =>
    exact ⟨_, _, rfl, accepts, fun _ _ => Sentence.unique, by simp, .inl ⟨⟨stmt, rfl⟩, rfl⟩⟩
  | error within known =>
    exact ⟨_, _, rfl, accepts, fun _ _ => Sentence.unique, by simpa using known,
      .inr ⟨⟨_, rfl⟩, within⟩⟩

/-- The tokens of `SELECT a FROM t WHERE k BETWEEN 1 AND 5 AND a = 'x'` before the end token. -/
def plainTokens : List Token :=
  [⟨.select, [], 0⟩, ⟨.identifier, bytes "a", 7⟩, ⟨.from_, [], 9⟩, ⟨.identifier, bytes "t", 14⟩,
    ⟨.where_, [], 16⟩, ⟨.identifier, bytes "k", 22⟩, ⟨.between, [], 24⟩, ⟨.numberLiteral, bytes "1", 32⟩,
    ⟨.and_, [], 34⟩, ⟨.numberLiteral, bytes "5", 38⟩, ⟨.and_, [], 40⟩, ⟨.identifier, bytes "a", 44⟩,
    ⟨.eq, [], 46⟩, ⟨.stringLiteral, bytes "x", 48⟩]

theorem plainTokens_tokenized :
    tokenize (bytes "SELECT a FROM t WHERE k BETWEEN 1 AND 5 AND a = 'x'") =
      .ok (plainTokens ++ [⟨.end_, [], 51⟩]) := by
  decide +kernel

def plainStatement : SelectStatement where
  projection := [bytes "a"]
  projectionAliases := [bytes "a"]
  table := bytes "t"
  where_ := some (.and (.between (bytes "k") (.literal (.int 1)) (.literal (.int 5)))
    (.comparison (bytes "a") .eq (.literal (.text (bytes "x")))))

theorem plain_sentence : Ended plainTokens ⟨.end_, [], 51⟩ ∧
    Sentence (plainTokens ++ [⟨.end_, [], 51⟩]) plainStatement := by
  have ended : Ended plainTokens ⟨.end_, [], 51⟩ := ⟨by decide, rfl⟩
  have run : (Cursor.parseStatement (plainTokens ++ [⟨.end_, [], 51⟩])).eval 0 =
      (.ok plainStatement, 15) := rfl
  obtain ⟨result, pos, run', accepts, _⟩ := parser_reads_grammar ended
  rw [run] at run'
  cases run'
  exact ⟨ended, (accepts plainStatement).1 rfl⟩

/-- The end token stands at position 14, and the cursor behind it. -/
theorem end_token_consumed : Ended plainTokens ⟨.end_, [], 51⟩ ∧ plainTokens.length = 14 ∧
    (Cursor.parseStatement (plainTokens ++ [⟨.end_, [], 51⟩])).eval 0 = (.ok plainStatement, 15) :=
  ⟨⟨by decide, rfl⟩, rfl, rfl⟩

end OpaqueDb.Sql
