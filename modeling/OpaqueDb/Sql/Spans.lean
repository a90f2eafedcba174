/-
# Sql.Spans -- the scanner by index, and where its tokens stand

`Tokenize` walks an index over the text.  Here it is written that way: `turn` is one iteration of
its loop, every `sql[i]` may miss the text, and the scan keeps for each token the index it goes on
from.  `scan_spec` compares it with the scan over what is left of the text: no read misses, and the
tokens are the same.

`Tiled` is the invariant of the loop: from an index on there are whitespace, a token's own text, and
what follows from the index behind it.
-/
import OpaqueDb.Core.Buffers
import OpaqueDb.Sql.Template

namespace OpaqueDb.Sql

open OpaqueDb.Core List OpaqueDb.Core.Reading

set_option autoImplicit false

/-! ## The scanner -/

/-- `sql[i]`. -/
def charAt (sql : Bytes) (i : Nat) : Reading UInt8 :=
  lift sql[i]?

/-- `substr`, which throws for a start behind the text and clamps the count. -/
def substr (sql : Bytes) (start count : Nat) : Reading Bytes :=
  lift (if start > sql.length then none else some ((sql.drop start).take count))

/-- `while (j < n && p(sql[j])) ++j`; the first argument bounds the turns. -/
def scanWhile (p : UInt8 → Bool) (sql : Bytes) : Nat → Nat → Reading Nat
  | 0, j => if j < sql.length then lift none else return j
  | fuel + 1, j =>
    if j < sql.length then do
      let c ← charAt sql j
      if p c then scanWhile p sql fuel (j + 1) else return j
    else return j

/-- The body of a string, from `j` on; its length is checked before each step. -/
def scanString (quote : UInt8) (sql : Bytes) (i : Nat) : Nat → Nat → Reading Nat
  | 0, j => if j < sql.length then lift none else return j
  | fuel + 1, j =>
    if j < sql.length then do
      let c ← charAt sql j
      if c ≠ quote then
        if j - i > kMaxIdentifierLength then
          fail (invalidArgument ["string literal is too long"])
        else scanString quote sql i fuel (j + 1)
      else return j
    else return j

/-- What a turn pushes, and the index it ends with. -/
abbrev Turn := Option (TokenType × Bytes) × Nat

def wordAt (sql : Bytes) (i : Nat) : Reading Turn := do
  let j ← scanWhile isIdentifierChar sql sql.length (i + 1)
  let word ← substr sql i (j - i)
  if word.length > kMaxIdentifierLength then
    fail (invalidArgument ["identifier is too long"])
  else
    let type := keywordOrIdentifier word
    return (some (type, if type = .identifier then word else []), j)

def parameterAt (sql : Bytes) (i : Nat) : Reading Turn :=
  let missing := invalidArgument ["expected a parameter name after ':' at offset ", dec i]
  if i + 1 ≥ sql.length then fail missing
  else do
    let d ← charAt sql (i + 1)
    if !isIdentifierStart d then fail missing
    else do
      let j ← scanWhile isIdentifierChar sql sql.length (i + 2)
      let name ← substr sql (i + 1) (j - (i + 1))
      if name.length > kMaxIdentifierLength then
        fail (invalidArgument ["parameter name is too long"])
      else return (some (.parameter, name), j)

def stringAt (sql : Bytes) (quote : UInt8) (i : Nat) : Reading Turn := do
  let j ← scanString quote sql i sql.length (i + 1)
  if j ≥ sql.length then
    fail (invalidArgument ["unterminated string literal at offset ", dec i])
  else do
    let text ← substr sql (i + 1) (j - (i + 1))
    return (some (.stringLiteral, text), j + 1)

def numberAt (sql : Bytes) (i : Nat) : Reading Turn := do
  let j ← scanWhile isDigit sql sql.length (i + 1)
  let text ← substr sql i (j - i)
  return (some (.numberLiteral, text), j)

/-- `two(a, b)`: the bytes at `i` are `a` and `b`. -/
def twoAt (sql : Bytes) (i : Nat) (a b : UInt8) : Reading Bool :=
  if i + 1 < sql.length then do
    let c ← charAt sql i
    if c = a then do
      let d ← charAt sql (i + 1)
      return d = b
    else return false
  else return false

def operatorAt (sql : Bytes) (c : UInt8) (i : Nat) : Reading Turn := do
  if ← twoAt sql i 60 61 then return (some (.le, []), i + 2)
  else if ← twoAt sql i 62 61 then return (some (.ge, []), i + 2)
  else if ← twoAt sql i 60 62 then return (some (.ne, []), i + 2)
  else if ← twoAt sql i 33 61 then return (some (.ne, []), i + 2)
  else
    match oneCharOperator c with
    | some type => return (some (type, []), i + 1)
    | none => fail (unexpectedCharacter c i)

/-- One iteration of the loop. -/
def turn (sql : Bytes) (i : Nat) : Reading Turn := do
  let c ← charAt sql i
  if isSpace c then return (none, i + 1)
  else if isIdentifierStart c then wordAt sql i
  else if c = colon then parameterAt sql i
  else if c = singleQuote ∨ c = doubleQuote then stringAt sql c i
  else if isDigit c then numberAt sql i
  else operatorAt sql c i

/-- A token and the index the scan goes on from. -/
structure Span where
  token : Token
  stop : Nat
  deriving DecidableEq, Repr

def endSpan (sql : Bytes) : Span :=
  ⟨⟨.end_, [], sql.length⟩, sql.length⟩

def finish (sql : Bytes) (count : Nat) : Reading (List Span) := do
  of (push count)
  return [endSpan sql]

def scanLoop (sql : Bytes) : Nat → Nat → Nat → Reading (List Span)
  | 0, i, count => if i < sql.length then lift none else finish sql count
  | fuel + 1, i, count =>
    if i < sql.length then do
      let (pushed, next) ← turn sql i
      match pushed with
      | none => scanLoop sql fuel next count
      | some (type, text) => do
        of (push count)
        let spans ← scanLoop sql fuel next (count + 1)
        return ⟨⟨type, text, i⟩, next⟩ :: spans
    else finish sql count

def scan (sql : Bytes) : Reading (List Span) :=
  if sql.length > kMaxSqlLength then
    fail (invalidArgument ["SQL is ", dec sql.length, " bytes, over the ",
      dec kMaxSqlLength, " limit"])
  else scanLoop sql sql.length 0 0

/-! ## What a turn does -/

section Turn

variable {sql : Bytes} {i : Nat} {c : UInt8} {rest : Bytes}

section

variable (at_ : sql.drop i = c :: rest)
include at_

theorem lt_of_drop : i < sql.length := by
  by_contra past
  rw [drop_eq_nil_of_le (not_lt.1 past)] at at_
  cases at_

theorem charAt_eq : charAt sql i = of (.ok c) := by
  have here : sql[i]? = some c := by
    rw [← head?_drop, at_]
    rfl
  rw [charAt, here]
  rfl

theorem drop_next : sql.drop (i + 1) = rest := by
  rw [← drop_drop, at_]
  rfl

end

theorem substr_eq {start count : Nat} (inside : start ≤ sql.length) :
    substr sql start count = of (.ok ((sql.drop start).take count)) := by
  rw [substr, if_neg (not_lt.2 inside)]
  rfl

theorem scanWhile_eq (p : UInt8 → Bool) {fuel j : Nat} (enough : sql.length ≤ fuel + j) :
    scanWhile p sql fuel j = of (.ok (j + ((sql.drop j).takeWhile p).length)) := by
  induction fuel generalizing j with
  | zero =>
    rw [scanWhile, if_neg (by omega), drop_eq_nil_of_le (by omega)]
    rfl
  | succ fuel ih =>
    rw [scanWhile]
    by_cases inside : j < sql.length
    · have at_ := drop_eq_getElem_cons inside
      rw [if_pos inside, charAt_eq at_, of_ok_bind, at_, takeWhile_cons]
      by_cases taken : p sql[j] = true
      · rw [if_pos taken, if_pos taken, ih (by omega), length_cons]
        congr 2
        omega
      · rw [if_neg taken, if_neg taken]
        rfl
    · rw [if_neg inside, drop_eq_nil_of_le (not_lt.1 inside)]
      rfl

/-- The text of a run: a byte and those behind it that pass a test. -/
theorem substr_run (p : UInt8 → Bool) (at_ : sql.drop i = c :: rest) :
    substr sql i (i + 1 + (rest.takeWhile p).length - i) = of (.ok (c :: rest.takeWhile p)) := by
  have front : rest.takeWhile p <+: rest := takeWhile_prefix p
  have run := (prefix_iff_eq_take.1 front).symm
  rw [substr_eq (lt_of_drop at_).le, at_, show i + 1 + (rest.takeWhile p).length - i =
    (rest.takeWhile p).length + 1 by omega, take_succ_cons, run]

/-- The body of a string is checked on the way: at `j` no more than the bound is behind. -/
theorem scanString_eq (quote : UInt8) {fuel j : Nat} (enough : sql.length ≤ fuel + j)
    (near : j ≤ i + kMaxIdentifierLength + 1) :
    scanString quote sql i fuel j = of
      (if i + kMaxIdentifierLength + 1 < j + ((sql.drop j).takeWhile (· != quote)).length then
        .error (invalidArgument ["string literal is too long"])
      else .ok (j + ((sql.drop j).takeWhile (· != quote)).length)) := by
  induction fuel generalizing j with
  | zero =>
    rw [scanString, if_neg (by omega), drop_eq_nil_of_le (by omega)]
    exact congrArg of (if_neg (by simpa using near)).symm
  | succ fuel ih =>
    rw [scanString]
    by_cases inside : j < sql.length
    · have at_ := drop_eq_getElem_cons inside
      rw [if_pos inside, charAt_eq at_, of_ok_bind, at_]
      by_cases closing : sql[j] = quote
      · have none_ : (sql[j] :: sql.drop (j + 1)).takeWhile (· != quote) = [] :=
          takeWhile_cons_of_neg (by simpa using closing)
        rw [if_neg (not_not.2 closing), none_, length_nil, if_neg (by omega)]
        rfl
      · have more : (sql[j] :: sql.drop (j + 1)).takeWhile (· != quote) =
            sql[j] :: (sql.drop (j + 1)).takeWhile (· != quote) :=
          takeWhile_cons_of_pos (by simpa using closing)
        rw [if_pos closing, more, length_cons]
        by_cases long : j - i > kMaxIdentifierLength
        · rw [if_pos long, if_pos (by omega)]
          rfl
        · rw [if_neg long, ih (by omega) (by omega), Nat.add_assoc j 1, Nat.add_comm 1]
    · rw [if_neg inside, drop_eq_nil_of_le (not_lt.1 inside)]
      exact congrArg of (if_neg (by simpa using near)).symm

/-- The turn of a lexeme read at `i`. -/
def Lexeme.turn (i : Nat) (lexeme : Lexeme) : Turn :=
  (some (lexeme.type, lexeme.text), i + lexeme.length)

section

variable (at_ : sql.drop i = c :: rest)
include at_

theorem wordAt_eq : wordAt sql i = of ((lexWord c rest).map (Lexeme.turn i)) := by
  rw [wordAt, scanWhile_eq _ (by omega), of_ok_bind, drop_next at_, substr_run _ at_, of_ok_bind,
    lexWord]
  split
  · rfl
  · rw [Nat.add_assoc, Nat.add_comm 1]
    rfl

theorem numberAt_eq : numberAt sql i = of (.ok ((lexNumber c rest).turn i)) := by
  rw [numberAt, scanWhile_eq _ (by omega), of_ok_bind, drop_next at_, substr_run _ at_, of_ok_bind,
    Nat.add_assoc, Nat.add_comm 1]
  rfl

theorem parameterAt_eq : parameterAt sql i = of ((lexParameter i rest).map (Lexeme.turn i)) := by
  have next := drop_next at_
  rw [parameterAt, lexParameter]
  cases rest with
  | nil =>
    rw [if_pos (drop_eq_nil_iff.1 next)]
    rfl
  | cons d rest =>
    rw [if_neg (not_le.2 (lt_of_drop next)), charAt_eq next, of_ok_bind]
    by_cases starts : isIdentifierStart d = true
    · have taken := isIdentifierChar_of_start starts
      rw [if_neg (by simp [starts]), if_neg (by simp [starts]), scanWhile_eq _ (by omega),
        of_ok_bind, drop_next next, substr_run _ next, of_ok_bind,
        takeWhile_cons]
      dsimp only
      split
      · rfl
      · refine congrArg (fun j => of (.ok (some _, j))) ?_
        show i + 1 + 1 + _ = i + (_ + 1 + 1)
        omega
    · rw [if_pos (by simpa using starts), if_pos (by simpa using starts)]
      rfl

theorem stringAt_eq : stringAt sql c i = of ((lexString i c rest).map (Lexeme.turn i)) := by
  have next := drop_next at_
  have total := congrArg List.length next
  rw [length_drop] at total
  have inside := lt_of_drop at_
  have front : rest.takeWhile (· != c) <+: rest := takeWhile_prefix _
  have le := front.length_le
  rw [stringAt, scanString_eq c (by omega) (by omega), next, lexString]
  by_cases long : (rest.takeWhile (· != c)).length > kMaxIdentifierLength
  · rw [if_pos (by omega), if_pos long]
    rfl
  · rw [if_neg (by omega), if_neg long, of_ok_bind]
    by_cases open_ : (rest.takeWhile (· != c)).length = rest.length
    · rw [if_pos (by omega), if_pos open_]
      rfl
    · have body : (sql.drop (i + 1)).take (i + 1 + (rest.takeWhile (· != c)).length - (i + 1)) =
          rest.takeWhile (· != c) := by
        rw [next, Nat.add_sub_cancel_left]
        exact (prefix_iff_eq_take.1 front).symm
      rw [if_neg (by omega), if_neg open_, substr_eq inside, body]
      refine congrArg (fun j => of (.ok (some _, j))) ?_
      show i + 1 + _ + 1 = i + (_ + 2)
      omega

theorem twoAt_eq (a b : UInt8) :
    twoAt sql i a b = of (.ok (decide (c = a ∧ rest.head? = some b))) := by
  have next := drop_next at_
  rw [twoAt]
  cases rest with
  | nil =>
    rw [if_neg (not_lt.2 (drop_eq_nil_iff.1 next))]
    simp only [head?_nil, reduceCtorEq, and_false]
    rfl
  | cons d rest =>
    rw [if_pos (lt_of_drop next), charAt_eq at_, of_ok_bind]
    by_cases first : c = a
    · rw [charAt_eq next]
      simp only [first, head?_cons, Option.some.injEq, true_and]
      rfl
    · simp only [first]
      rfl

theorem operatorAt_eq : operatorAt sql c i = of ((lexOperator i c rest).map (Lexeme.turn i)) := by
  rw [operatorAt, lexOperator, twoCharOperator]
  simp only [twoAt_eq at_, of_ok_bind, decide_eq_true_eq]
  split_ifs
  · rfl
  · rfl
  · rfl
  · rfl
  · cases oneCharOperator c <;> rfl

/-- **One iteration** passes over a space or reads one lexeme, and reads nothing behind the text. -/
theorem turn_eq : turn sql i = of (if isSpace c then .ok (none, i + 1)
      else (lexToken i c rest).map (Lexeme.turn i)) := by
  rw [turn, charAt_eq at_, of_ok_bind, lexToken, wordAt_eq at_, parameterAt_eq at_, stringAt_eq at_,
    numberAt_eq at_, operatorAt_eq at_]
  split_ifs <;> rfl

end

/-- Every iteration gets on, and not past the end. -/
theorem turn_advances (inside : i < sql.length) {pushed : Option (TokenType × Bytes)} {next : Nat}
    (done : turn sql i = some (.ok (pushed, next))) : i < next ∧ next ≤ sql.length := by
  obtain ⟨c, rest, at_⟩ : ∃ c rest, sql.drop i = c :: rest := ⟨_, _, drop_eq_getElem_cons inside⟩
  have total := congrArg List.length at_
  rw [length_drop, length_cons] at total
  rw [turn_eq at_] at done
  have result := Option.some.inj done
  by_cases space : isSpace c = true
  · rw [if_pos space] at result
    cases result
    omega
  · rw [if_neg space] at result
    obtain ⟨lexeme, lexed, same⟩ := map_eq_ok.1 result
    obtain ⟨some_, within⟩ := lexToken_length lexed
    have stops : i + lexeme.length = next := congrArg Prod.snd same
    omega

end Turn

/-! ## A whole scan -/

/-- The bytes from the token to where the scan goes on. -/
def Span.source (sql : Bytes) (span : Span) : Bytes :=
  (sql.drop span.token.pos).take (span.stop - span.token.pos)

/-- From `i` on the text is made of spaces and of what the spans hold, up to its end. -/
inductive Tiled (sql : Bytes) : Nat → List Span → Prop
  | done : Tiled sql sql.length [endSpan sql]
  | space {i : Nat} {c : UInt8} {spans : List Span} (here : sql[i]? = some c)
      (blank : isSpace c = true) (later : Tiled sql (i + 1) spans) : Tiled sql i spans
  | token {span : Span} {spans : List Span} (some_ : span.token.pos < span.stop)
      (inside : span.stop ≤ sql.length)
      (shape : Shape (span.source sql) span.token.type span.token.text)
      (later : Tiled sql span.stop spans) : Tiled sql span.token.pos (span :: spans)

/-- A lexeme is spelled in the bytes it takes. -/
theorem shape_of_lexed {pos : Nat} {c : UInt8} {rest : Bytes} {lexeme : Lexeme}
    (visible : isSpace c = false) (lexed : lexToken pos c rest = .ok lexeme) :
    Shape ((c :: rest).take lexeme.length) lexeme.type lexeme.text := by
  obtain ⟨some_, within⟩ := lexToken_length lexed
  obtain ⟨k, long⟩ := Nat.exists_eq_add_of_le' some_
  rw [long]
  have taken : (rest.take k).length = k := length_take_of_le (by omega)
  have split : lexToken pos c (rest.take k ++ rest.drop k) =
      .ok ⟨lexeme.type, lexeme.text, (rest.take k).length + 1⟩ := by
    rw [take_append_drop, taken, ← long]
    exact lexed
  have alone := ((lexToken_iff pos 0 c).1 split).1
  exact shape_of_reads (p := ⟨[], c :: rest.take k, lexeme.type, lexeme.text⟩)
    ⟨c, rest.take k, rfl, visible, by rw [append_nil]; exact alone⟩

theorem finish_spec (sql : Bytes) (fuel count : Nat) :
    ∃ outcome, finish sql count = of outcome ∧
      outcome.map (List.map Span.token) = tokenizeLoop fuel [] sql.length count ∧
      ∀ spans, outcome = .ok spans → Tiled sql sql.length spans := by
  have scanned : tokenizeLoop fuel [] sql.length count =
      (push count >>= fun _ => pure [⟨.end_, [], sql.length⟩]) := by
    cases fuel <;> rfl
  rw [scanned, finish]
  rcases push count with status | ⟨⟩
  · exact ⟨.error status, rfl, rfl, fun _ failed => by cases failed⟩
  · refine ⟨.ok [endSpan sql], rfl, rfl, fun spans same => ?_⟩
    cases same
    exact .done

/-- **No read misses the text**, the tokens are those of the scan over what is left of it, and the
spans tile it. -/
theorem scanLoop_spec {sql : Bytes} {fuel i : Nat} (enough : sql.length ≤ fuel + i)
    (within_ : i ≤ sql.length) (count : Nat) :
    ∃ outcome, scanLoop sql fuel i count = of outcome ∧
      outcome.map (List.map Span.token) = tokenizeLoop fuel (sql.drop i) i count ∧
      ∀ spans, outcome = .ok spans → Tiled sql i spans := by
  induction fuel generalizing i count with
  | zero =>
    obtain rfl : i = sql.length := by omega
    rw [scanLoop, if_neg (lt_irrefl _), drop_length]
    exact finish_spec sql 0 count
  | succ fuel ih =>
    rw [scanLoop]
    by_cases inside : i < sql.length
    · have at_ := drop_eq_getElem_cons inside
      have total := congrArg List.length at_
      rw [length_drop, length_cons] at total
      rw [if_pos inside, turn_eq at_, at_, tokenizeLoop]
      by_cases blank : isSpace sql[i] = true
      · obtain ⟨outcome, run, tokens, tiled⟩ := ih (i := i + 1) (by omega) inside count
        rw [if_pos blank, if_pos blank]
        exact ⟨outcome, run, tokens, fun spans same =>
          .space (getElem?_eq_getElem inside) blank (tiled spans same)⟩
      rw [if_neg blank, if_neg blank]
      rcases lexed : lexToken i sql[i] (sql.drop (i + 1)) with status | lexeme
      · exact ⟨.error status, rfl, rfl, fun _ failed => by cases failed⟩
      obtain ⟨some_, short⟩ := lexToken_length lexed
      obtain ⟨outcome, run, tokens, tiled⟩ :=
        ih (i := i + lexeme.length) (by omega) (by omega) (count + 1)
      have left : (sql[i] :: sql.drop (i + 1)).drop lexeme.length = sql.drop (i + lexeme.length) := by
        rw [← at_, drop_drop]
      show ∃ outcome, (of (push count) >>= fun _ =>
          scanLoop sql fuel (i + lexeme.length) (count + 1) >>= fun spans =>
            pure (⟨⟨lexeme.type, lexeme.text, i⟩, i + lexeme.length⟩ :: spans)) =
          of outcome ∧
        outcome.map (List.map Span.token) = (push count >>= fun _ =>
          tokenizeLoop fuel ((sql[i] :: sql.drop (i + 1)).drop lexeme.length) (i + lexeme.length)
            (count + 1) >>= fun tokens => pure (⟨lexeme.type, lexeme.text, i⟩ :: tokens)) ∧ _
      rw [run, left, ← tokens]
      rcases push count with status | ⟨⟩
      · exact ⟨.error status, rfl, rfl, fun _ failed => by cases failed⟩
      rcases outcome with status | spans
      · exact ⟨.error status, rfl, rfl, fun _ failed => by cases failed⟩
      refine ⟨.ok (⟨⟨lexeme.type, lexeme.text, i⟩, i + lexeme.length⟩ :: spans), rfl, rfl, ?_⟩
      rintro _ ⟨⟩
      have shape := shape_of_lexed (Bool.eq_false_iff.2 blank) lexed
      rw [← at_] at shape
      refine @Tiled.token sql ⟨⟨lexeme.type, lexeme.text, i⟩, i + lexeme.length⟩ spans
        (Nat.lt_add_of_pos_right some_) (by dsimp only; omega) ?_ (tiled spans rfl)
      rwa [Span.source, Nat.add_sub_cancel_left]
    · obtain rfl : i = sql.length := by omega
      rw [if_neg inside, drop_length]
      exact finish_spec sql (fuel + 1) count

/-- **The scan by index is the tokenizer**, without a read behind the text. -/
theorem scan_spec (sql : Bytes) :
    ∃ outcome, scan sql = some outcome ∧ outcome.map (List.map Span.token) = tokenize sql ∧
      ∀ spans, outcome = .ok spans → Tiled sql 0 spans := by
  rw [scan, tokenize]
  by_cases long : sql.length > kMaxSqlLength
  · rw [if_pos long, if_pos long]
    exact ⟨.error _, rfl, rfl, fun _ failed => by cases failed⟩
  · rw [if_neg long, if_neg long]
    exact scanLoop_spec (by omega) (Nat.zero_le _) 0

/-! ## Exact spans -/

def Span.Covers (span : Span) (k : Nat) : Prop :=
  span.token.pos ≤ k ∧ k < span.stop

/-- The spans from `i` on: they stand in the text one behind the other, hold every byte that is not
whitespace, and each is its token's source text; a literal's is as long as the client computes. -/
structure Exact (sql : Bytes) (i : Nat) (spans : List Span) : Prop where
  inside : ∀ span ∈ spans, i ≤ span.token.pos ∧ span.token.pos < span.stop ∧ span.stop ≤ sql.length
  apart : spans.Pairwise fun a b => a.stop ≤ b.token.pos
  between : ∀ k c, i ≤ k → sql[k]? = some c → (∀ span ∈ spans, ¬ span.Covers k) → isSpace c = true
  spelled : ∀ span ∈ spans, Shape (span.source sql) span.token.type span.token.text
  literal : ∀ span ∈ spans, isLiteralToken span.token = true →
    span.stop = span.token.pos + literalSpan span.token
  string : ∀ span ∈ spans, span.token.type = .stringLiteral →
    ∃ quote, (quote = singleQuote ∨ quote = doubleQuote) ∧
      span.source sql = quote :: (span.token.text ++ [quote])
  number : ∀ span ∈ spans, span.token.type = .numberLiteral → span.source sql = span.token.text

variable {sql : Bytes}

/-- What `Exact` says of one span, from its spelling. -/
theorem literal_of_shape {span : Span} (some_ : span.token.pos < span.stop)
    (inside : span.stop ≤ sql.length)
    (shape : Shape (span.source sql) span.token.type span.token.text) :
    (isLiteralToken span.token = true → span.stop = span.token.pos + literalSpan span.token) ∧
    (span.token.type = .stringLiteral → ∃ quote, (quote = singleQuote ∨ quote = doubleQuote) ∧
      span.source sql = quote :: (span.token.text ++ [quote])) ∧
    (span.token.type = .numberLiteral → span.source sql = span.token.text) := by
  have length : (span.source sql).length = span.stop - span.token.pos := by
    rw [Span.source, length_take, length_drop]
    omega
  refine ⟨fun literal => ?_, fun string => ?_, fun number => ?_⟩
  · have either : span.token.type = .stringLiteral ∨ span.token.type = .numberLiteral := by
      simpa [isLiteralToken] using literal
    rcases literal_shape shape either with ⟨string, quote, _, source⟩ | ⟨number, source⟩
    · rw [source, length_cons, length_append, length_singleton] at length
      rw [literalSpan, if_pos string]
      omega
    · rw [source] at length
      rw [literalSpan, if_neg (by rw [number]; decide)]
      omega
  · rcases literal_shape shape (.inl string) with ⟨_, quoted⟩ | ⟨number, _⟩
    · exact quoted
    · rw [string] at number
      cases number
  · rcases literal_shape shape (.inr number) with ⟨string, _⟩ | ⟨_, source⟩
    · rw [number] at string
      cases string
    · exact source

theorem Exact.nil : Exact sql sql.length [] where
  inside := by simp
  apart := .nil
  between k c past here _ := by
    rw [getElem?_eq_none past] at here
    cases here
  spelled := by simp
  literal := by simp
  string := by simp
  number := by simp

variable {spans : List Span}

theorem Exact.space {i : Nat} {c : UInt8} (here : sql[i]? = some c) (blank : isSpace c = true)
    (exact_ : Exact sql (i + 1) spans) : Exact sql i spans :=
  { exact_ with
    inside := fun span member => by
      have := exact_.inside span member
      omega
    between := fun k d behind there uncovered => by
      rcases Nat.eq_or_lt_of_le behind with rfl | later
      · rw [here] at there
        cases there
        exact blank
      · exact exact_.between k d later there uncovered }

theorem Exact.cons {span : Span} (some_ : span.token.pos < span.stop)
    (inside : span.stop ≤ sql.length)
    (shape : Shape (span.source sql) span.token.type span.token.text)
    (exact_ : Exact sql span.stop spans) : Exact sql span.token.pos (span :: spans) := by
  obtain ⟨literal, string, number⟩ := literal_of_shape some_ inside shape
  refine ⟨?_, ?_, ?_, ?_, ?_, ?_, ?_⟩
  · refine forall_mem_cons.2 ⟨⟨le_rfl, some_, inside⟩, fun other member => ?_⟩
    have := exact_.inside other member
    omega
  · exact pairwise_cons.2 ⟨fun other member => (exact_.inside other member).1, exact_.apart⟩
  · intro k c behind here uncovered
    obtain ⟨first, others⟩ := forall_mem_cons.1 uncovered
    refine exact_.between k c ?_ here others
    by_contra before
    exact first ⟨behind, not_le.1 before⟩
  · exact forall_mem_cons.2 ⟨shape, exact_.spelled⟩
  · exact forall_mem_cons.2 ⟨literal, exact_.literal⟩
  · exact forall_mem_cons.2 ⟨string, exact_.string⟩
  · exact forall_mem_cons.2 ⟨number, exact_.number⟩

theorem Tiled.exact {i : Nat} (tiled : Tiled sql i spans) :
    ∃ body, spans = body ++ [endSpan sql] ∧ Exact sql i body := by
  induction tiled with
  | done => exact ⟨[], rfl, .nil⟩
  | space here blank _ ih =>
    obtain ⟨body, whole, exact_⟩ := ih
    exact ⟨body, whole, exact_.space here blank⟩
  | @token span _ some_ inside shape _ ih =>
    obtain ⟨body, rfl, exact_⟩ := ih
    exact ⟨span :: body, rfl, .cons some_ inside shape exact_⟩

/-- **Token spans are exact.**  The scan reads no byte behind the text and every iteration consumes
at least one; the tokens of an accepted text stand in exact spans before the end token. -/
theorem token_spans_exact (sql : Bytes) :
    (∃ outcome, scan sql = some outcome ∧ outcome.map (List.map Span.token) = tokenize sql) ∧
    (∀ i < sql.length, ∀ pushed next, turn sql i = some (.ok (pushed, next)) →
      i < next ∧ next ≤ sql.length) ∧
    ∀ tokens, tokenize sql = .ok tokens → ∃ spans, scan sql = some (.ok (spans ++ [endSpan sql])) ∧
      tokens = (spans ++ [endSpan sql]).map Span.token ∧ Exact sql 0 spans := by
  obtain ⟨outcome, run, same, tiled⟩ := scan_spec sql
  refine ⟨⟨outcome, run, same⟩, fun i inside pushed next done => turn_advances inside done, ?_⟩
  intro tokens accepted
  rw [accepted] at same
  rcases outcome with status | all
  · cases same
  · obtain ⟨spans, rfl, exact_⟩ := (tiled all rfl).exact
    exact ⟨spans, run, (Except.ok.inj same).symm, exact_⟩

end OpaqueDb.Sql
