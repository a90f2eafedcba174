/-
# Sql.Grammar -- the documented grammar, and what the parser reads of it

The grammar is a family of relations between the tokens of a phrase and what they
mean, with AND binding tighter than OR, both to the left, and the AND inside a
BETWEEN belonging to the BETWEEN.  Every parsing function reads a phrase and leaves
the rest (`Sound`); `parseStatement_sound` is the result for a statement.

One fact about sentences follows by induction on the phrase (`Sentence.separated`):
behind a value stands a connective keyword, a comma, a closing parenthesis or the end,
and behind a connective none of these.
-/
import OpaqueDb.Sql.Parser

namespace OpaqueDb.Sql

open OpaqueDb.Core List

set_option autoImplicit false

/-! ## Phrases -/

/-- A bound parameter or a literal in range. -/
inductive ValuePhrase : List Token → Parameter → Prop
  | literal {t : Token} {value : Value} (known : literalValue t = some value) :
      ValuePhrase [t] (.literal value)
  | bound {t : Token} (type : t.type = .parameter) : ValuePhrase [t] (.bound t.text)

inductive CommaSeparated {α : Type} (Item : List Token → α → Prop) : List Token → List α → Prop
  | single {ts : List Token} {a : α} (item : Item ts a) : CommaSeparated Item ts [a]
  | cons {ts us : List Token} {a : α} {l : List α} {comma : Token} (item : Item ts a)
      (type : comma.type = .comma) (others : CommaSeparated Item us l) :
      CommaSeparated Item (ts ++ comma :: us) (a :: l)

inductive ColumnPhrase : List Token → Bytes × Bytes → Prop
  | plain {c : Token} (column : c.type = .identifier) : ColumnPhrase [c] (c.text, c.text)
  | named {c k d : Token} (column : c.type = .identifier) (as_ : k.type = .as_)
      (display : d.type = .identifier) : ColumnPhrase [c, k, d] (c.text, d.text)

inductive OrderPhrase : List Token → OrderByItem → Prop
  | plain {c : Token} (column : c.type = .identifier) : OrderPhrase [c] ⟨c.text, false⟩
  | asc {c k : Token} (column : c.type = .identifier) (direction : k.type = .asc) :
      OrderPhrase [c, k] ⟨c.text, false⟩
  | desc {c k : Token} (column : c.type = .identifier) (direction : k.type = .desc) :
      OrderPhrase [c, k] ⟨c.text, true⟩

inductive ComparisonPhrase : List Token → Predicate Parameter → Prop
  | comparison {c o : Token} {vs : List Token} {op : CompareOp} {param : Parameter}
      (column : c.type = .identifier) (operator : compareOpOf o.type = some op)
      (value : ValuePhrase vs param) :
      ComparisonPhrase (c :: o :: vs) (.comparison c.text op param)
  | inList {c k l r : Token} {vs : List Token} {params : List Parameter}
      (column : c.type = .identifier) (in_ : k.type = .in_) (open_ : l.type = .lParen)
      (values : CommaSeparated ValuePhrase vs params) (close : r.type = .rParen) :
      ComparisonPhrase (c :: k :: l :: (vs ++ [r])) (.inList c.text params)
  | like {c k : Token} {vs : List Token} {param : Parameter} (column : c.type = .identifier)
      (like : k.type = .like) (value : ValuePhrase vs param) :
      ComparisonPhrase (c :: k :: vs) (.like c.text param)
  | between {c k a : Token} {vs ws : List Token} {low high : Parameter}
      (column : c.type = .identifier) (between : k.type = .between) (first : ValuePhrase vs low)
      (and_ : a.type = .and_) (second : ValuePhrase ws high) :
      ComparisonPhrase (c :: k :: (vs ++ a :: ws)) (.between c.text low high)

/-- Terms joined to the left by a separator. -/
inductive Chain (separator : TokenType) (Term : List Token → Predicate Parameter → Prop)
    (join : Predicate Parameter → Predicate Parameter → Predicate Parameter) :
    List Token → Predicate Parameter → Prop
  | single {ts : List Token} {p : Predicate Parameter} (term : Term ts p) :
      Chain separator Term join ts p
  | snoc {ts us : List Token} {s : Token} {p q : Predicate Parameter}
      (left : Chain separator Term join ts p) (type : s.type = separator) (right : Term us q) :
      Chain separator Term join (ts ++ s :: us) (join p q)

def OrTermPhrase : List Token → Predicate Parameter → Prop :=
  Chain .and_ ComparisonPhrase .and

def PredicatePhrase : List Token → Predicate Parameter → Prop :=
  Chain .or_ OrTermPhrase .or

inductive ProjectionPhrase (distinct : Bool) : List Token → Projection → Prop
  | countStar {c l s r : Token} (plain : distinct = false) (count : c.type = .count)
      (open_ : l.type = .lParen) (star : s.type = .star) (close : r.type = .rParen) :
      ProjectionPhrase distinct [c, l, s, r] .countStar
  | all {s : Token} (star : s.type = .star) : ProjectionPhrase distinct [s] .all
  | columns {ts : List Token} {named : List (Bytes × Bytes)}
      (list : CommaSeparated ColumnPhrase ts named) : ProjectionPhrase distinct ts (.columns named)

inductive WherePhrase : List Token → Option (Predicate Parameter) → Prop
  | none : WherePhrase [] none
  | some {k : Token} {ts : List Token} {p : Predicate Parameter} (where_ : k.type = .where_)
      (predicate : PredicatePhrase ts p) : WherePhrase (k :: ts) (some p)

inductive OrderByPhrase : List Token → List OrderByItem → Prop
  | none : OrderByPhrase [] []
  | some {k b : Token} {ts : List Token} {items : List OrderByItem} (order : k.type = .order)
      (by_ : b.type = .by_) (list : CommaSeparated OrderPhrase ts items) :
      OrderByPhrase (k :: b :: ts) items

/-- LIMIT or OFFSET with its number. -/
inductive CountPhrase (keyword : TokenType) : List Token → Option Nat → Prop
  | none : CountPhrase keyword [] none
  | some {k t : Token} {n : Nat} (type : k.type = keyword) (number : t.type = .numberLiteral)
      (value : simpleAtou64 t.text = some n) : CountPhrase keyword [k, t] (some n)

inductive DistinctPhrase : List Token → Bool → Prop
  | none : DistinctPhrase [] false
  | some {k : Token} (type : k.type = .distinct) : DistinctPhrase [k] true

/-- A sentence and its statement, the end token included. -/
structure Sentence (tokens : List Token) (stmt : SelectStatement) : Prop where
  phrases : ∃ (s f t e : Token) (ds ps ws os ls ks : List Token) (projection : Projection),
    tokens = s :: ds ++ (ps ++ f :: t :: (ws ++ (os ++ (ls ++ (ks ++ [e]))))) ∧
    s.type = .select ∧ DistinctPhrase ds stmt.distinct ∧
    ProjectionPhrase stmt.distinct ps projection ∧ f.type = .from_ ∧ t.type = .identifier ∧
    t.text = stmt.table ∧ WherePhrase ws stmt.where_ ∧ OrderByPhrase os stmt.orderBy ∧
    CountPhrase .limit ls stmt.limit ∧ CountPhrase .offset ks stmt.offset ∧ e.type = .end_ ∧
    stmt.projection = projection.columnsOf.map Prod.fst ∧
    stmt.projectionAliases = projection.columnsOf.map Prod.snd ∧
    stmt.selectAll = decide (projection = .all) ∧ stmt.countStar = decide (projection = .countStar)
  limit_pos : stmt.limit ≠ some 0

/-! ## The parser reads phrases -/

/-- What the function parsed is the meaning of the tokens it consumed. -/
def Sound {α : Type} (Phrase : List Token → α → Prop)
    (f : List Token → StatusOr (α × List Token)) : Prop :=
  ∀ ⦃ts rest : List Token⦄ ⦃a : α⦄, f ts = .ok (a, rest) → ∃ used, ts = used ++ rest ∧ Phrase used a

variable {type : TokenType} {ts rest : List Token}

theorem accept_eq_some : accept type ts = some rest ↔ ∃ t, t.type = type ∧ ts = t :: rest := by
  cases ts with
  | nil => simp [accept]
  | cons t ts =>
    by_cases here : t.type = type
    · simp [accept]
    · simp only [accept, here, if_false, reduceCtorEq, false_iff, not_exists]
      rintro _ ⟨type, rfl, _⟩
      exact here type

theorem expect_eq_accept : expect type ts = .ok rest ↔ accept type ts = some rest := by
  cases ts with
  | nil => simp [expect, accept]
  | cons t ts =>
    simp only [expect, accept]
    split <;> simp

theorem betweenAnd_eq_accept : betweenAnd ts = .ok rest ↔ accept .and_ ts = some rest := by
  cases ts with
  | nil => simp [betweenAnd, accept]
  | cons t ts =>
    simp only [betweenAnd, accept]
    split <;> simp

theorem expect_eq_ok : expect type ts = .ok rest ↔ ∃ t, t.type = type ∧ ts = t :: rest :=
  expect_eq_accept.trans accept_eq_some

theorem parseIdentifier_eq_ok {what name : Bytes} : parseIdentifier what ts = .ok (name, rest) ↔
      ∃ t, t.type = .identifier ∧ t.text = name ∧ ts = t :: rest := by
  cases ts with
  | nil => simp [parseIdentifier]
  | cons t ts =>
    by_cases here : t.type = .identifier
    · simp [parseIdentifier, here]
    · simp only [parseIdentifier, here, if_false, reduceCtorEq, false_iff, not_exists]
      rintro _ ⟨type, _, rfl, _⟩
      exact here type

section Rules

variable {α β : Type} {R : List Token → β → Prop} {P : List Token → α → Prop}
  {f : List Token → StatusOr (α × List Token)} {h : α × List Token → StatusOr (β × List Token)}
  {yes no : List Token → StatusOr (β × List Token)} {type : TokenType}

theorem Sound.pure {b : β} (phrase : R [] b) : Sound R fun ts => .ok (b, ts) := by
  intro ts rest a parsed
  cases parsed
  exact ⟨[], rfl, phrase⟩

/-- One phrase behind another. -/
theorem Sound.bind (first : Sound P f)
    (later : ∀ {us a}, P us a → Sound (fun vs => R (us ++ vs)) fun ts => h (a, ts)) :
    Sound R fun ts => f ts >>= h := by
  intro ts rest b parsed
  obtain ⟨⟨a, ts₁⟩, parsed₁, parsed₂⟩ := bind_eq_ok.1 parsed
  obtain ⟨us, rfl, phrase⟩ := first parsed₁
  obtain ⟨vs, rfl, whole⟩ := later phrase parsed₂
  exact ⟨us ++ vs, (append_assoc ..).symm, whole⟩

/-- The last part of a phrase. -/
theorem Sound.last (first : Sound P f) {g : α → β} (same : ∀ a ts, h (a, ts) = .ok (g a, ts))
    (phrase : ∀ {us a}, P us a → R us (g a)) : Sound R fun ts => f ts >>= h := by
  refine first.bind fun {us a} part => ?_
  simp only [same]
  exact .pure (by rw [append_nil]; exact phrase part)

/-- A required token. -/
theorem Sound.token {required : List Token → StatusOr (List Token)}
    (same : ∀ {ts rest}, required ts = .ok rest ↔ accept type ts = some rest)
    (later : ∀ {t : Token}, t.type = type → Sound (fun vs => R (t :: vs)) yes) :
    Sound R fun ts => required ts >>= yes := by
  intro ts rest b parsed
  obtain ⟨ts₁, parsed₁, parsed₂⟩ := bind_eq_ok.1 parsed
  obtain ⟨t, here, rfl⟩ := accept_eq_some.1 (same.1 parsed₁)
  obtain ⟨vs, rfl, whole⟩ := later here parsed₂
  exact ⟨t :: vs, rfl, whole⟩

/-- A token that may be there. -/
theorem Sound.branch (taken : ∀ {t : Token}, t.type = type → Sound (fun vs => R (t :: vs)) yes)
    (skipped : Sound R no) :
    Sound R fun ts => match accept type ts with
      | some ts => yes ts
      | none => no ts := by
  intro ts rest b parsed
  cases next : accept type ts with
  | none =>
    simp only [next] at parsed
    exact skipped parsed
  | some ts₁ =>
    obtain ⟨t, here, rfl⟩ := accept_eq_some.1 next
    simp only [next] at parsed
    obtain ⟨vs, rfl, whole⟩ := taken here parsed
    exact ⟨t :: vs, rfl, whole⟩

theorem Sound.identifier {what : Bytes} {h : Bytes × List Token → StatusOr (β × List Token)}
    (later : ∀ {t : Token}, t.type = .identifier →
      Sound (fun vs => R (t :: vs)) fun ts => h (t.text, ts)) :
    Sound R fun ts => parseIdentifier what ts >>= h := by
  intro ts rest b parsed
  obtain ⟨⟨name, ts₁⟩, parsed₁, parsed₂⟩ := bind_eq_ok.1 parsed
  obtain ⟨t, here, rfl, rfl⟩ := parseIdentifier_eq_ok.1 parsed₁
  obtain ⟨vs, rfl, whole⟩ := later here parsed₂
  exact ⟨t :: vs, rfl, whole⟩

end Rules

theorem parseCount_sound (what : Bytes) :
    Sound (fun us n => ∃ t, us = [t] ∧ t.type = .numberLiteral ∧ simpleAtou64 t.text = some n)
      (parseCount what) := by
  intro ts rest n parsed
  cases ts with
  | nil => cases parsed
  | cons t ts =>
    simp only [parseCount] at parsed
    split at parsed
    · rename_i here
      cases number : simpleAtou64 t.text with
      | none => simp [number] at parsed
      | some m =>
        simp only [number] at parsed
        cases parsed
        exact ⟨[t], rfl, t, rfl, here, number⟩
    · cases parsed

theorem parseParameter_sound : Sound ValuePhrase parseParameter := by
  intro ts rest a parsed
  cases ts with
  | nil => cases parsed
  | cons t ts =>
    simp only [parseParameter] at parsed
    split at parsed
    · cases known : literalValue t with
      | none => simp [known] at parsed
      | some value =>
        simp only [known] at parsed
        cases parsed
        exact ⟨[t], rfl, .literal known⟩
    · split at parsed
      · rename_i here
        cases parsed
        exact ⟨[t], rfl, .bound here⟩
      · cases parsed

theorem commaList_sound {α : Type} {Item : List Token → α → Prop}
    {item : List Token → StatusOr (α × List Token)} (sound : Sound Item item) (fuel : Nat) :
    Sound (CommaSeparated Item) (commaList item fuel) := by
  induction fuel with
  | zero => exact nofun
  | succ fuel ih =>
    refine sound.bind fun first => .branch (fun comma => ih.last (fun _ _ => rfl) fun others =>
      .cons first comma others) (.pure ?_)
    rw [append_nil]
    exact .single first

theorem list_sound {α : Type} {Item : List Token → α → Prop}
    {item : List Token → StatusOr (α × List Token)} (sound : Sound Item item) :
    Sound (CommaSeparated Item) fun ts => commaList item ts.length ts :=
  fun _ _ _ parsed => commaList_sound sound _ parsed

theorem parseColumn_sound : Sound ColumnPhrase parseColumn :=
  .identifier fun column => .branch
    (fun as_ => .identifier fun display => .pure (.named column as_ display)) (.pure (.plain column))

theorem parseOrderItem_sound : Sound OrderPhrase parseOrderItem := by
  refine .identifier fun {c} column => .branch (fun desc => .pure (.desc column desc)) ?_
  intro ts rest a parsed
  cases parsed
  cases asc : accept .asc ts with
  | none => exact ⟨[], rfl, .plain column⟩
  | some ts₂ =>
    obtain ⟨k, type, rfl⟩ := accept_eq_some.1 asc
    exact ⟨[k], rfl, .asc column type⟩

theorem parseOperator_sound {c : Token} (column : c.type = .identifier) :
    Sound (fun us => ComparisonPhrase (c :: us)) (parseOperator c.text) := by
  intro ts rest a parsed
  cases ts with
  | nil => cases parsed
  | cons o ts =>
    simp only [parseOperator] at parsed
    cases operator : compareOpOf o.type with
    | none => simp [operator] at parsed
    | some op =>
      simp only [operator] at parsed
      obtain ⟨⟨param, ts₁⟩, value, parsed₁⟩ := bind_eq_ok.1 parsed
      obtain ⟨used, rfl, phrase⟩ := parseParameter_sound value
      cases parsed₁
      exact ⟨o :: used, rfl, .comparison column operator phrase⟩

theorem parseComparison_sound : Sound ComparisonPhrase parseComparison :=
  .identifier fun column => .branch
    (fun in_ => .token expect_eq_accept fun open_ => (list_sound parseParameter_sound).bind fun values =>
      .token expect_eq_accept fun close => .pure (.inList column in_ open_ values close))
    (.branch
      (fun like => parseParameter_sound.last (fun _ _ => rfl) fun value => .like column like value)
      (.branch
        (fun between => parseParameter_sound.bind fun first => .token betweenAnd_eq_accept fun and_ =>
          parseParameter_sound.last (fun _ _ => rfl) fun second =>
            .between column between first and_ second)
        (parseOperator_sound column)))

section Chain

variable {separator : TokenType} {term : List Token → StatusOr (Predicate Parameter × List Token)}
  {Term : List Token → Predicate Parameter → Prop}
  {join : Predicate Parameter → Predicate Parameter → Predicate Parameter}

theorem chainLoop_sound (sound : Sound Term term) (fuel : Nat) {before : List Token}
    {node : Predicate Parameter} (built : Chain separator Term join before node) :
    Sound (fun us => Chain separator Term join (before ++ us))
      (chainLoop separator term join fuel node) := by
  induction fuel generalizing before node with
  | zero => exact .pure (by rwa [append_nil])
  | succ fuel ih =>
    refine .branch (fun type => sound.bind fun right => ?_) (.pure (by rwa [append_nil]))
    have longer := ih (built.snoc type right)
    simp only [append_assoc] at longer
    exact longer

theorem parseChain_sound (sound : Sound Term term) :
    Sound (Chain separator Term join) (parseChain separator term join) :=
  sound.bind fun first _ _ _ parsed => chainLoop_sound sound _ (.single first) parsed

end Chain

theorem parsePredicate_sound : Sound PredicatePhrase parsePredicate :=
  parseChain_sound (parseChain_sound parseComparison_sound)

theorem parseProjection_sound (distinct : Bool) :
    Sound (ProjectionPhrase distinct) (parseProjection distinct) := by
  refine .branch (fun count => ?_) (.branch (fun star => .pure (.all star))
    ((list_sound parseColumn_sound).last (fun _ _ => rfl) fun list => .columns list))
  cases distinct with
  | true => exact nofun
  | false =>
    exact .token expect_eq_accept fun open_ => .token expect_eq_accept fun star =>
      .token expect_eq_accept fun close => .pure (.countStar rfl count open_ star close)

theorem parseWhere_sound : Sound WherePhrase parseWhere :=
  .branch (fun where_ => parsePredicate_sound.last (fun _ _ => rfl) fun predicate =>
    .some where_ predicate) (.pure .none)

theorem parseOrder_sound : Sound OrderByPhrase parseOrder :=
  .branch (fun order => .token expect_eq_accept fun by_ _ _ _ parsed =>
    (list_sound parseOrderItem_sound parsed).imp fun _ found => found.imp_right (.some order by_))
    (.pure .none)

theorem parseLimit_sound : Sound (fun ts n => CountPhrase .limit ts n ∧ n ≠ some 0) parseLimit := by
  refine .branch (fun limit => (parseCount_sound _).bind ?_) (.pure ⟨.none, by simp⟩)
  rintro _ n ⟨t, rfl, number, value⟩
  by_cases zero : n = 0
  · simp only [zero]
    exact nofun
  · simp only [zero]
    exact .pure ⟨.some limit number value, by simpa using zero⟩

theorem parseOffset_sound : Sound (CountPhrase .offset) parseOffset := by
  refine .branch (fun offset => (parseCount_sound _).last (fun _ _ => rfl) ?_) (.pure .none)
  rintro _ n ⟨t, rfl, number, value⟩
  exact .some offset number value

theorem parseEnd_eq_ok : parseEnd ts = .ok () ↔ ∃ e rest, e.type = .end_ ∧ ts = e :: rest := by
  cases ts with
  | nil => simp [parseEnd]
  | cons t ts => simp [parseEnd]

theorem distinct_sound (ts : List Token) :
    ∃ ds, ts = ds ++ (accept .distinct ts).getD ts ∧
      DistinctPhrase ds (accept .distinct ts).isSome := by
  cases distinct : accept .distinct ts with
  | none => exact ⟨[], rfl, .none⟩
  | some rest =>
    obtain ⟨k, type, rfl⟩ := accept_eq_some.1 distinct
    exact ⟨[k], rfl, .some type⟩

/-- **The parser accepts sentences only**, and returns what they say. -/
theorem parseStatement_sound {stmt : SelectStatement} (parsed : parseStatement ts = .ok stmt) :
    ∃ used after, ts = used ++ after ∧ Sentence used stmt := by
  obtain ⟨ts₁, select, parsed₁⟩ := bind_eq_ok.1 parsed
  obtain ⟨s, select', rfl⟩ := expect_eq_ok.1 select
  obtain ⟨ds, split, distinct⟩ := distinct_sound ts₁
  obtain ⟨⟨projection, ts₃⟩, list, parsed₂⟩ := bind_eq_ok.1 parsed₁
  obtain ⟨ps, eq₃, phrase⟩ := parseProjection_sound _ list
  obtain ⟨ts₄, from_, parsed₃⟩ := bind_eq_ok.1 parsed₂
  obtain ⟨f, from', rfl⟩ := expect_eq_ok.1 from_
  obtain ⟨⟨table, ts₅⟩, name, parsed₄⟩ := bind_eq_ok.1 parsed₃
  obtain ⟨t, ident, text, rfl⟩ := parseIdentifier_eq_ok.1 name
  obtain ⟨⟨predicate, ts₆⟩, where_, parsed₅⟩ := bind_eq_ok.1 parsed₄
  obtain ⟨ws, rfl, wherePhrase⟩ := parseWhere_sound where_
  obtain ⟨⟨orderBy, ts₇⟩, order, parsed₆⟩ := bind_eq_ok.1 parsed₅
  obtain ⟨os, rfl, orderPhrase⟩ := parseOrder_sound order
  obtain ⟨⟨limit, ts₈⟩, limited, parsed₇⟩ := bind_eq_ok.1 parsed₆
  obtain ⟨ls, rfl, limitPhrase, positive⟩ := parseLimit_sound limited
  obtain ⟨⟨offset, ts₉⟩, skipped, parsed₈⟩ := bind_eq_ok.1 parsed₇
  obtain ⟨ks, rfl, offsetPhrase⟩ := parseOffset_sound skipped
  obtain ⟨_, ended, parsed₉⟩ := bind_eq_ok.1 parsed₈
  obtain ⟨e, rest, end_, rfl⟩ := parseEnd_eq_ok.1 ended
  obtain rfl := pure_eq_ok.1 parsed₉
  rw [eq₃] at split
  refine ⟨_, rest, ?_, ⟨s, f, t, e, ds, ps, ws, os, ls, ks, projection, rfl, select', distinct, phrase,
    from', ident, text, wherePhrase, orderPhrase, limitPhrase, offsetPhrase, end_, rfl, rfl, rfl, rfl⟩,
    positive⟩
  rw [split]
  simp

/-! ## Connectives and separators -/

def isCount (type : TokenType) : Bool :=
  type == .limit || type == .offset

def isLiteralToken (t : Token) : Bool :=
  t.type == .stringLiteral || t.type == .numberLiteral

/-- Whether the rewriting lifts a token, given that it follows LIMIT or OFFSET. -/
def isLifted (afterCount : Bool) (t : Token) : Bool :=
  isLiteralToken t && !(afterCount && t.type == .numberLiteral)

def isConnective (type : TokenType) : Bool :=
  type == .and_ || type == .or_ || type == .order || type == .limit || type == .offset

/-- What can stand behind a value. -/
def isSeparator (type : TokenType) : Bool :=
  isConnective type || type == .comma || type == .rParen || type == .end_

/-- A value literal or a parameter. -/
def isValue (afterCount : Bool) (t : Token) : Bool :=
  isLifted afterCount t || t.type == .parameter

/-- A separator stands first. -/
def Follows (ts : List Token) : Prop :=
  ∃ u us, ts = u :: us ∧ isSeparator u.type = true

/-- Something else stands first. -/
def Starts (ts : List Token) : Prop :=
  ∃ u us, ts = u :: us ∧ isSeparator u.type = false

/-- Behind every value stands a separator, and behind every connective none. -/
def Separated : Bool → List Token → Prop
  | _, [] => True
  | afterCount, t :: ts =>
    (isValue afterCount t = true → Follows ts) ∧ (isConnective t.type = true → Starts ts) ∧
      Separated (isCount t.type) ts

theorem Starts.not_follows (starts : Starts ts) : ¬ Follows ts := by
  obtain ⟨u, us, rfl, other⟩ := starts
  rintro ⟨v, vs, same, separator⟩
  obtain ⟨rfl, _⟩ := cons.inj same
  rw [other] at separator
  cases separator

/-- A token that is neither a value nor a connective. -/
def isQuiet (t : Token) : Bool :=
  !isLiteralToken t && t.type != .parameter && !isConnective t.type

variable {t : Token}

theorem isQuiet_of_type (h : t.type = type) (quiet : isQuiet ⟨type, [], 0⟩ = true) :
    isQuiet t = true := by
  simpa [isQuiet, isLiteralToken, h] using quiet

theorem separated_cons {afterCount : Bool} (quiet : isQuiet t = true) :
    Separated afterCount (t :: ts) ↔ Separated false ts := by
  simp only [isQuiet, Bool.and_eq_true, Bool.not_eq_true', bne_iff_ne] at quiet
  obtain ⟨⟨plain, bound⟩, connective⟩ := quiet
  have uncounted : isCount t.type = false := by
    cases h : t.type <;> simp_all [isCount, isConnective]
  simp [Separated, isValue, isLifted, plain, bound, connective, uncounted]

theorem separated_quiet (quiet : ∀ t ∈ ts, isQuiet t = true) (later : Separated false rest) :
    Separated false (ts ++ rest) := by
  induction ts with
  | nil => exact later
  | cons t ts ih =>
    rw [cons_append, separated_cons (quiet t mem_cons_self)]
    exact ih fun u member => quiet u (mem_cons_of_mem _ member)

/-- A separator and the separated rest behind it. -/
structure Good (ts : List Token) : Prop where
  follows : Follows ts
  separated : Separated false ts

theorem good_quiet (separator : isSeparator t.type = true) (quiet : isQuiet t = true)
    (later : Separated false ts) : Good (t :: ts) :=
  ⟨⟨t, ts, rfl, separator⟩, (separated_cons quiet).2 later⟩

theorem good_connective (connective : isConnective t.type = true) (starts : Starts ts)
    (later : Separated (isCount t.type) ts) : Good (t :: ts) := by
  have separator : isSeparator t.type = true := by
    rw [isSeparator, connective]
    rfl
  have noValue : isValue false t = false := by
    cases h : t.type <;> simp_all [isValue, isLifted, isLiteralToken, isConnective]
  exact ⟨⟨t, ts, rfl, separator⟩, by simp [noValue], fun _ => starts, later⟩

theorem starts_of_type (h : t.type = type) (other : isSeparator type = false) : Starts (t :: ts) :=
  ⟨t, ts, rfl, by rw [h, other]⟩

theorem literalValue_type {value : Value} (known : literalValue t = some value) :
    t.type = .stringLiteral ∨ t.type = .numberLiteral := by
  unfold literalValue at known
  split at known
  · exact .inl ‹_›
  · split at known
    · exact .inr ‹_›
    · cases known

theorem ValuePhrase.starts {vs : List Token} {param : Parameter} (phrase : ValuePhrase vs param) :
    Starts (vs ++ rest) := by
  cases phrase with
  | literal known =>
    rcases literalValue_type known with h | h
    · exact starts_of_type h rfl
    · exact starts_of_type h rfl
  | bound type => exact starts_of_type type rfl

theorem ValuePhrase.separated {vs : List Token} {param : Parameter} (phrase : ValuePhrase vs param)
    (good : Good rest) : Separated false (vs ++ rest) := by
  have value : ∀ {t : Token}, isConnective t.type = false → isCount t.type = false →
      Separated false (t :: rest) := by
    intro t plain uncounted
    refine ⟨fun _ => good.follows, by simp [plain], ?_⟩
    rw [uncounted]
    exact good.separated
  cases phrase with
  | literal known =>
    rcases literalValue_type known with h | h
    · exact value (by rw [h]; rfl) (by rw [h]; rfl)
    · exact value (by rw [h]; rfl) (by rw [h]; rfl)
  | bound type => exact value (by rw [type]; rfl) (by rw [type]; rfl)

theorem values_separated {vs : List Token} {params : List Parameter}
    (phrases : CommaSeparated ValuePhrase vs params) (good : Good rest) :
    Separated false (vs ++ rest) := by
  induction phrases with
  | single item => exact item.separated good
  | cons item comma _ ih =>
    rw [append_assoc]
    exact item.separated (good_quiet (by rw [comma]; rfl) (isQuiet_of_type comma rfl) ih)

theorem list_quiet {α : Type} {Item : List Token → α → Prop} {l : List α}
    (items : ∀ {us a}, Item us a → ∀ t ∈ us, isQuiet t = true) (phrases : CommaSeparated Item ts l)
    : ∀ t ∈ ts, isQuiet t = true := by
  induction phrases with
  | single item => exact items item
  | cons item comma _ ih =>
    intro t member
    rcases mem_append.1 member with inside | inside
    · exact items item t inside
    · rcases mem_cons.1 inside with rfl | inside
      · exact isQuiet_of_type comma rfl
      · exact ih t inside

theorem ColumnPhrase.quiet {a : Bytes × Bytes} (phrase : ColumnPhrase ts a) :
    ∀ t ∈ ts, isQuiet t = true := by
  cases phrase with
  | plain column => simpa using isQuiet_of_type column rfl
  | named column as_ display =>
    simp [isQuiet_of_type column rfl, isQuiet_of_type as_ rfl, isQuiet_of_type display rfl]

theorem OrderPhrase.quiet {a : OrderByItem} (phrase : OrderPhrase ts a) :
    ∀ t ∈ ts, isQuiet t = true := by
  cases phrase with
  | plain column => simpa using isQuiet_of_type column rfl
  | asc column direction => simp [isQuiet_of_type column rfl, isQuiet_of_type direction rfl]
  | desc column direction => simp [isQuiet_of_type column rfl, isQuiet_of_type direction rfl]

theorem ProjectionPhrase.quiet {distinct : Bool} {ts : List Token} {a : Projection}
    (phrase : ProjectionPhrase distinct ts a) : ∀ t ∈ ts, isQuiet t = true := by
  cases phrase with
  | countStar _ count open_ star close =>
    simp [isQuiet_of_type count rfl, isQuiet_of_type open_ rfl, isQuiet_of_type star rfl,
      isQuiet_of_type close rfl]
  | all star => simpa using isQuiet_of_type star rfl
  | columns list => exact list_quiet ColumnPhrase.quiet list

theorem DistinctPhrase.quiet {distinct : Bool} (phrase : DistinctPhrase ts distinct) :
    ∀ t ∈ ts, isQuiet t = true := by
  cases phrase with
  | none => simp
  | some type => simpa using isQuiet_of_type type rfl

theorem compareOp_quiet {o : Token} {op : CompareOp} (operator : compareOpOf o.type = some op) :
    isQuiet o = true := by
  cases h : o.type <;> simp_all [compareOpOf, isQuiet, isLiteralToken, isConnective]

theorem pair_quiet {u : Token} (first : isQuiet t = true) (second : isQuiet u = true) :
    ∀ x ∈ [t, u], isQuiet x = true := by
  simp [first, second]

variable {p : Predicate Parameter}

theorem ComparisonPhrase.starts (phrase : ComparisonPhrase ts p) : Starts (ts ++ rest) := by
  cases phrase with
  | comparison column _ _ => exact starts_of_type column rfl
  | inList column _ _ _ _ => exact starts_of_type column rfl
  | like column _ _ => exact starts_of_type column rfl
  | between column _ _ _ _ => exact starts_of_type column rfl

theorem ComparisonPhrase.separated (phrase : ComparisonPhrase ts p) (good : Good rest) :
    Separated false (ts ++ rest) := by
  cases phrase with
  | @comparison c o vs op param column operator value =>
    have inner := separated_quiet
      (pair_quiet (isQuiet_of_type column rfl) (compareOp_quiet operator)) (value.separated good)
    exact inner
  | @inList c k l r vs params column in_ open_ values close =>
    have quiet : ∀ t ∈ [c, k, l], isQuiet t = true := by
      simp [isQuiet_of_type column rfl, isQuiet_of_type in_ rfl, isQuiet_of_type open_ rfl]
    have closed : Good (r :: rest) :=
      good_quiet (by rw [close]; rfl) (isQuiet_of_type close rfl) good.separated
    have inner := separated_quiet quiet (values_separated values closed)
    simpa using inner
  | @like c k vs param column like value =>
    have inner := separated_quiet
      (pair_quiet (isQuiet_of_type column rfl) (isQuiet_of_type like rfl)) (value.separated good)
    exact inner
  | @between c k a vs ws low high column between first and_ second =>
    have joined : Good (a :: (ws ++ rest)) := by
      refine good_connective (by rw [and_]; rfl) second.starts ?_
      rw [and_]
      exact second.separated good
    have inner := separated_quiet
      (pair_quiet (isQuiet_of_type column rfl) (isQuiet_of_type between rfl))
      (first.separated joined)
    simpa using inner

section Chain

variable {separator : TokenType} {Term : List Token → Predicate Parameter → Prop}
  {join : Predicate Parameter → Predicate Parameter → Predicate Parameter}

theorem Chain.starts (terms : ∀ {us q rest}, Term us q → Starts (us ++ rest))
    (chain : Chain separator Term join ts p) : ∀ {rest : List Token}, Starts (ts ++ rest) := by
  induction chain with
  | single term => exact terms term
  | snoc _ _ _ ih =>
    intro rest
    rw [append_assoc]
    exact ih

theorem Chain.separated (connective : isConnective separator = true)
    (uncounted : isCount separator = false)
    (starts : ∀ {us q rest}, Term us q → Starts (us ++ rest))
    (terms : ∀ {us q rest}, Term us q → Good rest → Separated false (us ++ rest))
    (chain : Chain separator Term join ts p) :
    ∀ {rest : List Token}, Good rest → Separated false (ts ++ rest) := by
  induction chain with
  | single term => exact fun good => terms term good
  | snoc _ type right ih =>
    intro rest good
    rw [append_assoc]
    apply ih
    refine good_connective (by rw [type, connective]) (starts right) ?_
    rw [type, uncounted]
    exact terms right good

end Chain

theorem PredicatePhrase.separated (phrase : PredicatePhrase ts p) (good : Good rest) :
    Separated false (ts ++ rest) :=
  Chain.separated rfl rfl (fun term => Chain.starts ComparisonPhrase.starts term)
    (fun term good =>
      Chain.separated rfl rfl ComparisonPhrase.starts ComparisonPhrase.separated term good)
    phrase good

theorem WherePhrase.separated {where_ : Option (Predicate Parameter)}
    (phrase : WherePhrase ts where_) (good : Good rest) : Separated false (ts ++ rest) := by
  cases phrase with
  | none => exact good.separated
  | some type predicate =>
    rw [cons_append, separated_cons (isQuiet_of_type type rfl)]
    exact predicate.separated good

theorem OrderByPhrase.good {ts rest : List Token} {items : List OrderByItem}
    (phrase : OrderByPhrase ts items) (good : Good rest) : Good (ts ++ rest) := by
  cases phrase with
  | none => exact good
  | @some k b us items order by_ list =>
    have tail := separated_quiet (list_quiet OrderPhrase.quiet list) good.separated
    have inner : Separated false (b :: (us ++ rest)) :=
      (separated_cons (isQuiet_of_type by_ rfl)).2 tail
    refine good_connective (by rw [order]; rfl) (starts_of_type by_ rfl) ?_
    rw [order]
    exact inner

theorem CountPhrase.good {keyword : TokenType} {n : Option Nat} (counted : isCount keyword = true)
    (phrase : CountPhrase keyword ts n) (good : Good rest) : Good (ts ++ rest) := by
  cases phrase with
  | none => exact good
  | @some k t n type number _ =>
    have connective : isConnective k.type = true := by
      cases keyword <;> simp_all [isCount, isConnective]
    refine good_connective connective (starts_of_type number rfl) ?_
    rw [type, counted]
    refine ⟨fun value => ?_, by simp [number, isConnective], ?_⟩
    · simp [isValue, isLifted, number] at value
    · rw [number]
      exact good.separated

/-- Values and separators alternate in a sentence. -/
theorem Sentence.separated {tokens : List Token} {stmt : SelectStatement}
    (sentence : Sentence tokens stmt) : Separated false tokens := by
  obtain ⟨s, f, t, e, ds, ps, ws, os, ls, ks, projection, rfl, select, distinct, list, from_, ident, _,
    where_, order, limit, offset, end_, _⟩ := sentence.phrases
  have ended : Good [e] := good_quiet (by rw [end_]; rfl) (isQuiet_of_type end_ rfl) trivial
  have tail : Good (os ++ (ls ++ (ks ++ [e]))) :=
    order.good (limit.good rfl (offset.good rfl ended))
  have named := separated_quiet
    (pair_quiet (isQuiet_of_type from_ rfl) (isQuiet_of_type ident rfl)) (where_.separated tail)
  have selected := separated_quiet list.quiet named
  have leading : ∀ x ∈ s :: ds, isQuiet x = true := by
    intro x member
    rcases mem_cons.1 member with rfl | inside
    · exact isQuiet_of_type select rfl
    · exact distinct.quiet x inside
  exact separated_quiet leading selected

end OpaqueDb.Sql
