/-
# Sql.Recognition -- the parser reads every sentence

The other half of `Sql.Grammar`: a parsing function that stands before a phrase, and behind
the phrase no token that would carry it on, returns what the phrase means and leaves what
follows (`Complete`).  So on tokens that end with their only end token the parser accepts
exactly the sentences (`parseStatement_iff`), and a sentence has one meaning.
-/
import OpaqueDb.Sql.Grammar

namespace OpaqueDb.Sql

open OpaqueDb.Core List

set_option autoImplicit false

/-! ## What may follow a phrase -/

/-- No token of these types comes next. -/
def NotNext (types : List TokenType) (rest : List Token) : Prop :=
  ∀ type ∈ types, accept type rest = none

variable {α : Type}

/-- The function reads every phrase that none of the types follows. -/
def Complete (types : List TokenType) (Phrase : List Token → α → Prop)
    (f : List Token → StatusOr (α × List Token)) : Prop :=
  ∀ {used rest : List Token} {a : α}, Phrase used a → NotNext types rest →
    f (used ++ rest) = .ok (a, rest)

variable {type : TokenType} {t : Token}

theorem accept_of_type (h : t.type = type) (ts : List Token) : accept type (t :: ts) = some ts :=
  if_pos h

theorem accept_of_ne (h : t.type ≠ type) (ts : List Token) : accept type (t :: ts) = none :=
  if_neg h

theorem expect_of_type (h : t.type = type) (ts : List Token) : expect type (t :: ts) = .ok ts :=
  expect_eq_ok.2 ⟨t, h, rfl⟩

variable (what : Bytes)

theorem parseIdentifier_of_type (h : t.type = .identifier) (ts : List Token) :
    parseIdentifier what (t :: ts) = .ok (t.text, ts) :=
  parseIdentifier_eq_ok.2 ⟨t, h, rfl, rfl⟩

variable {types : List TokenType}

theorem notNext_cons (other : t.type ∉ types) (ts : List Token) : NotNext types (t :: ts) :=
  fun _ member => accept_of_ne (fun same => other (same ▸ member)) ts

variable {rest : List Token}

theorem NotNext.mono {types' : List TokenType} (stops : NotNext types rest) (fewer : types' ⊆ types)
    : NotNext types' rest :=
  fun type member => stops type (fewer member)

/-! ## Values and lists -/

variable {ts : List Token}

theorem ValuePhrase.nonempty {a : Parameter} (phrase : ValuePhrase ts a) : 0 < ts.length := by
  cases phrase <;> exact Nat.succ_pos _

variable {a : Bytes × Bytes}

theorem ColumnPhrase.nonempty (phrase : ColumnPhrase ts a) : 0 < ts.length := by
  cases phrase <;> exact Nat.succ_pos _

theorem OrderPhrase.nonempty {a : OrderByItem} (phrase : OrderPhrase ts a) : 0 < ts.length := by
  cases phrase <;> exact Nat.succ_pos _

theorem parseParameter_complete : Complete [] ValuePhrase parseParameter := by
  intro used rest a phrase _
  cases phrase with
  | @literal t value known =>
    show parseParameter (t :: rest) = _
    rw [parseParameter, if_pos (literalValue_type known), known]
  | @bound t type =>
    show parseParameter (t :: rest) = _
    rw [parseParameter, if_neg (by simp [type]), if_pos type]

variable {l : List α} {Item : List Token → α → Prop}

theorem CommaSeparated.length_le (nonempty : ∀ {us a}, Item us a → 0 < us.length)
    (phrases : CommaSeparated Item ts l) : l.length ≤ ts.length := by
  induction phrases with
  | single item => exact nonempty item
  | cons item _ _ ih =>
    rw [length_append, length_cons, length_cons]
    omega

variable {item : List Token → StatusOr (α × List Token)}

/-- A list ends where no comma follows; each item uses up one unit of fuel. -/
theorem commaList_complete (complete : Complete types Item item) (other : .comma ∉ types)
    {used : List Token} (phrases : CommaSeparated Item used l)
    (stops : NotNext (.comma :: types) rest) {fuel : Nat} (enough : l.length ≤ fuel) :
    commaList item fuel (used ++ rest) = .ok (l, rest) := by
  induction phrases generalizing fuel with
  | single phrase =>
    obtain ⟨fuel, rfl⟩ := Nat.exists_eq_add_of_le' enough
    refine bind_eq_ok.2 ⟨_, complete phrase (stops.mono (subset_cons_self _ _)), ?_⟩
    simp only [stops .comma mem_cons_self]
    rfl
  | @cons ts us a l comma phrase type _ ih =>
    obtain ⟨fuel, rfl⟩ : ∃ n, fuel = n + 1 := Nat.exists_eq_add_one.2 (by
      rw [length_cons] at enough
      omega)
    have next : NotNext types (comma :: (us ++ rest)) := notNext_cons (type ▸ other) _
    rw [append_assoc, cons_append]
    refine bind_eq_ok.2 ⟨_, complete phrase next, ?_⟩
    simp only [accept_of_type type]
    exact bind_eq_ok.2 ⟨_, ih (Nat.le_of_succ_le_succ enough), rfl⟩

/-- The fuel of the parser, the number of tokens, is enough. -/
theorem commaList_enough (complete : Complete types Item item) (other : .comma ∉ types)
    (nonempty : ∀ {us a}, Item us a → 0 < us.length) :
    Complete (.comma :: types) (CommaSeparated Item) fun ts => commaList item ts.length ts := by
  intro used rest l phrases stops
  refine commaList_complete complete other phrases stops ?_
  have short := phrases.length_le nonempty
  rw [length_append]
  omega

theorem parseColumn_complete : Complete [.as_] ColumnPhrase parseColumn := by
  intro used rest a phrase stops
  cases phrase with
  | plain column =>
    simp only [cons_append, nil_append]
    refine bind_eq_ok.2 ⟨_, parseIdentifier_of_type _ column _, ?_⟩
    simp only [stops .as_ mem_cons_self]
    rfl
  | named column as_ display =>
    simp only [cons_append]
    refine bind_eq_ok.2 ⟨_, parseIdentifier_of_type _ column _, ?_⟩
    simp only [accept_of_type as_]
    exact bind_eq_ok.2 ⟨_, parseIdentifier_of_type _ display _, rfl⟩

theorem parseOrderItem_complete : Complete [.desc, .asc] OrderPhrase parseOrderItem := by
  intro used rest a phrase stops
  cases phrase with
  | plain column =>
    simp only [cons_append, nil_append]
    refine bind_eq_ok.2 ⟨_, parseIdentifier_of_type _ column _, ?_⟩
    simp only [stops .desc (by simp), stops .asc (by simp)]
    rfl
  | @asc _ k column direction =>
    simp only [cons_append]
    refine bind_eq_ok.2 ⟨_, parseIdentifier_of_type _ column _, ?_⟩
    have other : k.type ≠ .desc := by simp [direction]
    simp only [accept_of_ne other, accept_of_type direction]
    rfl
  | desc column direction =>
    simp only [cons_append]
    refine bind_eq_ok.2 ⟨_, parseIdentifier_of_type _ column _, ?_⟩
    simp only [accept_of_type direction]
    rfl

/-! ## Predicates -/

theorem parseComparison_complete : Complete [] ComparisonPhrase parseComparison := by
  intro used rest a phrase stops
  cases phrase with
  | @comparison c o vs op param column operator value =>
    simp only [cons_append]
    refine bind_eq_ok.2 ⟨_, parseIdentifier_of_type _ column _, ?_⟩
    have noIn : o.type ≠ .in_ := fun h => by simp [h, compareOpOf] at operator
    have noLike : o.type ≠ .like := fun h => by simp [h, compareOpOf] at operator
    have noBetween : o.type ≠ .between := fun h => by simp [h, compareOpOf] at operator
    simp only [accept_of_ne noIn, accept_of_ne noLike, accept_of_ne noBetween, parseOperator,
      operator]
    exact bind_eq_ok.2 ⟨_, parseParameter_complete value stops, rfl⟩
  | @inList c k l r vs params column in_ open_ values close =>
    simp only [cons_append, append_assoc]
    refine bind_eq_ok.2 ⟨_, parseIdentifier_of_type _ column _, ?_⟩
    have list : commaList parseParameter (vs ++ r :: rest).length (vs ++ r :: rest) =
        .ok (params, r :: rest) :=
      commaList_enough parseParameter_complete (by simp) ValuePhrase.nonempty values
        (notNext_cons (by simp [close]) rest)
    simp only [accept_of_type in_]
    exact bind_eq_ok.2 ⟨_, expect_of_type open_ _, bind_eq_ok.2 ⟨_, list,
      bind_eq_ok.2 ⟨_, expect_of_type close _, rfl⟩⟩⟩
  | @like c k vs param column like value =>
    simp only [cons_append]
    refine bind_eq_ok.2 ⟨_, parseIdentifier_of_type _ column _, ?_⟩
    have noIn : k.type ≠ .in_ := by simp [like]
    simp only [accept_of_ne noIn, accept_of_type like]
    exact bind_eq_ok.2 ⟨_, parseParameter_complete value stops, rfl⟩
  | @between c k a vs ws low high column between first and_ second =>
    simp only [cons_append, append_assoc]
    refine bind_eq_ok.2 ⟨_, parseIdentifier_of_type _ column _, ?_⟩
    have noIn : k.type ≠ .in_ := by simp [between]
    have noLike : k.type ≠ .like := by simp [between]
    have joined : betweenAnd (a :: (ws ++ rest)) = .ok (ws ++ rest) := if_pos and_
    simp only [accept_of_ne noIn, accept_of_ne noLike, accept_of_type between]
    exact bind_eq_ok.2 ⟨_, parseParameter_complete first (by simp [NotNext]), bind_eq_ok.2 ⟨_, joined,
      bind_eq_ok.2 ⟨_, parseParameter_complete second stops, rfl⟩⟩⟩

section Chain

variable {separator : TokenType} {term : List Token → StatusOr (Predicate Parameter × List Token)}
  {Term : List Token → Predicate Parameter → Prop} {types : List TokenType}
  {join : Predicate Parameter → Predicate Parameter → Predicate Parameter}

/-- A chain is its first term and turns of the loop that lead from it to the whole tree. -/
theorem Chain.turns (complete : Complete types Term term) (other : separator ∉ types)
    {p : Predicate Parameter} (chain : Chain separator Term join ts p) :
    ∃ first later node turns, ts = first ++ later ∧ Term first node ∧ turns ≤ later.length ∧
      ∀ {rest : List Token}, NotNext types rest → NotNext types (later ++ rest) ∧
        ∀ fuel, chainLoop separator term join (fuel + turns) node (later ++ rest) =
          chainLoop separator term join fuel p rest := by
  induction chain with
  | @single ts p phrase =>
    exact ⟨ts, [], p, 0, (append_nil ts).symm, phrase, le_rfl, fun stops =>
      ⟨stops, fun _ => rfl⟩⟩
  | @snoc ts us s p q _ type right ih =>
    obtain ⟨first, later, node, turns, rfl, phrase, bound, runs⟩ := ih
    refine ⟨first, later ++ s :: us, node, turns + 1, append_assoc _ _ _, phrase, ?_, ?_⟩
    · rw [length_append, length_cons]
      omega
    intro rest stops
    have next : NotNext types (s :: (us ++ rest)) := notNext_cons (type ▸ other) _
    obtain ⟨before, run⟩ := runs next
    rw [append_assoc, cons_append]
    refine ⟨before, fun fuel => ?_⟩
    -- the last turn reads the separator and the right term
    rw [← Nat.add_assoc, Nat.add_right_comm, run (fuel + 1), chainLoop, accept_of_type type]
    show (term (us ++ rest) >>= fun right =>
      chainLoop separator term join fuel (join p right.1) right.2) = _
    rw [complete right stops]
    rfl

theorem parseChain_complete (complete : Complete types Term term) (other : separator ∉ types) :
    Complete (separator :: types) (Chain separator Term join) (parseChain separator term join) := by
  intro used rest p chain stops
  obtain ⟨first, later, node, turns, rfl, phrase, bound, runs⟩ := chain.turns complete other
  obtain ⟨before, run⟩ := runs (stops.mono (subset_cons_self _ _))
  rw [append_assoc]
  refine bind_eq_ok.2 ⟨_, complete phrase before, ?_⟩
  obtain ⟨fuel, enough⟩ : ∃ fuel, (later ++ rest).length = fuel + turns :=
    ⟨(later ++ rest).length - turns, by rw [length_append]; omega⟩
  show chainLoop separator term join (later ++ rest).length node (later ++ rest) = _
  rw [enough, run fuel]
  cases fuel with
  | zero => rfl
  | succ fuel => rw [chainLoop, stops separator mem_cons_self]

end Chain

theorem parsePredicate_complete : Complete [.or_, .and_] PredicatePhrase parsePredicate :=
  parseChain_complete (parseChain_complete parseComparison_complete (by simp)) (by simp)

/-! ## Clauses -/

variable {distinct : Bool}

theorem distinct_complete {ds : List Token} (phrase : DistinctPhrase ds distinct)
    (stops : NotNext [.distinct] rest) : (accept .distinct (ds ++ rest)).isSome = distinct ∧
      (accept .distinct (ds ++ rest)).getD (ds ++ rest) = rest := by
  cases phrase with
  | none =>
    rw [nil_append, stops .distinct mem_cons_self]
    exact ⟨rfl, rfl⟩
  | some type =>
    rw [cons_append, accept_of_type type]
    exact ⟨rfl, rfl⟩

theorem ColumnPhrase.first (phrase : ColumnPhrase ts a) :
    ∃ t us, ts = t :: us ∧ t.type = .identifier := by
  cases phrase with
  | plain column => exact ⟨_, _, rfl, column⟩
  | named column _ _ => exact ⟨_, _, rfl, column⟩

theorem columns_first {named : List (Bytes × Bytes)} (list : CommaSeparated ColumnPhrase ts named) :
    ∃ t us, ts = t :: us ∧ t.type = .identifier := by
  cases list with
  | single item => exact item.first
  | cons item _ _ =>
    obtain ⟨t, us, rfl, type⟩ := item.first
    exact ⟨t, _, rfl, type⟩

theorem parseProjection_complete (distinct : Bool) :
    Complete [.comma, .as_] (ProjectionPhrase distinct) (parseProjection distinct) := by
  intro used rest a phrase stops
  cases phrase with
  | countStar plain count open_ star close =>
    rw [parseProjection]
    simp only [cons_append, accept_of_type count, plain]
    exact bind_eq_ok.2 ⟨_, expect_of_type open_ _, bind_eq_ok.2 ⟨_, expect_of_type star _,
      bind_eq_ok.2 ⟨_, expect_of_type close _, rfl⟩⟩⟩
  | @all s star =>
    have noCount : s.type ≠ .count := by simp [star]
    rw [parseProjection]
    simp only [cons_append, nil_append, accept_of_ne noCount, accept_of_type star]
  | @columns _ named list =>
    obtain ⟨t, us, rfl, type⟩ := columns_first list
    have noCount : t.type ≠ .count := by simp [type]
    have noStar : t.type ≠ .star := by simp [type]
    have columns := commaList_enough parseColumn_complete (by simp) ColumnPhrase.nonempty list stops
    rw [parseProjection]
    simp only [cons_append, accept_of_ne noCount, accept_of_ne noStar]
    exact bind_eq_ok.2 ⟨_, columns, rfl⟩

theorem parseWhere_complete : Complete [.where_, .or_, .and_] WherePhrase parseWhere := by
  intro used rest a phrase stops
  rw [parseWhere]
  cases phrase with
  | none => simp only [nil_append, stops .where_ mem_cons_self]
  | some where_ predicate =>
    simp only [cons_append, accept_of_type where_]
    exact bind_eq_ok.2
      ⟨_, parsePredicate_complete predicate (stops.mono (subset_cons_self _ _)), rfl⟩

theorem parseOrder_complete : Complete [.order, .comma, .desc, .asc] OrderByPhrase parseOrder := by
  intro used rest a phrase stops
  rw [parseOrder]
  cases phrase with
  | none => simp only [nil_append, stops .order mem_cons_self]
  | @some k b ts _ order by_ list =>
    have read : parseOrderBy (ts ++ rest) = .ok (a, rest) :=
      commaList_enough parseOrderItem_complete (by simp) OrderPhrase.nonempty list
        (stops.mono (subset_cons_self _ _))
    simp only [cons_append, accept_of_type order]
    exact bind_eq_ok.2 ⟨_, expect_of_type by_ _, read⟩

theorem parseCount_of_type {n : Nat} (h : t.type = .numberLiteral)
    (value : simpleAtou64 t.text = some n) (ts : List Token) :
    parseCount what (t :: ts) = .ok (n, ts) := by
  rw [parseCount, if_pos h, value]

theorem parseLimit_complete :
    Complete [.limit] (fun ts n => CountPhrase .limit ts n ∧ n ≠ some 0) parseLimit := by
  rintro used rest a ⟨phrase, positive⟩ stops
  rw [parseLimit]
  cases phrase with
  | none => simp only [nil_append, stops .limit mem_cons_self]
  | some type number value =>
    simp only [cons_append, accept_of_type type]
    refine bind_eq_ok.2 ⟨_, parseCount_of_type _ number value _, if_neg ?_⟩
    simpa using positive

theorem parseOffset_complete : Complete [.offset] (CountPhrase .offset) parseOffset := by
  intro used rest a phrase stops
  rw [parseOffset]
  cases phrase with
  | none => simp only [nil_append, stops .offset mem_cons_self]
  | some type number value =>
    simp only [cons_append, accept_of_type type]
    exact bind_eq_ok.2 ⟨_, parseCount_of_type _ number value _, rfl⟩

/-! ## The statement -/

/-- What stands behind a clause: a later clause or the end. -/
theorem notNext_count {keyword : TokenType} {n : Option Nat} (phrase : CountPhrase keyword ts n)
    (other : keyword ∉ types) (stops : NotNext types rest) : NotNext types (ts ++ rest) := by
  cases phrase with
  | none => exact stops
  | some type _ _ => exact notNext_cons (type ▸ other) _

theorem notNext_orderBy {items : List OrderByItem} (phrase : OrderByPhrase ts items)
    (other : .order ∉ types) (stops : NotNext types rest) : NotNext types (ts ++ rest) := by
  cases phrase with
  | none => exact stops
  | some order _ _ => exact notNext_cons (order ▸ other) _

theorem notNext_projection {a : Projection} (phrase : ProjectionPhrase distinct ts a)
    (rest : List Token) : NotNext [.distinct] (ts ++ rest) := by
  cases phrase with
  | countStar _ count _ _ _ => exact notNext_cons (by simp [count]) _
  | all star => exact notNext_cons (by simp [star]) _
  | columns list =>
    obtain ⟨t, us, rfl, type⟩ := columns_first list
    exact notNext_cons (by simp [type]) _

variable {stmt : SelectStatement}

variable {tokens : List Token}

/-- **The parser reads every sentence.** -/
theorem parseStatement_complete (sentence : Sentence tokens stmt) :
    parseStatement tokens = .ok stmt := by
  obtain ⟨⟨s, f, t, e, ds, ps, ws, os, ls, ks, projection, rfl, select, distinct, projected, from_,
    ident, text, where_, order, limit, offset, end_, columns, aliases, all, count⟩, positive⟩ :=
    sentence
  -- no clause is carried on by what follows it
  have atEnd : ∀ {types : List TokenType}, .end_ ∉ types → NotNext types [e] :=
    fun other => notNext_cons (end_ ▸ other) []
  have atOffset : ∀ {types : List TokenType}, .offset ∉ types → .end_ ∉ types →
      NotNext types (ks ++ [e]) := fun later last => notNext_count offset later (atEnd last)
  have atLimit : ∀ {types : List TokenType}, .limit ∉ types → .offset ∉ types → .end_ ∉ types →
      NotNext types (ls ++ (ks ++ [e])) :=
    fun next later last => notNext_count limit next (atOffset later last)
  obtain ⟨isDistinct, behindDistinct⟩ := distinct_complete distinct
    (notNext_projection projected (f :: t :: (ws ++ (os ++ (ls ++ (ks ++ [e]))))))
  have atFrom : ∀ ts, NotNext [.comma, .as_] (f :: ts) := notNext_cons (by simp [from_])
  have readProjection := parseProjection_complete _ projected
    (atFrom (t :: (ws ++ (os ++ (ls ++ (ks ++ [e]))))))
  have readWhere := parseWhere_complete where_
    (notNext_orderBy order (by simp) (atLimit (by simp) (by simp) (by simp)))
  have readOrder := parseOrder_complete order (atLimit (by simp) (by simp) (by simp))
  have readLimit := parseLimit_complete ⟨limit, positive⟩ (atOffset (by simp) (by simp))
  have readOffset := parseOffset_complete offset (atEnd (by simp))
  rw [cons_append]
  refine bind_eq_ok.2 ⟨_, expect_of_type select _, ?_⟩
  simp only [isDistinct, behindDistinct]
  refine bind_eq_ok.2 ⟨_, readProjection, bind_eq_ok.2 ⟨_, expect_of_type from_ _,
    bind_eq_ok.2 ⟨_, parseIdentifier_of_type _ ident _, bind_eq_ok.2 ⟨_, readWhere,
    bind_eq_ok.2 ⟨_, readOrder, bind_eq_ok.2 ⟨_, readLimit, bind_eq_ok.2 ⟨_, readOffset,
    bind_eq_ok.2 ⟨(), if_pos end_, ?_⟩⟩⟩⟩⟩⟩⟩⟩
  rw [text, ← columns, ← aliases, ← all, ← count]
  rfl

/-- The tokens end with their only end token. -/
structure Ended (body : List Token) (last : Token) : Prop where
  open_ : ∀ t ∈ body, t.type ≠ .end_
  closed : last.type = .end_

theorem parseStatement_iff {body : List Token} {last : Token} (ended : Ended body last) :
    parseStatement (body ++ [last]) = .ok stmt ↔ Sentence (body ++ [last]) stmt := by
  refine ⟨fun parsed => ?_, parseStatement_complete⟩
  obtain ⟨used, after, same, sentence⟩ := parseStatement_sound parsed
  -- the sentence has an end token, so nothing is left behind it
  obtain ⟨front, e, rfl, end_⟩ : ∃ front e, used = front ++ [e] ∧ e.type = .end_ := by
    obtain ⟨⟨s, f, t, e, ds, ps, ws, os, ls, ks, _, rfl, _, _, _, _, _, _, _, _, _, _, end_, _⟩, _⟩ :=
      sentence
    exact ⟨s :: ds ++ (ps ++ f :: t :: (ws ++ (os ++ (ls ++ ks)))), e, by simp, end_⟩
  rcases eq_nil_or_concat after with rfl | ⟨others, final, rfl⟩
  · rw [same, append_nil]
    exact sentence
  · rw [concat_eq_append, ← append_assoc] at same
    obtain ⟨rfl, _⟩ := append_inj' same rfl
    exact absurd end_ (ended.open_ e (by simp))

theorem Sentence.unique {stmt' : SelectStatement} (sentence : Sentence tokens stmt)
    (sentence' : Sentence tokens stmt') : stmt = stmt' := by
  have same := (parseStatement_complete sentence).symm.trans (parseStatement_complete sentence')
  injection same

end OpaqueDb.Sql
