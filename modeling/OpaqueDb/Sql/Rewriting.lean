/-
# Sql.Rewriting -- parsing with the literals replaced by parameters

The parser does not look into a value: replacing every value literal of a token list
by a bound parameter changes nothing in the parse but those leaves.  `Lifts` relates
a token list with its rewritten form, listing for every replaced literal the
parameter's name and the literal's value; the number after LIMIT or OFFSET is not a
value and stays.  `Rewrites` is the property of one kind of phrase; as the parser reads
exactly the sentences, `parseStatement_lifts` follows for it.
-/
import OpaqueDb.Sql.Recognition

namespace OpaqueDb.Sql

open OpaqueDb.Core List

set_option autoImplicit false

universe u v

/-! ## Trees of one shape -/

/-- The tree with every value position mapped. -/
def Predicate.map {α : Type u} {β : Type v} (f : α → β) : Predicate α → Predicate β
  | .comparison column op param => .comparison column op (f param)
  | .inList column params => .inList column (params.map f)
  | .like column param => .like column (f param)
  | .between column low high => .between column (f low) (f high)
  | .and left right => .and (left.map f) (right.map f)
  | .or left right => .or (left.map f) (right.map f)

/-- The tree without its values. -/
def Predicate.shape {α : Type u} (p : Predicate α) : Predicate Unit :=
  p.map fun _ => ()

/-- Value lists that differ by the named literals becoming parameters. -/
inductive Binds : List (Bytes × Value) → List Parameter → List Parameter → Prop
  | nil : Binds [] [] []
  | bound {pairs : List (Bytes × Value)} {vs vs' : List Parameter} (name : Bytes) :
      Binds pairs vs vs' → Binds pairs (.bound name :: vs) (.bound name :: vs')
  | lift {pairs : List (Bytes × Value)} {vs vs' : List Parameter} (name : Bytes) (value : Value) :
      Binds pairs vs vs' →
        Binds ((name, value) :: pairs) (.literal value :: vs) (.bound name :: vs')

theorem Binds.append {p q : List (Bytes × Value)} {vs vs' ws ws' : List Parameter}
    (first : Binds p vs vs') (second : Binds q ws ws') :
    Binds (p ++ q) (vs ++ ws) (vs' ++ ws') := by
  induction first with
  | nil => exact second
  | bound name _ ih => exact .bound name ih
  | lift name value _ ih => exact .lift name value ih

variable {pairs : List (Bytes × Value)}

theorem Binds.length_eq {vs vs' : List Parameter} (binds : Binds pairs vs vs') :
    vs'.length = vs.length := by
  induction binds with
  | nil => rfl
  | bound _ _ ih => rw [length_cons, length_cons, ih]
  | lift _ _ _ ih => rw [length_cons, length_cons, ih]

/-- With literals only, the two lists are the values and the names. -/
theorem Binds.all_literal {vs vs' : List Parameter} (binds : Binds pairs vs vs')
    (literal : ∀ v ∈ vs, v.isLiteral = true) :
    vs = pairs.map (fun p => .literal p.2) ∧ vs' = pairs.map (fun p => .bound p.1) := by
  induction binds with
  | nil => exact ⟨rfl, rfl⟩
  | bound name _ _ =>
    have := literal (.bound name) mem_cons_self
    simp [Parameter.isLiteral] at this
  | lift name value _ ih =>
    obtain ⟨values, names⟩ := ih fun v member => literal v (mem_cons_of_mem _ member)
    exact ⟨by rw [values]; rfl, by rw [names]; rfl⟩

/-- One tree with the named literals of another replaced by parameters. -/
def Rebinds (pairs : List (Bytes × Value)) (p p' : Predicate Parameter) : Prop :=
  p'.shape = p.shape ∧ Binds pairs p.values p'.values

theorem Rebinds.and {used used' : List (Bytes × Value)} {p p' q q' : Predicate Parameter}
    (left : Rebinds used p p') (right : Rebinds used' q q') :
    Rebinds (used ++ used') (.and p q) (.and p' q') :=
  ⟨congrArg₂ Predicate.and left.1 right.1, left.2.append right.2⟩

theorem Rebinds.or {used used' : List (Bytes × Value)} {p p' q q' : Predicate Parameter}
    (left : Rebinds used p p') (right : Rebinds used' q q') :
    Rebinds (used ++ used') (.or p q) (.or p' q') :=
  ⟨congrArg₂ Predicate.or left.1 right.1, left.2.append right.2⟩

/-! ## Token lists -/

/-- A token list ended by its only end token, and its rewritten form. -/
inductive Lifts : Bool → List (Bytes × Value) → List Token → List Token → Prop
  | done {afterCount : Bool} {t t' : Token} (end_ : t.type = .end_) (type : t'.type = t.type) :
      Lifts afterCount [] [t] [t']
  | same {afterCount : Bool} {pairs : List (Bytes × Value)} {t t' : Token} {ts ts' : List Token}
      (inner : t.type ≠ .end_) (type : t'.type = t.type) (text : t'.text = t.text) (kept : isLifted afterCount t = false)
      (rest : Lifts (isCount t.type) pairs ts ts') : Lifts afterCount pairs (t :: ts) (t' :: ts')
  | lift {afterCount : Bool} {pairs : List (Bytes × Value)} {t t' : Token} {ts ts' : List Token}
      (value : Value) (lifted : isLifted afterCount t = true) (known : literalValue t = some value)
      (type : t'.type = .parameter) (rest : Lifts false pairs ts ts') :
      Lifts afterCount ((t'.text, value) :: pairs) (t :: ts) (t' :: ts')

/-- A type that is neither a value nor the end is left alone. -/
def isPlain (type : TokenType) : Bool :=
  type != .stringLiteral && type != .numberLiteral && type != .parameter && type != .end_

section Tokens

variable {afterCount : Bool} {pairs : List (Bytes × Value)} {t : Token} {ts ts' : List Token}
  {type : TokenType}

theorem literal_of_lifted (lifted : isLifted afterCount t = true) :
    t.type = .stringLiteral ∨ t.type = .numberLiteral := by
  simp only [isLifted, isLiteralToken, Bool.and_eq_true, Bool.or_eq_true, beq_iff_eq] at lifted
  exact lifted.1

/-- A plain token stays. -/
theorem Lifts.token (known : t.type = type) (plain : isPlain type = true)
    (lifts : Lifts afterCount pairs (t :: ts) ts') :
    ∃ t' us', ts' = t' :: us' ∧ t'.type = type ∧ t'.text = t.text ∧ Lifts (isCount type) pairs ts us' := by
  subst known
  cases lifts with
  | done end_ _ => simp [isPlain, end_] at plain
  | @same _ _ _ t' _ us' _ same_ text _ later => exact ⟨t', us', rfl, same_, text, later⟩
  | lift _ lifted _ _ _ => rcases literal_of_lifted lifted with h | h <;> simp [isPlain, h] at plain

/-- The number after LIMIT or OFFSET stays. -/
theorem Lifts.number (known : t.type = .numberLiteral) (lifts : Lifts true pairs (t :: ts) ts') :
    ∃ t' us', ts' = t' :: us' ∧ t'.type = .numberLiteral ∧ t'.text = t.text ∧ Lifts false pairs ts us' := by
  cases lifts with
  | done end_ _ => simp [known] at end_
  | @same _ _ _ t' _ us' _ same_ text _ later =>
    rw [known] at later same_
    exact ⟨t', us', rfl, same_, text, later⟩
  | lift _ lifted _ _ _ => simp [isLifted, known] at lifted

theorem Lifts.ended (lifts : Lifts afterCount pairs ts ts') :
    ∃ body last, ts = body ++ [last] ∧ Ended body last := by
  induction lifts with
  | @done _ t _ end_ _ => exact ⟨[], t, rfl, nofun, end_⟩
  | @same _ _ t _ _ _ inner _ _ _ _ ih =>
    obtain ⟨body, last, rfl, ended⟩ := ih
    exact ⟨t :: body, last, rfl, forall_mem_cons.2 ⟨inner, ended.open_⟩, ended.closed⟩
  | @lift _ _ t _ _ _ _ lifted _ _ _ ih =>
    obtain ⟨body, last, rfl, ended⟩ := ih
    refine ⟨t :: body, last, rfl, forall_mem_cons.2 ⟨?_, ended.open_⟩, ended.closed⟩
    rcases literal_of_lifted lifted with h | h <;> simp [h]

end Tokens

/-! ## Phrases -/

variable {α : Type}

/-- A rewritten phrase is a phrase; `R` says what the replaced literals do to its meaning. -/
def Rewrites (R : List (Bytes × Value) → α → α → Prop) (Phrase : List Token → α → Prop) : Prop :=
  ∀ {pairs : List (Bytes × Value)} {us rest ts' : List Token} {a : α}, Phrase us a →
    Lifts false pairs (us ++ rest) ts' → ∃ used more us' rest' a', pairs = used ++ more ∧
      ts' = us' ++ rest' ∧ Phrase us' a' ∧ R used a a' ∧ Lifts false more rest rest'

/-- Nothing is replaced and nothing changes. -/
def Unchanged (used : List (Bytes × Value)) (a a' : α) : Prop :=
  used = [] ∧ a' = a

/-- A value position: a literal becomes its parameter, a parameter stays. -/
theorem value_rewrites : Rewrites (fun used a a' => Binds used [a] [a']) ValuePhrase := by
  intro pairs us rest ts' a phrase lifts
  cases phrase with
  | @literal t value known =>
    have literal := literalValue_type known
    cases lifts with
    | done end_ _ => simp [end_] at literal
    | same _ _ _ kept _ => rcases literal with h | h <;> simp [isLifted, isLiteralToken, h] at kept
    | @lift _ more _ t' _ us' value' _ known' type later =>
      cases known.symm.trans known'
      exact ⟨[_], more, [t'], us', _, rfl, rfl, .bound type, .lift _ _ .nil, later⟩
  | @bound t type =>
    cases lifts with
    | done end_ _ => simp [end_] at type
    | @same _ _ _ t' _ us' _ same_ text _ later =>
      rw [type] at later same_
      exact ⟨[], pairs, [t'], us', _, rfl, rfl, .bound same_, text ▸ .bound _ .nil, later⟩
    | lift _ lifted _ _ _ => rcases literal_of_lifted lifted with h | h <;> simp [h] at type

variable {Item : List Token → α → Prop}

theorem list_rewrites {R : List (Bytes × Value) → α → α → Prop}
    {S : List (Bytes × Value) → List α → List α → Prop} (items : Rewrites R Item)
    (single : ∀ {used a a'}, R used a a' → S used [a] [a'])
    (cons : ∀ {used used' a a' l l'}, R used a a' → S used' l l' →
      S (used ++ used') (a :: l) (a' :: l')) : Rewrites S (CommaSeparated Item) := by
  intro pairs us rest ts' l phrases lifts
  induction phrases generalizing pairs ts' with
  | single item =>
    obtain ⟨used, more, us', rest', a', rfl, rfl, item', related, later⟩ := items item lifts
    exact ⟨used, more, us', rest', [a'], rfl, rfl, .single item', single related, later⟩
  | cons item comma _ ih =>
    rw [append_assoc] at lifts
    obtain ⟨used, more, us', ts₁, a', rfl, rfl, item', related, lifts₁⟩ := items item lifts
    obtain ⟨c, ts₂, rfl, comma', _, lifts₂⟩ := lifts₁.token comma rfl
    obtain ⟨used', more', vs', rest', l', rfl, rfl, others, related', later⟩ := ih lifts₂
    exact ⟨used ++ used', more', us' ++ c :: vs', rest', a' :: l', (append_assoc ..).symm,
      by simp, .cons item' comma' others, cons related related', later⟩

theorem unchanged_list (items : Rewrites Unchanged Item) :
    Rewrites Unchanged (CommaSeparated Item) :=
  list_rewrites items (fun h => ⟨h.1, by rw [h.2]⟩)
    fun h h' => ⟨by rw [h.1, h'.1]; rfl, by rw [h.2, h'.2]⟩

theorem column_rewrites : Rewrites Unchanged ColumnPhrase := by
  intro pairs us rest ts' a phrase lifts
  cases phrase with
  | plain column =>
    obtain ⟨c, ts₁, rfl, column', text, later⟩ := Lifts.token column rfl lifts
    exact ⟨[], pairs, [c], ts₁, _, rfl, rfl, .plain column', ⟨rfl, by rw [text]⟩, later⟩
  | named column as_ display =>
    obtain ⟨c, ts₁, rfl, column', text, lifts₁⟩ := Lifts.token column rfl lifts
    obtain ⟨k, ts₂, rfl, as', _, lifts₂⟩ := lifts₁.token as_ rfl
    obtain ⟨d, ts₃, rfl, display', text', later⟩ := lifts₂.token display rfl
    exact ⟨[], pairs, [c, k, d], ts₃, _, rfl, rfl, .named column' as' display',
      ⟨rfl, by rw [text, text']⟩, later⟩

theorem order_rewrites : Rewrites Unchanged OrderPhrase := by
  intro pairs us rest ts' a phrase lifts
  cases phrase with
  | plain column =>
    obtain ⟨c, ts₁, rfl, column', text, later⟩ := Lifts.token column rfl lifts
    exact ⟨[], pairs, [c], ts₁, _, rfl, rfl, .plain column', ⟨rfl, by rw [text]⟩, later⟩
  | asc column direction =>
    obtain ⟨c, ts₁, rfl, column', text, lifts₁⟩ := Lifts.token column rfl lifts
    obtain ⟨k, ts₂, rfl, direction', _, later⟩ := lifts₁.token direction rfl
    exact ⟨[], pairs, [c, k], ts₂, _, rfl, rfl, .asc column' direction', ⟨rfl, by rw [text]⟩, later⟩
  | desc column direction =>
    obtain ⟨c, ts₁, rfl, column', text, lifts₁⟩ := Lifts.token column rfl lifts
    obtain ⟨k, ts₂, rfl, direction', _, later⟩ := lifts₁.token direction rfl
    exact ⟨[], pairs, [c, k], ts₂, _, rfl, rfl, .desc column' direction', ⟨rfl, by rw [text]⟩, later⟩

/-! ## Predicates -/

theorem comparison_rewrites : Rewrites Rebinds ComparisonPhrase := by
  intro pairs us rest ts' a phrase lifts
  cases phrase with
  | @comparison c o vs op param column operator value =>
    have plain : isPlain o.type = true ∧ isCount o.type = false := by
      cases h : o.type <;> simp_all [compareOpOf, isPlain, isCount]
    obtain ⟨c', ts₁, rfl, column', text, lifts₁⟩ := Lifts.token column rfl lifts
    obtain ⟨o', ts₂, rfl, operator', _, lifts₂⟩ := lifts₁.token rfl plain.1
    rw [plain.2] at lifts₂
    obtain ⟨used, more, vs', rest', param', rfl, rfl, value', binds, later⟩ :=
      value_rewrites value lifts₂
    exact ⟨used, more, c' :: o' :: vs', rest', _, rfl, rfl,
      .comparison column' (operator'.symm ▸ operator) value', ⟨by rw [text]; rfl, binds⟩, later⟩
  | inList column in_ open_ values close =>
    simp only [cons_append, append_assoc] at lifts
    obtain ⟨c', ts₁, rfl, column', text, lifts₁⟩ := Lifts.token column rfl lifts
    obtain ⟨k', ts₂, rfl, in', _, lifts₂⟩ := lifts₁.token in_ rfl
    obtain ⟨l', ts₃, rfl, open', _, lifts₃⟩ := lifts₂.token open_ rfl
    obtain ⟨used, more, vs', ts₄, params', rfl, rfl, values', binds, lifts₄⟩ :=
      list_rewrites value_rewrites id (fun h h' => h.append h') values lifts₃
    obtain ⟨r', rest', rfl, close', _, later⟩ := lifts₄.token close rfl
    refine ⟨used, more, c' :: k' :: l' :: (vs' ++ [r']), rest', _, rfl, by simp,
      .inList column' in' open' values' close', ⟨?_, binds⟩, later⟩
    simp [Predicate.shape, Predicate.map, binds.length_eq, text]
  | like column like value =>
    obtain ⟨c', ts₁, rfl, column', text, lifts₁⟩ := Lifts.token column rfl lifts
    obtain ⟨k', ts₂, rfl, like', _, lifts₂⟩ := lifts₁.token like rfl
    obtain ⟨used, more, vs', rest', param', rfl, rfl, value', binds, later⟩ :=
      value_rewrites value lifts₂
    exact ⟨used, more, c' :: k' :: vs', rest', _, rfl, rfl, .like column' like' value',
      ⟨by rw [text]; rfl, binds⟩, later⟩
  | between column between first and_ second =>
    simp only [cons_append, append_assoc] at lifts
    obtain ⟨c', ts₁, rfl, column', text, lifts₁⟩ := Lifts.token column rfl lifts
    obtain ⟨k', ts₂, rfl, between', _, lifts₂⟩ := lifts₁.token between rfl
    obtain ⟨used, more, vs', ts₃, low', rfl, rfl, first', binds, lifts₃⟩ := value_rewrites first lifts₂
    obtain ⟨a', ts₄, rfl, and', _, lifts₄⟩ := lifts₃.token and_ rfl
    obtain ⟨used', more', ws', rest', high', rfl, rfl, second', binds', later⟩ :=
      value_rewrites second lifts₄
    exact ⟨used ++ used', more', c' :: k' :: (vs' ++ a' :: ws'), rest', _, (append_assoc ..).symm,
      by simp, .between column' between' first' and' second', ⟨by rw [text]; rfl, binds.append binds'⟩,
      later⟩

theorem chain_rewrites {separator : TokenType} {Term : List Token → Predicate Parameter → Prop}
    {join : Predicate Parameter → Predicate Parameter → Predicate Parameter}
    (plain : isPlain separator = true) (uncounted : isCount separator = false)
    (terms : Rewrites Rebinds Term)
    (joins : ∀ {used used' p p' q q'}, Rebinds used p p' → Rebinds used' q q' →
      Rebinds (used ++ used') (join p q) (join p' q')) :
    Rewrites Rebinds (Chain separator Term join) := by
  intro pairs us rest ts' p chain lifts
  induction chain generalizing pairs rest ts' with
  | single term =>
    obtain ⟨used, more, us', rest', p', rfl, rfl, term', rebinds, later⟩ := terms term lifts
    exact ⟨used, more, us', rest', p', rfl, rfl, .single term', rebinds, later⟩
  | snoc _ type right ih =>
    rw [append_assoc] at lifts
    obtain ⟨used, more, us', ts₁, p', rfl, rfl, left', rebinds, lifts₁⟩ := ih lifts
    obtain ⟨s', ts₂, rfl, type', _, lifts₂⟩ := lifts₁.token type plain
    rw [uncounted] at lifts₂
    obtain ⟨used', more', vs', rest', q', rfl, rfl, right', rebinds', later⟩ := terms right lifts₂
    exact ⟨used ++ used', more', us' ++ s' :: vs', rest', _, (append_assoc ..).symm, by simp,
      .snoc left' type' right', joins rebinds rebinds', later⟩

theorem predicate_rewrites : Rewrites Rebinds PredicatePhrase :=
  chain_rewrites rfl rfl (chain_rewrites rfl rfl comparison_rewrites Rebinds.and) Rebinds.or

/-! ## Statements -/

theorem distinct_rewrites : Rewrites Unchanged DistinctPhrase := by
  intro pairs us rest ts' a phrase lifts
  cases phrase with
  | none => exact ⟨[], pairs, [], ts', _, rfl, rfl, .none, ⟨rfl, rfl⟩, lifts⟩
  | some type =>
    obtain ⟨k, ts₁, rfl, type', _, later⟩ := Lifts.token type rfl lifts
    exact ⟨[], pairs, [k], ts₁, _, rfl, rfl, .some type', ⟨rfl, rfl⟩, later⟩

theorem projection_rewrites (distinct : Bool) : Rewrites Unchanged (ProjectionPhrase distinct) := by
  intro pairs us rest ts' a phrase lifts
  cases phrase with
  | countStar plain count open_ star close =>
    obtain ⟨c, ts₁, rfl, count', _, lifts₁⟩ := Lifts.token count rfl lifts
    obtain ⟨l, ts₂, rfl, open', _, lifts₂⟩ := lifts₁.token open_ rfl
    obtain ⟨s, ts₃, rfl, star', _, lifts₃⟩ := lifts₂.token star rfl
    obtain ⟨r, ts₄, rfl, close', _, later⟩ := lifts₃.token close rfl
    exact ⟨[], pairs, [c, l, s, r], ts₄, _, rfl, rfl, .countStar plain count' open' star' close',
      ⟨rfl, rfl⟩, later⟩
  | all star =>
    obtain ⟨s, ts₁, rfl, star', _, later⟩ := Lifts.token star rfl lifts
    exact ⟨[], pairs, [s], ts₁, _, rfl, rfl, .all star', ⟨rfl, rfl⟩, later⟩
  | columns list =>
    obtain ⟨_, more, us', rest', _, rfl, rfl, list', ⟨rfl, rfl⟩, later⟩ :=
      unchanged_list column_rewrites list lifts
    exact ⟨[], more, us', rest', _, rfl, rfl, .columns list', ⟨rfl, rfl⟩, later⟩

/-- The optional predicate of a statement. -/
def RebindsWhere (used : List (Bytes × Value)) :
    Option (Predicate Parameter) → Option (Predicate Parameter) → Prop
  | none, none => used = []
  | some p, some p' => Rebinds used p p'
  | _, _ => False

theorem where_rewrites : Rewrites RebindsWhere WherePhrase := by
  intro pairs us rest ts' a phrase lifts
  cases phrase with
  | none => exact ⟨[], pairs, [], ts', _, rfl, rfl, .none, rfl, lifts⟩
  | some where_ predicate =>
    obtain ⟨k, ts₁, rfl, where', _, lifts₁⟩ := Lifts.token where_ rfl lifts
    obtain ⟨used, more, us', rest', p', rfl, rfl, predicate', rebinds, later⟩ :=
      predicate_rewrites predicate lifts₁
    exact ⟨used, more, k :: us', rest', some p', rfl, rfl, .some where' predicate', rebinds, later⟩

theorem orderBy_rewrites : Rewrites Unchanged OrderByPhrase := by
  intro pairs us rest ts' a phrase lifts
  cases phrase with
  | none => exact ⟨[], pairs, [], ts', _, rfl, rfl, .none, ⟨rfl, rfl⟩, lifts⟩
  | some order by_ list =>
    obtain ⟨k, ts₁, rfl, order', _, lifts₁⟩ := Lifts.token order rfl lifts
    obtain ⟨b, ts₂, rfl, by', _, lifts₂⟩ := lifts₁.token by_ rfl
    obtain ⟨_, more, us', rest', _, rfl, rfl, list', ⟨rfl, rfl⟩, later⟩ :=
      unchanged_list order_rewrites list lifts₂
    exact ⟨[], more, k :: b :: us', rest', _, rfl, rfl, .some order' by' list', ⟨rfl, rfl⟩, later⟩

theorem count_rewrites {keyword : TokenType} (counted : isCount keyword = true) :
    Rewrites Unchanged (CountPhrase keyword) := by
  intro pairs us rest ts' a phrase lifts
  cases phrase with
  | none => exact ⟨[], pairs, [], ts', _, rfl, rfl, .none, ⟨rfl, rfl⟩, lifts⟩
  | some type number value =>
    have plain : isPlain keyword = true := by cases keyword <;> simp_all [isCount, isPlain]
    obtain ⟨k, ts₁, rfl, type', _, lifts₁⟩ := Lifts.token type plain lifts
    rw [counted] at lifts₁
    obtain ⟨t, ts₂, rfl, number', text, later⟩ := lifts₁.number number
    exact ⟨[], pairs, [k, t], ts₂, _, rfl, rfl, .some type' number' (text ▸ value), ⟨rfl, rfl⟩, later⟩

variable {stmt : SelectStatement}

/-- A rewritten sentence says the same, with the replaced literals bound to their parameters. -/
theorem Sentence.rewrites {ts ts' : List Token} (sentence : Sentence ts stmt)
    (lifts : Lifts false pairs ts ts') : ∃ where_', Sentence ts' { stmt with where_ := where_' } ∧
      RebindsWhere pairs stmt.where_ where_' := by
  obtain ⟨⟨s, f, t, e, ds, ps, ws, os, ls, ks, projection, rfl, select, distinct, projected, from_,
    ident, text, where_, order, limit, offset, end_, meaning⟩, positive⟩ := sentence
  obtain ⟨s', ts₁, rfl, select', _, lifts₁⟩ := Lifts.token select rfl lifts
  obtain ⟨_, _, ds', ts₂, _, rfl, rfl, distinct', ⟨rfl, rfl⟩, lifts₂⟩ :=
    distinct_rewrites distinct lifts₁
  obtain ⟨_, _, ps', ts₃, _, rfl, rfl, projected', ⟨rfl, rfl⟩, lifts₃⟩ :=
    projection_rewrites _ projected lifts₂
  obtain ⟨f', ts₄, rfl, from', _, lifts₄⟩ := lifts₃.token from_ rfl
  obtain ⟨t', ts₅, rfl, ident', text', lifts₅⟩ := lifts₄.token ident rfl
  obtain ⟨used, _, ws', ts₆, where_', rfl, rfl, where', rebinds, lifts₆⟩ :=
    where_rewrites where_ lifts₅
  obtain ⟨_, _, os', ts₇, _, rfl, rfl, order', ⟨rfl, rfl⟩, lifts₇⟩ := orderBy_rewrites order lifts₆
  obtain ⟨_, _, ls', ts₈, _, rfl, rfl, limit', ⟨rfl, rfl⟩, lifts₈⟩ := count_rewrites rfl limit lifts₇
  obtain ⟨_, _, ks', ts₉, _, rfl, rfl, offset', ⟨rfl, rfl⟩, lifts₉⟩ := count_rewrites rfl offset lifts₈
  cases lifts₉ with
  | @done _ _ e' _ type =>
    refine ⟨where_', ⟨⟨s', f', t', e', ds', ps', ws', os', ls', ks', _, rfl, select', distinct',
      projected', from', ident', text'.trans text, where', order', limit', offset', type.trans end_,
      meaning⟩, positive⟩, by simpa using rebinds⟩
  | same inner _ _ _ _ => exact absurd end_ inner
  | lift _ lifted _ _ _ => rcases literal_of_lifted lifted with h | h <;> simp [h] at end_

/-- **Rewriting is transparent to the parser.**  The rewritten list parses to the same
statement, with exactly the replaced literals bound to their parameters. -/
theorem parseStatement_lifts {ts ts' : List Token} (lifts : Lifts false pairs ts ts')
    (parsed : parseStatement ts = .ok stmt) :
    ∃ where_', parseStatement ts' = .ok { stmt with where_ := where_' } ∧
      RebindsWhere pairs stmt.where_ where_' := by
  obtain ⟨body, last, rfl, ended⟩ := lifts.ended
  obtain ⟨where_', sentence', rebinds⟩ := ((parseStatement_iff ended).1 parsed).rewrites lifts
  exact ⟨where_', parseStatement_complete sentence', rebinds⟩

end OpaqueDb.Sql
