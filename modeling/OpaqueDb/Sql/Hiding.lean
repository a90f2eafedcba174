/-
# Sql.Hiding -- what the client's rewriting hides

The text outside the match literals determines everything the client sends but the
values: two accepted texts that agree there have the same template, and the same
limit, offset and count flag (`template_hides_literals`).

The step that carries the proof is maximal munch.  Equal text is divided into equal
lexemes, whatever literals stand around it, because one character of lookahead decides
where a lexeme ends (`lexeme_unique`, `pieces_unique`).
-/
import OpaqueDb.Sql.Prepare

namespace OpaqueDb.Sql

open OpaqueDb.Core List

set_option autoImplicit false

/-! ## Text outside the literals -/

/-- The source text from `start` on, cut at the literals and without them. -/
def outside (src : Bytes) : Nat → List Token → List Bytes
  | start, [] => [src.drop start]
  | start, t :: ts => (src.drop start).take (t.pos - start) :: outside src (t.pos + literalSpan t) ts

/-- The pieces of a text with parameters `i`, `i + 1`, ... of `n` between them. -/
def weave (n i : Nat) : List Bytes → Bytes
  | [] => []
  | s :: ss => s ++ (ss.zipIdx i).flatMap fun q => (colon :: parameterName n q.2) ++ q.1

/-- The match literals of a text at their place in it: every literal token but the
number of a LIMIT or OFFSET. -/
def matchLiterals (sql : Bytes) : StatusOr (List Token) := do
  let tokens ← tokenize (trimStatement sql)
  return (liftedTokens .end_ tokens).map fun t =>
    { t with pos := t.pos + (sql.takeWhile isSpace).length }

/-- The pieces between the lifted ones, as text: the first segment and the others. -/
def segments : TokenType → List Piece → Bytes → Bytes × List Bytes
  | _, [], tail => (tail, [])
  | prev, p :: ps, tail =>
    if p.lifted prev then (p.gap, (segments p.type ps tail).1 :: (segments p.type ps tail).2)
    else (p.gap ++ (p.lexeme ++ (segments p.type ps tail).1), (segments p.type ps tail).2)

section Segments

variable {prev : TokenType} {p : Piece} {ps : List Piece} {tail : Bytes}

theorem segments_lifted (lifted : p.lifted prev = true) :
    segments prev (p :: ps) tail =
      (p.gap, (segments p.type ps tail).1 :: (segments p.type ps tail).2) := by
  rw [segments, if_pos lifted]

theorem segments_kept (kept : ¬ p.lifted prev = true) :
    segments prev (p :: ps) tail =
      (p.gap ++ (p.lexeme ++ (segments p.type ps tail).1), (segments p.type ps tail).2) := by
  rw [segments, if_neg kept]

end Segments

theorem segments_isPrefix {tail : Bytes} : ∀ (ps : List Piece) (prev : TokenType),
    (segments prev ps tail).1 <+: render ps tail
  | [], _ => prefix_rfl
  | p :: ps, prev => by
    rw [render]
    by_cases lifted : p.lifted prev = true
    · rw [segments_lifted lifted]
      exact prefix_append _ _
    · rw [segments_kept lifted]
      simpa using segments_isPrefix ps p.type

theorem outside_render (tail : Bytes) : ∀ (ps : List Piece) (prev : TokenType) (before : Bytes) (start : Nat),
    WellLexed ps [] → start ≤ before.length →
    outside (before ++ render ps tail) start (liftedTokens prev (tokensFrom before.length ps tail)) =
      (before.drop start ++ (segments prev ps tail).1) :: (segments prev ps tail).2
  | [], prev, before, start, _, le => by
    rw [liftedTokens_end, outside, segments, render, drop_append_of_le_length le]
  | p :: ps, prev, before, start, ⟨_, read, later⟩, le => by
    have place := p.place before
    rw [tokensFrom, liftedTokens_cons, lifted_token, p.ahead, place]
    by_cases lifted : p.lifted prev = true
    · have span := literalSpan_eq read (before.length + p.gap.length)
        (isLiteralToken_of_lifted lifted)
      have front : ((before ++ p.gap ++ p.lexeme ++ render ps tail).drop start).take
          (before.length + p.gap.length - start) = before.drop start ++ p.gap := by
        rw [append_assoc, append_assoc, drop_append_of_le_length le,
          ← append_assoc (before.drop start)]
        apply take_left'
        rw [length_append, length_drop]
        omega
      rw [if_pos lifted, segments_lifted lifted, outside, span, place, front,
        outside_render tail ps p.type (before ++ p.gap ++ p.lexeme) _ later le_rfl, drop_length]
      rfl
    · rw [if_neg lifted, segments_kept lifted,
        outside_render tail ps p.type (before ++ p.gap ++ p.lexeme) start later (by simp; omega),
        append_assoc before, drop_append_of_le_length le]
      simp

theorem weave_cons (n i : Nat) (gap s : Bytes) (ss : List Bytes) :
    weave n i (gap :: s :: ss) = gap ++ ((colon :: parameterName n i) ++ weave n (i + 1) (s :: ss)) := by
  simp [weave]

/-- Weaving the parameters between the segments gives the template. -/
theorem weave_segments (n : Nat) (tail : Bytes) : ∀ (ps : List Piece) (prev : TokenType) (i : Nat),
    weave n i ((segments prev ps tail).1 :: (segments prev ps tail).2) =
      render (templatePieces n prev i ps) tail
  | [], _, _ => by simp [weave, segments, templatePieces, render]
  | p :: ps, prev, i => by
    rw [templatePieces]
    by_cases lifted : p.lifted prev = true
    · rw [segments_lifted lifted, if_pos lifted, weave_cons, weave_segments n tail ps p.type (i + 1)]
      rfl
    · have rest := weave_segments n tail ps p.type i
      rw [segments_kept lifted, if_neg lifted, render, ← rest]
      simp [weave]

/-! ## Equal segments -/

theorem stops_of_prefix {type : TokenType} {s after : Bytes} (isPrefix : s <+: after)
    (stops : Stops type after) : Stops type s := by
  obtain ⟨rest, rfl⟩ := isPrefix
  cases s with
  | nil => rfl
  | cons c s => exact stops

/-- Maximal munch: two lexemes read at the start of one text are one lexeme. -/
theorem lexeme_unique {p p' : Piece} {after after' : Bytes} (read : Reads p after)
    (read' : Reads p' after') (same : p.lexeme ++ after = p'.lexeme ++ after') :
    p.lexeme = p'.lexeme ∧ p.type = p'.type ∧ p.text = p'.text ∧ after = after' := by
  obtain ⟨c, r, lexeme, _, lexed⟩ := read
  obtain ⟨c', r', lexeme', _, lexed'⟩ := read'
  rw [lexeme, lexeme', cons_append, cons_append] at same
  obtain ⟨rfl, rest⟩ := cons.inj same
  rw [rest, lexed'] at lexed
  simp only [Except.ok.injEq, Lexeme.mk.injEq] at lexed
  obtain ⟨type, text, length⟩ := lexed
  have whole : p.lexeme ++ after = p'.lexeme ++ after' := by
    rw [lexeme, lexeme', cons_append, cons_append, rest]
  obtain ⟨lexemes, afters⟩ := append_inj whole length.symm
  exact ⟨lexemes, type.symm, text.symm, afters⟩

/-- Whitespace in front of something that does not begin with it. -/
theorem spaces_unique {gap gap' s s' : Bytes} (spaces : ∀ c ∈ gap, isSpace c = true)
    (spaces' : ∀ c ∈ gap', isSpace c = true) (head : ∀ c, s.head? = some c → isSpace c = false)
    (head' : ∀ c, s'.head? = some c → isSpace c = false) (same : gap ++ s = gap' ++ s') :
    gap = gap' ∧ s = s' := by
  have split : ∀ {gap s : Bytes}, (∀ c ∈ gap, isSpace c = true) →
      (∀ c, s.head? = some c → isSpace c = false) → (gap ++ s).takeWhile isSpace = gap := by
    intro gap s spaces head
    rw [takeWhile_append_of_pos spaces]
    cases s with
    | nil => simp
    | cons c s => simp [head c rfl]
  have gaps : gap = gap' := by
    rw [← split spaces head, same, split spaces' head']
  exact ⟨gaps, by rwa [gaps, append_cancel_left_eq] at same⟩

/-- Pieces read in front of a tail of whitespace and semicolons. -/
def Spaced : List Piece → Bytes → Prop
  | [], tail => ∀ c ∈ tail, isSpace c = true ∨ c = 59
  | p :: ps, tail => (∀ c ∈ p.gap, isSpace c = true) ∧ Reads p (render ps tail) ∧ Spaced ps tail

theorem Shape.head {lexeme text : Bytes} {type : TokenType} (shape : Shape lexeme type text) :
    lexeme.head? ≠ some 59 := by
  cases shape with
  | word start _ =>
    rintro same
    cases same
    exact absurd start (by decide)
  | parameter _ _ => simp [colon]
  | string kind => rcases kind with rfl | rfl <;> simp [singleQuote, doubleQuote]
  | number digits =>
    rintro same
    cases same
    exact absurd (digits 59 mem_cons_self) (by decide)
  | single operator =>
    rintro same
    cases same
    simp [oneCharOperator] at operator
  | pair operator =>
    rintro same
    cases same
    simp [twoCharOperator] at operator

theorem lexeme_head {p : Piece} {after : Bytes} (read : Reads p after) :
    ∃ c r, p.lexeme = c :: r ∧ isSpace c = false ∧ c ≠ 59 := by
  have shape := shape_of_reads ((reads_iff p after).1 read).1
  obtain ⟨c, r, lexeme, visible, _⟩ := read
  have head := shape.head
  rw [lexeme] at head
  exact ⟨c, r, lexeme, visible, fun same => head (by rw [same]; rfl)⟩

theorem reads_segment {p : Piece} {ps : List Piece} {tail : Bytes} (read : Reads p (render ps tail)) :
    Reads p (segments p.type ps tail).1 := by
  obtain ⟨alone, stops⟩ := (reads_iff _ _).1 read
  exact (reads_iff _ _).2 ⟨alone, stops_of_prefix (segments_isPrefix ps p.type) stops⟩

/-- A visible lexeme is not part of the whitespace and semicolons behind the text, nor of
the gap in front of a literal. -/
theorem kept_ne {p : Piece} {after gap s blank : Bytes} (read : Reads p after)
    (spaces : ∀ c ∈ blank, isSpace c = true ∨ c = 59) : blank ≠ gap ++ (p.lexeme ++ s) := by
  obtain ⟨c, r, lexeme, visible, open_⟩ := lexeme_head read
  rintro rfl
  rcases spaces c (by simp [lexeme]) with space | closed
  · rw [visible] at space
    cases space
  · exact open_ closed

/-- **Equal text outside the literals is equal pieces**: two divisions into pieces with
the same segments have the same template. -/
theorem pieces_unique {n : Nat} {tail tail' : Bytes} :
    ∀ (ps ps' : List Piece) (prev prev' : TokenType) (i : Nat), isCount prev = isCount prev' →
    Spaced ps tail → Spaced ps' tail' → segments prev ps tail = segments prev' ps' tail' →
      templatePieces n prev i ps = templatePieces n prev' i ps'
  | [], [], _, _, _, _, _, _, _ => rfl
  | [], p' :: ps', prev, prev', i, _, blank, ⟨_, read', _⟩, same => by
    by_cases lifted' : p'.lifted prev' = true
    · rw [segments_lifted lifted'] at same
      cases same
    · rw [segments_kept lifted'] at same
      exact absurd (Prod.mk.inj same).1 (kept_ne read' blank)
  | p :: ps, [], prev, prev', i, _, ⟨_, read, _⟩, blank, same => by
    by_cases lifted : p.lifted prev = true
    · rw [segments_lifted lifted] at same
      cases same
    · rw [segments_kept lifted] at same
      exact absurd (Prod.mk.inj same).1.symm (kept_ne read blank)
  | p :: ps, p' :: ps', prev, prev', i, counts, ⟨spaces, read, later⟩, ⟨spaces', read', later'⟩,
      same => by
      rw [templatePieces, templatePieces]
      by_cases lifted : p.lifted prev = true <;> by_cases lifted' : p'.lifted prev' = true
      · rw [segments_lifted lifted, segments_lifted lifted'] at same
        obtain ⟨gap, others⟩ := Prod.mk.inj same
        obtain ⟨first, rest⟩ := cons.inj others
        rw [if_pos lifted, if_pos lifted', pieces_unique ps ps' p.type p'.type (i + 1)
          (by rw [uncounted_of_lifted lifted, uncounted_of_lifted lifted']) later later' (Prod.ext first rest),
          Piece.bind, Piece.bind, gap]
      · rw [segments_lifted lifted, segments_kept lifted'] at same
        exact absurd (Prod.mk.inj same).1 (kept_ne read' fun c member => .inl (spaces c member))
      · rw [segments_kept lifted, segments_lifted lifted'] at same
        exact absurd (Prod.mk.inj same).1.symm (kept_ne read fun c member => .inl (spaces' c member))
      · rw [segments_kept lifted, segments_kept lifted'] at same
        obtain ⟨text, others⟩ := Prod.mk.inj same
        obtain ⟨c, r, lexeme, visible, _⟩ := lexeme_head read
        obtain ⟨c', r', lexeme', visible', _⟩ := lexeme_head read'
        obtain ⟨gap, text⟩ := spaces_unique spaces spaces' (by simp [lexeme, visible])
          (by simp [lexeme', visible']) text
        obtain ⟨lexemes, type, token, first⟩ :=
          lexeme_unique (reads_segment read) (reads_segment read') text
        have pieces : p = p' := by
          cases p
          cases p'
          simp_all
        subst pieces
        rw [if_neg lifted, if_neg lifted',
          pieces_unique ps ps' p.type p.type i rfl later later' (Prod.ext first others)]

/-! ## Surrounding whitespace -/

theorem strip_split (s : Bytes) : ∃ blank,
    s = s.takeWhile isSpace ++ (stripAsciiWhitespace s ++ blank) ∧ ∀ c ∈ blank, isSpace c = true := by
  refine ⟨(s.dropWhile isSpace).rtakeWhile isSpace, ?_, fun c member => mem_rtakeWhile_imp member⟩
  unfold stripAsciiWhitespace stripTrailingWhitespace stripLeadingWhitespace
  rw [rdropWhile_append_rtakeWhile, takeWhile_append_dropWhile]

/-- A statement is its trimmed text between whitespace, with at most semicolons behind. -/
theorem trimStatement_split (sql : Bytes) :
    ∃ trail, sql = sql.takeWhile isSpace ++ (trimStatement sql ++ trail) ∧
      ∀ c ∈ trail, isSpace c = true ∨ c = 59 := by
  obtain ⟨blank, whole, spaces⟩ := strip_split sql
  have trimmed := strip_trimmed sql
  unfold trimStatement
  simp only
  generalize stripAsciiWhitespace sql = t at whole trimmed
  split
  · rename_i closed
    obtain ⟨blank', whole', spaces'⟩ := strip_split t.dropLast
    have lead : t.dropLast.takeWhile isSpace = [] := by
      cases body : t.dropLast with
      | nil => rfl
      | cons c r =>
        have first : t.head? = some c := by
          rw [← dropLast_append_getLast? 59 closed, body]
          rfl
        rw [takeWhile_cons, trimmed.head c first]
        rfl
    refine ⟨blank' ++ 59 :: blank, ?_, ?_⟩
    · have t_eq : t = stripAsciiWhitespace t.dropLast ++ blank' ++ [59] := by
        rw [lead, nil_append] at whole'
        rw [← whole', dropLast_append_getLast? 59 closed]
      nth_rewrite 1 [whole]
      nth_rewrite 1 [t_eq]
      simp
    · intro c member
      rcases mem_append.1 member with inside | inside
      · exact .inl (spaces' c inside)
      · rcases mem_cons.1 inside with rfl | inside
        · exact .inr rfl
        · exact .inl (spaces c inside)
  · rw [trimmed.strip]
    exact ⟨blank, whole, fun c member => .inl (spaces c member)⟩

theorem extends_of_space {c : UInt8} (space : isSpace c = true) (type : TokenType) :
    extends_ type c = false := by
  have letter := isIdentifierChar_of_space space
  have digit : isDigit c = false := by
    simp only [isIdentifierChar, isAlnum, Bool.or_eq_false_iff] at letter
    exact letter.1.2
  have equals : (c == 61) = false := beq_false_of_ne (by rintro rfl; exact absurd space (by decide))
  have greater : (c == 62) = false := beq_false_of_ne (by rintro rfl; exact absurd space (by decide))
  cases type <;> simp [extends_, letter, digit, equals, greater]

theorem Spaced.of_wellLexed {tail : Bytes} (blank : ∀ c ∈ tail, isSpace c = true ∨ c = 59) :
    ∀ {ps : List Piece}, WellLexed ps [] → Spaced ps tail
  | [], _ => blank
  | p :: ps, ⟨spaces, read, later⟩ => by
    refine ⟨spaces, ?_, Spaced.of_wellLexed blank later⟩
    obtain ⟨alone, stops⟩ := (reads_iff _ _).1 read
    refine (reads_iff _ _).2 ⟨alone, ?_⟩
    rw [render_eq_append]
    cases rest : render ps [] with
    | cons c r =>
      rw [rest] at stops
      exact stops
    | nil =>
      cases tail with
      | nil => rfl
      | cons c tail =>
        have none_ : extends_ p.type c = false := by
          rcases blank c mem_cons_self with space | rfl
          · exact extends_of_space space p.type
          · cases p.type <;> decide
        simp [Stops, none_]

theorem liftedTokens_shift (tail tail' : Bytes) (k : Nat) : ∀ (ps : List Piece) (prev : TokenType) (pos : Nat),
    (liftedTokens prev (tokensFrom pos ps tail)).map (fun t => { t with pos := t.pos + k }) =
      liftedTokens prev (tokensFrom (pos + k) ps tail')
  | [], prev, pos => by rw [liftedTokens_end, liftedTokens_end]; rfl
  | p :: ps, prev, pos => by
    have rest := liftedTokens_shift tail tail' k ps p.type
    have place : pos + k + p.gap.length = pos + p.gap.length + k := by omega
    have next : pos + p.gap.length + k + p.lexeme.length = pos + p.gap.length + p.lexeme.length + k := by
      omega
    rw [tokensFrom, tokensFrom, liftedTokens_cons, liftedTokens_cons, lifted_token, lifted_token,
      place, next, ← rest]
    by_cases lifted : p.lifted prev = true
    · rw [if_pos lifted, if_pos lifted, map_cons]
    · rw [if_neg lifted, if_neg lifted]

section Hiding

variable {sql : Bytes} {prepared : PreparedQuery} {stmt : SelectStatement} {ps : List Piece}

section

variable (found : Prepared sql prepared stmt ps)
include found

/-- An accepted text begins with SELECT, so its first segment begins with a letter. -/
theorem Prepared.first_segment (tail : Bytes) :
    ∀ c, (segments .end_ ps tail).1.head? = some c → isSpace c = false := by
  have sentence := sentence_of_pieces found.wellLexed found.statement
  obtain ⟨s, f, t, e, ds, qs, ws, os, ls, ks, _, shape, select, _⟩ := sentence.phrases
  match ps, found, shape with
  | [], _, shape =>
    have lengths := congrArg List.length shape
    simp only [tokensFrom, length_append, length_cons] at lengths
    omega
  | p :: ps, found, shape =>
    obtain ⟨rfl, _⟩ := cons.inj shape
    have kept : ¬ p.lifted .end_ = true := by
      simp [Piece.lifted, isLifted, isLiteralToken, Piece.token, select]
    obtain ⟨d, r, lexeme, visible, _⟩ := lexeme_head found.wellLexed.2.1
    have gap : p.gap = [] := by
      cases h : p.gap with
      | nil => rfl
      | cons g gap' =>
        have space := found.wellLexed.1 g (by rw [h]; simp)
        rw [found.trimmed.head g (by rw [render, h]; rfl)] at space
        cases space
    rw [segments_kept kept, gap, lexeme]
    intro c first
    cases first
    exact visible

/-- The raw text, its literals and its pieces. -/
theorem Prepared.outside_eq {literals : List Token} (known : matchLiterals sql = .ok literals) :
    ∃ trail, Spaced ps trail ∧
      outside sql 0 literals = (sql.takeWhile isSpace ++ (segments .end_ ps trail).1) ::
        (segments .end_ ps trail).2 := by
  obtain ⟨trail, split, blank⟩ := trimStatement_split sql
  obtain ⟨tokens, lexed, known₁⟩ := bind_eq_ok.1 known
  obtain rfl := Except.ok.inj (found.lexed.symm.trans lexed)
  obtain rfl := pure_eq_ok.1 known₁
  refine ⟨trail, Spaced.of_wellLexed blank found.wellLexed, ?_⟩
  have raw : sql = sql.takeWhile isSpace ++ render ps trail := by
    rw [render_eq_append, ← found.text]
    exact split
  have cut := outside_render trail ps .end_ (sql.takeWhile isSpace) 0 found.wellLexed
    (Nat.zero_le _)
  rw [← raw] at cut
  rw [liftedTokens_shift [] trail, Nat.zero_add]
  exact cut

/-- The template in terms of the trimmed text and its literals. -/
theorem Prepared.weave_eq : ∃ literals, matchLiterals (trimStatement sql) = .ok literals ∧
      prepared.sqlTemplate = weave literals.length 0 (outside (trimStatement sql) 0 literals) := by
  have again : trimStatement (trimStatement sql) = trimStatement sql := by
    rw [found.text]
    exact render_trimStatement found.wellLexed found.trimmed.head
  have lead : (trimStatement sql).takeWhile isSpace = [] := by
    have head := (trimStatement_trimmed sql).head
    cases h : trimStatement sql with
    | nil => rfl
    | cons c r =>
      rw [h] at head
      simp [head c rfl]
  have cut := outside_render [] ps .end_ [] 0 found.wellLexed le_rfl
  simp only [nil_append, length_nil, drop_nil] at cut
  refine ⟨liftedTokens .end_ (tokensFrom 0 ps []), ?_, ?_⟩
  · rw [matchLiterals, again, found.lexed, lead]
    exact congrArg Except.ok (liftedTokens_shift [] [] 0 ps .end_ 0)
  · rw [found.template, found.text, cut, weave_segments]

end

/-- The literals of a statement's predicate, from left to right. -/
def SelectStatement.literals (stmt : SelectStatement) : List Value :=
  ((stmt.where_.map Predicate.values).getD []).filterMap fun
    | .literal value => some value
    | .bound _ => none

theorem Binds.literals {pairs : List (Bytes × Value)} {vs vs' : List Parameter}
    (binds : Binds pairs vs vs') :
    (vs.filterMap fun | .literal value => some value | .bound _ => none) = pairs.map Prod.snd := by
  induction binds with
  | nil => rfl
  | bound name _ ih => simpa using ih
  | lift name value _ ih => simpa using ih

/-- The lifted literals are those of the predicate, whatever LIMIT and OFFSET hold. -/
theorem Prepared.literals_eq (found : Prepared sql prepared stmt ps) :
    prepared.literals = stmt.literals := by
  obtain ⟨where_', _, rebinds⟩ := parseStatement_lifts (found.lifts 0) found.statement
  rw [← bindings_snd 0 0 prepared.literals]
  match h : stmt.where_, where_', rebinds with
  | none, none, none_ =>
    rw [none_, SelectStatement.literals, h]
    rfl
  | some p, some p', ⟨_, binds⟩ =>
    rw [← binds.literals, SelectStatement.literals, h]
    rfl

end Hiding

theorem outside_length (src : Bytes) : ∀ (start : Nat) (ts : List Token),
    (outside src start ts).length = ts.length + 1
  | _, [] => rfl
  | _, t :: ts => by rw [outside, length_cons, outside_length, length_cons]

theorem matchLiterals_length {sql : Bytes} {prepared : PreparedQuery} {stmt : SelectStatement}
    {ps : List Piece} (found : Prepared sql prepared stmt ps) {literals : List Token}
    (known : matchLiterals sql = .ok literals) :
    (liftedTokens .end_ (tokensFrom 0 ps [])).length = literals.length := by
  obtain ⟨tokens, lexed, known₁⟩ := bind_eq_ok.1 known
  obtain rfl := Except.ok.inj (found.lexed.symm.trans lexed)
  obtain rfl := pure_eq_ok.1 known₁
  rw [length_map]

/-- **The template hides the match values.**  Two accepted texts that are the same
outside their match literals have the same template, the text with a parameter named by
place and number in each literal's place, and the same number of literals, limit, offset
and count flag.  The literals removed are all those of the predicate. -/
theorem template_hides_literals {sql sql' : Bytes} {prepared prepared' : PreparedQuery}
    {stmt : SelectStatement} {literals literals' : List Token}
    (accepted : prepareClientQuery sql = .ok prepared)
    (accepted' : prepareClientQuery sql' = .ok prepared') (parsed : parse sql = .ok stmt)
    (known : matchLiterals sql = .ok literals) (known' : matchLiterals sql' = .ok literals')
    (same : outside sql 0 literals = outside sql' 0 literals') :
    prepared'.sqlTemplate = prepared.sqlTemplate ∧
    prepared'.literals.length = prepared.literals.length ∧ prepared'.limit = prepared.limit ∧
    prepared'.offset = prepared.offset ∧ prepared'.count = prepared.count ∧
    prepared.literals = stmt.literals ∧
    ∃ trimmed, matchLiterals (trimStatement sql) = .ok trimmed ∧
      prepared.sqlTemplate = weave trimmed.length 0 (outside (trimStatement sql) 0 trimmed) := by
  obtain ⟨s, ps, found⟩ := prepared_of_ok accepted
  obtain ⟨s', ps', found'⟩ := prepared_of_ok accepted'
  obtain rfl := Except.ok.inj (found.parsed.symm.trans parsed)
  have number : literals.length = literals'.length := by
    have lengths := congrArg List.length same
    rw [outside_length, outside_length] at lengths
    omega
  have lifted := (matchLiterals_length found known).trans
    (number.trans (matchLiterals_length found' known').symm)
  obtain ⟨trail, spaced, cut⟩ := found.outside_eq known
  obtain ⟨trail', spaced', cut'⟩ := found'.outside_eq known'
  rw [cut, cut'] at same
  obtain ⟨first, others⟩ := cons.inj same
  have lead : ∀ {text : Bytes}, ∀ c ∈ text.takeWhile isSpace, isSpace c = true :=
    fun c member => mem_takeWhile_imp member
  obtain ⟨_, first⟩ := spaces_unique lead lead (found.first_segment trail)
    (found'.first_segment trail') first
  have pieces := pieces_unique (n := (liftedTokens .end_ (tokensFrom 0 ps [])).length) ps ps' .end_ .end_ 0
    rfl spaced spaced' (Prod.ext first others)
  have template : prepared'.sqlTemplate = prepared.sqlTemplate := by
    rw [found.template, found'.template, ← lifted, pieces]
  obtain ⟨w, parse_, _⟩ := parseStatement_lifts (found.lifts _) found.statement
  obtain ⟨w', parse', _⟩ := parseStatement_lifts (found'.lifts _) found'.statement
  rw [pieces, parse'] at parse_
  have statements := Except.ok.inj parse_
  refine ⟨template, ?_, ?_, ?_, ?_, found.literals_eq, found.weave_eq⟩
  · rw [← (mapM_eq_ok_iff.1 found.values).length_eq, ← (mapM_eq_ok_iff.1 found'.values).length_eq, lifted]
  · rw [found.limit, found'.limit]
    have same_ := congrArg SelectStatement.limit statements
    exact same_
  · rw [found.offset, found'.offset]
    have same_ := congrArg SelectStatement.offset statements
    exact same_
  · rw [found.count, found'.count]
    have same_ := congrArg SelectStatement.countStar statements
    exact same_

theorem template_hides_kind :
    prepareClientQuery (bytes " SELECT a FROM t WHERE k = 5 LIMIT 2; ") =
      .ok ⟨bytes "SELECT a FROM t WHERE k = :v LIMIT 2", [.int 5], false, some 2, none⟩ ∧
    prepareClientQuery (bytes " SELECT a FROM t WHERE k = 'secret' LIMIT 2; ") =
      .ok ⟨bytes "SELECT a FROM t WHERE k = :v LIMIT 2", [.text (bytes "secret")], false, some 2, none⟩ ∧
    (PreparedQuery.mk (bytes "SELECT a FROM t WHERE k = :v LIMIT 2") [.text (bytes "secret")] false
      (some 2) none).sqlTemplate = bytes "SELECT a FROM t WHERE k = :v LIMIT 2" :=
  have first : prepareClientQuery (bytes " SELECT a FROM t WHERE k = 5 LIMIT 2; ") =
      .ok ⟨bytes "SELECT a FROM t WHERE k = :v LIMIT 2", [.int 5], false, some 2, none⟩ := by decide
  have second : prepareClientQuery (bytes " SELECT a FROM t WHERE k = 'secret' LIMIT 2; ") =
      .ok ⟨bytes "SELECT a FROM t WHERE k = :v LIMIT 2", [.text (bytes "secret")], false, some 2, none⟩ := by
    decide
  ⟨first, second, (template_hides_literals first second rfl rfl rfl (by decide)).1⟩

end OpaqueDb.Sql
