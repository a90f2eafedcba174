/-
# Sql.Prepare -- what the client's rewriting preserves

`prepared_of_ok` says what an accepted statement looks like: its trimmed text is a
list of pieces, its template is the text of the replaced pieces, and its literals are
the values of the replaced ones.

The template parses to the same statement exactly when no lifted literal is directly
followed by an identifier character and the template is not too long for the
tokenizer (`template_preserves_iff`).
-/
import OpaqueDb.Sql.Template

namespace OpaqueDb.Sql

open OpaqueDb.Core List

set_option autoImplicit false

/-! ## Trimmed texts -/

theorem trimStatement_trimmed (sql : Bytes) : Trimmed (trimStatement sql) :=
  strip_trimmed _

theorem Trimmed.trimStatement {s : Bytes} (trimmed : Trimmed s) (open_ : s.getLast? ≠ some 59) :
    trimStatement s = s := by
  unfold Sql.trimStatement
  simp only [trimmed.strip, if_neg open_]

/-- A lexeme ends in neither whitespace nor a semicolon. -/
theorem Shape.last {lexeme text : Bytes} {type : TokenType} (shape : Shape lexeme type text) :
    ∃ d, lexeme.getLast? = some d ∧ isSpace d = false ∧ d ≠ 59 := by
  have letter : ∀ d, isIdentifierChar d = true → isSpace d = false ∧ d ≠ 59 := by
    intro d letter
    refine ⟨?_, ?_⟩
    · by_contra space
      rw [isIdentifierChar_of_space (by simpa using space)] at letter
      cases letter
    · rintro rfl
      exact absurd letter (by decide)
  have last : ∀ {c : UInt8} {r : Bytes}, (∀ d ∈ c :: r, isIdentifierChar d = true) →
      ∃ d, (c :: r).getLast? = some d ∧ isSpace d = false ∧ d ≠ 59 := by
    intro c r chars
    have nonempty : c :: r ≠ [] := by simp
    exact ⟨_, getLast?_eq_some_getLast nonempty,
      letter _ (chars _ (getLast_mem nonempty))⟩
  cases shape with
  | word start chars =>
    apply last
    intro d member
    rcases mem_cons.1 member with rfl | inside
    · exact isIdentifierChar_of_start start
    · exact chars d inside
  | @parameter name chars nonempty =>
    obtain ⟨c, r, rfl⟩ := exists_cons_of_ne_nil nonempty
    obtain ⟨d, own, visible⟩ := last chars
    exact ⟨d, by rw [getLast?_cons_cons, own], visible⟩
  | @string quote body kind =>
    refine ⟨quote, by simp [getLast?_cons], ?_⟩
    rcases kind with rfl | rfl <;> decide
  | number digits =>
    apply last
    intro d member
    simp [isIdentifierChar, isAlnum, digits d member]
  | @single c type operator =>
    unfold oneCharOperator at operator
    split_ifs at operator <;> subst_vars <;> decide
  | @pair c d type operator =>
    refine ⟨d, rfl, ?_⟩
    unfold twoCharOperator at operator
    split_ifs at operator with h h h h <;> obtain ⟨_, same⟩ := h <;> cases same <;> decide

theorem render_last : ∀ {ps : List Piece}, WellLexed ps [] → ∀ c, (render ps []).getLast? = some c →
    isSpace c = false ∧ c ≠ 59
  | [], _, c, last => by cases last
  | p :: ps, ⟨_, read, later⟩, c, last => by
    rw [render, getLast?_append, getLast?_append] at last
    obtain ⟨d, own, visible⟩ := (shape_of_reads ((reads_iff _ _).1 read).1).last
    rw [own] at last
    cases rest : (render ps []).getLast? with
    | none =>
      rw [rest] at last
      cases last
      exact visible
    | some e =>
      rw [rest] at last
      cases last
      exact render_last later c rest

variable {ps : List Piece}

/-- A text that begins with a visible character is left alone by trimming. -/
theorem render_trimStatement (wellLexed : WellLexed ps [])
    (head : ∀ c, (render ps []).head? = some c → isSpace c = false) :
    trimStatement (render ps []) = render ps [] := by
  have last := render_last wellLexed
  refine Trimmed.trimStatement ⟨head, fun c h => (last c h).1⟩ fun closed => ?_
  exact (last 59 closed).2 rfl

variable {tail : Bytes}

theorem wellLexed_tail : ∀ {ps : List Piece}, WellLexed ps tail →
    ∀ c ∈ tail, isSpace c = true
  | [], wellLexed => wellLexed
  | _ :: _, wellLexed => wellLexed_tail wellLexed.2.2

theorem render_eq_append (tail : Bytes) : ∀ ps : List Piece, render ps tail = render ps [] ++ tail
  | [] => rfl
  | p :: ps => by
    rw [render, render_eq_append tail ps, render]
    simp

theorem tail_eq_nil (wellLexed : WellLexed ps tail) (trimmed : Trimmed (render ps tail)) :
    tail = [] := by
  by_contra nonempty
  have last : (render ps tail).getLast? = some (tail.getLast nonempty) := by
    rw [render_eq_append, getLast?_append, getLast?_eq_some_getLast nonempty]
    rfl
  have space := wellLexed_tail wellLexed _ (getLast_mem nonempty)
  rw [trimmed.last _ last] at space
  cases space

/-! ## Accepted statements -/

/-- What the client's rewriting found in a statement it accepted. -/
structure Prepared (sql : Bytes) (prepared : PreparedQuery) (stmt : SelectStatement)
    (ps : List Piece) : Prop where
  text : trimStatement sql = render ps []
  wellLexed : WellLexed ps []
  short : (render ps []).length ≤ kMaxSqlLength
  few : ps.length < kMaxTokens
  parsed : parse sql = .ok stmt
  statement : parseStatement (tokensFrom 0 ps []) = .ok stmt
  values : (liftedTokens .end_ (tokensFrom 0 ps [])).mapM liftLiteral = .ok prepared.literals
  template : prepared.sqlTemplate =
    render (templatePieces (liftedTokens .end_ (tokensFrom 0 ps [])).length .end_ 0 ps) []
  count : prepared.count = stmt.countStar
  limit : prepared.limit = stmt.limit
  offset : prepared.offset = stmt.offset

theorem spliceAll_render (wellLexed : WellLexed ps []) :
    spliceAll (render ps []) (liftedTokens .end_ (tokensFrom 0 ps [])) =
      render (templatePieces (liftedTokens .end_ (tokensFrom 0 ps [])).length .end_ 0 ps) [] :=
  splice_render _ ps .end_ 0 [] [] wellLexed

theorem prepared_of_ok {sql : Bytes} {prepared : PreparedQuery}
    (accepted : prepareClientQuery sql = .ok prepared) : ∃ stmt ps, Prepared sql prepared stmt ps := by
  obtain ⟨stmt, parsed, accepted₁⟩ := bind_eq_ok.1 accepted
  obtain ⟨tokens, lexed, accepted₂⟩ := bind_eq_ok.1 accepted₁
  obtain ⟨short, ps, tail, text, wellLexed, rfl, few⟩ := tokenize_iff.1 lexed
  have trimmed := trimStatement_trimmed sql
  obtain rfl : tail = [] := tail_eq_nil wellLexed (text ▸ trimmed)
  have again : trimStatement (trimStatement sql) = trimStatement sql := by
    rw [text]
    exact render_trimStatement wellLexed (text ▸ trimmed).head
  have statement : parseStatement (tokensFrom 0 ps []) = .ok stmt := by
    rw [parse, again, lexed] at parsed
    exact parsed
  have original : parse sql = .ok stmt := by
    rw [parse, again] at parsed
    exact parsed
  refine ⟨stmt, ps, ?_⟩
  have spliced := spliceAll_render wellLexed
  rw [text] at short accepted₂
  simp only at accepted₂
  split at accepted₂
  · rename_i none_
    obtain rfl := pure_eq_ok.1 accepted₂
    rw [List.isEmpty_iff] at none_
    refine ⟨text, wellLexed, short, few, original, statement, by rw [none_]; rfl, ?_, rfl, rfl, rfl⟩
    rw [none_] at spliced ⊢
    exact spliced
  · obtain ⟨values, known, accepted₃⟩ := bind_eq_ok.1 accepted₂
    obtain rfl := pure_eq_ok.1 accepted₃
    exact ⟨text, wellLexed, short, few, original, statement, known, spliced, rfl, rfl, rfl⟩

theorem Prepared.trimmed {sql : Bytes} {prepared : PreparedQuery} {stmt : SelectStatement}
    {ps : List Piece} (found : Prepared sql prepared stmt ps) : Trimmed (render ps []) :=
  found.text ▸ trimStatement_trimmed sql

/-- A text that is read as the template, or in any other way, is not trimmed. -/
theorem Prepared.trimStatement_eq {sql : Bytes} {prepared : PreparedQuery} {stmt : SelectStatement}
    {ps qs : List Piece} (found : Prepared sql prepared stmt ps)
    (text : render qs [] = prepared.sqlTemplate) (wellLexed : WellLexed qs []) :
    trimStatement prepared.sqlTemplate = prepared.sqlTemplate := by
  rw [← text]
  apply render_trimStatement wellLexed
  rw [text, found.template]
  intro c first
  rcases head_template found.wellLexed with same | colon_
  · rw [same] at first
    exact found.trimmed.head c first
  · rw [colon_] at first
    cases first
    decide

/-! ## The condition on the text -/

/-- Bytes the parameters of the literals take in the template. -/
def parameterBytes (literals : List Token) : Nat :=
  (literals.zipIdx.map fun q => (parameterName literals.length q.2).length + 1).sum

/-- No literal is directly followed by an identifier character, and the text stays
within the tokenizer's limit when every literal becomes a parameter. -/
def Rewritable (src : Bytes) (literals : List Token) : Prop :=
  (∀ t ∈ literals, Stops .parameter (src.drop (t.pos + literalSpan t))) ∧
  src.length + parameterBytes literals ≤ kMaxSqlLength + (literals.map literalSpan).sum

instance (src : Bytes) (literals : List Token) : Decidable (Rewritable src literals) :=
  inferInstanceAs (Decidable ((∀ t ∈ literals, _ = true) ∧ _ ≤ _))

theorem clear_iff : ∀ (ps : List Piece) (prev : TokenType) (before : Bytes),
    WellLexed ps tail →
    (Clear prev ps tail ↔ ∀ t ∈ liftedTokens prev (tokensFrom before.length ps tail),
      Stops .parameter ((before ++ render ps tail).drop (t.pos + literalSpan t))) := by
  intro ps
  induction ps with
  | nil =>
    intro prev before _
    rw [liftedTokens_end]
    simp [Clear]
  | cons p ps ih =>
    intro prev before wellLexed
    obtain ⟨_, read, later⟩ := wellLexed
    have place := p.place before
    rw [tokensFrom, liftedTokens_cons, lifted_token, Clear, p.ahead, place,
      ih p.type (before ++ p.gap ++ p.lexeme) later]
    by_cases lifted : p.lifted prev = true
    · have span := literalSpan_eq read (before.length + p.gap.length)
        (isLiteralToken_of_lifted lifted)
      rw [if_pos lifted, forall_mem_cons, span, place]
      simp [lifted]
    · simp [lifted]

/-- Literals against parameters in the length of the template. -/
theorem template_length {n : Nat} : ∀ (ps : List Piece) (prev : TokenType) (i pos : Nat),
    WellLexed ps tail →
    (render (templatePieces n prev i ps) tail).length +
        ((liftedTokens prev (tokensFrom pos ps tail)).map literalSpan).sum =
      (render ps tail).length + (((liftedTokens prev (tokensFrom pos ps tail)).zipIdx i).map
        fun q => (parameterName n q.2).length + 1).sum := by
  intro ps
  induction ps with
  | nil =>
    intro prev i pos _
    rw [liftedTokens_end]
    rfl
  | cons p ps ih =>
    intro prev i pos wellLexed
    obtain ⟨_, read, later⟩ := wellLexed
    rw [tokensFrom, liftedTokens_cons, lifted_token, templatePieces]
    by_cases lifted : p.lifted prev = true
    · have span := literalSpan_eq read (pos + p.gap.length) (isLiteralToken_of_lifted lifted)
      have tails := ih p.type (i + 1) (pos + p.gap.length + p.lexeme.length) later
      rw [if_pos lifted, if_pos lifted, map_cons, sum_cons, zipIdx_cons, map_cons, sum_cons]
      simp only [render, length_append, Piece.bind, length_cons]
      omega
    · have tails := ih p.type i (pos + p.gap.length + p.lexeme.length) later
      rw [if_neg lifted, if_neg lifted]
      simp only [render, length_append]
      omega

section Rewriting

variable {sql : Bytes} {prepared : PreparedQuery} {stmt : SelectStatement} {ps : List Piece}

theorem Prepared.rewritable_iff (found : Prepared sql prepared stmt ps) :
    Rewritable (trimStatement sql) (liftedTokens .end_ (tokensFrom 0 ps [])) ↔
      Clear .end_ ps [] ∧ prepared.sqlTemplate.length ≤ kMaxSqlLength := by
  have length := template_length (n := (liftedTokens .end_ (tokensFrom 0 ps [])).length) ps .end_ 0 0
    found.wellLexed
  have clear := clear_iff ps .end_ [] found.wellLexed
  simp only [nil_append, length_nil] at clear
  rw [Rewritable, found.text, ← clear, found.template, parameterBytes]
  constructor
  · rintro ⟨h, fits⟩
    exact ⟨h, by omega⟩
  · rintro ⟨h, fits⟩
    exact ⟨h, by omega⟩

/-- The text of the template, read in one way, is what the parser sees. -/
theorem Prepared.parse_template (found : Prepared sql prepared stmt ps) {qs : List Piece}
    (text : render qs [] = prepared.sqlTemplate) (wellLexed : WellLexed qs [])
    (few : qs.length < kMaxTokens) (fits : prepared.sqlTemplate.length ≤ kMaxSqlLength) :
    parse prepared.sqlTemplate = parseStatement (tokensFrom 0 qs []) := by
  have lexed := tokenize_iff.2 ⟨fits, qs, [], text.symm, wellLexed, rfl, few⟩
  rw [parse, found.trimStatement_eq text wellLexed, lexed]
  rfl

theorem templatePieces_length (n : Nat) : ∀ (prev : TokenType) (i : Nat) (ps : List Piece),
    (templatePieces n prev i ps).length = ps.length
  | _, _, [] => rfl
  | prev, i, p :: ps => by
    rw [templatePieces]
    split <;> rw [length_cons, length_cons, templatePieces_length n]

section

variable (found : Prepared sql prepared stmt ps)
include found

/-- The tokens of the template, read piece by piece. -/
theorem Prepared.lifts (n : Nat) : Lifts false (bindings n 0 prepared.literals) (tokensFrom 0 ps [])
      (tokensFrom 0 (templatePieces n .end_ 0 ps) []) :=
  template_lifts found.wellLexed found.values

theorem Prepared.lexed : tokenize (trimStatement sql) = .ok (tokensFrom 0 ps []) :=
  tokenize_iff.2 ⟨by rw [found.text]; exact found.short, ps, [], found.text, found.wellLexed, rfl,
    found.few⟩

/-- With clear literals the template's statement is the rewritten one. -/
theorem Prepared.parse_of_clear (clear : Clear .end_ ps [])
    (fits : prepared.sqlTemplate.length ≤ kMaxSqlLength) :
    ∃ where_', parse prepared.sqlTemplate = .ok { stmt with where_ := where_' } ∧
      RebindsWhere (bindings (liftedTokens .end_ (tokensFrom 0 ps [])).length 0 prepared.literals)
        stmt.where_ where_' := by
  have few := found.few
  have wellLexed : WellLexed (templatePieces (liftedTokens .end_ (tokensFrom 0 ps [])).length
      .end_ 0 ps) [] := template_wellLexed (by omega) found.wellLexed clear
  rw [found.parse_template found.template.symm wellLexed (by rwa [templatePieces_length]) fits]
  exact parseStatement_lifts (found.lifts _) found.statement

end

theorem end_last : ∀ {ps : List Piece} {pos : Nat} {front after : List Token} {e : Token},
    WellLexed ps tail → tokensFrom pos ps tail = front ++ e :: after → e.type = .end_ → after = []
  | [], pos, front, after, e, _, same, _ => by
    have lengths := congrArg List.length same
    simp only [tokensFrom, length_nil, length_append, length_cons] at lengths
    exact length_eq_zero_iff.1 (by omega)
  | p :: ps, pos, [], after, e, wellLexed, same, ended => by
    obtain ⟨rfl, _⟩ := cons.inj same
    exact absurd ended (type_ne_end wellLexed.2.1)
  | p :: ps, pos, _ :: front, after, e, wellLexed, same, ended => by
    exact end_last wellLexed.2.2 (cons.inj same).2 ended

/-- The statement's own tokens are one sentence. -/
theorem sentence_of_pieces (wellLexed : WellLexed ps tail)
    (parsed : parseStatement (tokensFrom 0 ps tail) = .ok stmt) :
    Sentence (tokensFrom 0 ps tail) stmt := by
  obtain ⟨used, after, same, sentence⟩ := parseStatement_sound parsed
  obtain ⟨s, f, t, e, ds, qs, ws, os, ls, ks, _, shape, _, _, _, _, _, _, _, _, _, _, ended, _⟩ :=
    sentence.phrases
  have last : tokensFrom 0 ps tail =
      (s :: ds ++ (qs ++ f :: t :: (ws ++ (os ++ (ls ++ ks))))) ++ e :: after := by
    rw [same, shape]
    simp
  obtain rfl : after = [] := end_last wellLexed last ended
  rw [same, append_nil]
  exact sentence

/-- A template that parses, to whatever statement, has clear literals. -/
theorem Prepared.clear_of_parse (found : Prepared sql prepared stmt ps) {stmt' : SelectStatement}
    (parsed : parse prepared.sqlTemplate = .ok stmt') :
    Clear .end_ ps [] ∧ prepared.sqlTemplate.length ≤ kMaxSqlLength := by
  have few := found.few
  have sentence := sentence_of_pieces found.wellLexed found.statement
  obtain ⟨qs, merged⟩ := template_merges (n := (liftedTokens .end_ (tokensFrom 0 ps [])).length) ps .end_
    0 0 (by omega) found.wellLexed sentence.separated
  have text : render qs [] = prepared.sqlTemplate := merged.text.trans found.template.symm
  have fits : prepared.sqlTemplate.length ≤ kMaxSqlLength := by
    obtain ⟨tokens, lexed, _⟩ := bind_eq_ok.1 parsed
    rw [found.trimStatement_eq text merged.wellLexed] at lexed
    exact (tokenize_iff.1 lexed).1
  refine ⟨?_, fits⟩
  by_contra unclear
  have shorter := merged.length_le
  rw [found.parse_template text merged.wellLexed (by omega) fits] at parsed
  exact merged.unseparated unclear 0 (sentence_of_pieces merged.wellLexed parsed).separated

end Rewriting

/-! ## What the template preserves -/

/-- The predicates agree but for the literals, which are the listed values in order and
become bound parameters. -/
def Abstracts (literals : List Value) :
    Option (Predicate Parameter) → Option (Predicate Parameter) → Prop
  | none, none => literals = []
  | some p, some p' => p'.shape = p.shape ∧ p.values = literals.map .literal ∧
      ∃ names : List Bytes, p'.values = names.map .bound
  | _, _ => False

/-- The template parses to the statement of the text, with its literals abstracted. -/
def Preserves (sql : Bytes) (prepared : PreparedQuery) : Prop :=
  ∃ stmt where_', parse sql = .ok stmt ∧
    parse prepared.sqlTemplate = .ok { stmt with where_ := where_' } ∧
    Abstracts prepared.literals stmt.where_ where_'

theorem bindings_snd (n : Nat) : ∀ (i : Nat) (values : List Value),
    (bindings n i values).map Prod.snd = values
  | _, [] => rfl
  | i, value :: values => by rw [bindings, map_cons, bindings_snd n (i + 1) values]

theorem abstracts_of_rebinds {n : Nat} {literals : List Value}
    {where_ where_' : Option (Predicate Parameter)}
    (rebinds : RebindsWhere (bindings n 0 literals) where_ where_')
    (literal : ∀ p, where_ = some p → ∀ v ∈ p.values, v.isLiteral = true) :
    Abstracts literals where_ where_' := by
  match where_, where_', rebinds with
  | none, none, none_ =>
    have values := bindings_snd n 0 literals
    rw [none_] at values
    exact values.symm
  | some p, some p', ⟨shape, binds⟩ =>
    obtain ⟨values, names⟩ := binds.all_literal (literal p rfl)
    refine ⟨shape, ?_, (bindings n 0 literals).map Prod.fst, by rw [names, map_map]; rfl⟩
    calc p.values = (bindings n 0 literals).map (fun q => .literal q.2) := values
      _ = ((bindings n 0 literals).map Prod.snd).map .literal := by rw [map_map]; rfl
      _ = literals.map .literal := by rw [bindings_snd]

/-- **When rewriting preserves the statement.**  For a statement whose match values are
all literals, the template parses back to the same statement, literals abstracted in
order, exactly when no literal is directly followed by an identifier character and the
template is within the tokenizer's length limit. -/
theorem template_preserves_iff {sql : Bytes} {prepared : PreparedQuery} {stmt : SelectStatement}
    {tokens : List Token} (accepted : prepareClientQuery sql = .ok prepared)
    (parsed : parse sql = .ok stmt) (lexed : tokenize (trimStatement sql) = .ok tokens)
    (literal : ∀ p, stmt.where_ = some p → ∀ v ∈ p.values, v.isLiteral = true) :
    Preserves sql prepared ↔ Rewritable (trimStatement sql) (liftedTokens .end_ tokens) := by
  obtain ⟨stmt', ps, found⟩ := prepared_of_ok accepted
  obtain rfl : stmt' = stmt := by
    have := found.parsed.symm.trans parsed
    exact Except.ok.inj this
  obtain rfl : tokens = tokensFrom 0 ps [] := Except.ok.inj (lexed.symm.trans found.lexed)
  rw [found.rewritable_iff]
  constructor
  · rintro ⟨_, _, _, template, _⟩
    exact found.clear_of_parse template
  · rintro ⟨clear, fits⟩
    obtain ⟨where_', template, rebinds⟩ := found.parse_of_clear clear fits
    exact ⟨stmt', where_', parsed, template, abstracts_of_rebinds rebinds literal⟩

theorem template_preserves_point :
    Preserves (bytes "SELECT a FROM t WHERE k = 5 OR k = 'x'")
      ⟨bytes "SELECT a FROM t WHERE k = :v0 OR k = :v1", [.int 5, .text (bytes "x")], false, none, none⟩ :=
  (template_preserves_iff (by decide) rfl rfl (by decide)).2 (by decide)

/-- A number directly followed by OR is accepted, and its template does not parse. -/
theorem template_merges_keyword :
    parse (bytes "SELECT a FROM t WHERE k = 5OR k = 6") =
      .ok { projection := [bytes "a"], projectionAliases := [bytes "a"], table := bytes "t",
            where_ := some (.or (.comparison (bytes "k") .eq (.literal (.int 5)))
              (.comparison (bytes "k") .eq (.literal (.int 6)))) } ∧
    prepareClientQuery (bytes "SELECT a FROM t WHERE k = 5OR k = 6") =
      .ok ⟨bytes "SELECT a FROM t WHERE k = :v0OR k = :v1", [.int 5, .int 6], false, none, none⟩ ∧
    ¬ Preserves (bytes "SELECT a FROM t WHERE k = 5OR k = 6")
      ⟨bytes "SELECT a FROM t WHERE k = :v0OR k = :v1", [.int 5, .int 6], false, none, none⟩ := by
  have refused : (parse (bytes "SELECT a FROM t WHERE k = :v0OR k = :v1")).isOk = false := by decide
  refine ⟨by decide, by decide, ?_⟩
  rintro ⟨stmt, where_', _, parsed, _⟩
  rw [parsed] at refused
  cases refused

end OpaqueDb.Sql
