/-
# Sql.Template -- the text of the rewritten statement

A statement's text is a list of pieces, gap and lexeme.  `templatePieces` replaces
every lifted literal by a parameter and keeps its gap.

A parameter is longer-lived than the literal it replaces: an identifier character
right behind it joins its name.  Where no lifted literal is followed by one (`Clear`),
the template is read as the replaced pieces (`template_wellLexed`) and its tokens are
the rewriting of the original ones (`template_lifts`).
-/
import OpaqueDb.Sql.Lexing
import OpaqueDb.Sql.Rewriting

namespace OpaqueDb.Sql

open OpaqueDb.Core List

set_option autoImplicit false

/-! ## Parameter names -/

theorem parameterName_cons (n i : Nat) :
    ∃ r, parameterName n i = 118 :: r ∧ ∀ d ∈ r, isIdentifierChar d = true := by
  unfold parameterName
  split
  · exact ⟨[], rfl, by simp⟩
  · refine ⟨dec i, rfl, fun d member => ?_⟩
    simp [isIdentifierChar, isAlnum, dec_digits member]

theorem parameterName_chars {n i : Nat} : ∀ d ∈ parameterName n i, isIdentifierChar d = true := by
  obtain ⟨r, same, chars⟩ := parameterName_cons n i
  rw [same]
  intro d member
  rcases mem_cons.1 member with rfl | inside
  · decide
  · exact chars d inside

theorem parameterName_length {n i : Nat} (few : i < kMaxTokens) : (parameterName n i).length ≤ 5 := by
  have digits : (dec i).length ≤ 4 := dec_length_le (by decide) (by rw [kMaxTokens] at few; omega)
  unfold parameterName
  split
  · decide
  · rw [length_append]
    have : (bytes "v").length = 1 := by decide
    omega

/-- A parameter of legal length is read as such. -/
theorem reads_parameter {gap name : Bytes} (start : ∃ d, name.head? = some d ∧ isIdentifierStart d = true)
    (chars : ∀ d ∈ name, isIdentifierChar d = true) (short : name.length ≤ kMaxIdentifierLength) :
    Reads ⟨gap, colon :: name, .parameter, name⟩ [] := by
  refine ⟨colon, name, rfl, by decide, ?_⟩
  have lexed : lexParameter 0 name = .ok ⟨.parameter, name, name.length + 1⟩ := by
    apply lexParameter_ok.2
    rw [takeWhile_eq_self_iff.2 chars]
    exact ⟨start, short, rfl⟩
  rw [append_nil, lexToken, if_neg (by decide), if_pos rfl, lexed, length_cons]

/-! ## Replacing the literals -/

/-- The piece's token, its place aside. -/
def Piece.token (p : Piece) : Token :=
  ⟨p.type, p.text, 0⟩

/-- Whether the piece is lifted, by the type of the token before it. -/
def Piece.lifted (prev : TokenType) (p : Piece) : Bool :=
  isLifted (isCount prev) p.token

/-- The piece of literal `i` of `n`. -/
def Piece.bind (p : Piece) (n i : Nat) : Piece :=
  ⟨p.gap, colon :: parameterName n i, .parameter, parameterName n i⟩

def templatePieces (n : Nat) : TokenType → Nat → List Piece → List Piece
  | _, _, [] => []
  | prev, i, p :: ps =>
    if p.lifted prev then p.bind n i :: templatePieces n p.type (i + 1) ps
    else p :: templatePieces n p.type i ps

variable (prev : TokenType)

theorem liftedTokens_cons (t : Token) (ts : List Token) : liftedTokens prev (t :: ts) =
      if isLifted (isCount prev) t then t :: liftedTokens t.type ts else liftedTokens t.type ts := by
  simp only [liftedTokens, isLifted, isLiteralToken, isCount]
  by_cases count : prev = .limit ∨ prev = .offset
  · by_cases number : t.type = .numberLiteral
    · have on : (prev == .limit || prev == .offset) = true := by simpa using count
      simp [count, number, on]
    · simp [number]
  · have off : (prev == .limit || prev == .offset) = false := by simpa using count
    simp [count, off]

theorem isLiteralToken_of_lifted {afterCount : Bool} {t : Token}
    (lifted : isLifted afterCount t = true) : isLiteralToken t = true := by
  simp only [isLifted, Bool.and_eq_true] at lifted
  exact lifted.1

variable {type : TokenType}

/-- A literal's lexeme is its text, a string's in quotes. -/
theorem literal_shape {lexeme text : Bytes} (shape : Shape lexeme type text)
    (literal : type = .stringLiteral ∨ type = .numberLiteral) :
    (type = .stringLiteral ∧ ∃ quote, (quote = singleQuote ∨ quote = doubleQuote) ∧
        lexeme = quote :: (text ++ [quote])) ∨
      (type = .numberLiteral ∧ lexeme = text) := by
  cases shape with
  | @word c r _ _ =>
    have underscored := congrFun (keywordOrIdentifier_extends (c :: r)) underscore
    rcases literal with h | h <;>
    · rw [h] at underscored
      exact absurd underscored (by decide)
  | parameter _ _ => simp at literal
  | @string quote _ kind => exact .inl ⟨rfl, quote, kind, rfl⟩
  | number _ => exact .inr ⟨rfl, rfl⟩
  | single operator =>
    unfold oneCharOperator at operator
    split_ifs at operator <;> cases operator <;> simp at literal
  | pair operator =>
    unfold twoCharOperator at operator
    split_ifs at operator <;> cases operator <;> simp at literal

variable {after : Bytes}

/-- The span the client computes for a literal is its lexeme, quotes included. -/
theorem literalSpan_eq {p : Piece} (read : Reads p after) (pos : Nat)
    (literal : isLiteralToken p.token = true) :
    literalSpan ⟨p.type, p.text, pos⟩ = p.lexeme.length := by
  have shape := shape_of_reads ((reads_iff p after).1 read).1
  have either : p.type = .stringLiteral ∨ p.type = .numberLiteral := by
    simpa [isLiteralToken, Piece.token] using literal
  rcases literal_shape shape either with ⟨string, quote, _, lexeme⟩ | ⟨number, lexeme⟩
  · simp [literalSpan, string, lexeme]
  · simp [literalSpan, number, lexeme]

theorem lifted_token (p : Piece) (pos : Nat) :
    isLifted (isCount prev) ⟨p.type, p.text, pos⟩ = p.lifted prev :=
  rfl

theorem liftedTokens_end (pos : Nat) (tail : Bytes) :
    liftedTokens prev (tokensFrom pos [] tail) = [] := by
  rw [tokensFrom, liftedTokens_cons]
  rfl

theorem Piece.ahead (p : Piece) (before : Bytes) (ps : List Piece) (tail : Bytes) :
    before ++ render (p :: ps) tail = (before ++ p.gap ++ p.lexeme) ++ render ps tail := by
  simp [render]

theorem Piece.place (p : Piece) (before : Bytes) : before.length + p.gap.length + p.lexeme.length =
    (before ++ p.gap ++ p.lexeme).length := by
  simp only [length_append]

/-- Splicing from the right replaces the pieces, whatever stands in front. -/
theorem splice_render (n : Nat) : ∀ (ps : List Piece) (prev : TokenType) (i : Nat) (before tail : Bytes),
    WellLexed ps tail →
    ((liftedTokens prev (tokensFrom before.length ps tail)).zipIdx i).foldr
        (fun p templated => spliceOne templated p.1 (parameterName n p.2)) (before ++ render ps tail) =
      before ++ render (templatePieces n prev i ps) tail := by
  intro ps
  induction ps with
  | nil =>
    intro prev i before tail _
    rw [liftedTokens_end]
    rfl
  | cons p ps ih =>
    intro prev i before tail wellLexed
    obtain ⟨_, read, later⟩ := wellLexed
    have place := p.place before
    rw [tokensFrom, liftedTokens_cons, lifted_token, p.ahead, place, templatePieces]
    by_cases lifted : p.lifted prev = true
    · have literal := isLiteralToken_of_lifted lifted
      rw [if_pos lifted, if_pos lifted, zipIdx_cons, foldr_cons, ih p.type (i + 1) _ tail later]
      simp only [spliceOne, literalSpan_eq read _ literal]
      have front : before.length + p.gap.length = (before ++ p.gap).length := by simp
      rw [front, append_assoc (before ++ p.gap), take_left, ← drop_drop]
      simp [render, Piece.bind]
    · rw [if_neg lifted, if_neg lifted, ih p.type i _ tail later]
      simp [render]

/-! ## Reading the template -/

/-- No identifier character stands right behind a lifted literal. -/
def Clear : TokenType → List Piece → Bytes → Prop
  | _, [], _ => True
  | prev, p :: ps, tail =>
    (p.lifted prev = true → Stops .parameter (render ps tail)) ∧ Clear p.type ps tail

variable {tail : Bytes}

/-- The first character of a template is that of the statement, or a colon. -/
theorem head_template {n i : Nat} {prev : TokenType} : ∀ {ps : List Piece},
    WellLexed ps tail →
    (render (templatePieces n prev i ps) tail).head? = (render ps tail).head? ∨
      (render (templatePieces n prev i ps) tail).head? = some colon
  | [], _ => .inl rfl
  | p :: ps, wellLexed => by
    obtain ⟨c, r, lexeme, _⟩ := wellLexed.2.1
    cases gap : p.gap with
    | nil =>
      rw [templatePieces]
      split
      · exact .inr (by simp [render, Piece.bind, gap])
      · exact .inl (by simp [render, lexeme])
    | cons d gap' =>
      rw [templatePieces]
      split
      · exact .inl (by simp [render, Piece.bind, gap])
      · exact .inl (by simp [render, gap])

/-- What stops a lexeme still does with the literals replaced. -/
theorem stops_template {n i : Nat} {prev : TokenType} {ps : List Piece}
    (wellLexed : WellLexed ps tail) (stops : Stops type (render ps tail)) :
    Stops type (render (templatePieces n prev i ps) tail) := by
  rw [Stops] at stops ⊢
  rcases head_template wellLexed with same | colon_
  · rw [same]
    exact stops
  · rw [colon_]
    cases type <;> decide

theorem bind_reads {p : Piece} {n i : Nat} (few : i < kMaxTokens) : Reads (p.bind n i) [] := by
  obtain ⟨r, same, _⟩ := parameterName_cons n i
  apply reads_parameter
  · exact ⟨118, by rw [same]; rfl, by decide⟩
  · exact parameterName_chars
  · have := parameterName_length (n := n) few
    rw [kMaxIdentifierLength]
    omega

/-- Where the literals are clear, the template is read piece by piece. -/
theorem template_wellLexed {n : Nat} {tail : Bytes} : ∀ {ps : List Piece} {prev : TokenType} {i : Nat},
    i + ps.length ≤ kMaxTokens → WellLexed ps tail → Clear prev ps tail →
      WellLexed (templatePieces n prev i ps) tail := by
  intro ps
  induction ps with
  | nil =>
    intro prev i _ wellLexed _
    exact wellLexed
  | cons p ps ih =>
    intro prev i few wellLexed clear
    obtain ⟨spaces, read, later⟩ := wellLexed
    obtain ⟨here, clear⟩ := clear
    rw [length_cons] at few
    rw [templatePieces]
    split
    · rename_i lifted
      refine ⟨spaces, ?_, ih (by omega) later clear⟩
      exact (reads_iff _ _).2 ⟨bind_reads (by omega), stops_template later (here lifted)⟩
    · refine ⟨spaces, ?_, ih (by omega) later clear⟩
      obtain ⟨alone, stops⟩ := (reads_iff _ _).1 read
      exact (reads_iff _ _).2 ⟨alone, stops_template later stops⟩

theorem type_ne_end {p : Piece} (read : Reads p after) : p.type ≠ .end_ := by
  have shape := shape_of_reads ((reads_iff p after).1 read).1
  obtain ⟨gap, lexeme, type, text⟩ := p
  simp only at shape ⊢
  cases shape with
  | @word c r _ _ =>
    intro ended
    have underscored := congrFun (keywordOrIdentifier_extends (c :: r)) underscore
    rw [ended] at underscored
    exact absurd underscored (by decide)
  | parameter _ _ => decide
  | string _ => decide
  | number _ => decide
  | single operator =>
    unfold oneCharOperator at operator
    split_ifs at operator <;> cases operator <;> decide
  | pair operator =>
    unfold twoCharOperator at operator
    split_ifs at operator <;> cases operator <;> decide

/-- The parameters of the lifted literals and their values. -/
def bindings (n : Nat) : Nat → List Value → List (Bytes × Value)
  | _, [] => []
  | i, value :: values => (parameterName n i, value) :: bindings n (i + 1) values

/-- The template's tokens are the rewritten tokens of the statement, wherever the two
texts start. -/
theorem template_lifts {n : Nat} {tail' : Bytes} :
    ∀ {ps : List Piece} {prev : TokenType} {i pos pos' : Nat} {values : List Value},
    WellLexed ps tail →
    (liftedTokens prev (tokensFrom pos ps tail)).mapM liftLiteral = .ok values →
      Lifts (isCount prev) (bindings n i values) (tokensFrom pos ps tail)
        (tokensFrom pos' (templatePieces n prev i ps) tail') := by
  intro ps
  induction ps with
  | nil =>
    intro prev i pos pos' values _ lifted
    rw [liftedTokens_end] at lifted
    obtain rfl := pure_eq_ok.1 lifted
    exact .done rfl rfl
  | cons p ps ih =>
    intro prev i pos pos' values wellLexed lifted
    obtain ⟨_, read, later⟩ := wellLexed
    rw [tokensFrom, liftedTokens_cons, lifted_token] at lifted
    rw [templatePieces]
    by_cases here : p.lifted prev = true
    · rw [if_pos here, mapM_cons] at lifted
      obtain ⟨value, first, lifted₁⟩ := bind_eq_ok.1 lifted
      obtain ⟨values', others, lifted₂⟩ := bind_eq_ok.1 lifted₁
      obtain rfl := pure_eq_ok.1 lifted₂
      have known : literalValue ⟨p.type, p.text, pos + p.gap.length⟩ = some value := by
        unfold liftLiteral at first
        split at first
        · cases first
          assumption
        · cases first
      have uncounted : isCount p.type = false := by
        rcases literalValue_type known with h | h
        · exact congrArg isCount h
        · exact congrArg isCount h
      rw [if_pos here]
      refine @Lifts.lift _ _ _ ⟨.parameter, parameterName n i, _⟩ _ _ value here known rfl ?_
      rw [← uncounted]
      exact ih later others
    · rw [if_neg here] at lifted ⊢
      exact .same (type_ne_end read) rfl rfl ((lifted_token prev p _).trans (by simpa using here))
        (ih later lifted)

/-! ## Literals that are not clear -/

variable {c : UInt8}

theorem isIdentifierChar_of_space (space : isSpace c = true) : isIdentifierChar c = false := by
  simp only [isSpace, isIdentifierChar, isAlnum, isAlpha, isDigit, underscore, Bool.or_eq_true,
    Bool.and_eq_true, Bool.or_eq_false_iff, Bool.and_eq_false_iff, beq_iff_eq, beq_eq_false_iff_ne,
    decide_eq_true_eq, decide_eq_false_iff_not, UInt8.le_iff_toNat_le, ← UInt8.toNat_inj,
    ne_eq] at space ⊢
  simp only [UInt8.reduceToNat] at space ⊢
  omega

theorem keyword_length {word : Bytes} (keyword : keywordOrIdentifier word ≠ .identifier) :
    word.length ≤ 8 := by
  unfold keywordOrIdentifier at keyword
  split at keyword
  · rename_i type found
    obtain ⟨l, r, split, _⟩ := lookup_eq_some_iff.1 found
    have table : ∀ entry ∈ keywords, entry.1.length ≤ 8 := by decide
    have short := table (asciiStrToUpper word, type) (by rw [split]; simp)
    simpa [asciiStrToUpper] using short
  · exact absurd rfl keyword

/-- A separator that starts like an identifier is a connective keyword. -/
theorem separator_word {r text : Bytes} (shape : Shape (c :: r) type text)
    (letter : isIdentifierChar c = true) (separator : isSeparator type = true) :
    isConnective type = true ∧ (∀ d ∈ c :: r, isIdentifierChar d = true) ∧ (c :: r).length ≤ 8 ∧
      extends_ type = isIdentifierChar := by
  generalize same : c :: r = lexeme at shape
  cases shape with
  | @word c' r' start chars =>
    obtain ⟨rfl, rfl⟩ := cons.inj same
    have extended := keywordOrIdentifier_extends (c :: r)
    have underscored := congrFun extended underscore
    have connective : isConnective (keywordOrIdentifier (c :: r)) = true := by
      revert separator underscored
      generalize keywordOrIdentifier (c :: r) = type
      cases type <;> decide
    refine ⟨connective, ?_, keyword_length ?_, extended⟩
    · intro d member
      rcases mem_cons.1 member with rfl | inside
      · exact letter
      · exact chars d inside
    · intro plain
      rw [plain] at connective
      exact absurd connective (by decide)
  | parameter _ _ =>
    obtain ⟨rfl, _⟩ := cons.inj same
    exact absurd letter (by decide)
  | string kind =>
    obtain ⟨rfl, _⟩ := cons.inj same
    rcases kind with rfl | rfl <;> exact absurd letter (by decide)
  | number _ => exact absurd separator (by decide)
  | single operator =>
    obtain ⟨rfl, _⟩ := cons.inj same
    unfold oneCharOperator at operator
    split_ifs at operator <;> subst_vars <;> exact absurd letter (by decide)
  | pair operator =>
    obtain ⟨rfl, _⟩ := cons.inj same
    unfold twoCharOperator at operator
    split_ifs at operator with h h h h <;> obtain ⟨rfl, _⟩ := h <;> exact absurd letter (by decide)

theorem space_stops (spaces : ∀ c ∈ tail, isSpace c = true) (after : Bytes)
    (stops : Stops .parameter after) : Stops .parameter (tail ++ after) := by
  cases tail with
  | nil => exact stops
  | cons c tail =>
    have plain := isIdentifierChar_of_space (spaces c mem_cons_self)
    simpa [Stops, extends_] using plain

/-- What stands behind a literal that is not clear: a connective keyword, without a gap. -/
theorem connective_behind {q : Piece} {rest : List Piece} (wellLexed : WellLexed (q :: rest) tail)
    (joins : ¬ Stops .parameter (render (q :: rest) tail)) (separator : isSeparator q.type = true) :
    q.gap = [] ∧ isConnective q.type = true ∧ (∀ d ∈ q.lexeme, isIdentifierChar d = true) ∧
      q.lexeme.length ≤ 8 ∧ Stops .parameter (render rest tail) := by
  obtain ⟨spaces, read, _⟩ := wellLexed
  obtain ⟨alone, stops⟩ := (reads_iff _ _).1 read
  obtain ⟨c, r, lexeme, _⟩ := alone
  have gap : q.gap = [] := by
    cases h : q.gap with
    | nil => rfl
    | cons d gap' =>
      have plain := isIdentifierChar_of_space (spaces d (by rw [h]; simp))
      exact absurd (by simpa [render, h, Stops, extends_] using plain) joins
  have letter : isIdentifierChar c = true := by
    by_contra plain
    apply joins
    simpa [render, gap, lexeme, Stops, extends_] using plain
  have shape := shape_of_reads ((reads_iff _ _).1 read).1
  rw [lexeme] at shape
  obtain ⟨connective, chars, short, extended⟩ := separator_word shape letter separator
  rw [Stops, extended] at stops
  rw [lexeme]
  exact ⟨gap, connective, chars, short, stops⟩

/-- The parameter that swallows the next lexeme. -/
def Piece.join (p : Piece) (n i : Nat) (q : Piece) : Piece :=
  ⟨p.gap, colon :: (parameterName n i ++ q.lexeme), .parameter, parameterName n i ++ q.lexeme⟩

theorem join_reads {p q : Piece} {n i : Nat} (few : i < kMaxTokens)
    (chars : ∀ d ∈ q.lexeme, isIdentifierChar d = true) (short : q.lexeme.length ≤ 8) :
    Reads (p.join n i q) [] := by
  obtain ⟨r, head, _⟩ := parameterName_cons n i
  have name := parameterName_length (n := n) few
  apply reads_parameter
  · exact ⟨118, by rw [head]; rfl, by decide⟩
  · intro d member
    rcases mem_append.1 member with inside | inside
    · exact parameterName_chars d inside
    · exact chars d inside
  · rw [length_append, kMaxIdentifierLength]
    omega

theorem isValue_of_lifted {p : Piece} {prev : TokenType} (lifted : p.lifted prev = true) (pos : Nat) :
    isValue (isCount prev) ⟨p.type, p.text, pos⟩ = true := by
  rw [isValue, lifted_token, lifted]
  rfl

theorem uncounted_of_lifted {p : Piece} {prev : TokenType} (lifted : p.lifted prev = true) :
    isCount p.type = false := by
  have literal := isLiteralToken_of_lifted lifted
  cases h : p.type <;> simp_all [isLiteralToken, Piece.token, isCount]

/-- How the text of a template is read.  If a literal is not clear, values and
separators do not alternate any more. -/
structure Merged (n : Nat) (prev : TokenType) (i : Nat) (ps : List Piece) (tail : Bytes)
    (qs : List Piece) : Prop where
  text : render qs tail = render (templatePieces n prev i ps) tail
  wellLexed : WellLexed qs tail
  length_le : qs.length ≤ ps.length
  starts : ∀ pos pos', Starts (tokensFrom pos ps tail) → Starts (tokensFrom pos' qs tail)
  unseparated : ¬ Clear prev ps tail → ∀ pos, ¬ Separated (isCount prev) (tokensFrom pos qs tail)

section Merge

variable {n i : Nat} {prev : TokenType} {p q : Piece} {ps qs : List Piece} {tail : Bytes}

theorem Merged.nil (spaces : ∀ c ∈ tail, isSpace c = true) (prev : TokenType) (i : Nat) :
    Merged n prev i [] tail [] := by
  refine ⟨rfl, spaces, le_rfl, ?_, fun unclear => absurd trivial unclear⟩
  rintro _ _ ⟨u, us, first, other⟩
  obtain ⟨rfl, _⟩ := cons.inj first
  cases other

theorem Merged.keep (spaces : ∀ c ∈ p.gap, isSpace c = true) (read : Reads p (render ps tail))
    (later : WellLexed ps tail) (kept : p.lifted prev = false)
    (merged : Merged n p.type i ps tail qs) : Merged n prev i (p :: ps) tail (p :: qs) := by
  have same : templatePieces n prev i (p :: ps) = p :: templatePieces n p.type i ps := by
    rw [templatePieces, if_neg (by simp [kept])]
  obtain ⟨alone, stops⟩ := (reads_iff _ _).1 read
  refine ⟨by rw [same, render, render, merged.text], ⟨spaces, ?_, merged.wellLexed⟩,
    Nat.succ_le_succ merged.length_le, ?_, ?_⟩
  · rw [merged.text]
    exact (reads_iff _ _).2 ⟨alone, stops_template later stops⟩
  · rintro pos pos' ⟨u, us, first, other⟩
    obtain ⟨rfl, _⟩ := cons.inj first
    exact ⟨_, _, rfl, other⟩
  · intro unclear pos separated
    exact merged.unseparated (fun clear => unclear ⟨by simp [kept], clear⟩) _ separated.2.2

theorem Merged.bind (few : i < kMaxTokens) (spaces : ∀ c ∈ p.gap, isSpace c = true)
    (later : WellLexed ps tail) (lifted : p.lifted prev = true)
    (clear : Stops .parameter (render ps tail)) (merged : Merged n p.type (i + 1) ps tail qs) :
    Merged n prev i (p :: ps) tail (p.bind n i :: qs) := by
  have same : templatePieces n prev i (p :: ps) = p.bind n i :: templatePieces n p.type (i + 1) ps := by
    rw [templatePieces, if_pos lifted]
  refine ⟨by rw [same, render, render, merged.text], ⟨spaces, ?_, merged.wellLexed⟩,
    Nat.succ_le_succ merged.length_le, ?_, ?_⟩
  · rw [merged.text]
    exact (reads_iff _ _).2 ⟨bind_reads few, stops_template later clear⟩
  · intro pos pos' _
    exact starts_of_type rfl rfl
  · intro unclear pos separated
    have rest := separated.2.2
    have flag : isCount (p.bind n i).type = isCount p.type := (uncounted_of_lifted lifted).symm
    rw [flag] at rest
    exact merged.unseparated (fun others => unclear ⟨fun _ => clear, others⟩) _ rest

/-- The parameter has taken the connective, so what stood behind that one, no
separator, now stands behind a value. -/
theorem Merged.join (few : i < kMaxTokens) (spaces : ∀ c ∈ p.gap, isSpace c = true)
    (wellLexed : WellLexed (q :: ps) tail) (lifted : p.lifted prev = true)
    (joins : ¬ Stops .parameter (render (q :: ps) tail)) (separator : isSeparator q.type = true)
    (starts : isConnective q.type = true → ∃ pos, Starts (tokensFrom pos ps tail))
    (merged : Merged n q.type (i + 1) ps tail qs) :
    Merged n prev i (p :: q :: ps) tail (p.join n i q :: qs) := by
  obtain ⟨gap, connective, chars, short, stops⟩ := connective_behind wellLexed joins separator
  have kept : q.lifted p.type = false := by
    have : isLiteralToken q.token = false := by
      cases h : q.type <;> simp_all [isLiteralToken, Piece.token, isConnective]
    simp [Piece.lifted, isLifted, this]
  have same : templatePieces n prev i (p :: q :: ps) =
      p.bind n i :: q :: templatePieces n q.type (i + 1) ps := by
    rw [templatePieces, if_pos lifted, templatePieces, if_neg (by simp [kept])]
  refine ⟨?_, ⟨spaces, ?_, merged.wellLexed⟩, ?_, ?_, ?_⟩
  · rw [same]
    simp [render, Piece.bind, Piece.join, gap, merged.text]
  · rw [merged.text]
    exact (reads_iff _ _).2 ⟨join_reads few chars short, stops_template wellLexed.2.2 stops⟩
  · have := merged.length_le
    simp only [length_cons]
    omega
  · intro pos pos' _
    exact starts_of_type rfl rfl
  · intro _ pos separated
    obtain ⟨start, next⟩ := starts connective
    have value : isValue (isCount prev) ⟨.parameter, parameterName n i ++ q.lexeme, pos⟩ = true := by
      simp [isValue]
    exact (merged.starts start _ next).not_follows (separated.1 value)

end Merge

/-- The text of a template can always be read, if not always as meant. -/
theorem template_merges {n : Nat} {tail : Bytes} : ∀ (ps : List Piece) (prev : TokenType) (i pos : Nat),
    i + ps.length ≤ kMaxTokens → WellLexed ps tail →
    Separated (isCount prev) (tokensFrom pos ps tail) → ∃ qs, Merged n prev i ps tail qs
  | [], prev, i, pos, _, wellLexed, _ => ⟨[], Merged.nil wellLexed prev i⟩
  | [p], prev, i, pos, few, ⟨spaces, read, later⟩, _ => by
    have clear : Stops .parameter (render [] tail) := by
      simpa [render] using space_stops later [] rfl
    by_cases lifted : p.lifted prev = true
    · exact ⟨_, Merged.bind few spaces later lifted clear (Merged.nil later _ _)⟩
    · exact ⟨_, Merged.keep spaces read later (by simpa using lifted) (Merged.nil later _ _)⟩
  | p :: q :: ps, prev, i, pos, few, ⟨spaces, read, later⟩, ⟨follows, _, separated⟩ => by
    simp only [length_cons] at few
    by_cases lifted : p.lifted prev = true
    · by_cases clear : Stops .parameter (render (q :: ps) tail)
      · obtain ⟨qs, merged⟩ := template_merges (q :: ps) p.type (i + 1) _
          (by simp only [length_cons]; omega) later separated
        exact ⟨_, Merged.bind (by omega) spaces later lifted clear merged⟩
      · have separator : isSeparator q.type = true := by
          obtain ⟨u, us, same, separator⟩ := follows (isValue_of_lifted lifted _)
          obtain ⟨rfl, _⟩ := cons.inj same
          exact separator
        obtain ⟨qs, merged⟩ := template_merges ps q.type (i + 1) _ (by omega) later.2.2
          separated.2.2
        exact ⟨_, Merged.join (by omega) spaces later lifted clear separator
          (fun connective => ⟨_, separated.2.1 connective⟩) merged⟩
    · obtain ⟨qs, merged⟩ := template_merges (q :: ps) p.type i _
        (by simp only [length_cons]; omega) later separated
      exact ⟨_, Merged.keep spaces read later (by simpa using lifted) merged⟩

end OpaqueDb.Sql
