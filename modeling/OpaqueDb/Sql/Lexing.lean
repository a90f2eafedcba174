/-
# Sql.Lexing -- a text as gaps and lexemes

A text the tokenizer accepts is whitespace and lexemes in turn.  `Piece` is one gap
with the lexeme after it, `render` writes the text back, and `WellLexed` says that the
tokenizer reads every lexeme where it stands.  `tokenize_iff` is the tokenizer's
specification: it returns exactly the tokens of a well-lexed division of its input.

Whether a lexeme is read depends on what follows only through one character:
`lexToken_iff` splits it into the lexeme itself and `Stops`, the condition that the next
character does not extend it.
-/
import OpaqueDb.Sql.Tokenizer

namespace OpaqueDb.Sql

open OpaqueDb.Core List

set_option autoImplicit false

/-! ## Maximal runs -/

section Runs

variable {p : UInt8 → Bool}

theorem takeWhile_append_length {r after : Bytes} :
    ((r ++ after).takeWhile p).length = r.length ↔
      r.takeWhile p = r ∧ after.head?.all (fun d => !p d) := by
  induction r with
  | nil =>
    cases after with
    | nil => simp
    | cons d after => cases h : p d <;> simp [h]
  | cons c r ih =>
    cases h : p c
    · simp [h]
    · simp [h, ih]

theorem takeWhile_append_of_eq {r after : Bytes} (whole : r.takeWhile p = r)
    (stops : after.head?.all (fun d => !p d)) : (r ++ after).takeWhile p = r := by
  have prefix_ := takeWhile_prefix p (l := r ++ after)
  have length := takeWhile_append_length.2 ⟨whole, stops⟩
  exact List.IsPrefix.eq_of_length (prefix_of_prefix_length_le prefix_
    (prefix_append r after) length.le) length

theorem takeWhile_append_of_short {r after : Bytes} (short : (r.takeWhile p).length < r.length) :
    (r ++ after).takeWhile p = r.takeWhile p := by
  induction r with
  | nil => simp at short
  | cons c r ih =>
    cases h : p c
    · simp [h]
    · simp only [takeWhile_cons, h, if_true, length_cons, cons_append] at short ⊢
      rw [ih (by omega)]

end Runs

/-! ## What can extend a lexeme -/

/-- Whether a character right behind a token of this type would have been part of it. -/
def extends_ : TokenType → UInt8 → Bool
  | .stringLiteral, _ | .comma, _ | .star, _ | .lParen, _ | .rParen, _ | .eq, _ | .ne, _
  | .le, _ | .ge, _ | .end_, _ => false
  | .numberLiteral, d => isDigit d
  | .lt, d => d == 61 || d == 62
  | .gt, d => d == 61
  | _, d => isIdentifierChar d

def Stops (type : TokenType) (after : Bytes) : Prop :=
  after.head?.all (fun d => !extends_ type d) = true

variable (word : Bytes)

theorem keywordOrIdentifier_mem :
    keywordOrIdentifier word = .identifier ∨ ∃ entry ∈ keywords, entry.2 = keywordOrIdentifier word := by
  unfold keywordOrIdentifier
  split
  · rename_i type found
    obtain ⟨l, r, split, _⟩ := lookup_eq_some_iff.1 found
    exact .inr ⟨(asciiStrToUpper word, type), by rw [split]; simp, rfl⟩
  · exact .inl rfl

theorem keywordOrIdentifier_extends : extends_ (keywordOrIdentifier word) = isIdentifierChar := by
  have table : ∀ entry ∈ keywords, extends_ entry.2 = isIdentifierChar := by
    intro entry member
    simp only [keywords, mem_cons, not_mem_nil, or_false] at member
    rcases member with rfl | rfl | rfl | rfl | rfl | rfl | rfl | rfl | rfl | rfl | rfl | rfl |
      rfl | rfl | rfl | rfl | rfl | rfl | rfl | rfl | rfl <;> rfl
  rcases keywordOrIdentifier_mem word with identifier | ⟨entry, member, same⟩
  · rw [identifier]
    rfl
  · rw [← same]
    exact table entry member

/-! ## One lexer at a time -/

variable {c : UInt8} {lexeme : Lexeme} {rest : Bytes}

theorem lexWord_ok : lexWord c rest = .ok lexeme ↔
      (rest.takeWhile isIdentifierChar).length < kMaxIdentifierLength ∧
      lexeme = ⟨keywordOrIdentifier (c :: rest.takeWhile isIdentifierChar),
        if keywordOrIdentifier (c :: rest.takeWhile isIdentifierChar) = .identifier then
          c :: rest.takeWhile isIdentifierChar else [],
        (rest.takeWhile isIdentifierChar).length + 1⟩ := by
  unfold lexWord
  simp only [length_cons]
  split
  · simp only [reduceCtorEq, false_iff]
    omega
  · simp only [Except.ok.injEq]
    exact ⟨fun same => ⟨by omega, same.symm⟩, fun h => h.2.symm⟩

theorem lexParameter_ok {pos : Nat} : lexParameter pos rest = .ok lexeme ↔
      (∃ d, rest.head? = some d ∧ isIdentifierStart d = true) ∧
      (rest.takeWhile isIdentifierChar).length ≤ kMaxIdentifierLength ∧
      lexeme = ⟨.parameter, rest.takeWhile isIdentifierChar,
        (rest.takeWhile isIdentifierChar).length + 1⟩ := by
  unfold lexParameter
  cases rest with
  | nil => simp
  | cons d rest =>
    cases start : isIdentifierStart d
    · simp [start]
    · by_cases long : ((d :: rest).takeWhile isIdentifierChar).length > kMaxIdentifierLength
      · have : ¬ ((d :: rest).takeWhile isIdentifierChar).length ≤ kMaxIdentifierLength := by omega
        simp [start, if_pos long, this]
      · have short : ((d :: rest).takeWhile isIdentifierChar).length ≤ kMaxIdentifierLength := by omega
        simp only [head?_cons, Option.all_some, start, Bool.not_true, Bool.false_eq_true, if_false,
          if_neg long, Except.ok.injEq, Option.some.injEq, exists_eq_left', short,
          true_and, eq_comm]

theorem lexString_ok {pos : Nat} {quote : UInt8} : lexString pos quote rest = .ok lexeme ↔
      (rest.takeWhile (· != quote)).length ≤ kMaxIdentifierLength ∧
      (rest.takeWhile (· != quote)).length < rest.length ∧
      lexeme = ⟨.stringLiteral, rest.takeWhile (· != quote),
        (rest.takeWhile (· != quote)).length + 2⟩ := by
  have le := ( takeWhile_prefix (l := rest) (· != quote)).length_le
  unfold lexString
  simp only
  split
  · simp only [reduceCtorEq, false_iff]
    omega
  · split
    · simp only [reduceCtorEq, false_iff]
      omega
    · simp only [Except.ok.injEq]
      exact ⟨fun same => ⟨by omega, by omega, same.symm⟩, fun h => h.2.2.symm⟩

section Lex

variable {type : TokenType} {text r after : Bytes}

theorem lexWord_iff (c : UInt8) :
    lexWord c (r ++ after) = .ok ⟨type, text, r.length + 1⟩ ↔
      lexWord c r = .ok ⟨type, text, r.length + 1⟩ ∧ Stops type after := by
  rw [lexWord_ok, lexWord_ok]
  simp only [Lexeme.mk.injEq]
  constructor
  · rintro ⟨short, kind, contents, length⟩
    obtain ⟨whole, stops⟩ := takeWhile_append_length.1 (Nat.succ.inj length.symm)
    rw [takeWhile_append_of_eq whole stops] at short kind contents
    rw [whole, Stops, kind, keywordOrIdentifier_extends]
    exact ⟨⟨short, rfl, by rw [contents], rfl⟩, stops⟩
  · rintro ⟨⟨short, kind, contents, length⟩, stops⟩
    have whole : r.takeWhile isIdentifierChar = r :=
      ( takeWhile_prefix _).eq_of_length (Nat.succ.inj length.symm)
    rw [Stops, kind, keywordOrIdentifier_extends] at stops
    rw [takeWhile_append_of_eq whole stops]
    rw [whole] at short kind contents
    exact ⟨short, kind, contents, rfl⟩

theorem isIdentifierChar_of_start {d : UInt8} (start : isIdentifierStart d = true) :
    isIdentifierChar d = true := by
  simp only [isIdentifierStart, isIdentifierChar, isAlnum, Bool.or_eq_true] at start ⊢
  rcases start with h | h
  · exact Or.inl (Or.inl h)
  · exact Or.inr h

variable (pos pos' : Nat)

theorem lexParameter_iff : lexParameter pos (r ++ after) = .ok ⟨type, text, r.length + 1⟩ ↔
      lexParameter pos' r = .ok ⟨type, text, r.length + 1⟩ ∧ Stops type after := by
  rw [lexParameter_ok, lexParameter_ok]
  simp only [Lexeme.mk.injEq]
  constructor
  · rintro ⟨⟨d, head, start⟩, short, rfl, contents, length⟩
    obtain ⟨whole, stops⟩ := takeWhile_append_length.1 (Nat.succ.inj length.symm)
    rw [takeWhile_append_of_eq whole stops] at short contents
    cases r with
    | nil =>
      have ends : (!isIdentifierChar d) = true := (Option.all_eq_true _ _).1 stops d head
      simp [isIdentifierChar_of_start start] at ends
    | cons e r =>
      rw [whole]
      exact ⟨⟨⟨d, head, start⟩, short, rfl, contents, rfl⟩, stops⟩
  · rintro ⟨⟨⟨d, head, start⟩, short, rfl, contents, length⟩, stops⟩
    have whole : r.takeWhile isIdentifierChar = r :=
      ( takeWhile_prefix _).eq_of_length (Nat.succ.inj length.symm)
    rw [takeWhile_append_of_eq whole stops]
    rw [whole] at short contents
    refine ⟨⟨d, ?_, start⟩, short, rfl, contents, rfl⟩
    cases r with
    | nil => simp at head
    | cons e r => exact head

/-- The closing quote ends a string, so nothing behind it matters. -/
theorem lexString_iff (quote : UInt8) :
    lexString pos quote (r ++ after) = .ok ⟨type, text, r.length + 1⟩ ↔
      lexString pos' quote r = .ok ⟨type, text, r.length + 1⟩ ∧ Stops type after := by
  rw [lexString_ok, lexString_ok]
  simp only [Lexeme.mk.injEq]
  constructor
  · rintro ⟨fits, _, rfl, contents, length⟩
    have short : (r.takeWhile (· != quote)).length < r.length := by
      by_contra full
      have le := ( takeWhile_prefix (l := r) (· != quote)).length_le
      have whole : r.takeWhile (· != quote) = r :=
        ( takeWhile_prefix _).eq_of_length (by omega)
      have grows : ((r ++ after).takeWhile (· != quote)).length ≥ r.length := by
        rw [takeWhile_append_of_pos (takeWhile_eq_self_iff.1 whole), length_append]
        omega
      omega
    rw [takeWhile_append_of_short short] at fits contents length
    refine ⟨⟨fits, short, rfl, contents, length⟩, ?_⟩
    cases h : after.head? <;> simp [Stops, extends_]
  · rintro ⟨⟨fits, short, rfl, contents, length⟩, _⟩
    rw [takeWhile_append_of_short short, length_append]
    exact ⟨fits, by omega, rfl, contents, length⟩

theorem lexNumber_iff (c : UInt8) :
    lexNumber c (r ++ after) = ⟨type, text, r.length + 1⟩ ↔
      lexNumber c r = ⟨type, text, r.length + 1⟩ ∧ Stops type after := by
  simp only [lexNumber, Lexeme.mk.injEq]
  constructor
  · rintro ⟨rfl, contents, length⟩
    obtain ⟨whole, stops⟩ := takeWhile_append_length.1 (Nat.succ.inj length)
    rw [takeWhile_append_of_eq whole stops] at contents
    rw [whole]
    exact ⟨⟨rfl, contents, rfl⟩, stops⟩
  · rintro ⟨⟨rfl, contents, length⟩, stops⟩
    have whole : r.takeWhile isDigit = r :=
      ( takeWhile_prefix _).eq_of_length (Nat.succ.inj length)
    rw [takeWhile_append_of_eq whole stops]
    rw [whole] at contents
    exact ⟨rfl, contents, rfl⟩

/-- A single punctuation character stands alone unless the next one joins it. -/
theorem oneCharOperator_stops (single : oneCharOperator c = some type) :
    twoCharOperator c after.head? = none ↔ Stops type after := by
  unfold oneCharOperator at single
  rw [Stops]
  cases after.head? with
  | none => simp [twoCharOperator]
  | some d =>
    split_ifs at single <;> cases single <;> subst_vars <;>
      simp [twoCharOperator, extends_]
    all_goals grind

theorem twoCharOperator_none (c : UInt8) : twoCharOperator c none = none := by
  simp [twoCharOperator]

theorem twoCharOperator_stops {next : Option UInt8} (pair : twoCharOperator c next = some type) :
    Stops type after := by
  unfold twoCharOperator at pair
  rw [Stops]
  cases after.head? with
  | none => rfl
  | some d => split_ifs at pair <;> cases pair <;> rfl

theorem lexOperator_ok {pos : Nat} : lexOperator pos c rest = .ok lexeme ↔
      (∃ type, twoCharOperator c rest.head? = some type ∧ lexeme = ⟨type, [], 2⟩) ∨
      (twoCharOperator c rest.head? = none ∧
        ∃ type, oneCharOperator c = some type ∧ lexeme = ⟨type, [], 1⟩) := by
  unfold lexOperator
  cases twoCharOperator c rest.head? with
  | some type => simp [eq_comm]
  | none => cases oneCharOperator c <;> simp [eq_comm]

theorem lexOperator_iff (c : UInt8) :
    lexOperator pos c (r ++ after) = .ok ⟨type, text, r.length + 1⟩ ↔
      lexOperator pos' c r = .ok ⟨type, text, r.length + 1⟩ ∧ Stops type after := by
  rw [lexOperator_ok, lexOperator_ok]
  simp only [Lexeme.mk.injEq]
  match r with
  | [] =>
    simp only [length_nil, head?_nil, twoCharOperator_none]
    constructor
    · rintro (⟨_, _, _, _, length⟩ | ⟨alone, kind, single, rfl, contents, _⟩)
      · omega
      · exact ⟨Or.inr ⟨trivial, type, single, rfl, contents, trivial⟩,
          (oneCharOperator_stops single).1 alone⟩
    · rintro ⟨⟨_, _, _, _, length⟩ | ⟨_, kind, single, rfl, contents, _⟩, stops⟩
      · omega
      · exact Or.inr ⟨(oneCharOperator_stops single).2 stops, type, single, rfl, contents,
          trivial⟩
  | x :: r =>
    constructor
    · rintro (⟨kind, pair, rfl, contents, length⟩ | ⟨_, _, _, _, _, length⟩)
      · exact ⟨Or.inl ⟨type, pair, rfl, contents, length⟩, twoCharOperator_stops pair⟩
      · simp at length
    · rintro ⟨⟨kind, pair, rfl, contents, length⟩ | ⟨_, _, _, _, _, length⟩, _⟩
      · exact Or.inl ⟨type, pair, rfl, contents, length⟩
      · simp at length

/-- **One character of lookahead.**  A lexeme is read in front of any text that does
not extend it. -/
theorem lexToken_iff (c : UInt8) : lexToken pos c (r ++ after) = .ok ⟨type, text, r.length + 1⟩ ↔
      lexToken pos' c r = .ok ⟨type, text, r.length + 1⟩ ∧ Stops type after := by
  unfold lexToken
  split
  · exact lexWord_iff c
  split
  · exact lexParameter_iff pos pos'
  split
  · exact lexString_iff pos pos' c
  split
  · simp only [Except.ok.injEq]
    exact lexNumber_iff c
  · exact lexOperator_iff pos pos' c

end Lex

/-- A token covers at least one byte and at most what is left. -/
theorem lexToken_length {pos : Nat} (lexed : lexToken pos c rest = .ok lexeme) :
    1 ≤ lexeme.length ∧ lexeme.length ≤ rest.length + 1 := by
  have words := ( takeWhile_prefix (l := rest) isIdentifierChar).length_le
  have digits := ( takeWhile_prefix (l := rest) isDigit).length_le
  unfold lexToken at lexed
  split at lexed
  · obtain ⟨_, rfl⟩ := lexWord_ok.1 lexed
    simp only
    omega
  split at lexed
  · obtain ⟨_, _, rfl⟩ := lexParameter_ok.1 lexed
    simp only
    omega
  split at lexed
  · obtain ⟨_, short, rfl⟩ := lexString_ok.1 lexed
    simp only
    omega
  split at lexed
  · cases lexed
    simp only [lexNumber, length_cons]
    omega
  · rcases lexOperator_ok.1 lexed with ⟨_, pair, rfl⟩ | ⟨_, _, _, rfl⟩
    · cases rest with
      | nil => simp [twoCharOperator_none] at pair
      | cons d rest => simp
    · simp

/-! ## Gaps and lexemes -/

/-- Whitespace and the lexeme behind it, with the token it is read as. -/
structure Piece where
  gap : Bytes
  lexeme : Bytes
  type : TokenType
  text : Bytes

/-- The text made of the pieces and the whitespace behind the last one. -/
def render : List Piece → Bytes → Bytes
  | [], tail => tail
  | p :: ps, tail => p.gap ++ (p.lexeme ++ render ps tail)

/-- The tokenizer reads the piece's token in front of `after`. -/
def Reads (p : Piece) (after : Bytes) : Prop :=
  ∃ c r, p.lexeme = c :: r ∧ isSpace c = false ∧
    lexToken 0 c (r ++ after) = .ok ⟨p.type, p.text, p.lexeme.length⟩

theorem reads_iff (p : Piece) (after : Bytes) :
    Reads p after ↔ Reads p [] ∧ Stops p.type after := by
  constructor
  · rintro ⟨c, r, shape, visible, lexed⟩
    rw [shape, length_cons, lexToken_iff 0 0] at lexed
    refine ⟨⟨c, r, shape, visible, ?_⟩, lexed.2⟩
    rw [shape, append_nil]
    exact lexed.1
  · rintro ⟨⟨c, r, shape, visible, lexed⟩, stops⟩
    refine ⟨c, r, shape, visible, ?_⟩
    rw [shape, append_nil] at lexed
    rw [shape, length_cons, lexToken_iff 0 0]
    exact ⟨lexed, stops⟩

def WellLexed : List Piece → Bytes → Prop
  | [], tail => ∀ c ∈ tail, isSpace c = true
  | p :: ps, tail => (∀ c ∈ p.gap, isSpace c = true) ∧ Reads p (render ps tail) ∧ WellLexed ps tail

/-- The tokens of the pieces, the first gap starting at `pos`. -/
def tokensFrom : Nat → List Piece → Bytes → List Token
  | pos, [], tail => [⟨.end_, [], pos + tail.length⟩]
  | pos, p :: ps, tail =>
    ⟨p.type, p.text, pos + p.gap.length⟩ ::
      tokensFrom (pos + p.gap.length + p.lexeme.length) ps tail

/-! ## The tokenizer's specification -/

theorem push_ok {count : Nat} : push count = .ok () ↔ count < kMaxTokens := by
  unfold push
  split
  · simp only [reduceCtorEq, false_iff]
    omega
  · simp only [true_iff]
    omega

theorem tokenizeLoop_sound : ∀ (fuel : Nat) (src : Bytes) (pos count : Nat) (tokens : List Token),
    tokenizeLoop fuel src pos count = .ok tokens →
      ∃ ps tail, src = render ps tail ∧ WellLexed ps tail ∧ tokens = tokensFrom pos ps tail ∧
        count + ps.length < kMaxTokens
  | fuel, [], pos, count, tokens, scanned => by
    have unfolded : (push count >>= fun _ => pure [⟨.end_, [], pos⟩]) = Except.ok tokens := by
      cases fuel <;> exact scanned
    obtain ⟨_, pushed, last⟩ := bind_eq_ok.1 unfolded
    obtain rfl := pure_eq_ok.1 last
    exact ⟨[], [], rfl, fun c member => absurd member not_mem_nil, rfl, push_ok.1 pushed⟩
  | 0, c :: rest, pos, count, tokens, scanned => by exact absurd scanned (by simp [tokenizeLoop])
  | fuel + 1, c :: rest, pos, count, tokens, scanned => by
    rw [tokenizeLoop] at scanned
    split at scanned
    · rename_i space
      obtain ⟨ps, tail, shape, wellLexed, rfl, few⟩ :=
        tokenizeLoop_sound fuel rest (pos + 1) count tokens scanned
      cases ps with
      | nil =>
        refine ⟨[], c :: tail, by rw [shape]; rfl, ?_, ?_, few⟩
        · intro d member
          rcases mem_cons.1 member with rfl | later
          · exact space
          · exact wellLexed d later
        · simp only [tokensFrom, length_cons]
          congr 2
          omega
      | cons p ps =>
        refine ⟨{ p with gap := c :: p.gap } :: ps, tail, by rw [shape]; rfl, ?_, ?_, few⟩
        · refine ⟨?_, wellLexed.2⟩
          intro d member
          rcases mem_cons.1 member with rfl | later
          · exact space
          · exact wellLexed.1 d later
        · simp only [tokensFrom, length_cons]
          congr 2 <;> omega
    · rename_i visible
      obtain ⟨⟨type, text, length⟩, lexed, step⟩ := bind_eq_ok.1 scanned
      obtain ⟨_, pushed, step⟩ := bind_eq_ok.1 step
      obtain ⟨later, loop, last⟩ := bind_eq_ok.1 step
      obtain rfl := pure_eq_ok.1 last
      obtain ⟨ps, tail, shape, wellLexed, rfl, few⟩ := tokenizeLoop_sound fuel _ _ _ _ loop
      obtain ⟨pos_, le⟩ := lexToken_length lexed
      obtain ⟨len, rfl⟩ : ∃ len, length = len + 1 := ⟨length - 1, (Nat.sub_add_cancel pos_).symm⟩
      simp only at lexed shape le ⊢
      obtain ⟨word, rfl, rfl⟩ : ∃ word : Bytes, len = word.length ∧
          rest = word ++ render ps tail := by
        refine ⟨rest.take len, ?_, ?_⟩
        · rw [length_take]
          omega
        · rw [← shape, drop_succ_cons, take_append_drop]
      refine ⟨⟨[], c :: word, type, text⟩ :: ps, tail, rfl, ?_, rfl, ?_⟩
      · refine ⟨fun d member => absurd member not_mem_nil, ?_, wellLexed⟩
        exact ⟨c, word, rfl, by simpa using visible,
          (lexToken_iff 0 pos c).2 ((lexToken_iff pos pos c).1 lexed)⟩
      · rw [length_cons]
        omega

theorem tokenizeLoop_gap {gap : Bytes} (src : Bytes) (spaces : ∀ c ∈ gap, isSpace c = true)
    (fuel pos count : Nat) :
    tokenizeLoop (gap.length + fuel) (gap ++ src) pos count =
      tokenizeLoop fuel src (pos + gap.length) count := by
  induction gap generalizing pos with
  | nil => simp
  | cons c gap ih =>
    have rest := ih (fun d member => spaces d (mem_cons_of_mem _ member)) (pos + 1)
    rw [length_cons, cons_append, Nat.add_right_comm, tokenizeLoop, if_pos (spaces c mem_cons_self),
      rest, Nat.add_assoc, Nat.add_comm 1]

theorem tokenizeLoop_complete : ∀ (ps : List Piece) (tail : Bytes) (fuel pos count : Nat),
    WellLexed ps tail → (render ps tail).length ≤ fuel → count + ps.length < kMaxTokens →
      tokenizeLoop fuel (render ps tail) pos count = .ok (tokensFrom pos ps tail)
  | [], tail, fuel, pos, count, spaces, enough, few => by
    obtain ⟨more, rfl⟩ := Nat.exists_eq_add_of_le enough
    have scanned := tokenizeLoop_gap [] spaces more pos count
    rw [append_nil] at scanned
    rw [render, scanned]
    have pushed : push count = .ok () := push_ok.2 few
    cases more <;> rw [tokenizeLoop, pushed] <;> rfl
  | p :: ps, tail, fuel, pos, count, ⟨spaces, ⟨c, r, shape, visible, lexed⟩, wellLexed⟩, enough,
      few => by
      rw [render, length_append, length_append, shape, length_cons] at enough
      rw [length_cons] at few
      obtain ⟨more, rfl⟩ : ∃ more, fuel = p.gap.length + (more + 1) :=
        ⟨fuel - p.gap.length - 1, by omega⟩
      rw [shape] at lexed
      have read : lexToken (pos + p.gap.length) c (r ++ render ps tail) =
          .ok ⟨p.type, p.text, r.length + 1⟩ :=
        (lexToken_iff _ 0 c).2 ((lexToken_iff 0 0 c).1 lexed)
      have pushed : push count = .ok () := push_ok.2 (by omega)
      have rest := tokenizeLoop_complete ps tail more (pos + p.gap.length + (r.length + 1)) (count + 1)
        wellLexed (by omega) (by omega)
      rw [render, tokenizeLoop_gap _ spaces, shape, cons_append, tokenizeLoop,
        if_neg (by simp [visible]), read, pushed]
      simp only [bind, Except.bind, drop_succ_cons, drop_left, rest]
      simp only [tokensFrom, shape]
      rfl

/-- **The tokenizer's specification.**  Within the limits, it returns the tokens of a
division of its input into gaps and lexemes. -/
theorem tokenize_iff {sql : Bytes} {tokens : List Token} :
    tokenize sql = .ok tokens ↔
      sql.length ≤ kMaxSqlLength ∧
      ∃ ps tail, sql = render ps tail ∧ WellLexed ps tail ∧ tokens = tokensFrom 0 ps tail ∧
        ps.length < kMaxTokens := by
  unfold tokenize
  split
  · simp only [reduceCtorEq, false_iff]
    omega
  · constructor
    · intro scanned
      obtain ⟨ps, tail, shape, wellLexed, same, few⟩ := tokenizeLoop_sound _ _ _ _ _ scanned
      exact ⟨by omega, ps, tail, shape, wellLexed, same, by omega⟩
    · rintro ⟨_, ps, tail, rfl, wellLexed, rfl, few⟩
      exact tokenizeLoop_complete ps tail _ 0 0 wellLexed le_rfl (by omega)

/-! ## What a lexeme looks like -/

/-- The text of a lexeme, its type and the token text. -/
inductive Shape : Bytes → TokenType → Bytes → Prop
  | word {c : UInt8} {r : Bytes} (start : isIdentifierStart c = true)
      (chars : ∀ d ∈ r, isIdentifierChar d = true) :
      Shape (c :: r) (keywordOrIdentifier (c :: r))
        (if keywordOrIdentifier (c :: r) = .identifier then c :: r else [])
  | parameter {name : Bytes} (chars : ∀ d ∈ name, isIdentifierChar d = true) (nonempty : name ≠ []) :
      Shape (colon :: name) .parameter name
  | string {quote : UInt8} {body : Bytes} (kind : quote = singleQuote ∨ quote = doubleQuote) :
      Shape (quote :: (body ++ [quote])) .stringLiteral body
  | number {c : UInt8} {r : Bytes} (digits : ∀ d ∈ c :: r, isDigit d = true) :
      Shape (c :: r) .numberLiteral (c :: r)
  | single {c : UInt8} {type : TokenType} (operator : oneCharOperator c = some type) :
      Shape [c] type []
  | pair {c d : UInt8} {type : TokenType} (operator : twoCharOperator c (some d) = some type) :
      Shape [c, d] type []

theorem takeWhile_eq_of_length {p : UInt8 → Bool} {r : Bytes}
    (length : r.length + 1 = (r.takeWhile p).length + 1) :
    r.takeWhile p = r ∧ ∀ d ∈ r, p d = true := by
  have whole : r.takeWhile p = r := ( takeWhile_prefix p).eq_of_length (by omega)
  exact ⟨whole, takeWhile_eq_self_iff.1 whole⟩

theorem shape_of_reads {p : Piece} (read : Reads p []) : Shape p.lexeme p.type p.text := by
  obtain ⟨c, r, shape, _, lexed⟩ := read
  rw [shape, append_nil, length_cons] at lexed
  rw [shape]
  unfold lexToken at lexed
  split at lexed
  · rename_i start
    obtain ⟨_, same⟩ := lexWord_ok.1 lexed
    simp only [Lexeme.mk.injEq] at same
    obtain ⟨type, text, length⟩ := same
    obtain ⟨whole, chars⟩ := takeWhile_eq_of_length length
    rw [type, text, whole]
    exact .word start chars
  split at lexed
  · rename_i here
    obtain ⟨⟨d, head, _⟩, _, same⟩ := lexParameter_ok.1 lexed
    simp only [Lexeme.mk.injEq] at same
    obtain ⟨type, text, length⟩ := same
    obtain ⟨whole, chars⟩ := takeWhile_eq_of_length length
    rw [type, text, whole, here]
    exact .parameter chars (by rintro rfl; simp at head)
  split at lexed
  · rename_i kind
    obtain ⟨_, short, same⟩ := lexString_ok.1 lexed
    simp only [Lexeme.mk.injEq] at same
    obtain ⟨type, text, length⟩ := same
    obtain ⟨d, closed⟩ : ∃ d, r.dropWhile (· != c) = [d] := by
      apply length_eq_one_iff.1
      have total := congrArg List.length (takeWhile_append_dropWhile (p := (· != c)) (l := r))
      rw [length_append] at total
      omega
    have quote : d = c := by
      have head := head?_dropWhile_not (· != c) r
      rw [closed] at head
      simpa using head
    rw [type, text]
    have whole : r = r.takeWhile (· != c) ++ [c] := by
      have := takeWhile_append_dropWhile (p := (· != c)) (l := r)
      rw [closed, quote] at this
      exact this.symm
    nth_rewrite 1 [whole]
    exact .string kind
  split at lexed
  · rename_i digit
    simp only [lexNumber, Except.ok.injEq, Lexeme.mk.injEq] at lexed
    obtain ⟨type, text, length⟩ := lexed
    obtain ⟨whole, chars⟩ := takeWhile_eq_of_length length.symm
    rw [← type, ← text, whole]
    exact .number (by simpa [digit] using chars)
  · rcases lexOperator_ok.1 lexed with ⟨type, pair, same⟩ | ⟨_, type, single, same⟩
    · simp only [Lexeme.mk.injEq] at same
      obtain ⟨rfl, text, length⟩ := same
      match r with
      | [] => simp at length
      | [d] =>
        rw [text]
        exact .pair pair
      | _ :: _ :: _ => simp at length
    · simp only [Lexeme.mk.injEq] at same
      obtain ⟨rfl, text, length⟩ := same
      match r with
      | [] =>
        rw [text]
        exact .single single
      | _ :: _ => simp at length

end OpaqueDb.Sql
