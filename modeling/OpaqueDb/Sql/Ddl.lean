/-
# Sql.Ddl -- CREATE TABLE

The table definition goes through the tokenizer of the queries, so its limits are the
limits of a schema: `parseCreateTable_bounded` says how long the names of a schema can
be and how many columns it can have.
-/
import OpaqueDb.Sql.Grammar
import OpaqueDb.Sql.Lexing

namespace OpaqueDb.Sql

open OpaqueDb.Core List

set_option autoImplicit false

variable (ts : List Token)

def ddlEncoding : ColumnEncoding × List Token :=
  match accept .key ts with
  | some rest => (.eq, rest)
  | none =>
    match accept .index ts with
    | some rest => (.index, rest)
    | none => (.raw, ts)

def parseDdlColumn : StatusOr (Column × List Token) := do
  let (name, ts) ← parseIdentifier (bytes "a column name") ts
  let (word, ts) ← parseIdentifier (bytes "a column type") ts
  match parseColumnType (asciiStrToLower word) with
  | .error _ => .error (invalidArgument ["column '", name, "': unknown type '", word,
      "', use INT, REAL, TEXT, or JSON"])
  | .ok type => .ok (⟨name, (ddlEncoding ts).1, type⟩, (ddlEncoding ts).2)

/-- `DdlParser::Parse`. -/
def parseDdl : StatusOr Schema := do
  let ts ← expect .create ts
  let ts ← expect .table ts
  let (table, ts) ← parseIdentifier (bytes "a table name") ts
  let ts ← expect .lParen ts
  let (columns, ts) ← commaList parseDdlColumn ts.length ts
  let ts ← expect .rParen ts
  parseEnd ts
  let keyCount := columns.countP fun column => column.encoding == .eq
  if keyCount ≠ 1 then
    .error (invalidArgument ["CREATE TABLE needs exactly one KEY column, found ",
      dec keyCount])
  else do
    Schema.validate ⟨table, columns⟩
    return ⟨table, columns⟩

/-- One trailing semicolon is dropped before the text is tokenized. -/
def parseCreateTable (ddl : Bytes) : StatusOr Schema := do
  let trimmed := stripAsciiWhitespace ddl
  let tokens ← tokenize (if trimmed.getLast? = some 59 then trimmed.dropLast else trimmed)
  parseDdl tokens

example : parseCreateTable (bytes "CREATE TABLE t (id INT KEY, a text);") =
    .ok ⟨bytes "t", [⟨bytes "id", .eq, .int⟩, ⟨bytes "a", .raw, .text⟩]⟩ := by
  decide +kernel

/-! ## What a schema can look like -/

/-- A name the tokenizer reads as an identifier. -/
structure IsIdentifier (name : Bytes) : Prop where
  chars : ∀ c ∈ name, isIdentifierChar c = true
  short : name.length ≤ kMaxIdentifierLength

theorem identifier_of_lexed {pos : Nat} {c : UInt8} {rest : Bytes} {lexeme : Lexeme}
    (lexed : lexToken pos c rest = .ok lexeme) (type : lexeme.type = .identifier) :
    IsIdentifier lexeme.text := by
  unfold lexToken at lexed
  split at lexed
  · rename_i start
    obtain ⟨short, rfl⟩ := lexWord_ok.1 lexed
    rw [if_pos type]
    refine ⟨?_, by rw [length_cons]; omega⟩
    intro d member
    rcases mem_cons.1 member with rfl | later
    · exact isIdentifierChar_of_start start
    · exact mem_takeWhile_imp later
  split at lexed
  · obtain ⟨_, _, rfl⟩ := lexParameter_ok.1 lexed
    cases type
  split at lexed
  · obtain ⟨_, _, rfl⟩ := lexString_ok.1 lexed
    cases type
  split at lexed
  · cases lexed
    cases type
  · rcases lexOperator_ok.1 lexed with ⟨_, _, rfl⟩ | ⟨_, _, _, rfl⟩ <;>
      exact ⟨fun _ member => absurd member not_mem_nil, Nat.zero_le _⟩

variable {tokens : List Token} {sql : Bytes}

theorem identifier_of_tokenized {t : Token} (tokenized : tokenize sql = .ok tokens)
    (member : t ∈ tokens) (type : t.type = .identifier) : IsIdentifier t.text := by
  obtain ⟨_, ps, tail, shape, wellLexed, rfl, few⟩ := tokenize_iff.1 tokenized
  clear tokenized shape few
  -- the tokens are read off the pieces one by one, wherever the first of them starts
  generalize 0 = pos at member
  induction ps generalizing pos with
  | nil =>
    rw [tokensFrom, mem_singleton] at member
    subst member
    cases type
  | cons p ps ih =>
    obtain ⟨_, ⟨c, r, _, _, lexed⟩, later⟩ := wellLexed
    rcases mem_cons.1 member with rfl | member
    · exact identifier_of_lexed lexed type
    · exact ih later _ member

theorem tokenize_length (tokenized : tokenize sql = .ok tokens) : tokens.length ≤ kMaxTokens := by
  obtain ⟨_, ps, tail, _, _, rfl, few⟩ := tokenize_iff.1 tokenized
  have length : ∀ (ps : List Piece) (pos : Nat), (tokensFrom pos ps tail).length = ps.length + 1 := by
    intro ps
    induction ps with
    | nil => exact fun _ => rfl
    | cons p ps ih =>
      intro pos
      rw [tokensFrom, length_cons, ih, length_cons]
  rw [length]
  exact few

/-- A column is named by one of its tokens, and takes at least two. -/
def DdlColumnPhrase (used : List Token) (column : Column) : Prop :=
  2 ≤ used.length ∧ ∃ t ∈ used, t.type = .identifier ∧ t.text = column.name

theorem ddlEncoding_rest : ∃ used, ts = used ++ (ddlEncoding ts).2 := by
  unfold ddlEncoding
  rcases key : accept .key ts with _ | rest
  · rcases index : accept .index ts with _ | rest
    · exact ⟨[], rfl⟩
    · obtain ⟨t, _, rfl⟩ := accept_eq_some.1 index
      exact ⟨[t], rfl⟩
  · obtain ⟨t, _, rfl⟩ := accept_eq_some.1 key
    exact ⟨[t], rfl⟩

theorem parseDdlColumn_sound : Sound DdlColumnPhrase parseDdlColumn := by
  intro ts rest column parsed
  obtain ⟨⟨name, ts₁⟩, first, parsed₁⟩ := bind_eq_ok.1 parsed
  obtain ⟨t, identifier, rfl, rfl⟩ := parseIdentifier_eq_ok.1 first
  obtain ⟨⟨word, ts₂⟩, second, parsed₂⟩ := bind_eq_ok.1 parsed₁
  obtain ⟨u, _, rfl, rfl⟩ := parseIdentifier_eq_ok.1 second
  simp only at parsed₂
  split at parsed₂
  · cases parsed₂
  · obtain ⟨used, split⟩ := ddlEncoding_rest ts₂
    cases parsed₂
    refine ⟨t :: u :: used, by rw [cons_append, cons_append, ← split], by simp, t,
      mem_cons_self, identifier, rfl⟩

theorem ddlColumns_bounded {used : List Token} {columns : List Column}
    (phrase : CommaSeparated DdlColumnPhrase used columns) :
    2 * columns.length ≤ used.length ∧
      ∀ column ∈ columns, ∃ t ∈ used, t.type = .identifier ∧ t.text = column.name := by
  induction phrase with
  | @single ts column item =>
    refine ⟨item.1, fun c member => ?_⟩
    rw [mem_singleton.1 member]
    exact item.2
  | @cons ts us column columns comma item _ _ ih =>
    refine ⟨?_, fun c member => ?_⟩
    · rw [length_cons, length_append, length_cons]
      have := item.1
      omega
    · rcases mem_cons.1 member with rfl | later
      · obtain ⟨t, there, named⟩ := item.2
        exact ⟨t, mem_append_left _ there, named⟩
      · obtain ⟨t, there, named⟩ := ih.2 c later
        exact ⟨t, mem_append_right _ (mem_cons_of_mem _ there), named⟩

/-- What every schema of a table definition satisfies. -/
structure Declared (schema : Schema) : Prop where
  valid : schema.validate = .ok ()
  table : IsIdentifier schema.table
  columns : ∀ column ∈ schema.columns, IsIdentifier column.name
  few : 2 * schema.columns.length ≤ kMaxTokens

/-- **The tokenizer's limits are a schema's limits.** -/
theorem parseCreateTable_bounded {ddl : Bytes} {schema : Schema}
    (parsed : parseCreateTable ddl = .ok schema) : Declared schema := by
  obtain ⟨tokens, tokenized, parsed₁⟩ := bind_eq_ok.1 parsed
  have named : ∀ t ∈ tokens, t.type = .identifier → IsIdentifier t.text :=
    fun t member => identifier_of_tokenized tokenized member
  have length := tokenize_length tokenized
  obtain ⟨ts₁, create, parsed₂⟩ := bind_eq_ok.1 parsed₁
  obtain ⟨c, _, rfl⟩ := expect_eq_ok.1 create
  obtain ⟨ts₂, table, parsed₃⟩ := bind_eq_ok.1 parsed₂
  obtain ⟨t, _, rfl⟩ := expect_eq_ok.1 table
  obtain ⟨⟨name, ts₃⟩, known, parsed₄⟩ := bind_eq_ok.1 parsed₃
  obtain ⟨n, identifier, rfl, rfl⟩ := parseIdentifier_eq_ok.1 known
  obtain ⟨ts₄, open_, parsed₅⟩ := bind_eq_ok.1 parsed₄
  obtain ⟨l, _, rfl⟩ := expect_eq_ok.1 open_
  obtain ⟨⟨columns, ts₅⟩, list, parsed₆⟩ := bind_eq_ok.1 parsed₅
  obtain ⟨used, rfl, phrase⟩ := commaList_sound parseDdlColumn_sound _ list
  obtain ⟨ts₆, close, parsed₇⟩ := bind_eq_ok.1 parsed₆
  obtain ⟨_, _, parsed₈⟩ := bind_eq_ok.1 parsed₇
  obtain ⟨few, columnNames⟩ := ddlColumns_bounded phrase
  simp only at parsed₈
  split at parsed₈
  · cases parsed₈
  · obtain ⟨_, valid, last⟩ := bind_eq_ok.1 parsed₈
    obtain rfl := pure_eq_ok.1 last
    refine ⟨valid, named n (by simp) identifier, fun column member => ?_, ?_⟩
    · obtain ⟨t, there, type, text⟩ := columnNames column member
      rw [← text]
      exact named t (by simp [there]) type
    · simp only [length_cons, length_append] at length
      show 2 * columns.length ≤ kMaxTokens
      omega

end OpaqueDb.Sql
