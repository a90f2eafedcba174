/-
# Client.KeyAgreement -- the key ingest stores and the key a query sends

Ingest strips a cell and parses it by the column's declared type; the client types a
literal by its own syntax and takes a quoted text as it stands.  `CellStored` says that a
cell text was ingested, by an insert or from a CSV file, into a stored row, and
`LiteralQuery` that a query compares the column with one literal token.
`keys_agree_iff` says for which texts the two sides reach the same key: always for a
number in an INT column, for a quoted text in a TEXT column when stripping it does not
change its hash, and otherwise only by a coincidence of a number with a hash.
-/
import OpaqueDb.Client.QueryClient
import OpaqueDb.Server.Ingest

namespace OpaqueDb.Client

open OpaqueDb.Core Crypto Theory Backend Sql Server Storage Config

set_option autoImplicit false

/-! ## The stored side -/

/-- The text `s` was ingested into the column at `index` of this stored row. -/
inductive CellStored (lib : Library) (schema : Schema) (keyBits index : Nat) (s : Bytes)
    (stored : Row) : Prop
  | insert {repo repo' : Repository} {cells : List Bytes} {result : InsertResult}
      {epoch epoch' : Epoch} (opened : repo.openCurrent = .ok epoch)
      (schema_eq : epoch.manifest.schema = schema) (keyBits_eq : epoch.manifest.keyBits = keyBits)
      (inserted : insertRowAndPublish lib repo cells = .ok (result, repo'))
      (reopened : repo'.openCurrent = .ok epoch') (last : epoch'.rows.getLast? = some stored)
      (cell : cells[index]? = some s)
  | csv {cfg : Config} {csvPath content headerLine line : Bytes} {lines : List Bytes}
      {rows : List IngestRow} {staging : StagingEpoch} {r : Nat} {column : Column}
      (parsed : parseCsvRows lib schema csvPath (some content) = .ok rows)
      (built : buildStagingFromRows cfg schema rows = .ok staging)
      (keyBits_eq : cfg.crypto.keyBits = keyBits) (read : getLines content = headerLine :: lines)
      (visible : (lines.filter fun line => !(stripAsciiWhitespace line).isEmpty)[r]? = some line)
      (row : staging.rows[r]? = some stored) (known : schema.columns[index]? = some column)
      (cell : (strSplit 44 line).getD ((columnIndex (csvHeader headerLine) column.name).getD 0) [] = s)

variable {keyBits : Nat} {s : Bytes}

/-- **What ingest stores for a cell**: the key of the stripped text under the column's type. -/
theorem CellStored.key {lib : Library} {schema : Schema} {index rank : Nat} {stored : Row}
    {column : Column} (cellStored : CellStored lib schema keyBits index s stored)
    (known : schema.columns[index]? = some column)
    (ranked : schema.searchableRank index = some rank) :
    ∃ value k, parseValue lib column.type (stripAsciiWhitespace s) = .ok value ∧
      encodeKeyValue column.type value keyBits = .ok k ∧ stored.subKey keyBits rank = k.value := by
  cases cellStored with
  | insert opened schema_eq keyBits_eq inserted reopened last cell =>
    subst schema_eq keyBits_eq
    obtain ⟨epoch', row, stored', opened', valid, small, typed, encoded, rows, _⟩ :=
      insert_stored opened inserted
    cases Except.ok.inj (opened'.symm.trans reopened)
    rw [rows, List.getLast?_concat] at last
    cases last
    obtain ⟨value, here, parsed⟩ := typed.value valid known cell
    obtain ⟨value', k, here', encoding, read⟩ := encodeRow_subKey encoded small known ranked
    cases here.symm.trans here'
    exact ⟨value, k, parsed, encoding, read⟩
  | csv parsed built keyBits_eq read visible row known' cell =>
    cases known.symm.trans known'
    obtain ⟨valid, key, content, headerLine, lines, primary, same, read', split⟩ :=
      parseCsvRows_eq_ok parsed
    cases same
    cases read.symm.trans read'
    obtain ⟨⟨schema_eq, keyBits_eq', _⟩, ingested⟩ := build_ingested built
    have ingested := ingested 0
    obtain ⟨inside, rfl⟩ := List.getElem?_eq_some_iff.1 row
    obtain ⟨typed, typed_eq, encoded⟩ := ingested.row inside
    have each := parseCsvLines_eq_ok split
    obtain ⟨inLines, rfl⟩ := List.getElem?_eq_some_iff.1 visible
    obtain ⟨inRows, rfl⟩ := List.getElem?_eq_some_iff.1 typed_eq
    obtain ⟨lineNo, line⟩ := each.get inLines inRows
    obtain ⟨value, here, parsed'⟩ := parseCsvLine_value valid primary line known
    have small := ingested.keyBits_le
    simp only [StagingEpoch.published, schema_eq, keyBits_eq', keyBits_eq] at encoded small
    obtain ⟨value', k, here', encoding, read''⟩ := encodeRow_subKey encoded small known ranked
    cases here.symm.trans here'
    rw [← cell]
    exact ⟨value, k, parsed', encoding, read''⟩

/-! ## The query's side -/

/-- The query compares the column with a single literal, this token. -/
structure LiteralQuery (sql column : Bytes) (t : Token) (prepared : PreparedQuery) : Prop where
  lifted : prepareClientQuery sql = .ok prepared
  where_ : ∃ stmt v, parse sql = .ok stmt ∧ stmt.where_ = some (.comparison column .eq (.literal v))
  token : ∃ tokens, tokenize (trimStatement sql) = .ok tokens ∧ liftedTokens .end_ tokens = [t]

/-- The operand a literal query sends is the encoding of its token's value. -/
theorem LiteralQuery.operand {sql column : Bytes} {t : Token} {prepared : PreparedQuery}
    (query : LiteralQuery sql column t prepared) {value : UInt64} {operands : List UInt64}
    (sent : encodeOperands keyBits prepared value = .ok operands) :
    ∃ v k, literalValue t = some v ∧ encodeKeyValue (columnTypeOf v) v keyBits = .ok k ∧
      operands = [k.value] := by
  obtain ⟨tokens, lexed, single⟩ := query.token
  obtain ⟨stmt, ps, found⟩ := prepared_of_ok query.lifted
  cases Except.ok.inj (found.lexed.symm.trans lexed)
  have values := mapM_eq_ok_iff.1 found.values
  rw [single] at values
  obtain ⟨v, literals, first⟩ : ∃ v, prepared.literals = [v] ∧ liftLiteral t = .ok v := by
    cases literals : prepared.literals with
    | nil =>
      rw [literals] at values
      cases values
    | cons v rest =>
      rw [literals] at values
      cases values with
      | cons first none_ =>
        cases none_
        exact ⟨v, rfl, first⟩
  have value_ : literalValue t = some v := by
    unfold liftLiteral at first
    split at first
    · rename_i known
      cases first
      exact known
    · cases first
  have encoded := mapM_eq_ok_iff.1 sent
  rw [operandValues, literals] at encoded
  cases encoded with
  | cons head none_ =>
    cases none_
    obtain ⟨k, known, rfl⟩ := map_eq_ok.1 head
    exact ⟨v, k, value_, known, rfl⟩

/-! ## Agreement -/

/-- The literal of this kind with the text `s` has the key that ingest stores for the cell
`s` of the column type. -/
def Agree (type : ColumnType) (literal : TokenType) (keyBits : Nat) (s : Bytes) : Prop :=
  match type, literal with
  | .int, .numberLiteral => True
  | .text, .stringLiteral =>
    fnv1a (stripAsciiWhitespace s) &&& keyMask keyBits = fnv1a s &&& keyMask keyBits
  | .text, _ => ∃ i, simpleAtoi64 s = some i ∧
      fnv1a (stripAsciiWhitespace s) &&& keyMask keyBits = (Int64.ofInt i).toUInt64
  | _, _ => ∃ i, simpleAtoi64 s = some i ∧
      (Int64.ofInt i).toUInt64 = fnv1a s &&& keyMask keyBits

theorem simpleAtoi64_strip (s : Bytes) : simpleAtoi64 (stripAsciiWhitespace s) = simpleAtoi64 s := by
  rw [simpleAtoi64, parseSign, (strip_trimmed s).strip]
  rfl

variable {k : KeyEncoding}

/-- The key of an INT value is its two's complement word. -/
theorem encodeKeyValue_int_value {i : Int64}
    (encoded : encodeKeyValue .int (.int i) keyBits = .ok k) : k.value = i.toUInt64 := by
  have back := encodeKeyValue_int encoded
  rw [Value.int.inj back]
  simp

theorem encodeKeyValue_text_value (encoded : encodeKeyValue .text (.text s) keyBits = .ok k) :
    k.value = fnv1a s &&& keyMask keyBits := by
  cases encoded
  rfl

/-- The key stored for a cell, by the column's type. -/
theorem stored_key {lib : Library} {type : ColumnType} {value : Value}
    (parsed : parseValue lib type (stripAsciiWhitespace s) = .ok value)
    (encoded : encodeKeyValue type value keyBits = .ok k) :
    (type = .int ∧ ∃ i, simpleAtoi64 s = some i ∧ k.value = (Int64.ofInt i).toUInt64) ∨
      type = .text ∧ k.value = fnv1a (stripAsciiWhitespace s) &&& keyMask keyBits := by
  cases type with
  | int =>
    rw [parseValue, simpleAtoi64_strip] at parsed
    split at parsed
    · cases parsed
    · rename_i i known
      cases parsed
      exact .inl ⟨rfl, i, known, encodeKeyValue_int_value encoded⟩
  | text =>
    cases parsed
    exact .inr ⟨rfl, encodeKeyValue_text_value encoded⟩
  | real => cases encoded
  | json => cases encoded

/-- The key sent for a literal, by its syntax. -/
theorem sent_key {t : Token} {v : Value} (literal : literalValue t = some v)
    (encoded : encodeKeyValue (columnTypeOf v) v keyBits = .ok k) :
    (t.type = .numberLiteral ∧ ∃ i, simpleAtoi64 t.text = some i ∧
        k.value = (Int64.ofInt i).toUInt64) ∨
      t.type = .stringLiteral ∧ k.value = fnv1a t.text &&& keyMask keyBits := by
  unfold literalValue at literal
  split at literal
  · rename_i quoted
    cases literal
    exact .inr ⟨quoted, encodeKeyValue_text_value encoded⟩
  · split at literal
    · rename_i number
      obtain ⟨i, known, rfl⟩ := Option.map_eq_some_iff.1 literal
      exact .inl ⟨number, i, known, encodeKeyValue_int_value encoded⟩
    · cases literal

/-- **When ingest and query encode a text alike.**  The row stored for a cell is matched by
the literal with the same text exactly under `Agree`. -/
theorem keys_agree_iff {lib : Library} {schema : Schema} {keyBits index rank : Nat} {s : Bytes}
    {stored : Row} {column : Column} (cellStored : CellStored lib schema keyBits index s stored)
    (known : schema.columns[index]? = some column)
    (ranked : schema.searchableRank index = some rank) {sql : Bytes} {t : Token}
    {prepared : PreparedQuery} (query : LiteralQuery sql column.name t prepared) (text : t.text = s)
    {value : UInt64} {operands : List UInt64}
    (sent : encodeOperands keyBits prepared value = .ok operands) :
    (operands = [stored.subKey keyBits rank] ∧
      satisfies .eq operands (stored.subKey keyBits rank) = true) ↔
      Agree column.type t.type keyBits s := by
  obtain ⟨v, k, parsed, encoded, read⟩ := cellStored.key known ranked
  obtain ⟨w, l, literal, encoded', rfl⟩ := query.operand sent
  have found : ([l.value] = [stored.subKey keyBits rank] ∧
      satisfies .eq [l.value] (stored.subKey keyBits rank) = true) ↔ k.value = l.value := by
    rw [read]
    constructor
    · rintro ⟨same, _⟩
      exact (List.singleton_inj.1 same).symm
    · intro same
      rw [same]
      exact ⟨rfl, by simp [satisfies]⟩
  rw [found]
  subst text
  rcases stored_key parsed encoded with ⟨int, i, number, stored_⟩ | ⟨text_, stored_⟩
  · rcases sent_key literal encoded' with ⟨kind, j, number', sent_⟩ | ⟨kind, sent_⟩
    · cases number.symm.trans number'
      simp [Agree, int, kind, stored_, sent_]
    · simp [Agree, int, kind, stored_, sent_, number]
  · rcases sent_key literal encoded' with ⟨kind, j, number', sent_⟩ | ⟨kind, sent_⟩
    · simp [Agree, text_, kind, stored_, sent_, number']
    · simp [Agree, text_, kind, stored_, sent_]

/-! ## Texts with blanks -/

def emptyTable : Repository where
  epochs := [sampleEpoch 64 []]
  currentVersion := .ok 1

/-- The query for a quoted text in `c`. -/
def quotedQuery (s : Bytes) : Bytes :=
  strCat ["SELECT a FROM t WHERE c = '", s, "'"]

/-- One row inserted into the empty table. -/
theorem insert_cell (c : Bytes) (inserted : ∃ p, insertRowAndPublish strictLibrary emptyTable
      [bytes "5", c, bytes "a"] = .ok p) :
    ∃ stored, CellStored strictLibrary sampleSchema 64 1 c stored := by
  obtain ⟨⟨result, repo'⟩, inserted⟩ := inserted
  have opened : emptyTable.openCurrent = .ok (sampleEpoch 64 []) := rfl
  obtain ⟨epoch', row, stored, reopened, _, _, _, _, rows, _⟩ := insert_stored opened inserted
  exact ⟨stored, .insert opened rfl rfl inserted reopened (by rw [rows, List.getLast?_concat]) rfl⟩

/-- The quoted text is the only literal of its query. -/
theorem quotedQuery_literal (known : s = bytes "x" ∨ s = bytes " x") :
    LiteralQuery (quotedQuery s) (bytes "c") ⟨.stringLiteral, s, 26⟩
      ⟨bytes "SELECT a FROM t WHERE c = :v", [.text s], false, none, none⟩ where
  lifted := by rcases known with rfl | rfl <;> decide
  where_ := by
    rcases known with rfl | rfl
    · exact ⟨_, .text (bytes "x"), rfl, rfl⟩
    · exact ⟨_, .text (bytes " x"), rfl, rfl⟩
  token := by
    rcases known with rfl | rfl
    · exact ⟨_, rfl, rfl⟩
    · exact ⟨_, rfl, rfl⟩

theorem keys_agree_x :
    ∃ stored, CellStored strictLibrary sampleSchema 64 1 (bytes "x") stored ∧
      satisfies .eq [fnv1a (bytes "x")] (stored.subKey 64 1) = true := by
  obtain ⟨stored, cell⟩ := insert_cell (bytes "x") ⟨_, rfl⟩
  have sent : encodeOperands 64 ⟨bytes "SELECT a FROM t WHERE c = :v", [.text (bytes "x")], false,
      none, none⟩ 0 = .ok [fnv1a (bytes "x")] := by decide
  have agree := (keys_agree_iff cell rfl rfl (quotedQuery_literal (.inl rfl)) rfl sent).2
    (show _ = _ by decide)
  exact ⟨stored, cell, agree.2⟩

/-- The cell `' x'` is stored under the key of `'x'`, and the query for `' x'` sends the
key of `' x'`. -/
theorem blank_cell_not_found :
    ∃ stored prepared, CellStored strictLibrary sampleSchema 64 1 (bytes " x") stored ∧
      LiteralQuery (bytes "SELECT a FROM t WHERE c = ' x'") (bytes "c")
        ⟨.stringLiteral, bytes " x", 26⟩ prepared ∧
      encodeOperands 64 prepared 0 = .ok [fnv1a (bytes " x")] ∧
      stored.subKey 64 1 = fnv1a (bytes "x") ∧
      satisfies .eq [fnv1a (bytes " x")] (stored.subKey 64 1) = false := by
  obtain ⟨stored, cell⟩ := insert_cell (bytes " x") ⟨_, rfl⟩
  have text : bytes "SELECT a FROM t WHERE c = ' x'" = quotedQuery (bytes " x") := by decide
  have key : stored.subKey 64 1 = fnv1a (bytes "x") := by
    obtain ⟨value, k, parsed, encoded, read⟩ := cell.key rfl (show _ = some 1 from rfl)
    rcases stored_key parsed encoded with ⟨int, _⟩ | ⟨_, same⟩
    · cases int
    · exact read.trans (same.trans (by decide))
  have query := quotedQuery_literal (.inr rfl)
  rw [← text] at query
  refine ⟨stored, _, cell, query, by decide, key, ?_⟩
  rw [key]
  decide

end OpaqueDb.Client
