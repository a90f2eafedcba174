/-
# Server.Ingest -- rows into staging and published epochs

Two paths put rows into a table.  `parseCsvRows` types the cells of a CSV file and
`buildStagingFromRows` encodes the typed rows; `insertRowAndPublish` appends one row to
the current epoch and publishes the next version.

`Ingested` is what both establish about an epoch: its stored rows are the encodings of
a list of typed rows.  Then every sub-key is the encoding of the value its row has in
that column (`encodeRow_subKey`), and every payload decodes to its row
(`encodeRow_decode`).
-/
import OpaqueDb.Config.Validate
import OpaqueDb.Storage.Epoch
import OpaqueDb.Theory.Partition

namespace OpaqueDb.Server

open OpaqueDb.Core Theory Config Storage List

set_option autoImplicit false

/-- A typed row: the match key and the other columns' values, in schema order. -/
structure IngestRow where
  key : Value
  payload : List Value
  deriving DecidableEq, Repr

def geometryFrom (cfg : Config) : SlotGeometry :=
  ⟨cfg.crypto.polyModulusDegree, cfg.crypto.bytesPerSlot, cfg.storage.recordBytes⟩

/-- The single EQ column is the match key. -/
def matchKey (schema : Schema) : Option Column :=
  schema.columns.find? fun column => column.encoding == .eq

def noMatchKey : Status :=
  invalidArgument ["schema has no match key column"]

/-- An error under the place it happened at. -/
def within {α : Type} (place : List Bytes) (result : StatusOr α) : StatusOr α :=
  result.mapError fun status => invalidArgument (place ++ [status.message])

/-! ## Typed rows -/

def stageRows : StagingEpoch → Nat → List IngestRow → StatusOr StagingEpoch
  | staging, _, [] => .ok staging
  | staging, i, row :: rows => do
    let place := [bytes "row ", dec i, bytes ": "]
    let match_ ← within place
      (encodeMatchRecord staging.schema row.key row.payload staging.keyBits)
    let payload ← within place
      (encodeRecord staging.schema row.payload staging.geometry.recordBytes)
    let staging ← staging.appendRow ⟨match_, payload⟩
    stageRows staging (i + 1) rows

def buildStagingFromRows (cfg : Config) (schema : Schema) (rows : List IngestRow) :
    StatusOr StagingEpoch := do
  schema.validate
  match matchKey schema with
  | none => .error noMatchKey
  | some _ => do
    let staging := StagingEpoch.empty schema cfg.crypto.keyBits (geometryFrom cfg)
    staging.validate
    stageRows staging 0 rows

/-! ## CSV files -/

section Csv

variable (lib : Library)

/-- The lines `getline` reads: a newline at the end of the file starts no line. -/
def getLines (content : Bytes) : List Bytes :=
  let parts := strSplit 10 content
  if parts.getLast? = some [] then parts.dropLast else parts

/-- The first position of a name in the header. -/
def columnIndex (header : List Bytes) (name : Bytes) : Option Nat :=
  header.findIdx? (· == name)

def cellAt (header cells : List Bytes) (name : Bytes) : Bytes :=
  stripAsciiWhitespace (cells.getD ((columnIndex header name).getD 0) [])

def parseCsvLine (schema : Schema) (key : Column) (header : List Bytes) (lineNo : Nat)
    (line : Bytes) : StatusOr IngestRow :=
  let cells := strSplit 44 line
  if cells.length ≠ header.length then
    .error (invalidArgument ["line ", dec lineNo, ": expected ", dec header.length,
      " columns, got ", dec cells.length])
  else do
    let keyValue ← within ["line ", dec lineNo, ", key column '", key.name, "': "]
      (parseValue lib key.type (cellAt header cells key.name))
    let payload ← (schema.columns.filter fun column => column.encoding != .eq).mapM fun column =>
      within ["line ", dec lineNo, ", column '", column.name, "': "]
        (parseValue lib column.type (cellAt header cells column.name))
    return ⟨keyValue, payload⟩

/-- The data lines in order; a blank line is skipped but numbered. -/
def parseCsvLines (schema : Schema) (key : Column) (header : List Bytes) :
    Nat → List Bytes → StatusOr (List IngestRow)
  | _, [] => .ok []
  | lineNo, line :: lines =>
    if stripAsciiWhitespace line = [] then parseCsvLines schema key header (lineNo + 1) lines
    else do
      let row ← parseCsvLine lib schema key header lineNo line
      let rows ← parseCsvLines schema key header (lineNo + 1) lines
      return row :: rows

/-- The column names of a header line. -/
def csvHeader (headerLine : Bytes) : List Bytes :=
  (strSplit 44 (stripAsciiWhitespace headerLine)).map stripAsciiWhitespace

/-- The rows of a CSV file; `file` is its content, if it can be opened. -/
def parseCsvRows (schema : Schema) (csvPath : Bytes) (file : Option Bytes) :
    StatusOr (List IngestRow) := do
  schema.validate
  match matchKey schema with
  | none => .error noMatchKey
  | some key =>
    match file with
    | none => .error ⟨.notFound, strCat ["cannot open CSV '", csvPath, "'"]⟩
    | some content =>
      match getLines content with
      | [] => .error (invalidArgument ["CSV is empty; expected a header row"])
      | headerLine :: lines =>
        let header := csvHeader headerLine
        if columnIndex header key.name = none then
          .error (invalidArgument
            ["CSV header has no key column '", key.name, "'"])
        else
          match schema.columns.find? fun c => columnIndex header c.name = none with
          | some column => .error (invalidArgument
              ["CSV header has no column '", column.name, "'"])
          | none => parseCsvLines lib schema key header 2 lines

/-! ## One row at a time -/

/-- A table's published epochs and the version `CURRENT` holds. -/
structure Repository where
  epochs : List Epoch
  currentVersion : StatusOr Nat

namespace Repository

def openVersion (repo : Repository) (version : Nat) : StatusOr Epoch :=
  match repo.epochs.find? fun epoch => epoch.manifest.epochVersion == version with
  | none => .error ⟨.notFound, strCat ["epoch ", dec version, " not found"]⟩
  | some epoch => .ok epoch

def openCurrent (repo : Repository) : StatusOr Epoch :=
  repo.currentVersion >>= repo.openVersion

/-- An epoch is immutable once published; the new one becomes current. -/
def publish (repo : Repository) (staging : StagingEpoch) (epochVersion : Nat) :
    StatusOr Repository := do
  staging.validate
  if repo.epochs.any fun epoch => epoch.manifest.epochVersion == epochVersion then
    .error ⟨.alreadyExists, strCat ["epoch ", dec epochVersion,
      " is already published and is immutable"]⟩
  else .ok ⟨repo.epochs ++ [staging.published epochVersion], .ok epochVersion⟩

end Repository

def parseCells (columns : List Column) (cells : List Bytes) : StatusOr (List Value) :=
  (columns.zip cells).mapM fun (column, cell) =>
    within ["column '", column.name, "': "]
      (parseValue lib column.type (stripAsciiWhitespace cell))

/-- The value of the EQ column becomes the key, any other the next payload value. -/
def placeCell (row : IngestRow) (cell : Column × Value) : IngestRow :=
  if cell.1.encoding = .eq then { row with key := cell.2 }
  else { row with payload := row.payload ++ [cell.2] }

def rowOf (columns : List Column) (values : List Value) : IngestRow :=
  (columns.zip values).foldl placeCell ⟨.int 0, []⟩

structure InsertResult where
  epochVersion : Nat
  rowCount : Nat
  deriving DecidableEq, Repr

/-- The rows of the table and one more, typed and encoded from its cells. -/
def stageInsert (manifest : EpochManifest) (copy : StagingEpoch → StatusOr StagingEpoch)
    (cells : List Bytes) : StatusOr StagingEpoch :=
  match matchKey manifest.schema with
  | none => .error noMatchKey
  | some _ =>
    if cells.length ≠ manifest.schema.columns.length then
      .error (invalidArgument ["insert expects ", dec manifest.schema.columns.length,
        " values in column order, got ", dec cells.length])
    else do
      let values ← parseCells lib manifest.schema.columns cells
      let row := rowOf manifest.schema.columns values
      let empty := StagingEpoch.empty manifest.schema manifest.keyBits manifest.geometry
      empty.validate
      let copied ← copy empty
      let match_ ← encodeMatchRecord manifest.schema row.key row.payload manifest.keyBits
      let record ← encodeRecord manifest.schema row.payload manifest.geometry.recordBytes
      copied.appendRow ⟨match_, record⟩

/-- The version after the one that was read; an unreadable one counts as none. -/
def after (current : StatusOr Nat) : Nat :=
  match current with
  | .ok version => (version + 1) % 2 ^ 64
  | .error _ => 1

def insertRowAndPublish (repo : Repository) (cells : List Bytes) :
    StatusOr (InsertResult × Repository) := do
  let epoch ← repo.openCurrent
  let staging ← stageInsert lib epoch.manifest
    (fun empty => epoch.rows.foldlM StagingEpoch.appendRow empty) cells
  let next := after repo.currentVersion
  let published ← repo.publish staging next
  return (⟨next, epoch.rows.length + 1⟩, published)

end Csv

/-! ## The encoding of a row -/

theorem within_eq_ok {α : Type} {place : List Bytes} {result : StatusOr α} {a : α} :
    within place result = .ok a ↔ result = .ok a := by
  cases result <;> simp [within, Except.mapError]

/-- A typed row as both paths store it. -/
def encodeRow (schema : Schema) (keyBits recordBytes : Nat) (row : IngestRow) : StatusOr Row := do
  let match_ ← encodeMatchRecord schema row.key row.payload keyBits
  let payload ← encodeRecord schema row.payload recordBytes
  return ⟨match_, payload⟩

variable {index : Nat} {column : Column}

section Encoded

variable {schema : Schema} {keyBits recordBytes : Nat} {row : IngestRow} {stored : Row}

theorem encodeRow_eq_ok (encoded : encodeRow schema keyBits recordBytes row = .ok stored) :
    (∃ keys, encodeSubKeys row.key keyBits schema.columns row.payload = .ok keys ∧
      stored.match_ = packKeys keyBits keys) ∧
    encodeRecord schema row.payload recordBytes = .ok stored.payload := by
  obtain ⟨match_, packed, encoded₁⟩ := bind_eq_ok.1 encoded
  obtain ⟨payload, written, encoded₂⟩ := bind_eq_ok.1 encoded₁
  cases pure_eq_ok.1 encoded₂
  obtain ⟨keys, known, rfl⟩ := map_eq_ok.1 packed
  exact ⟨⟨keys, known, rfl⟩, written⟩

/-- An encoded row has the strides of its epoch. -/
theorem encodeRow_fits {staging : StagingEpoch} (encoded : encodeRow staging.schema staging.keyBits
    staging.geometry.recordBytes row = .ok stored) : staging.Fits stored := by
  obtain ⟨⟨keys, known, packed⟩, written⟩ := encodeRow_eq_ok encoded
  refine ⟨?_, encodeRecord_length written⟩
  rw [packed, packKeys_length, encodeSubKeys_length known]
  rfl

/-- The value a row has in a column. -/
def IngestRow.value (schema : Schema) (row : IngestRow) (index : Nat) : Option Value :=
  cellValue schema.columns row.key row.payload index

/-- The sub-keys of a match record, read by the rank of their column. -/
theorem matchRecord_subKey {key : Value} {payload : List Value} {match_ : Bytes}
    (encoded : encodeMatchRecord schema key payload keyBits = .ok match_) (small : keyBits ≤ 64)
    {rank : Nat} (known : schema.columns[index]? = some column)
    (ranked : schema.searchableRank index = some rank) (record : Bytes) :
    ∃ value k, cellValue schema.columns key payload index = some value ∧
      encodeKeyValue column.type value keyBits = .ok k ∧
      (⟨match_, record⟩ : Row).subKey keyBits rank = k.value := by
  obtain ⟨keys, subKeys, rfl⟩ := map_eq_ok.1 encoded
  rw [Schema.searchableRank, known] at ranked
  simp only at ranked
  split at ranked
  · rename_i searchable
    cases ranked
    obtain ⟨value, k, cell, encoding, at_⟩ := encodeSubKeys_getElem subKeys known searchable
    refine ⟨value, k, cell, encoding, ?_⟩
    obtain ⟨before, after, rfl, length⟩ : ∃ before after, keys = before ++ k.value :: after ∧
        before.length = searchableIn (schema.columns.take index) := by
      obtain ⟨inside, found⟩ := List.getElem?_eq_some_iff.1 at_
      refine ⟨keys.take _, keys.drop (searchableIn (schema.columns.take index) + 1), ?_,
        length_take_of_le inside.le⟩
      rw [← found, getElem_cons_drop, take_append_drop]
    have read := subKey_packed small before after (encodeKeyValue_lt small encoding) record
    rw [length] at read
    exact read
  · cases ranked

/-- **The sub-key of a searchable column** is the encoding of the row's value there. -/
theorem encodeRow_subKey (encoded : encodeRow schema keyBits recordBytes row = .ok stored)
    (small : keyBits ≤ 64) {rank : Nat} (known : schema.columns[index]? = some column)
    (ranked : schema.searchableRank index = some rank) :
    ∃ value k, row.value schema index = some value ∧
      encodeKeyValue column.type value keyBits = .ok k ∧ stored.subKey keyBits rank = k.value := by
  obtain ⟨match_, packed, encoded₁⟩ := bind_eq_ok.1 encoded
  obtain ⟨payload, _, encoded₂⟩ := bind_eq_ok.1 encoded₁
  cases pure_eq_ok.1 encoded₂
  exact matchRecord_subKey packed small known ranked payload

end Encoded

/-! ## Staging -/

section Staging

variable {rows : List IngestRow} {stored : List Row} {staging result : StagingEpoch}

/-- Each row is stored as its encoding. -/
def Encoded (staging : StagingEpoch) (rows : List IngestRow) (stored : List Row) : Prop :=
  Forall₂ (fun row s => encodeRow staging.schema staging.keyBits
    staging.geometry.recordBytes row = .ok s) rows stored

theorem encoded_extends (step : staging.Extends stored result) (rows : List IngestRow)
    (later : List Row) : Encoded result rows later ↔ Encoded staging rows later := by
  rw [Encoded, Encoded, step.schema, step.keyBits, step.geometry]

/-- One round of the loop: the row is encoded and appended. -/
theorem stageRows_cons {row : IngestRow} {s : Row}
    (encoded : encodeRow staging.schema staging.keyBits staging.geometry.recordBytes row = .ok s)
    (i : Nat) (rows : List IngestRow) :
    ∃ next, staging.Extends [s] next ∧
      stageRows staging i (row :: rows) = stageRows next (i + 1) rows := by
  obtain ⟨next, appended, step⟩ := StagingEpoch.appendRow_of_fits (encodeRow_fits encoded)
  obtain ⟨match_, packed, encoded₁⟩ := bind_eq_ok.1 encoded
  obtain ⟨payload, written, encoded₂⟩ := bind_eq_ok.1 encoded₁
  cases pure_eq_ok.1 encoded₂
  refine ⟨next, step, ?_⟩
  rw [stageRows]
  simp [within_eq_ok.2 packed, within_eq_ok.2 written, appended, bind, Except.bind]

theorem stageRows_of_encoded (encoded : Encoded staging rows stored) (i : Nat) :
    ∃ result, stageRows staging i rows = .ok result ∧ staging.Extends stored result := by
  induction rows generalizing staging stored i with
  | nil =>
    cases encoded
    exact ⟨staging, rfl, .refl _⟩
  | cons row rows ih =>
    cases encoded with
    | cons first rest =>
      obtain ⟨next, step, round⟩ := stageRows_cons first i rows
      obtain ⟨result, staged, others⟩ := ih ((encoded_extends step rows _).2 rest) (i + 1)
      exact ⟨result, round.trans staged, step.trans others⟩

theorem stageRows_eq_ok {i : Nat} (staged : stageRows staging i rows = .ok result) :
    ∃ stored, Encoded staging rows stored ∧ staging.Extends stored result := by
  induction rows generalizing staging i with
  | nil =>
    cases staged
    exact ⟨[], .nil, .refl _⟩
  | cons row rows ih =>
    obtain ⟨match_, packed, staged₁⟩ := bind_eq_ok.1 staged
    obtain ⟨payload, written, staged₂⟩ := bind_eq_ok.1 staged₁
    obtain ⟨next, appended, staged₃⟩ := bind_eq_ok.1 staged₂
    have step := StagingEpoch.appendRow_eq_ok appended
    obtain ⟨stored, others, rest⟩ := ih staged₃
    have first : encodeRow staging.schema staging.keyBits staging.geometry.recordBytes row =
        .ok ⟨match_, payload⟩ :=
      bind_eq_ok.2 ⟨match_, within_eq_ok.1 packed, bind_eq_ok.2 ⟨payload, within_eq_ok.1 written, rfl⟩⟩
    exact ⟨_ :: stored, .cons first ((encoded_extends step rows _).1 others), step.trans rest⟩

end Staging

/-! ## Ingested epochs -/

/-- The epoch's rows are the encodings of typed rows under an accepted schema. -/
structure Ingested (epoch : Epoch) (rows : List IngestRow) : Prop where
  valid : epoch.manifest.schema.validate = .ok ()
  keyBits_le : epoch.manifest.keyBits ≤ 64
  encoded : Forall₂ (fun row stored => encodeRow epoch.manifest.schema epoch.manifest.keyBits
    epoch.manifest.geometry.recordBytes row = .ok stored) rows epoch.rows

variable {cfg : Config}

/-- **A loaded table** is published with the encodings of its typed rows. -/
theorem build_ingested {schema : Schema} {rows : List IngestRow} {staging : StagingEpoch}
    (built : buildStagingFromRows cfg schema rows = .ok staging) :
    (staging.schema = schema ∧ staging.keyBits = cfg.crypto.keyBits ∧
      staging.geometry = geometryFrom cfg) ∧
    ∀ version, Ingested (staging.published version) rows := by
  obtain ⟨_, _, built₁⟩ := bind_eq_ok.1 built
  split at built₁
  · cases built₁
  · obtain ⟨_, accepted, built₂⟩ := bind_eq_ok.1 built₁
    obtain ⟨stored, encoded, step⟩ := stageRows_eq_ok built₂
    obtain ⟨valid, ⟨_, small⟩, _⟩ := StagingEpoch.validate_iff.1 accepted
    refine ⟨⟨step.schema, step.keyBits, step.geometry⟩, fun version => ⟨?_, ?_, ?_⟩⟩
    · show staging.schema.validate = .ok ()
      rw [step.schema]
      exact valid
    · show staging.keyBits ≤ 64
      rw [step.keyBits]
      exact small
    · show Encoded staging rows staging.rows
      rw [step.rows]
      exact (encoded_extends step rows stored).2 encoded

/-- Rows that encode can be loaded. -/
theorem build_of_encoded {schema : Schema} {rows sample : List IngestRow} {staging : StagingEpoch}
    (built : buildStagingFromRows cfg schema sample = .ok staging) {stored : List Row}
    (encoded : Encoded staging rows stored) :
    ∃ result, buildStagingFromRows cfg schema rows = .ok result ∧
      result.schema = staging.schema ∧ result.keyBits = staging.keyBits ∧
      result.geometry = staging.geometry ∧ result.rows = stored := by
  unfold buildStagingFromRows at built ⊢
  obtain ⟨_, valid, built₁⟩ := bind_eq_ok.1 built
  rw [valid]
  split at built₁
  · cases built₁
  · obtain ⟨_, accepted, built₂⟩ := bind_eq_ok.1 built₁
    obtain ⟨_, _, step⟩ := stageRows_eq_ok built₂
    obtain ⟨result, staged, extended⟩ :=
      stageRows_of_encoded ((encoded_extends step rows stored).1 encoded) 0
    refine ⟨result, ?_, extended.schema.trans step.schema.symm,
      extended.keyBits.trans step.keyBits.symm, extended.geometry.trans step.geometry.symm,
      extended.rows⟩
    show (StagingEpoch.validate _ >>= fun _ => stageRows _ 0 rows) = _
    rw [accepted]
    exact staged

variable {repo repo' : Repository}

/-- What was just published is what opens next. -/
theorem publish_opens {staging : StagingEpoch} {version : Nat}
    (published : repo.publish staging version = .ok repo') :
    repo'.openCurrent = .ok (staging.published version) := by
  obtain ⟨_, _, published₁⟩ := bind_eq_ok.1 published
  split at published₁
  · cases published₁
  · rename_i unused
    cases published₁
    have absent : repo.epochs.find? (fun epoch => epoch.manifest.epochVersion == version) = none := by
      rw [find?_eq_none]
      intro epoch member same
      exact unused (any_eq_true.2 ⟨epoch, member, same⟩)
    show Repository.openVersion _ version = _
    rw [Repository.openVersion, find?_append, absent]
    simp [StagingEpoch.published]

/-- The typed row an insert makes of its cells. -/
def Typed (lib : Library) (schema : Schema) (cells : List Bytes) (row : IngestRow) : Prop :=
  cells.length = schema.columns.length ∧
    ∃ values, parseCells lib schema.columns cells = .ok values ∧ row = rowOf schema.columns values

/-- What a staged insert went through. -/
theorem stageInsert_inv {lib : Library} {manifest : EpochManifest} {cells : List Bytes}
    {copy : StagingEpoch → StatusOr StagingEpoch} {staging : StagingEpoch}
    (staged : stageInsert lib manifest copy cells = .ok staging) :
    ∃ copied row stored,
      (StagingEpoch.empty manifest.schema manifest.keyBits manifest.geometry).validate = .ok () ∧
      copy (StagingEpoch.empty manifest.schema manifest.keyBits manifest.geometry) = .ok copied ∧
      Typed lib manifest.schema cells row ∧
      encodeRow manifest.schema manifest.keyBits manifest.geometry.recordBytes row = .ok stored ∧
      copied.appendRow stored = .ok staging := by
  unfold stageInsert at staged
  split at staged
  · cases staged
  split at staged
  · cases staged
  rename_i width
  obtain ⟨values, parsed, staged₁⟩ := bind_eq_ok.1 staged
  obtain ⟨_, valid, staged₂⟩ := bind_eq_ok.1 staged₁
  obtain ⟨copied, copying, staged₃⟩ := bind_eq_ok.1 staged₂
  obtain ⟨match_, packed, staged₄⟩ := bind_eq_ok.1 staged₃
  obtain ⟨record, written, appended⟩ := bind_eq_ok.1 staged₄
  exact ⟨copied, _, ⟨match_, record⟩, valid, copying, ⟨not_not.1 width, values, parsed, rfl⟩,
    bind_eq_ok.2 ⟨match_, packed, bind_eq_ok.2 ⟨record, written, rfl⟩⟩, appended⟩

variable {epoch : Epoch}

/-- **An insert** publishes the rows of the table and the encoding of one typed row behind
them, under a schema that passed its check. -/
theorem insert_stored {lib : Library} {cells : List Bytes} {result : InsertResult}
    (opened : repo.openCurrent = .ok epoch)
    (inserted : insertRowAndPublish lib repo cells = .ok (result, repo')) :
    ∃ epoch' row stored, repo'.openCurrent = .ok epoch' ∧
      epoch.manifest.schema.validate = .ok () ∧ epoch.manifest.keyBits ≤ 64 ∧
      Typed lib epoch.manifest.schema cells row ∧
      encodeRow epoch.manifest.schema epoch.manifest.keyBits epoch.manifest.geometry.recordBytes row =
        .ok stored ∧
      epoch'.rows = epoch.rows ++ [stored] ∧
      epoch'.manifest.schema = epoch.manifest.schema ∧
      epoch'.manifest.keyBits = epoch.manifest.keyBits ∧
      epoch'.manifest.geometry = epoch.manifest.geometry := by
  obtain ⟨opened', known, inserted₁⟩ := bind_eq_ok.1 inserted
  cases Except.ok.inj (known.symm.trans opened)
  obtain ⟨staging, staged, inserted₂⟩ := bind_eq_ok.1 inserted₁
  obtain ⟨published, publishing, inserted₃⟩ := bind_eq_ok.1 inserted₂
  cases pure_eq_ok.1 inserted₃
  obtain ⟨copied, row, stored, accepted, copying, typed, encoded, appended⟩ := stageInsert_inv staged
  obtain ⟨valid, ⟨_, small⟩, _⟩ := StagingEpoch.validate_iff.1 accepted
  have step := (StagingEpoch.appendRows_eq_ok copying).trans (StagingEpoch.appendRow_eq_ok appended)
  exact ⟨_, row, stored, publish_opens publishing, valid, small, typed, encoded, step.rows,
    step.schema, step.keyBits, step.geometry⟩

theorem insert_ingested {lib : Library} {cells : List Bytes} {result : InsertResult}
    {rows : List IngestRow} (opened : repo.openCurrent = .ok epoch) (ingested : Ingested epoch rows)
    (inserted : insertRowAndPublish lib repo cells = .ok (result, repo')) :
    ∃ epoch' row, repo'.openCurrent = .ok epoch' ∧ Typed lib epoch.manifest.schema cells row ∧
      Ingested epoch' (rows ++ [row]) := by
  obtain ⟨epoch', row, stored, opened', valid, small, typed, encoded, stored_, schema, keyBits,
    geometry⟩ := insert_stored opened inserted
  refine ⟨epoch', row, opened', typed, by rw [schema]; exact valid, by rw [keyBits]; exact small, ?_⟩
  rw [schema, keyBits, geometry, stored_]
  exact rel_append ingested.encoded (Forall₂.cons encoded .nil)

/-! ## The cells of a row -/

theorem placeCells_payload (cells : List (Column × Value)) (row : IngestRow) :
    (cells.foldl placeCell row).payload =
      row.payload ++ (cells.filter fun c => c.1.encoding != .eq).map Prod.snd := by
  induction cells generalizing row with
  | nil => simp
  | cons c cells ih =>
    rw [foldl_cons, ih]
    by_cases primary : c.1.encoding = .eq <;> simp [placeCell, primary]

variable {cells : List (Column × Value)}

theorem placeCells_key {row : IngestRow} (others : ∀ c ∈ cells, c.1.encoding ≠ .eq) :
    (cells.foldl placeCell row).key = row.key := by
  induction cells generalizing row with
  | nil => rfl
  | cons c cells ih =>
    rw [foldl_cons, ih fun c' member => others c' (mem_cons_of_mem _ member), placeCell,
      if_neg (others c mem_cons_self)]

/-- With a single EQ column its value is the key. -/
theorem placeCells_primary {row : IngestRow}
    (single : (cells.countP fun c => c.1.encoding == .eq) ≤ 1) {c : Column × Value}
    (member : c ∈ cells) (primary : c.1.encoding = .eq) :
    (cells.foldl placeCell row).key = c.2 := by
  induction cells generalizing row with
  | nil => cases member
  | cons head cells ih =>
    rw [foldl_cons]
    by_cases first : head.1.encoding = .eq
    · rw [countP_cons_of_pos (by simpa using first)] at single
      have none_ : ∀ c ∈ cells, c.1.encoding ≠ .eq := by
        have zero := countP_eq_zero.1 (Nat.le_zero.1 (Nat.le_of_succ_le_succ single))
        intro c later same
        exact zero c later (by simpa using same)
      rcases mem_cons.1 member with rfl | later
      · rw [placeCells_key none_, placeCell, if_pos first]
      · exact absurd primary (none_ c later)
    · rw [countP_cons_of_neg (by simpa using first)] at single
      rcases mem_cons.1 member with rfl | later
      · exact absurd primary first
      · exact ih single later

/-- The match key is the only EQ column of a checked schema. -/
theorem matchKey_unique {schema : Schema} (valid : schema.validate = .ok ()) {key : Column}
    (primary : matchKey schema = some key) (member : column ∈ schema.columns)
    (eq_ : column.encoding = .eq) : key = column := by
  have single := validate_single valid
  rw [countP_eq_length_filter] at single
  obtain ⟨only, alone⟩ := length_eq_one_iff.1 single
  have found : (key.encoding == .eq) = true := by
    simpa using find?_some primary
  have key_ : key ∈ schema.columns.filter fun c => c.encoding == .eq :=
    mem_filter.2 ⟨mem_of_find?_eq_some primary, found⟩
  have column_ : column ∈ schema.columns.filter fun c => c.encoding == .eq :=
    mem_filter.2 ⟨member, by simpa using eq_⟩
  rw [alone] at key_ column_
  rw [mem_singleton.1 key_, mem_singleton.1 column_]

/-- **Every cell of a row is found in its column.** -/
theorem rowOf_value {schema : Schema}
    (single : (schema.columns.countP fun column => column.encoding == .eq) ≤ 1)
    {values : List Value} (whole : values.length = schema.columns.length)
    (known : schema.columns[index]? = some column) :
    (rowOf schema.columns values).value schema index = values[index]? := by
  obtain ⟨inside, rfl⟩ := List.getElem?_eq_some_iff.1 known
  have inside' : index < values.length := by omega
  have cell : (schema.columns.zip values)[index]? =
      some (schema.columns[index], values[index]) := by
    rw [getElem?_eq_getElem (by simpa using ⟨inside, inside'⟩), getElem_zip]
  have columns := map_fst_zip whole.ge
  rw [IngestRow.value, cellValue, known, getElem?_eq_getElem inside']
  by_cases primary : schema.columns[index].encoding = .eq
  · have once : ((schema.columns.zip values).countP fun c => c.1.encoding == .eq) ≤ 1 := by
      rw [← columns, countP_map] at single
      exact single
    simp only [primary]
    exact congrArg some (placeCells_primary once (mem_of_getElem? cell) primary)
  · have place : payloadCount (schema.columns.take index) =
        ((schema.columns.zip values).take index).countP fun c => c.1.encoding != .eq := by
      rw [payloadCount]
      conv_lhs => rw [← columns]
      rw [← map_take, countP_map]
      rfl
    have kept := filter_getElem?_countP (p := fun c : Column × Value => c.1.encoding != .eq) cell
      (by simpa using primary)
    simp only [primary]
    rw [rowOf, placeCells_payload, nil_append, place, getElem?_map, kept]
    rfl

/-- An inserted cell is parsed by its column's type, without surrounding whitespace. -/
theorem Typed.value {lib : Library} {schema : Schema} {cells : List Bytes} {row : IngestRow}
    (typed : Typed lib schema cells row) (valid : schema.validate = .ok ())
    (known : schema.columns[index]? = some column) {s : Bytes} (cell : cells[index]? = some s) :
    ∃ value, row.value schema index = some value ∧
      parseValue lib column.type (stripAsciiWhitespace s) = .ok value := by
  obtain ⟨width, values, parsed, rfl⟩ := typed
  have each := mapM_eq_ok_iff.1 parsed
  obtain ⟨inside, rfl⟩ := List.getElem?_eq_some_iff.1 known
  obtain ⟨inside', rfl⟩ := List.getElem?_eq_some_iff.1 cell
  have length := each.length_eq
  rw [length_zip, width, Nat.min_self] at length
  have here := each.get (i := index) (by simpa using ⟨inside, inside'⟩) (by omega)
  rw [get_eq_getElem, getElem_zip] at here
  refine ⟨_, ?_, within_eq_ok.1 here⟩
  rw [rowOf_value (validate_single valid).le length.symm known, getElem?_eq_getElem (by omega)]
  rfl

/-! ## The rows of a CSV file -/

section CsvRows

variable {lib : Library} {schema : Schema} {key : Column} {header : List Bytes}

variable {lineNo : Nat}

/-- The rows of a file are those of its lines that are not blank, in order. -/
theorem parseCsvLines_eq_ok {lines : List Bytes} {rows : List IngestRow}
    (parsed : parseCsvLines lib schema key header lineNo lines = .ok rows) :
    Forall₂ (fun line row => ∃ no, parseCsvLine lib schema key header no line = .ok row)
      (lines.filter fun line => !(stripAsciiWhitespace line).isEmpty) rows := by
  induction lines generalizing lineNo rows with
  | nil =>
    cases parsed
    exact .nil
  | cons line lines ih =>
    rw [parseCsvLines] at parsed
    split at parsed
    · rename_i blank
      rw [filter_cons_of_neg (by simp [blank])]
      exact ih parsed
    · rename_i visible
      obtain ⟨row, first, parsed₁⟩ := bind_eq_ok.1 parsed
      obtain ⟨later, rest, parsed₂⟩ := bind_eq_ok.1 parsed₁
      cases pure_eq_ok.1 parsed₂
      rw [filter_cons_of_pos (by simpa using visible)]
      exact .cons ⟨lineNo, first⟩ (ih rest)

/-- A CSV cell is parsed by its column's type, without surrounding whitespace. -/
theorem parseCsvLine_value (valid : schema.validate = .ok ()) (primary : matchKey schema = some key)
    {line : Bytes} {row : IngestRow}
    (parsed : parseCsvLine lib schema key header lineNo line = .ok row)
    (known : schema.columns[index]? = some column) : ∃ value, row.value schema index = some value ∧
      parseValue lib column.type (cellAt header (strSplit 44 line) column.name) = .ok value := by
  unfold parseCsvLine at parsed
  simp only at parsed
  split at parsed
  · cases parsed
  obtain ⟨keyValue, first, parsed₁⟩ := bind_eq_ok.1 parsed
  obtain ⟨payload, others, parsed₂⟩ := bind_eq_ok.1 parsed₁
  cases pure_eq_ok.1 parsed₂
  rw [IngestRow.value, cellValue, known]
  by_cases eq_ : column.encoding = .eq
  · have same := matchKey_unique valid primary (mem_of_getElem? known) eq_
    subst same
    simp only [eq_]
    exact ⟨keyValue, rfl, within_eq_ok.1 first⟩
  · simp only [eq_]
    have kept := filter_getElem?_countP (p := fun c : Column => c.encoding != .eq) known
      (by simpa using eq_)
    obtain ⟨inside, found⟩ := List.getElem?_eq_some_iff.1 kept
    have each := mapM_eq_ok_iff.1 others
    have inside' := each.length_eq ▸ inside
    have here := each.get inside inside'
    rw [get_eq_getElem, found] at here
    exact ⟨_, getElem?_eq_getElem inside', within_eq_ok.1 here⟩

/-- What a parsed file consists of. -/
theorem parseCsvRows_eq_ok {csvPath : Bytes} {file : Option Bytes} {rows : List IngestRow}
    (parsed : parseCsvRows lib schema csvPath file = .ok rows) :
    schema.validate = .ok () ∧ ∃ key content headerLine lines, matchKey schema = some key ∧
      file = some content ∧ getLines content = headerLine :: lines ∧
      parseCsvLines lib schema key (csvHeader headerLine) 2 lines = .ok rows := by
  obtain ⟨_, valid, parsed₁⟩ := bind_eq_ok.1 parsed
  refine ⟨valid, ?_⟩
  split at parsed₁
  · cases parsed₁
  rename_i key primary
  split at parsed₁
  · cases parsed₁
  rename_i content
  split at parsed₁
  · cases parsed₁
  rename_i headerLine lines read
  simp only at parsed₁
  split at parsed₁
  · cases parsed₁
  split at parsed₁
  · cases parsed₁
  exact ⟨key, content, headerLine, lines, primary, rfl, read, parsed₁⟩

end CsvRows

/-- Row `r` of an ingested epoch, as it was typed. -/
theorem Ingested.row {rows : List IngestRow} (ingested : Ingested epoch rows) {r : Nat}
    (inside : r < epoch.rows.length) :
    ∃ row, rows[r]? = some row ∧ encodeRow epoch.manifest.schema epoch.manifest.keyBits
      epoch.manifest.geometry.recordBytes row = .ok epoch.rows[r] := by
  have inside' : r < rows.length := by
    rw [ingested.encoded.length_eq]
    exact inside
  exact ⟨rows[r], getElem?_eq_getElem inside', ingested.encoded.get inside' inside⟩

/-- A payload column reads back from the stored record. -/
theorem encodeRow_decode {schema : Schema} {keyBits recordBytes : Nat} {row : IngestRow}
    {stored : Row} (encoded : encodeRow schema keyBits recordBytes row = .ok stored)
    (known : schema.columns[index]? = some column) (payload : column.encoding ≠ .eq) :
    ∃ values, decodeRecord schema stored.payload = .ok values ∧
      values[payloadCount (schema.columns.take index)]? = row.value schema index := by
  refine ⟨_, decodeRecord_encodeRecord (encodeRow_eq_ok encoded).2, ?_⟩
  rw [IngestRow.value, cellValue, known]
  simp only [payload]
  exact getElem?_take_of_lt (payloadCount_take_lt known payload)

end OpaqueDb.Server
