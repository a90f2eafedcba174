/-
# Storage.RoundTrip -- what is published opens as it was staged

A published epoch opens when its manifest survives its text: the numbers are in the ranges
of their fields, the names are text, and the text is within the limit that opening puts on
it.  The schemas of table definitions are always within it (`declared_short`), so that for
them publishing and opening are inverse.
-/
import OpaqueDb.Sql.Ddl
import OpaqueDb.Storage.Faults

namespace OpaqueDb.Storage

open OpaqueDb.Core Theory Sql Storage.StagingEpoch

set_option autoImplicit false

/-! ## Layouts -/

section Layouts

variable {lib : JsonLibrary} {staging : StagingEpoch} {version : Nat} {l : Layout}

theorem layout_eq_ok : layout lib staging version = .ok l ↔ ∃ matchCrc payloadCrc,
    segmentFile (matchRecordBytes staging.schema staging.keyBits) (staging.rows.map Row.match_) =
      .ok (l.matchFile, matchCrc) ∧
    segmentFile staging.geometry.recordBytes (staging.rows.map Row.payload) =
      .ok (l.payloadFile, payloadCrc) ∧
    l.manifest = describe staging version matchCrc payloadCrc ∧ l.manifest.validate = .ok () ∧
    l.text = serializeManifest lib l.manifest := by
  constructor
  · intro laid
    obtain ⟨⟨matchFile, matchCrc⟩, first, laid₁⟩ := bind_eq_ok.1 laid
    obtain ⟨⟨payloadFile, payloadCrc⟩, second, laid₂⟩ := bind_eq_ok.1 laid₁
    obtain ⟨_, valid, last⟩ := bind_eq_ok.1 laid₂
    obtain rfl := pure_eq_ok.1 last
    exact ⟨matchCrc, payloadCrc, first, second, rfl, valid, rfl⟩
  · rintro ⟨matchCrc, payloadCrc, first, second, same, valid, printed⟩
    rw [same] at valid
    rw [layout, first]
    rw [second]
    show (Manifest.validate _ >>= _) = _
    rw [valid, show l = ⟨l.matchFile, l.payloadFile, l.manifest, l.text⟩ from rfl, printed, same]
    rfl

/-- The two segments fit a 64-bit size. -/
def Fits64 (staging : StagingEpoch) : Prop :=
  kSegmentHeaderSize + staging.rows.length * matchRecordBytes staging.schema staging.keyBits < 2 ^ 64 ∧
    kSegmentHeaderSize + staging.rows.length * staging.geometry.recordBytes < 2 ^ 64

instance (staging : StagingEpoch) : Decidable (Fits64 staging) :=
  inferInstanceAs (Decidable (_ ∧ _))

theorem matchRecordBytes_pos (valid : staging.validate = .ok ()) :
    matchRecordBytes staging.schema staging.keyBits ≠ 0 := by
  obtain ⟨schema, bits, _⟩ := validate_iff.1 valid
  exact matchRecordBytes_ne_zero schema bits.1

/-- A valid staged epoch of a possible size has a layout. -/
theorem layout_exists (lib : JsonLibrary) (valid : staging.validate = .ok ()) (fits : Fits64 staging)
    (version : Nat) :
    ∃ l, layout lib staging version = .ok l := by
  obtain ⟨schema, bits, geometry⟩ := validate_iff.1 valid
  obtain ⟨_, _, record⟩ := SlotGeometry.validate_iff.1 geometry
  let manifest := describe staging version (crc32 (staging.rows.map Row.match_).flatten)
    (crc32 (staging.rows.map Row.payload).flatten)
  refine ⟨⟨_, _, manifest, serializeManifest lib manifest⟩, layout_eq_ok.2
    ⟨crc32 (staging.rows.map Row.match_).flatten, crc32 (staging.rows.map Row.payload).flatten,
    segmentFile_iff.2 ⟨matchRecordBytes_pos valid, ?_, ?_, rfl, rfl⟩,
    segmentFile_iff.2 ⟨record, ?_, ?_, rfl, rfl⟩, rfl, (Manifest.validate_iff _).2 ?_, rfl⟩⟩
  · intro r member
    obtain ⟨row, listed, rfl⟩ := List.mem_map.1 member
    exact staging.match_length row listed
  · rw [List.length_map]
    exact fits.1
  · intro r member
    obtain ⟨row, listed, rfl⟩ := List.mem_map.1 member
    exact staging.payload_length row listed
  · rw [List.length_map]
    exact fits.2
  · exact ⟨rfl, schema, bits, geometry, rfl, rfl, rfl,
      ⟨show isSafeBasename kMatchFile = true by decide,
        show isSafeBasename kPayloadFile = true by decide⟩⟩

/-- The staged epoch is within the ranges of the source's types. -/
structure Sized (staging : StagingEpoch) : Prop where
  stride : matchRecordBytes staging.schema staging.keyBits < 2 ^ 32
  slotCount : staging.geometry.slotCount < 2 ^ 32
  bytesPerSlot : staging.geometry.bytesPerSlot < 2 ^ 32
  recordBytes : staging.geometry.recordBytes < 2 ^ 32
  rows : staging.rows.length < 2 ^ 63

/-- The names of the schema are text to the JSON library. -/
structure Named (lib : JsonLibrary) (schema : Schema) : Prop where
  table : lib.Text schema.table
  columns : ∀ column ∈ schema.columns, lib.Text column.name

theorem layout_keyBits (laid : layout lib staging version = .ok l) : staging.keyBits ≤ 64 := by
  obtain ⟨_, _, _, _, same, valid, _⟩ := layout_eq_ok.1 laid
  rw [same] at valid
  exact ((Manifest.validate_iff _).1 valid).keyBits.2

/-- A text within the limit names few columns. -/
theorem layout_stride (laid : layout lib staging version = .ok l)
    (short : l.text.length ≤ kMaxManifestBytes) :
    matchRecordBytes staging.schema staging.keyBits < 2 ^ 32 := by
  obtain ⟨_, _, _, _, described, _, printed⟩ := layout_eq_ok.1 laid
  have columns : staging.schema.columns.length ≤ l.text.length := by
    have bound := columns_le_serialize lib l.manifest
    rw [← printed, described] at bound
    exact bound
  have searchable : staging.schema.searchableCount ≤ staging.schema.columns.length :=
    List.countP_le_length
  have key : keyRecordBytes staging.keyBits ≤ 8 := by
    have bits := layout_keyBits laid
    rw [keyRecordBytes]
    omega
  have product := Nat.mul_le_mul searchable key
  rw [kMaxManifestBytes] at short
  rw [matchRecordBytes]
  omega

theorem Named.layout (named : Named lib staging.schema) (laid : layout lib staging version = .ok l) :
    l.manifest.NamesText lib := by
  obtain ⟨_, _, _, _, same, _, _⟩ := layout_eq_ok.1 laid
  rw [same]
  exact ⟨named.table, named.columns, lib.text_of_ascii kMatchFile (by decide +kernel),
    lib.text_of_ascii kPayloadFile (by decide +kernel)⟩

theorem layout_readable (laid : layout lib staging version = .ok l) (sized : Sized staging)
    (named : Named lib staging.schema) (small : version < 2 ^ 63) : l.manifest.Readable lib := by
  obtain ⟨matchCrc, payloadCrc, _, _, same, valid, _⟩ := layout_eq_ok.1 laid
  have match_ := matchCrc.toNat_lt
  have payload := payloadCrc.toNat_lt
  refine ⟨valid, named.layout laid, ?_, ?_, ?_, ?_, ?_, ?_, ?_, ?_⟩ <;> rw [same]
  · exact small
  · exact sized.rows
  · exact sized.slotCount
  · exact sized.bytesPerSlot
  · exact sized.recordBytes
  · exact sized.stride
  · exact match_
  · exact payload

end Layouts

/-! ## Opening a directory that holds an epoch -/

section Opening

variable {lib : JsonLibrary} {staging : StagingEpoch} {version : Nat} {l : Layout} {dir : Subdir}

/-- What opening returns for the files of a layout. -/
def Layout.reader (l : Layout) : EpochReader where
  manifest := l.manifest
  match_ := ⟨l.matchFile, l.manifest.matchSegment.recordBytes, l.manifest.matchSegment.recordCount,
    UInt32.ofNat l.manifest.matchSegment.crc32⟩
  payload := ⟨l.payloadFile, l.manifest.payloadSegment.recordBytes,
    l.manifest.payloadSegment.recordCount, UInt32.ofNat l.manifest.payloadSegment.crc32⟩

/-- Opening accepts the manifest's text. -/
structure Legible (lib : JsonLibrary) (l : Layout) : Prop where
  readable : l.manifest.Readable lib
  short : l.text.length ≤ kMaxManifestBytes

theorem readSmall_ok {path content text : Bytes} {limit : Nat}
    (read : readSmall path limit (.ok content) = .ok text) :
    text = content ∧ content.length ≤ limit := by
  simp only [readSmall] at read
  split at read
  · cases read
  · rename_i fits
    exact ⟨(Except.ok.inj read).symm, Nat.not_lt.1 fits⟩

theorem openDir_holds (root : Bytes) (holds : Holds dir l) (laid : layout lib staging version = .ok l)
    (legible : Legible lib l) : openDir root lib version dir = .ok l.reader := by
  obtain ⟨matchCrc, payloadCrc, first, second, same, _, printed⟩ := layout_eq_ok.1 laid
  have stride := legible.readable.stride
  have record := legible.readable.recordBytes
  rw [same] at stride record
  have text : ∀ path, readSmall path kMaxManifestBytes (dir.read kManifestFile) =
      .ok (serializeManifest lib l.manifest) := by
    intro path
    rw [Subdir.read, holds.manifest, ← printed]
    exact if_neg (Nat.not_lt.2 legible.short)
  have matchRead : dir.read l.manifest.matchSegment.file = .ok l.matchFile := by
    have named : l.manifest.matchSegment.file = kMatchFile := by rw [same]; rfl
    rw [named, Subdir.read, holds.match_]
  have payloadRead : dir.read l.manifest.payloadSegment.file = .ok l.payloadFile := by
    have named : l.manifest.payloadSegment.file = kPayloadFile := by rw [same]; rfl
    rw [named, Subdir.read, holds.payload]
  have matchOpened : ∀ path, openSegmentAnswer path l.manifest.matchSegment (.ok l.matchFile) =
      .ok l.reader.match_ := by
    intro path
    have opened := open_written first stride path (Or.inr rfl) (Or.inr rfl) (Or.inr rfl)
    simp only [openSegmentAnswer, Layout.reader, same, describe]
    simpa using opened
  have payloadOpened : ∀ path, openSegmentAnswer path l.manifest.payloadSegment
      (.ok l.payloadFile) = .ok l.reader.payload := by
    intro path
    have opened := open_written second record path (Or.inr rfl) (Or.inr rfl) (Or.inr rfl)
    simp only [openSegmentAnswer, Layout.reader, same, describe]
    simpa using opened
  rw [openDir]
  simp only [text, bind, Except.bind, parseManifest_serialize legible.readable, matchRead,
    payloadRead, matchOpened, payloadOpened]
  rfl

/-- The reader hands out the staged rows. -/
theorem reader_rows (laid : layout lib staging version = .ok l) {i : Nat} {row : Row}
    (known : staging.rows[i]? = some row) :
    l.reader.matchRecord i = .ok row.match_ ∧ l.reader.payloadRecord i = .ok row.payload := by
  obtain ⟨matchCrc, payloadCrc, first, second, same, _⟩ := layout_eq_ok.1 laid
  have listedMatch : (staging.rows.map Row.match_)[i]? = some row.match_ := by simp [known]
  have listedPayload : (staging.rows.map Row.payload)[i]? = some row.payload := by simp [known]
  have match_ := record_written first listedMatch
  have payload := record_written second listedPayload
  simp only [Layout.reader, same]
  rw [List.length_map] at match_ payload
  exact ⟨match_, payload⟩

/-- The reader shows the staged epoch. -/
structure Shows (reader : EpochReader) (staging : StagingEpoch) : Prop where
  schema : reader.manifest.schema = staging.schema
  keyBits : reader.manifest.keyBits = staging.keyBits
  geometry : reader.manifest.geometry = staging.geometry
  count : reader.rowCount = staging.rows.length
  records : ∀ i row, staging.rows[i]? = some row →
    reader.matchRecord i = .ok row.match_ ∧ reader.payloadRecord i = .ok row.payload

theorem reader_shows (laid : layout lib staging version = .ok l) : Shows l.reader staging := by
  obtain ⟨matchCrc, payloadCrc, _, _, described, _⟩ := layout_eq_ok.1 laid
  refine ⟨?_, ?_, ?_, ?_, fun i row known => reader_rows laid known⟩
  · exact congrArg (fun m : Manifest => m.schema) described
  · exact congrArg (fun m : Manifest => m.keyBits) described
  · exact congrArg (fun m : Manifest => m.geometry) described
  · exact congrArg (fun m : Manifest => m.matchSegment.recordCount) described

end Opening

/-! ## Table definitions stay within the limit -/

theorem isIdentifierChar_plain {c : UInt8} (char : isIdentifierChar c = true) :
    Json.plainByte c = true ∧ c < 128 := by
  have each : ∀ i : Fin 256, isIdentifierChar (UInt8.ofNat i) = true →
      Json.plainByte (UInt8.ofNat i) = true ∧ UInt8.ofNat i < 128 := by decide +kernel
  have found := each ⟨c.toNat, c.toNat_lt⟩
  rw [UInt8.ofNat_toNat] at found
  exact found char

section Declared

variable {lib : JsonLibrary} {schema : Schema} (declared : Declared schema)
include declared

theorem declared_named (lib : JsonLibrary) : Named lib schema where
  table := lib.text_of_ascii _ fun c member =>
    (isIdentifierChar_plain (declared.table.chars c member)).2
  columns column listed := lib.text_of_ascii _ fun c member =>
    (isIdentifierChar_plain ((declared.columns column listed).chars c member)).2

theorem declared_plain : PlainNames schema :=
  ⟨fun c member => (isIdentifierChar_plain (declared.table.chars c member)).1,
    fun column listed c member =>
      (isIdentifierChar_plain ((declared.columns column listed).chars c member)).1⟩

theorem declared_stride {keyBits : Nat} (bits : keyBits ≤ 64) :
    matchRecordBytes schema keyBits < 2 ^ 32 := by
  have few := declared.few
  have searchable : schema.searchableCount ≤ schema.columns.length := List.countP_le_length
  have bytes : keyRecordBytes keyBits ≤ 8 := by
    rw [keyRecordBytes]
    omega
  have product := Nat.mul_le_mul searchable bytes
  rw [kMaxTokens] at few
  rw [matchRecordBytes]
  omega

/-- **A declared table's manifest opens**: its text is shorter than the limit. -/
theorem declared_short {staging : StagingEpoch} {version : Nat} {l : Layout}
    (same : staging.schema = schema) (laid : layout lib staging version = .ok l) :
    l.text.length ≤ kMaxManifestBytes := by
  obtain ⟨matchCrc, payloadCrc, _, _, described, _, printed⟩ := layout_eq_ok.1 laid
  have known : l.manifest.schema = schema := by rw [described, ← same]; rfl
  have length := serializeManifest_length lib l.manifest kMaxIdentifierLength
    (by rw [known]; exact declared_plain declared)
    (by rw [described]; show ∀ c ∈ kMatchFile, _; decide +kernel)
    (by rw [described]; show ∀ c ∈ kPayloadFile, _; decide +kernel)
    (by rw [known]; exact declared.table.short)
    (by rw [known]; exact fun column listed => (declared.columns column listed).short)
  have files : l.manifest.matchSegment.file.length = 9 ∧
      l.manifest.payloadSegment.file.length = 11 := by
    rw [described]
    exact ⟨rfl, rfl⟩
  have few := declared.few
  rw [known] at length
  rw [printed]
  simp only [kMaxIdentifierLength, kMaxTokens, kMaxManifestBytes] at length few ⊢
  omega

end Declared

/-! ## Ordinary epochs -/

/-- A staged epoch of a declared table, its geometry within the source's words. -/
structure Ordinary (staging : StagingEpoch) : Prop where
  declared : ∃ ddl, parseCreateTable ddl = .ok staging.schema
  slotCount : staging.geometry.slotCount < 2 ^ 32
  bytesPerSlot : staging.geometry.bytesPerSlot < 2 ^ 32
  recordBytes : staging.geometry.recordBytes < 2 ^ 32

section Ordinary

variable {lib : JsonLibrary} {staging : StagingEpoch} {version : Nat} {l : Layout}

theorem Ordinary.legible (ordinary : Ordinary staging) (laid : layout lib staging version = .ok l)
    (few : staging.rows.length < 2 ^ 63) (small : version < 2 ^ 63) : Legible lib l := by
  obtain ⟨ddl, parsed⟩ := ordinary.declared
  have declared := parseCreateTable_bounded parsed
  have sized : Sized staging := {
    stride := declared_stride declared (layout_keyBits laid)
    slotCount := ordinary.slotCount
    bytesPerSlot := ordinary.bytesPerSlot
    recordBytes := ordinary.recordBytes
    rows := few }
  exact ⟨layout_readable laid sized (declared_named declared lib) small,
    declared_short declared rfl laid⟩

end Ordinary

/-! ## Publish and open -/

section PublishOpen

variable {root : Bytes} {lib : JsonLibrary}

/-- The epoch is in place, with the files of the layout. -/
def Stands (disk : RepoDisk) (version : Nat) (l : Layout) : Prop :=
  ∃ dir, disk.dirs.lookup (.epoch version) = some dir ∧ Holds dir l

theorem Stands.opens {disk : RepoDisk} {staging : StagingEpoch} {version : Nat} {l : Layout}
    (stands : Stands disk version l) (root : Bytes) (laid : layout lib staging version = .ok l)
    (legible : Legible lib l) :
    runCall (openVersion root lib version) disk = (.ok l.reader, disk) := by
  obtain ⟨dir, known, holds⟩ := stands
  rw [runCall_openVersion, known]
  exact congrArg (·, disk) (openDir_holds root holds laid legible)

/-- An epoch that opens at all opens to its own files: what cannot be read back is refused,
and a text within the limit names few columns. -/
theorem Stands.opened {disk disk' : RepoDisk} {staging : StagingEpoch} {version : Nat} {l : Layout}
    {reader : EpochReader} (stands : Stands disk version l) (laid : layout lib staging version = .ok l)
    (named : Named lib staging.schema) (slotCount : staging.geometry.slotCount < 2 ^ 32)
    (bytesPerSlot : staging.geometry.bytesPerSlot < 2 ^ 32)
    (recordBytes : staging.geometry.recordBytes < 2 ^ 32) (small : version < 2 ^ 64)
    (opened : runCall (openVersion root lib version) disk = (.ok reader, disk')) :
    staging.rows.length < 2 ^ 63 ∧ reader = l.reader := by
  obtain ⟨matchCrc, payloadCrc, written, _, described, valid, printed⟩ := layout_eq_ok.1 laid
  obtain ⟨positive, _, fits, _, _⟩ := segmentFile_iff.1 written
  have fits64 : staging.rows.length < 2 ^ 64 := by
    have := Nat.le_mul_of_pos_right staging.rows.length (Nat.pos_of_ne_zero positive)
    rw [List.length_map] at fits
    omega
  have count : l.manifest.matchSegment.recordCount = staging.rows.length := by rw [described]; rfl
  have epoch : l.manifest.epochVersion = version := by rw [described]; rfl
  have short : l.text.length ≤ kMaxManifestBytes ∧
      ∃ manifest, parseManifest lib l.text = .ok manifest := by
    obtain ⟨dir, known, holds⟩ := stands
    rw [runCall_openVersion, known] at opened
    obtain ⟨text, read, rest⟩ := bind_eq_ok.1 (congrArg Prod.fst opened)
    obtain ⟨manifest, parsed, _⟩ := bind_eq_ok.1 rest
    have content : dir.read kManifestFile = .ok l.text := by
      rw [Subdir.read, holds.manifest]
    rw [content] at read
    obtain ⟨rfl, within⟩ := readSmall_ok read
    exact ⟨within, manifest, parsed⟩
  obtain ⟨short, manifest, parsed⟩ := short
  rw [printed] at parsed
  have numbers : l.manifest.epochVersion < 2 ^ 63 ∧ l.manifest.matchSegment.recordCount < 2 ^ 63 := by
    exact numbers_lt_of_parseManifest (named.layout laid) (by rw [epoch]; exact small)
      (by rw [count]; exact fits64) parsed
  rw [epoch, count] at numbers
  have sized : Sized staging := ⟨layout_stride laid short, slotCount, bytesPerSlot, recordBytes, numbers.2⟩
  have legible : Legible lib l := ⟨layout_readable laid sized named numbers.1, short⟩
  exact ⟨numbers.2, Except.ok.inj (congrArg Prod.fst (opened.symm.trans (stands.opens root laid legible)))⟩

/-- An ordinary epoch that opens has a count that can be read, and opens to its own files. -/
theorem Ordinary.opened {disk disk' : RepoDisk} {staging : StagingEpoch} {version : Nat} {l : Layout}
    {reader : EpochReader} (ordinary : Ordinary staging) (laid : layout lib staging version = .ok l)
    (stands : Stands disk version l) (small : version < 2 ^ 63)
    (opened : runCall (openVersion root lib version) disk = (.ok reader, disk')) :
    staging.rows.length < 2 ^ 63 ∧ reader = l.reader := by
  obtain ⟨ddl, parsed⟩ := ordinary.declared
  exact stands.opened laid (declared_named (parseCreateTable_bounded parsed) lib) ordinary.slotCount
    ordinary.bytesPerSlot ordinary.recordBytes (by omega) opened

/-- **Publish and open are inverse.**  Once a `Publish` of the rows of a declared table has
returned OK, whatever commands failed on the way, its version opens, by number and as the
current one, to the same schema, key width, geometry and rows. -/
theorem publish_open {ddl : Bytes} {schema : Schema} {keyBits : Nat} {geometry : SlotGeometry}
    {rows : List Row} {staging : StagingEpoch} {version : Nat} {disk disk' : RepoDisk}
    (parsed : parseCreateTable ddl = .ok schema)
    (words : geometry.slotCount < 2 ^ 32 ∧ geometry.bytesPerSlot < 2 ^ 32 ∧
      geometry.recordBytes < 2 ^ 32)
    (accepted : rows.foldlM appendRow (empty schema keyBits geometry) =
      .ok staging)
    (few : rows.length < 2 ^ 63) (small : version < 2 ^ 63)
    (returns : Returns (publish root lib staging version) disk (.ok ()) disk') :
    ∃ reader, runCall (openVersion root lib version) disk' = (.ok reader, disk') ∧
      runCall (openCurrent root lib) disk' = (.ok reader, disk') ∧
      reader.manifest.schema = schema ∧ reader.manifest.keyBits = keyBits ∧
      reader.manifest.geometry = geometry ∧ reader.rowCount = rows.length ∧
      ∀ i row, rows[i]? = some row →
        reader.matchRecord i = .ok row.match_ ∧ reader.payloadRecord i = .ok row.payload := by
  obtain ⟨sameSchema, sameBits, sameGeometry, sameRows⟩ := appendRows_eq_ok accepted
  have sameRows : staging.rows = rows := sameRows
  have ordinary : Ordinary staging := {
    declared := ⟨ddl, sameSchema ▸ parsed⟩
    slotCount := by rw [sameGeometry]; exact words.1
    bytesPerSlot := by rw [sameGeometry]; exact words.2.1
    recordBytes := by rw [sameGeometry]; exact words.2.2 }
  obtain ⟨l, able, published⟩ := publish_ok returns
  have legible : Legible lib l := ordinary.legible able.laid (by rw [sameRows]; exact few) small
  have opened : runCall (openVersion root lib version) disk' = (.ok l.reader, disk') :=
    Stands.opens published.epoch root able.laid legible
  have shows := reader_shows able.laid
  refine ⟨l.reader, opened, ?_, shows.schema.trans sameSchema, shows.keyBits.trans sameBits,
    shows.geometry.trans sameGeometry, ?_, ?_⟩
  · rw [openCurrent, runCall_bind_ok _ (published.pointer.currentVersion root (by omega)), opened]
  · rw [← sameRows]
    exact shows.count
  · rw [← sameRows]
    exact shows.records

end PublishOpen

/-! ## A table of one row -/

def oneRowSchema : Schema :=
  ⟨bytes "t", [⟨bytes "id", .eq, .int⟩]⟩

def oneRowGeometry : SlotGeometry :=
  ⟨4096, 2, 4⟩

def oneRow : StagingEpoch where
  schema := oneRowSchema
  keyBits := 8
  geometry := oneRowGeometry
  rows := [⟨[7], [1, 2, 3, 4]⟩]
  match_length := by decide
  payload_length := by decide

theorem oneRow_valid : oneRow.validate = .ok () := by decide

theorem oneRow_fits : Fits64 oneRow := by
  constructor <;> decide

theorem oneRow_parsed :
    parseCreateTable (bytes "CREATE TABLE t (id INT KEY)") = .ok oneRowSchema := by
  decide +kernel

theorem oneRow_legible (lib : JsonLibrary) {version : Nat} {l : Layout} (small : version < 2 ^ 63)
    (laid : layout lib oneRow version = .ok l) : Legible lib l := by
  have declared := parseCreateTable_bounded oneRow_parsed
  have sized : Sized oneRow := by constructor <;> decide
  exact ⟨layout_readable laid sized (declared_named declared lib) small,
    declared_short declared rfl laid⟩

theorem publish_oneRow (root : Bytes) (lib : JsonLibrary) (disk : RepoDisk) (version : Nat)
    (free : disk.dirs.lookup (.epoch version) = none) :
    ∃ l disk', layout lib oneRow version = .ok l ∧
      runCall (publish root lib oneRow version) disk = (.ok (), disk') ∧
      Published disk version l disk' := by
  obtain ⟨l, laid⟩ := layout_exists lib oneRow_valid oneRow_fits version
  rcases runCall_publish root lib disk oneRow version with
    ⟨l', disk', able, run, published⟩ | ⟨unable, _⟩
  · exact ⟨l', disk', able.laid, run, published⟩
  · exact absurd ⟨oneRow_valid, free, laid⟩ (unable l)

/-- The one-row table is published and read back. -/
theorem publish_open_oneRow : ∃ disk' reader,
    Returns (publish (bytes "/t") JsonLibrary.exact oneRow 1) Disk.empty (.ok ()) disk' ∧
    runCall (openCurrent (bytes "/t") JsonLibrary.exact) disk' = (.ok reader, disk') ∧
    reader.rowCount = 1 ∧ reader.matchRecord 0 = .ok [7] ∧
    reader.payloadRecord 0 = .ok [1, 2, 3, 4] := by
  obtain ⟨_, disk', _, run, _⟩ := publish_oneRow (bytes "/t") JsonLibrary.exact Disk.empty 1 rfl
  have returns := returns_of_run run
  have accepted : [(⟨[7], [1, 2, 3, 4]⟩ : Row)].foldlM appendRow
      (empty oneRowSchema 8 oneRowGeometry) = .ok oneRow := rfl
  obtain ⟨reader, _, opened, _, _, _, count, records⟩ := @publish_open (bytes "/t")
    JsonLibrary.exact _ _ _ _ _ _ _ _ _ oneRow_parsed (by decide) accepted (by decide) (by decide)
    returns
  obtain ⟨match_, payload⟩ := records 0 ⟨[7], [1, 2, 3, 4]⟩ rfl
  exact ⟨disk', reader, returns, opened, count, match_, payload⟩

end OpaqueDb.Storage
