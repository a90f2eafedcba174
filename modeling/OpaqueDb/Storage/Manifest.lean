/-
# Storage.Manifest -- the description of an epoch

`EpochManifest` is what queries read of a manifest; `Manifest` adds what the file holds
besides: the format version and the two segments' strides, counts and CRCs.  It is written
as a JSON document and read back field by field.

A number is read as the source reads it: a negative one is refused, where an unsigned one
from 2^63 on counts as negative, and what is left is cast to the field's width.
`parseManifest_serialize` is the round trip, `serializeManifest_length` the size of the
text in terms of the names.
-/
import OpaqueDb.Storage.Epoch
import OpaqueDb.Storage.Json

namespace OpaqueDb.Storage

open OpaqueDb.Core List

set_option autoImplicit false

def kManifestFormatVersion : Nat := 1

structure SegmentDescriptor where
  file : Bytes
  recordBytes : Nat
  recordCount : Nat
  crc32 : Nat
  deriving DecidableEq, Repr

structure Manifest extends EpochManifest where
  formatVersion : Nat := kManifestFormatVersion
  matchSegment : SegmentDescriptor
  payloadSegment : SegmentDescriptor
  deriving DecidableEq, Repr

def versionMismatch (version : Nat) : Status :=
  ⟨.failedPrecondition, strCat ["manifest format version ", dec version,
    ", this build supports ", dec kManifestFormatVersion]⟩

/-- A plain name: no separator and no reference to a directory. -/
def isSafeBasename (name : Bytes) : Bool :=
  !name.isEmpty && name != bytes "." && name != bytes ".." && !name.contains 47 &&
    !name.contains 92

def Manifest.validate (manifest : Manifest) : StatusOr Unit := do
  if manifest.formatVersion ≠ kManifestFormatVersion then
    throw (versionMismatch manifest.formatVersion)
  manifest.schema.validate
  if manifest.keyBits = 0 ∨ manifest.keyBits > 64 then
    throw (invalidArgument ["manifest key_bits invalid: ", dec manifest.keyBits])
  manifest.geometry.validate
  if manifest.matchSegment.recordCount ≠ manifest.payloadSegment.recordCount then
    throw (invalidArgument ["manifest match rows ", dec manifest.matchSegment.recordCount,
      " != payload rows ", dec manifest.payloadSegment.recordCount])
  if manifest.matchSegment.recordBytes ≠ matchRecordBytes manifest.schema manifest.keyBits then
    throw (invalidArgument
      ["manifest match segment stride does not match the searchable columns"])
  if manifest.payloadSegment.recordBytes ≠ manifest.geometry.recordBytes then
    throw (invalidArgument ["manifest payload segment stride does not match the geometry"])
  if !(isSafeBasename manifest.matchSegment.file && isSafeBasename manifest.payloadSegment.file) then
    throw (invalidArgument ["manifest segment file name is not a safe basename"])

/-! ## Writing -/

/-- A number of the manifest, held unsigned. -/
def number (n : Nat) : Json :=
  .unsigned (UInt64.ofNat n)

def columnToJson (column : Column) : Json :=
  .object [(bytes "encoding", .string column.encoding.toBytes), (bytes "name", .string column.name),
    (bytes "type", .string column.type.toBytes)]

def segmentToJson (segment : SegmentDescriptor) : Json :=
  .object [(bytes "crc32", number segment.crc32), (bytes "file", .string segment.file),
    (bytes "record_bytes", number segment.recordBytes),
    (bytes "record_count", number segment.recordCount)]

variable (geometry : SlotGeometry)

def geometryToJson : Json :=
  .object [(bytes "bytes_per_slot", number geometry.bytesPerSlot),
    (bytes "record_bytes", number geometry.recordBytes),
    (bytes "slot_count", number geometry.slotCount)]

variable (schema : Schema)

def schemaToJson : Json :=
  .object [(bytes "columns", .array (schema.columns.map columnToJson)),
    (bytes "table", .string schema.table)]

/-- The document; the library keeps an object's keys in order. -/
def manifestToJson (manifest : Manifest) : Json :=
  .object [(bytes "epoch_version", number manifest.epochVersion),
    (bytes "format_version", number manifest.formatVersion),
    (bytes "geometry", geometryToJson manifest.geometry),
    (bytes "key_bits", number manifest.keyBits),
    (bytes "match_segment", segmentToJson manifest.matchSegment),
    (bytes "payload_segment", segmentToJson manifest.payloadSegment),
    (bytes "schema", schemaToJson manifest.schema)]

def serializeManifest (lib : JsonLibrary) (manifest : Manifest) : Bytes :=
  lib.dump (manifestToJson manifest)

/-! ## Reading -/

def requireObject (j : Json) (what : String) : StatusOr Unit :=
  match j with
  | .object _ => .ok ()
  | _ => .error (invalidArgument [bytes what, " is not an object"])

/-- A field cast to `width` bits.  The sign is looked at through a signed 64-bit cast. -/
def getNumber (width : Nat) (j : Json) (key : String) : StatusOr Nat :=
  match j.get? key with
  | none => .error (invalidArgument ["missing field '", bytes key, "'"])
  | some (.unsigned n) =>
    if n.toInt64 < 0 then
      .error (invalidArgument ["field '", bytes key, "' is negative"])
    else .ok (n.toNat % 2 ^ width)
  | some (.integer i) =>
    if i < 0 then .error (invalidArgument ["field '", bytes key, "' is negative"])
    else .ok (i.toInt.toNat % 2 ^ width)
  | some _ => .error (invalidArgument ["field '", bytes key, "' is not an integer"])

def getString (j : Json) (key : String) : StatusOr Bytes :=
  match j.get? key with
  | some (.string s) => .ok s
  | _ => .error (invalidArgument ["missing or non-string field '", bytes key, "'"])

def parseSegment (j : Json) (what : String) : StatusOr SegmentDescriptor := do
  requireObject j what
  let file ← getString j "file"
  let recordBytes ← getNumber 32 j "record_bytes"
  let recordCount ← getNumber 64 j "record_count"
  let crc ← getNumber 32 j "crc32"
  return ⟨file, recordBytes, recordCount, crc⟩

/-- Older manifests have no types; their columns are text. -/
def getColumnType (j : Json) : StatusOr ColumnType :=
  if (j.get? "type").isSome then getString j "type" >>= parseColumnType else .ok .text

def parseColumnJson (j : Json) : StatusOr Column := do
  requireObject j "column"
  let name ← getString j "name"
  let encoding ← getString j "encoding" >>= parseColumnEncoding
  let type ← getColumnType j
  return ⟨name, encoding, type⟩

variable (doc : Json)

def parseSchemaJson : StatusOr Schema := do
  match doc.get? "schema" with
  | none => .error (invalidArgument ["manifest missing 'schema'"])
  | some schemaJson => do
    requireObject schemaJson "schema"
    let table ← getString schemaJson "table"
    match schemaJson.get? "columns" with
    | some (.array items) => do
      let columns ← items.mapM parseColumnJson
      return ⟨table, columns⟩
    | _ => .error (invalidArgument ["schema missing 'columns' array"])

def parseGeometryJson : StatusOr SlotGeometry := do
  match doc.get? "geometry" with
  | none => .error (invalidArgument ["manifest missing 'geometry'"])
  | some geometry => do
    requireObject geometry "geometry"
    let slotCount ← getNumber 32 geometry "slot_count"
    let bytesPerSlot ← getNumber 32 geometry "bytes_per_slot"
    let recordBytes ← getNumber 32 geometry "record_bytes"
    return ⟨slotCount, bytesPerSlot, recordBytes⟩

def parseSegmentsJson : StatusOr (SegmentDescriptor × SegmentDescriptor) := do
  match doc.get? "match_segment", doc.get? "payload_segment" with
  | some match_, some payload => do
    let matchSegment ← parseSegment match_ "match_segment"
    let payloadSegment ← parseSegment payload "payload_segment"
    return (matchSegment, payloadSegment)
  | _, _ => .error (invalidArgument ["manifest missing a segment descriptor"])

def manifestOfJson : StatusOr Manifest := do
  requireObject doc "manifest"
  let formatVersion ← getNumber 32 doc "format_version"
  if formatVersion ≠ kManifestFormatVersion then
    .error (versionMismatch formatVersion)
  else do
    let epochVersion ← getNumber 64 doc "epoch_version"
    let schema ← parseSchemaJson doc
    let keyBits ← getNumber 32 doc "key_bits"
    let geometry ← parseGeometryJson doc
    let (matchSegment, payloadSegment) ← parseSegmentsJson doc
    let manifest : Manifest := ⟨⟨epochVersion, schema, keyBits, geometry⟩, formatVersion,
      matchSegment, payloadSegment⟩
    manifest.validate
    return manifest

def parseManifest (lib : JsonLibrary) (text : Bytes) : StatusOr Manifest :=
  match lib.parse text with
  | none => .error (invalidArgument ["manifest is not valid JSON"])
  | some doc => manifestOfJson doc

/-! ## The round trip -/

variable {segment : SegmentDescriptor}

variable {column : Column}

section RoundTrip

variable {lib : JsonLibrary}

/-- The names are text to the JSON library. -/
structure Manifest.NamesText (lib : JsonLibrary) (manifest : Manifest) : Prop where
  table : lib.Text manifest.schema.table
  columns : ∀ column ∈ manifest.schema.columns, lib.Text column.name
  matchFile : lib.Text manifest.matchSegment.file
  payloadFile : lib.Text manifest.payloadSegment.file

/-- A manifest that passes its checks and whose numbers and names survive the text. -/
structure Manifest.Readable (lib : JsonLibrary) (manifest : Manifest) : Prop where
  valid : manifest.validate = .ok ()
  names : manifest.NamesText lib
  version : manifest.epochVersion < 2 ^ 63
  count : manifest.matchSegment.recordCount < 2 ^ 63
  slotCount : manifest.geometry.slotCount < 2 ^ 32
  bytesPerSlot : manifest.geometry.bytesPerSlot < 2 ^ 32
  recordBytes : manifest.geometry.recordBytes < 2 ^ 32
  stride : manifest.matchSegment.recordBytes < 2 ^ 32
  matchCrc : manifest.matchSegment.crc32 < 2 ^ 32
  payloadCrc : manifest.payloadSegment.crc32 < 2 ^ 32

/-- What the checks of a manifest establish. -/
structure Manifest.Coherent (manifest : Manifest) : Prop where
  format : manifest.formatVersion = kManifestFormatVersion
  schema : manifest.schema.validate = .ok ()
  keyBits : 1 ≤ manifest.keyBits ∧ manifest.keyBits ≤ 64
  geometry : manifest.geometry.validate = .ok ()
  counts : manifest.matchSegment.recordCount = manifest.payloadSegment.recordCount
  matchStride : manifest.matchSegment.recordBytes = matchRecordBytes manifest.schema manifest.keyBits
  payloadStride : manifest.payloadSegment.recordBytes = manifest.geometry.recordBytes
  files : isSafeBasename manifest.matchSegment.file = true ∧
    isSafeBasename manifest.payloadSegment.file = true

theorem Manifest.validate_iff (manifest : Manifest) :
    manifest.validate = .ok () ↔ manifest.Coherent := by
  constructor
  · intro valid
    unfold Manifest.validate at valid
    simp only [bind, Except.bind, throw, throwThe, MonadExceptOf.throw] at valid
    split at valid
    · cases valid
    rename_i format
    split at valid
    · cases valid
    rename_i schema
    split at valid
    · cases valid
    split at valid
    · cases valid
    rename_i geometry
    split at valid
    · cases valid
    rename_i counts
    split at valid
    · cases valid
    rename_i matchStride
    split at valid
    · cases valid
    rename_i payloadStride
    split at valid
    · cases valid
    rename_i files
    exact ⟨not_not.1 format, schema, by omega, geometry, not_not.1 counts, not_not.1 matchStride,
      not_not.1 payloadStride, by simpa using files⟩
  · rintro ⟨format, schema, keyBits, geometry, counts, matchStride, payloadStride, files⟩
    unfold Manifest.validate
    rw [if_neg (not_not.2 format), schema, if_neg (by omega), geometry, if_neg (not_not.2 counts),
      if_neg (not_not.2 matchStride), if_neg (not_not.2 payloadStride),
      if_neg (by simp [files.1, files.2])]
    rfl

variable {j : Json} {key : String}

theorem getNumber_number {width n : Nat} (known : j.get? key = some (number n))
    (positive : n < 2 ^ 63) (small : n < 2 ^ width) : getNumber width j key = .ok n := by
  have value : (UInt64.ofNat n).toNat = n := by
    rw [UInt64.toNat_ofNat', Nat.mod_eq_of_lt (by omega)]
  have sign : ¬ (UInt64.ofNat n).toInt64 < 0 := by
    rw [UInt64.toInt64_ofNat', Int64.lt_iff_toInt_lt, Int64.toInt_ofNat_of_lt positive,
      Int64.toInt_zero]
    omega
  simp only [getNumber, known, number, if_neg sign, value, Nat.mod_eq_of_lt small]

variable {what : String}

theorem parseSegment_segmentToJson (stride : segment.recordBytes < 2 ^ 32)
    (count : segment.recordCount < 2 ^ 63) (crc : segment.crc32 < 2 ^ 32) :
    parseSegment (segmentToJson segment) what = .ok segment := by
  have strideRead : getNumber 32 (segmentToJson segment) "record_bytes" = .ok segment.recordBytes :=
    getNumber_number rfl (by omega) stride
  have countRead : getNumber 64 (segmentToJson segment) "record_count" = .ok segment.recordCount :=
    getNumber_number rfl count (by omega)
  have crcRead : getNumber 32 (segmentToJson segment) "crc32" = .ok segment.crc32 :=
    getNumber_number rfl (by omega) crc
  have file : getString (segmentToJson segment) "file" = .ok segment.file := rfl
  rw [parseSegment, strideRead, countRead, crcRead]
  rfl

theorem parseColumnJson_columnToJson (column : Column) :
    parseColumnJson (columnToJson column) = .ok column := by
  have name : getString (columnToJson column) "name" = .ok column.name := rfl
  have encoding : (getString (columnToJson column) "encoding" >>= parseColumnEncoding) =
      .ok column.encoding := parseColumnEncoding_toBytes column.encoding
  have type : getColumnType (columnToJson column) = .ok column.type :=
    parseColumnType_toBytes column.type
  rw [parseColumnJson, encoding, type]
  rfl

theorem parseColumns_toJson (columns : List Column) :
    (columns.map columnToJson).mapM parseColumnJson = .ok columns := by
  rw [mapM_eq_ok_iff, forall₂_map_left_iff, forall₂_same]
  exact fun column _ => parseColumnJson_columnToJson column

theorem parseSchemaJson_toJson (manifest : Manifest) :
    parseSchemaJson (manifestToJson manifest) = .ok manifest.schema := by
  show ((.ok manifest.schema.table : StatusOr Bytes) >>= fun table =>
    (manifest.schema.columns.map columnToJson).mapM parseColumnJson >>= fun columns =>
      pure (⟨table, columns⟩ : Schema)) = _
  rw [parseColumns_toJson]
  rfl

variable {manifest : Manifest}

/-- The document holds what the manifest holds. -/
theorem manifestOfJson_toJson (readable : manifest.Readable lib) :
    manifestOfJson (manifestToJson manifest) = .ok manifest := by
  have coherent := manifest.validate_iff.1 readable.valid
  have keyBits := coherent.keyBits
  have version := readable.version
  have slotCount := readable.slotCount
  have bytesPerSlot := readable.bytesPerSlot
  have recordBytes := readable.recordBytes
  have format : getNumber 32 (manifestToJson manifest) "format_version" = .ok manifest.formatVersion :=
    getNumber_number rfl (by rw [coherent.format]; decide) (by rw [coherent.format]; decide)
  have epoch : getNumber 64 (manifestToJson manifest) "epoch_version" = .ok manifest.epochVersion :=
    getNumber_number rfl version (by omega)
  have bits : getNumber 32 (manifestToJson manifest) "key_bits" = .ok manifest.keyBits :=
    getNumber_number rfl (by omega) (by omega)
  have geometry : parseGeometryJson (manifestToJson manifest) = .ok manifest.geometry := by
    have slots : getNumber 32 (geometryToJson manifest.geometry) "slot_count" =
      .ok manifest.geometry.slotCount := getNumber_number rfl (by omega) slotCount
    have perSlot : getNumber 32 (geometryToJson manifest.geometry) "bytes_per_slot" =
      .ok manifest.geometry.bytesPerSlot := getNumber_number rfl (by omega) bytesPerSlot
    have record : getNumber 32 (geometryToJson manifest.geometry) "record_bytes" =
      .ok manifest.geometry.recordBytes := getNumber_number rfl (by omega) recordBytes
    show (getNumber 32 (geometryToJson manifest.geometry) "slot_count" >>= _) = _
    rw [slots, perSlot, record]
    rfl
  have segments : parseSegmentsJson (manifestToJson manifest) =
      .ok (manifest.matchSegment, manifest.payloadSegment) := by
    show (parseSegment (segmentToJson manifest.matchSegment) "match_segment" >>= fun matchSegment =>
      parseSegment (segmentToJson manifest.payloadSegment) "payload_segment" >>= fun payloadSegment =>
        pure (matchSegment, payloadSegment)) = _
    rw [parseSegment_segmentToJson readable.stride readable.count readable.matchCrc,
      parseSegment_segmentToJson (by rw [coherent.payloadStride]; exact recordBytes)
        (by rw [← coherent.counts]; exact readable.count) readable.payloadCrc]
    rfl
  rw [manifestOfJson, format]
  show (if manifest.formatVersion ≠ kManifestFormatVersion then _ else _) = _
  rw [if_neg (not_not.2 coherent.format), epoch, parseSchemaJson_toJson, bits, geometry, segments]
  show (manifest.validate >>= fun _ => pure manifest) = _
  rw [readable.valid]
  rfl

theorem canonical_object (keys : List String) {fields : List (Bytes × Json)}
    (named : fields.map Prod.fst = keys.map bytes)
    (plain : (keys.map bytes).Pairwise (· < ·) ∧ ∀ key ∈ keys, ∀ c ∈ bytes key, c < 128)
    (values : (fields.map Prod.snd).Forall (·.Canonical lib.Text)) :
    (Json.object fields).Canonical lib.Text := by
  refine .object (named ▸ plain.1) (fun field member => ?_) fun field member =>
    forall_iff_forall_mem.1 values _ (mem_map_of_mem member)
  have listed : field.1 ∈ keys.map bytes := named ▸ mem_map_of_mem member
  obtain ⟨key, known, same⟩ := mem_map.1 listed
  rw [← same]
  exact lib.text_of_ascii _ (plain.2 key known)

theorem segmentToJson_canonical (file : lib.Text segment.file) :
    (segmentToJson segment).Canonical lib.Text :=
  canonical_object ["crc32", "file", "record_bytes", "record_count"] rfl (by decide +kernel)
    ⟨.unsigned _, .string file, .unsigned _, .unsigned _⟩

theorem columnToJson_canonical (name : lib.Text column.name) :
    (columnToJson column).Canonical lib.Text := by
  have encoding : lib.Text column.encoding.toBytes :=
    lib.text_of_ascii _ (by cases column.encoding <;> decide +kernel)
  have type : lib.Text column.type.toBytes :=
    lib.text_of_ascii _ (by cases column.type <;> decide +kernel)
  exact canonical_object ["encoding", "name", "type"] rfl (by decide +kernel)
    ⟨.string encoding, .string name, .string type⟩

theorem manifestToJson_canonical (names : manifest.NamesText lib) :
    (manifestToJson manifest).Canonical lib.Text := by
  have geometry : (geometryToJson manifest.geometry).Canonical lib.Text :=
    canonical_object ["bytes_per_slot", "record_bytes", "slot_count"] rfl (by decide +kernel)
      ⟨.unsigned _, .unsigned _, .unsigned _⟩
  have columns : (Json.array (manifest.schema.columns.map columnToJson)).Canonical lib.Text := by
    refine .array fun j member => ?_
    obtain ⟨column, listed, rfl⟩ := mem_map.1 member
    exact columnToJson_canonical (names.columns column listed)
  have schema : (schemaToJson manifest.schema).Canonical lib.Text :=
    canonical_object ["columns", "table"] rfl (by decide +kernel) ⟨columns, .string names.table⟩
  exact canonical_object ["epoch_version", "format_version", "geometry", "key_bits", "match_segment",
    "payload_segment", "schema"] rfl (by decide +kernel) ⟨.unsigned _, .unsigned _, geometry,
      .unsigned _, segmentToJson_canonical names.matchFile,
      segmentToJson_canonical names.payloadFile, schema⟩

/-- **A manifest reads back as it was written.** -/
theorem parseManifest_serialize (readable : manifest.Readable lib) :
    parseManifest lib (serializeManifest lib manifest) = .ok manifest := by
  rw [parseManifest, serializeManifest, lib.parse_dump _ (manifestToJson_canonical readable.names)]
  exact manifestOfJson_toJson readable

/-- What the signed cast does not show as negative is below 2^63. -/
theorem toNat_lt_of_toInt64 {n : UInt64} (sign : ¬ n.toInt64 < 0) : n.toNat < 2 ^ 63 := by
  by_contra large
  have size : (Int64.size : Int) = 2 ^ 64 := rfl
  have small := n.toNat_lt
  refine sign ?_
  rw [← @UInt64.ofNat_toNat n, Int64.lt_iff_toInt_lt, Int64.toInt_zero, UInt64.toInt64_ofNat',
    Int64.toInt_ofNat', Int.bmod, size]
  split <;> omega

theorem lt_of_getNumber {width n : Nat} {value : Nat} (known : j.get? key = some (number n))
    (small : n < 2 ^ 64) (read : getNumber width j key = .ok value) : n < 2 ^ 63 := by
  simp only [getNumber, known, number] at read
  split_ifs at read with negative
  have bound := toNat_lt_of_toInt64 negative
  rwa [UInt64.toNat_ofNat', Nat.mod_eq_of_lt small] at bound

/-- The parts an accepted document was read from. -/
structure ReadFrom (doc : Json) (manifest : Manifest) : Prop where
  format : getNumber 32 doc "format_version" = .ok manifest.formatVersion
  epoch : getNumber 64 doc "epoch_version" = .ok manifest.epochVersion
  keyBits : getNumber 32 doc "key_bits" = .ok manifest.keyBits
  geometry : parseGeometryJson doc = .ok manifest.geometry
  match_ : ∃ j, doc.get? "match_segment" = some j ∧
    parseSegment j "match_segment" = .ok manifest.matchSegment
  payload : ∃ j, doc.get? "payload_segment" = some j ∧
    parseSegment j "payload_segment" = .ok manifest.payloadSegment
  valid : manifest.Coherent

theorem readFrom_of_manifestOfJson {doc : Json} (read : manifestOfJson doc = .ok manifest) :
    ReadFrom doc manifest := by
  obtain ⟨_, _, read⟩ := bind_eq_ok.1 read
  obtain ⟨formatVersion, format, read⟩ := bind_eq_ok.1 read
  split at read
  · cases read
  obtain ⟨epochVersion, epoch, read⟩ := bind_eq_ok.1 read
  obtain ⟨schema, _, read⟩ := bind_eq_ok.1 read
  obtain ⟨keyBits, bits, read⟩ := bind_eq_ok.1 read
  obtain ⟨geometry, sizes, read⟩ := bind_eq_ok.1 read
  obtain ⟨⟨matchSegment, payloadSegment⟩, segments, read⟩ := bind_eq_ok.1 read
  obtain ⟨_, valid, read⟩ := bind_eq_ok.1 read
  unfold parseSegmentsJson at segments
  split at segments
  swap
  · cases segments
  rename_i matchJson payloadJson matchKnown payloadKnown
  obtain ⟨match_, matchRead, segments⟩ := bind_eq_ok.1 segments
  obtain ⟨payload, payloadRead, segments⟩ := bind_eq_ok.1 segments
  cases segments
  cases read
  exact ⟨format, epoch, bits, sizes, ⟨_, matchKnown, matchRead⟩, ⟨_, payloadKnown, payloadRead⟩,
    (Manifest.validate_iff _).1 valid⟩

theorem readFrom_of_parseManifest {text : Bytes} (parsed : parseManifest lib text = .ok manifest) :
    ∃ doc, lib.parse text = some doc ∧ ReadFrom doc manifest := by
  rw [parseManifest] at parsed
  rcases known : lib.parse text with _ | doc
  · rw [known] at parsed
    cases parsed
  · rw [known] at parsed
    exact ⟨doc, rfl, readFrom_of_manifestOfJson parsed⟩

/-- The numbers a segment is read from. -/
theorem parseSegment_ok (read : parseSegment j what = .ok segment) :
    getNumber 32 j "record_bytes" = .ok segment.recordBytes ∧
      getNumber 64 j "record_count" = .ok segment.recordCount ∧
      getNumber 32 j "crc32" = .ok segment.crc32 := by
  obtain ⟨_, _, read⟩ := bind_eq_ok.1 read
  obtain ⟨_, _, read⟩ := bind_eq_ok.1 read
  obtain ⟨recordBytes, stride, read⟩ := bind_eq_ok.1 read
  obtain ⟨recordCount, count, read⟩ := bind_eq_ok.1 read
  obtain ⟨crc, sum, read⟩ := bind_eq_ok.1 read
  cases read
  exact ⟨stride, count, sum⟩

/-- A version or a count that a signed number cannot hold is not read back. -/
theorem numbers_lt_of_parseManifest {read : Manifest} (names : manifest.NamesText lib)
    (version : manifest.epochVersion < 2 ^ 64)
    (count : manifest.matchSegment.recordCount < 2 ^ 64)
    (parsed : parseManifest lib (serializeManifest lib manifest) = .ok read) :
    manifest.epochVersion < 2 ^ 63 ∧ manifest.matchSegment.recordCount < 2 ^ 63 := by
  obtain ⟨doc, known, parts⟩ := readFrom_of_parseManifest parsed
  rw [serializeManifest, lib.parse_dump _ (manifestToJson_canonical names)] at known
  obtain rfl := Option.some.inj known
  obtain ⟨j, found, segment⟩ := parts.match_
  obtain rfl : segmentToJson manifest.matchSegment = j := Option.some.inj found
  obtain ⟨_, counted, _⟩ := parseSegment_ok segment
  exact ⟨lt_of_getNumber rfl version parts.epoch, lt_of_getNumber rfl count counted⟩

end RoundTrip

/-! ## The size of the text -/

section Size

open Storage.Json

/-- The names of the schema are printed as they are. -/
def PlainNames : Prop :=
  (∀ c ∈ schema.table, plainByte c = true) ∧
    ∀ column ∈ schema.columns, ∀ c ∈ column.name, plainByte c = true

theorem columnToJson_atMost (plain : ∀ c ∈ column.name, plainByte c = true) :
    atMost 6 (columnToJson column) ≤ 83 + column.name.length := by
  have encoding : quotedAtMost column.encoding.toBytes ≤ 8 := by
    cases column.encoding <;> decide
  have type : quotedAtMost column.type.toBytes ≤ 6 := by
    cases column.type <;> decide
  have keys : quotedAtMost (bytes "encoding") = 10 ∧ quotedAtMost (bytes "name") = 6 ∧
    quotedAtMost (bytes "type") = 6 := by decide
  simp only [columnToJson, atMost, fieldsAtMost, quotedAtMost_of_plain plain]
  omega

theorem segmentToJson_atMost (plain : ∀ c ∈ segment.file, plainByte c = true) :
    atMost 2 (segmentToJson segment) ≤ 140 + segment.file.length := by
  have keys : quotedAtMost (bytes "crc32") = 7 ∧ quotedAtMost (bytes "file") = 6 ∧
    quotedAtMost (bytes "record_bytes") = 14 ∧ quotedAtMost (bytes "record_count") = 14 := by
    decide
  simp only [segmentToJson, number, atMost, fieldsAtMost, quotedAtMost_of_plain plain]
  omega

theorem geometryToJson_atMost : atMost 2 (geometryToJson geometry) ≤ 131 := by
  have keys : quotedAtMost (bytes "bytes_per_slot") = 16 ∧ quotedAtMost (bytes "record_bytes") = 14 ∧
    quotedAtMost (bytes "slot_count") = 12 := by decide
  simp only [geometryToJson, number, atMost, fieldsAtMost]
  omega

theorem columns_atMost {bound : Nat} {columns : List Column}
    (plain : ∀ column ∈ columns, ∀ c ∈ column.name, plainByte c = true)
    (short : ∀ column ∈ columns, column.name.length ≤ bound) :
    itemsAtMost 6 (columns.map columnToJson) ≤ columns.length * (91 + bound) := by
  induction columns with
  | nil => simp [itemsAtMost]
  | cons column columns ih =>
    have item := columnToJson_atMost (plain column mem_cons_self)
    have name := short column mem_cons_self
    have others := ih (fun c member => plain c (mem_cons_of_mem _ member))
      fun c member => short c (mem_cons_of_mem _ member)
    simp only [map_cons, itemsAtMost, length_cons, Nat.add_mul] at others ⊢
    omega

theorem schemaToJson_atMost {bound : Nat} {schema : Schema} (plain : PlainNames schema)
    (table : schema.table.length ≤ bound)
    (short : ∀ column ∈ schema.columns, column.name.length ≤ bound) :
    atMost 2 (schemaToJson schema) ≤ 50 + bound + schema.columns.length * (91 + bound) := by
  have keys : quotedAtMost (bytes "columns") = 9 ∧ quotedAtMost (bytes "table") = 7 := by decide
  have columns := columns_atMost plain.2 short
  simp only [schemaToJson, atMost, fieldsAtMost, quotedAtMost_of_plain plain.1, Nat.reduceAdd]
  omega

variable (lib : JsonLibrary) (manifest : Manifest)

/-- A manifest's text grows with the names of its schema only. -/
theorem serializeManifest_length (bound : Nat) (plain : PlainNames manifest.schema)
    (matchPlain : ∀ c ∈ manifest.matchSegment.file, plainByte c = true)
    (payloadPlain : ∀ c ∈ manifest.payloadSegment.file, plainByte c = true)
    (table : manifest.schema.table.length ≤ bound)
    (short : ∀ column ∈ manifest.schema.columns, column.name.length ≤ bound) :
    (serializeManifest lib manifest).length ≤ 700 + manifest.matchSegment.file.length +
      manifest.payloadSegment.file.length + bound +
        manifest.schema.columns.length * (91 + bound) := by
  have printed := lib.le_atMost (manifestToJson manifest)
  have keys : quotedAtMost (bytes "epoch_version") = 15 ∧
    quotedAtMost (bytes "format_version") = 16 ∧ quotedAtMost (bytes "geometry") = 10 ∧
    quotedAtMost (bytes "key_bits") = 10 ∧ quotedAtMost (bytes "match_segment") = 15 ∧
    quotedAtMost (bytes "payload_segment") = 17 ∧ quotedAtMost (bytes "schema") = 8 := by
    decide
  have geometry := geometryToJson_atMost manifest.geometry
  have match_ := segmentToJson_atMost matchPlain
  have payload := segmentToJson_atMost payloadPlain
  have schema := schemaToJson_atMost plain table short
  simp only [manifestToJson, number, atMost, fieldsAtMost, Nat.zero_add] at printed
  rw [serializeManifest, manifestToJson]
  simp only [number]
  omega

/-- The text is no shorter than the schema's own. -/
theorem schemaToJson_atLeast :
    atLeast (schemaToJson manifest.schema) ≤ (serializeManifest lib manifest).length :=
  (@atLeast_of_field _ (bytes "schema") _ (by simp)).trans (lib.atLeast_le (manifestToJson manifest))

theorem columns_le_serialize :
    manifest.schema.columns.length ≤ (serializeManifest lib manifest).length := by
  have each : ∀ columns : List Column, columns.length ≤ itemsAtLeast (columns.map columnToJson) := by
    intro columns
    induction columns with
    | nil => exact Nat.zero_le _
    | cons column columns ih =>
      simp only [length_cons, map_cons, itemsAtLeast, columnToJson, atLeast]
      omega
  have whole := schemaToJson_atLeast lib manifest
  have columns := each manifest.schema.columns
  simp only [schemaToJson, atLeast, fieldsAtLeast] at whole
  omega

theorem table_le_serialize :
    manifest.schema.table.length + 2 ≤ (serializeManifest lib manifest).length := by
  have whole := schemaToJson_atLeast lib manifest
  simp only [schemaToJson, atLeast, fieldsAtLeast] at whole
  omega

end Size

end OpaqueDb.Storage
