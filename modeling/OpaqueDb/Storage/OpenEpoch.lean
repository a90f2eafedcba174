/-
# Storage.OpenEpoch -- what opening an epoch has checked

Opening checks each segment against itself and against its description in the manifest, except
where the description says zero.  The strides are never zero in an accepted manifest, so every
record that is handed out has the stated length and lies inside its file; a count or a checksum
of zero is compared with nothing.  `opened_coherent_iff` says which directories open to what
their manifest states.
-/
import OpaqueDb.Storage.ManifestText
import OpaqueDb.Storage.Runs

namespace OpaqueDb.Storage

open OpaqueDb.Core Theory Finmap Storage.JsonLibrary

set_option autoImplicit false

/-! ## Coherence -/

/-- The segment has the count and the checksum of its description. -/
def SegmentDescriptor.Describes (descriptor : SegmentDescriptor) (segment : SegmentReader) : Prop :=
  segment.recordCount = descriptor.recordCount ∧ segment.crc.toNat = descriptor.crc32

/-- A record of this length was handed out, and it is a part of the file. -/
def RecordOf (file : Bytes) (stride : Nat) (result : StatusOr Bytes) : Prop :=
  ∃ record offset, result = .ok record ∧ record.length = stride ∧ offset + stride ≤ file.length ∧
    record = (file.drop offset).take stride

/-- The reader shows what the manifest states, out of the two files. -/
structure EpochReader.Coherent (reader : EpochReader) (matchFile payloadFile : Bytes) : Prop where
  match_ : reader.manifest.matchSegment.Describes reader.match_
  payload : reader.manifest.payloadSegment.Describes reader.payload
  rows : ∀ i < reader.rowCount,
    RecordOf matchFile reader.manifest.matchSegment.recordBytes (reader.matchRecord i) ∧
      RecordOf payloadFile reader.manifest.payloadSegment.recordBytes (reader.payloadRecord i)

/-- Where the description says zero, the file does too: its header counts no record, and the
checksum of its records is zero. -/
def ZerosMeant (descriptor : SegmentDescriptor) (file : Bytes) : Prop :=
  (descriptor.recordCount = 0 → readLe file 16 8 = 0) ∧
    (descriptor.crc32 = 0 → crc32 ((file.drop kSegmentHeaderSize).take
      (readLe file 16 8 * readLe file 12 4)) = 0)

/-! ## Opening -/

theorem openSegmentAnswer_ok {path : Bytes} {descriptor : SegmentDescriptor}
    {answer : Except FileError Content} {segment : SegmentReader}
    (opened : openSegmentAnswer path descriptor answer = .ok segment) :
    answer = .ok segment.data ∧ segment.Fits ∧
      Expected descriptor.recordBytes segment.recordBytes ∧
      Expected descriptor.recordCount segment.recordCount ∧
      Expected descriptor.crc32 segment.crc.toNat := by
  rcases answer with (_ | _ | _ | _ | _) | content
  · cases opened
  · cases opened
  · cases opened
  · cases opened
  · cases opened
  · change openSegment path (some content) descriptor.recordBytes descriptor.recordCount
      descriptor.crc32 = .ok segment at opened
    obtain ⟨same, fits⟩ := openSegment_ok opened
    exact ⟨congrArg Except.ok (Option.some.inj same), fits⟩

/-- The parts of an opened directory. -/
structure OpenedFrom (dir : Subdir) (reader : EpochReader) : Prop where
  valid : reader.manifest.Coherent
  matchOpened : ∃ path, openSegmentAnswer path reader.manifest.matchSegment
    (dir.read reader.manifest.matchSegment.file) = .ok reader.match_
  payloadOpened : ∃ path, openSegmentAnswer path reader.manifest.payloadSegment
    (dir.read reader.manifest.payloadSegment.file) = .ok reader.payload

theorem openedFrom_of_openDir {root : Bytes} {lib : JsonLibrary} {version : Nat} {dir : Subdir}
    {reader : EpochReader} (opened : openDir root lib version dir = .ok reader) :
    OpenedFrom dir reader := by
  obtain ⟨_, _, opened⟩ := bind_eq_ok.1 opened
  obtain ⟨manifest, parsed, opened⟩ := bind_eq_ok.1 opened
  obtain ⟨match_, matchOpened, opened⟩ := bind_eq_ok.1 opened
  obtain ⟨payload, payloadOpened, opened⟩ := bind_eq_ok.1 opened
  cases opened
  obtain ⟨_, _, parts⟩ := readFrom_of_parseManifest parsed
  exact ⟨parts.valid, ⟨_, matchOpened⟩, ⟨_, payloadOpened⟩⟩

/-! ## When the zeros matter -/

/-- A segment opened under a stride and what its description states of it. -/
structure OpenedAs (descriptor : SegmentDescriptor) (file : Bytes) (segment : SegmentReader) :
    Prop where
  data : segment.data = file
  fits : segment.Fits
  stride : segment.recordBytes = descriptor.recordBytes
  count : Expected descriptor.recordCount segment.recordCount
  crc : Expected descriptor.crc32 segment.crc.toNat

theorem openedAs_of_answer {path file : Bytes} {descriptor : SegmentDescriptor}
    {segment : SegmentReader} (positive : descriptor.recordBytes ≠ 0)
    (opened : openSegmentAnswer path descriptor (.ok file) = .ok segment) :
    OpenedAs descriptor file segment := by
  obtain ⟨same, fits, stride, count, crc⟩ := openSegmentAnswer_ok opened
  exact ⟨(Except.ok.inj same).symm, fits, stride.resolve_left positive, count, crc⟩

variable {descriptor : SegmentDescriptor} {file : Bytes} {segment : SegmentReader}

theorem OpenedAs.describes_iff (opened : OpenedAs descriptor file segment) :
    descriptor.Describes segment ↔ ZerosMeant descriptor file := by
  have count := opened.fits.count
  have stride := opened.fits.stride
  have computed := opened.fits.computed
  rw [opened.data] at count stride computed
  rw [ZerosMeant, count, stride, ← computed]
  constructor
  · rintro ⟨counted, summed⟩
    exact ⟨fun none_ => counted.trans none_, fun zero => UInt32.toNat_inj.1 (summed.trans zero)⟩
  · rintro ⟨none_, zero⟩
    constructor
    · rcases opened.count with unstated | stated
      · exact (none_ unstated).trans unstated.symm
      · exact stated
    · rcases opened.crc with unstated | stated
      · rw [zero unstated, unstated]
        rfl
      · exact stated

theorem OpenedAs.recordOf (opened : OpenedAs descriptor file segment) {i : Nat}
    (below : i < segment.recordCount) : RecordOf file descriptor.recordBytes (segment.record i) := by
  obtain ⟨read, inside⟩ := opened.fits.record below
  rw [opened.data, opened.stride] at read inside
  refine ⟨_, _, read, ?_, inside, rfl⟩
  rw [List.length_take, List.length_drop]
  omega

/-- **An epoch opens to what its manifest states exactly when the zeros of the manifest are
meant**: wherever it states a count or a checksum of zero, that is the file's. -/
theorem opened_coherent_iff {root : Bytes} {lib : JsonLibrary} {version : Nat}
    {disk disk' : RepoDisk} {reader : EpochReader} {dir : Subdir} {matchFile payloadFile : Bytes}
    (opened : runCall (openVersion root lib version) disk = (.ok reader, disk'))
    (known : disk.dirs.lookup (.epoch version) = some dir)
    (matchRead : dir.read reader.manifest.matchSegment.file = .ok matchFile)
    (payloadRead : dir.read reader.manifest.payloadSegment.file = .ok payloadFile) :
    reader.Coherent matchFile payloadFile ↔
      ZerosMeant reader.manifest.matchSegment matchFile ∧
        ZerosMeant reader.manifest.payloadSegment payloadFile := by
  have found : openDir root lib version dir = .ok reader := by
    rw [runCall_openVersion, known] at opened
    exact (Prod.mk.inj opened).1
  obtain ⟨valid, ⟨_, matchOpened⟩, ⟨_, payloadOpened⟩⟩ := openedFrom_of_openDir found
  rw [matchRead] at matchOpened
  rw [payloadRead] at payloadOpened
  obtain ⟨_, _, record⟩ := SlotGeometry.validate_iff.1 valid.geometry
  have match_ := openedAs_of_answer (by
    rw [valid.matchStride]
    exact matchRecordBytes_ne_zero valid.schema valid.keyBits.1) matchOpened
  have payload := openedAs_of_answer (by rw [valid.payloadStride]; exact record) payloadOpened
  rw [← match_.describes_iff, ← payload.describes_iff]
  constructor
  · intro coherent
    exact ⟨coherent.match_, coherent.payload⟩
  · rintro ⟨matched, paid⟩
    refine ⟨matched, paid, fun i below => ⟨match_.recordOf below, payload.recordOf ?_⟩⟩
    rw [paid.1, ← valid.counts, ← matched.1]
    exact below

/-! ## Directories with stated counts -/

/-- The manifest of a table of one key column that states this count and these checksums. -/
def stated (count : Nat) (matchCrc payloadCrc : UInt32) : Manifest :=
  { sampleManifest 1 with
    matchSegment := ⟨kMatchFile, 1, count, matchCrc.toNat⟩
    payloadSegment := ⟨kPayloadFile, 4, count, payloadCrc.toNat⟩ }

/-- A segment of these records, with their real checksum. -/
def segmentOf (stride : Nat) (records : List Bytes) : Bytes :=
  segmentHeader stride records.length (crc32 records.flatten) ++ records.flatten

/-- A directory of three files. -/
def filesOf (text matchFile payloadFile : Bytes) : Subdir :=
  (((⟨∅, true⟩ : Subdir).put kPayloadFile ⟨payloadFile, true⟩).put kMatchFile
    ⟨matchFile, true⟩).put kManifestFile ⟨text, true⟩

/-- Epoch 1 alone, in these files. -/
def diskOf (text matchFile payloadFile : Bytes) : RepoDisk :=
  { (Disk.empty : RepoDisk) with dirs := singleton (.epoch 1) (filesOf text matchFile payloadFile) }

section Stated

variable {count : Nat} {matchCrc payloadCrc : UInt32} {matchFile payloadFile : Bytes}

theorem stated_readable (few : count < 2 ^ 63) : (stated count matchCrc payloadCrc).Readable exact := by
  have sample := (Manifest.validate_iff _).1 (sampleManifest_valid 1)
  have names := sampleManifest_names 1
  refine ⟨(Manifest.validate_iff _).2 ⟨sample.format, sample.schema, sample.keyBits, sample.geometry,
      rfl, sample.matchStride, rfl, sample.files⟩,
    ⟨names.table, names.columns, names.matchFile, names.payloadFile⟩, ?_, few, ?_, ?_, ?_, ?_,
    matchCrc.toNat_lt, payloadCrc.toNat_lt⟩ <;> simp [stated, sampleManifest]

theorem filesOf_read (text matchFile payloadFile : Bytes) :
    (filesOf text matchFile payloadFile).read kManifestFile = .ok text ∧
      (filesOf text matchFile payloadFile).read kMatchFile = .ok matchFile ∧
      (filesOf text matchFile payloadFile).read kPayloadFile = .ok payloadFile := by
  have others : kMatchFile ≠ kManifestFile ∧ kPayloadFile ≠ kManifestFile ∧
    kPayloadFile ≠ kMatchFile := by decide
  refine ⟨?_, ?_, ?_⟩
  · rw [filesOf, Subdir.read, Subdir.put, lookup_insert]
  · rw [filesOf, Subdir.read, Subdir.put, lookup_insert_of_ne _ others.1, Subdir.put, lookup_insert]
  · rw [filesOf, Subdir.read, Subdir.put, lookup_insert_of_ne _ others.2.1, Subdir.put,
      lookup_insert_of_ne _ others.2.2, Subdir.put, lookup_insert]

/-- The directory opens when the two segments do. -/
theorem stated_opens {text : Bytes} {match_ payload : SegmentReader} (few : count < 2 ^ 63)
    (printed : serializeManifest exact (stated count matchCrc payloadCrc) = text)
    (matchOpened : ∀ path, openSegment path (some matchFile) 1 count matchCrc.toNat = .ok match_)
    (payloadOpened : ∀ path, openSegment path (some payloadFile) 4 count payloadCrc.toNat = .ok payload) :
    runCall (openVersion (bytes "/t") exact 1) (diskOf text matchFile payloadFile) =
      (.ok ⟨stated count matchCrc payloadCrc, match_, payload⟩, diskOf text matchFile payloadFile) := by
  obtain ⟨textRead, matchRead, payloadRead⟩ := filesOf_read text matchFile payloadFile
  have parsed := parseManifest_serialize (@stated_readable count matchCrc payloadCrc few)
  have plain : PlainNames manifestSchema ∧ (∀ c ∈ kMatchFile, Json.plainByte c = true) ∧
      ∀ c ∈ kPayloadFile, Json.plainByte c = true := by
    rw [PlainNames]
    decide +kernel
  have names : manifestSchema.table.length ≤ 2 ∧
    ∀ column ∈ manifestSchema.columns, column.name.length ≤ 2 := by decide
  have short : text.length ≤ kMaxManifestBytes := by
    rw [← printed]
    exact (serializeManifest_length exact (stated count matchCrc payloadCrc) 2 plain.1 plain.2.1
      plain.2.2 names.1 names.2).trans (show 700 + 9 + 11 + 2 + 1 * (91 + 2) ≤ kMaxManifestBytes by decide)
  have small : ∀ path, readSmall path kMaxManifestBytes (.ok text) = .ok text := fun _ =>
    if_neg (Nat.not_lt.2 short)
  rw [printed] at parsed
  rw [runCall_openVersion, diskOf]
  simp only [lookup_singleton_eq]
  rw [openDir, textRead]
  simp only [bind, Except.bind, small, parsed]
  have matchFileName : (stated count matchCrc payloadCrc).matchSegment.file = kMatchFile := rfl
  have payloadFileName : (stated count matchCrc payloadCrc).payloadSegment.file = kPayloadFile := rfl
  rw [matchFileName, payloadFileName, matchRead, payloadRead]
  have matchAnswer : ∀ path, openSegmentAnswer path (stated count matchCrc payloadCrc).matchSegment
    (.ok matchFile) = .ok match_ := matchOpened
  have payloadAnswer : ∀ path, openSegmentAnswer path
    (stated count matchCrc payloadCrc).payloadSegment (.ok payloadFile) = .ok payload := payloadOpened
  simp only [matchAnswer, payloadAnswer]
  rfl

end Stated

def twoKeys : List Bytes := [[7], [8]]

def twoRecords : List Bytes := [[1, 2, 3, 4], [5, 6, 7, 8]]

/-- An epoch of two rows opens to what it states. -/
theorem stated_coherent : ∃ text reader,
    serializeManifest exact (stated 2 (crc32 twoKeys.flatten) (crc32 twoRecords.flatten)) = text ∧
    runCall (openVersion (bytes "/t") exact 1)
        (diskOf text (segmentOf 1 twoKeys) (segmentOf 4 twoRecords)) =
      (.ok reader, diskOf text (segmentOf 1 twoKeys) (segmentOf 4 twoRecords)) ∧
    reader.rowCount = 2 ∧ reader.payloadRecord 1 = .ok [5, 6, 7, 8] ∧
    reader.Coherent (segmentOf 1 twoKeys) (segmentOf 4 twoRecords) := by
  have keys : segmentFile 1 twoKeys = .ok (segmentOf 1 twoKeys, crc32 twoKeys.flatten) :=
    segmentFile_iff.2 ⟨by decide, by decide, by decide, rfl, rfl⟩
  have records : segmentFile 4 twoRecords = .ok (segmentOf 4 twoRecords, crc32 twoRecords.flatten) :=
    segmentFile_iff.2 ⟨by decide, by decide, by decide, rfl, rfl⟩
  have opened := @stated_opens 2 _ _ _ _ _ _ _ (by decide) rfl
    (fun path => open_written keys (by decide) path (.inr rfl) (.inr rfl) (.inr rfl))
    fun path => open_written records (by decide) path (.inr rfl) (.inr rfl) (.inr rfl)
  obtain ⟨_, matchRead, payloadRead⟩ := filesOf_read _ (segmentOf 1 twoKeys) (segmentOf 4 twoRecords)
  refine ⟨_, _, rfl, opened, rfl, rfl, (opened_coherent_iff opened lookup_singleton_eq matchRead
    payloadRead).2 ⟨⟨?_, ?_⟩, ?_, ?_⟩⟩ <;> decide +kernel

/-- With a match segment of one record the manifest of no rows still opens: the epoch then has a
row, which has no payload. -/
theorem stated_empty_shows_row : ∃ text reader status,
    serializeManifest exact (stated 0 0 0) = text ∧
    runCall (openVersion (bytes "/t") exact 1)
        (diskOf text (segmentOf 1 [[7]]) (segmentOf 4 [])) =
      (.ok reader, diskOf text (segmentOf 1 [[7]]) (segmentOf 4 [])) ∧
    reader.manifest.matchSegment.recordCount = 0 ∧ reader.rowCount = 1 ∧
    reader.matchRecord 0 = .ok [7] ∧ reader.payloadRecord 0 = .error status := by
  have opened := @stated_opens 0 0 0 (segmentOf 1 [[7]]) (segmentOf 4 []) _ _ _ (by decide) rfl
    (fun _ => rfl) fun _ => rfl
  exact ⟨_, _, _, rfl, opened, rfl, rfl, rfl, rfl⟩

end OpaqueDb.Storage
