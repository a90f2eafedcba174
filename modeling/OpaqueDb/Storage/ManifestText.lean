/-
# Storage.ManifestText -- which numbers a manifest's text keeps

A number is read through two casts: a signed one, to see whether it is negative, and one to
the width of its field.  The first refuses what is written from 2^63 on, so a manifest is
read back exactly when its version and its count are below that (`roundTrip_iff`).  The
second drops the high bits of what stands in the document, so what is accepted is what
stands there exactly when every number fits its field (`unaltered_iff`).
-/
import OpaqueDb.Storage.Manifest

namespace OpaqueDb.Storage

open OpaqueDb.Core Storage.JsonLibrary

set_option autoImplicit false

/-! ## The round trip -/

/-- The numbers are within the types of their fields. -/
structure Manifest.InTypes (manifest : Manifest) : Prop where
  version : manifest.epochVersion < 2 ^ 64
  count : manifest.matchSegment.recordCount < 2 ^ 64
  slotCount : manifest.geometry.slotCount < 2 ^ 32
  bytesPerSlot : manifest.geometry.bytesPerSlot < 2 ^ 32
  recordBytes : manifest.geometry.recordBytes < 2 ^ 32
  stride : manifest.matchSegment.recordBytes < 2 ^ 32
  matchCrc : manifest.matchSegment.crc32 < 2 ^ 32
  payloadCrc : manifest.payloadSegment.crc32 < 2 ^ 32

/-- **A manifest is read back exactly when its version and its count are below 2^63.** -/
theorem roundTrip_iff {lib : JsonLibrary} {manifest : Manifest} (valid : manifest.validate = .ok ())
    (names : manifest.NamesText lib) (types : manifest.InTypes) :
    parseManifest lib (serializeManifest lib manifest) = .ok manifest ↔
      manifest.epochVersion < 2 ^ 63 ∧ manifest.matchSegment.recordCount < 2 ^ 63 := by
  constructor
  · exact numbers_lt_of_parseManifest names types.version types.count
  · rintro ⟨version, count⟩
    exact parseManifest_serialize ⟨valid, names, version, count, types.slotCount,
      types.bytesPerSlot, types.recordBytes, types.stride, types.matchCrc, types.payloadCrc⟩

def manifestSchema : Schema :=
  ⟨bytes "t", [⟨bytes "id", .eq, .int⟩]⟩

/-- A table of one key column, with two rows. -/
def sampleManifest (version : Nat) : Manifest where
  epochVersion := version
  schema := manifestSchema
  keyBits := 8
  geometry := ⟨4096, 2, 4⟩
  matchSegment := ⟨bytes "match.seg", 1, 2, 5⟩
  payloadSegment := ⟨bytes "payload.seg", 4, 2, 6⟩

variable (version : Nat)

theorem sampleManifest_valid : (sampleManifest version).validate = .ok () := by
  have schema : manifestSchema.validate = .ok () := by decide
  have stride : matchRecordBytes manifestSchema 8 = 1 := by decide
  have bits : 1 ≤ 8 ∧ 8 ≤ 64 := by decide
  exact (Manifest.validate_iff _).2 ⟨rfl, schema, bits, rfl, rfl, stride.symm, rfl, rfl, rfl⟩

theorem sampleManifest_names : (sampleManifest version).NamesText exact := by
  refine ⟨?_, ?_, ?_, ?_⟩ <;> simp only [exact, Json.Ascii, sampleManifest] <;>
    decide +kernel

theorem sampleManifest_types {version : Nat} (small : version < 2 ^ 64) :
    (sampleManifest version).InTypes := by
  refine ⟨small, ?_, ?_, ?_, ?_, ?_, ?_, ?_⟩ <;> simp [sampleManifest]

theorem sampleManifest_read_back :
    parseManifest exact (serializeManifest exact (sampleManifest 7)) = .ok (sampleManifest 7) :=
  (roundTrip_iff (sampleManifest_valid 7) (sampleManifest_names 7)
    (sampleManifest_types (by decide))).2 ⟨by decide, by decide⟩

/-- A version of 2^63 is written, and refused as negative. -/
theorem large_version_refused :
    (sampleManifest (2 ^ 63)).validate = .ok () ∧
      parseManifest exact (serializeManifest exact (sampleManifest (2 ^ 63))) =
        .error ⟨.invalidArgument, bytes "field 'epoch_version' is negative"⟩ := by
  refine ⟨sampleManifest_valid _, ?_⟩
  rw [parseManifest, serializeManifest,
    exact.parse_dump _ (manifestToJson_canonical (sampleManifest_names (2 ^ 63)))]
  rfl

/-! ## The numbers of a document -/

/-- The integer a document is. -/
def Json.number? : Json → Option Int
  | .unsigned n => some n.toNat
  | .integer i => some i.toInt
  | _ => none

/-- The integer that stands in the document under a path of keys. -/
def Json.numberAt : Json → List String → Option Int
  | j, [] => j.number?
  | j, key :: path => (j.get? key).bind (numberAt · path)

/-- A numeric field of the manifest: where it stands, the width of its type, and its value. -/
structure NumberField where
  path : List String
  width : Nat
  value : Manifest → Nat

def segmentFields (key : String) (segment : Manifest → SegmentDescriptor) : List NumberField :=
  [⟨[key, "record_bytes"], 32, fun manifest => (segment manifest).recordBytes⟩,
    ⟨[key, "record_count"], 64, fun manifest => (segment manifest).recordCount⟩,
    ⟨[key, "crc32"], 32, fun manifest => (segment manifest).crc32⟩]

def numberFields : List NumberField :=
  [⟨["format_version"], 32, (·.formatVersion)⟩, ⟨["epoch_version"], 64, (·.epochVersion)⟩,
    ⟨["key_bits"], 32, (·.keyBits)⟩, ⟨["geometry", "slot_count"], 32, (·.geometry.slotCount)⟩,
    ⟨["geometry", "bytes_per_slot"], 32, (·.geometry.bytesPerSlot)⟩,
    ⟨["geometry", "record_bytes"], 32, (·.geometry.recordBytes)⟩] ++
    (segmentFields "match_segment" (·.matchSegment) ++
      segmentFields "payload_segment" (·.payloadSegment))

/-- Every number of the manifest is the one in the document. -/
def Unaltered (doc : Json) (manifest : Manifest) : Prop :=
  ∀ field ∈ numberFields, doc.numberAt field.path = some (field.value manifest : Int)

/-- Every number of the document fits the type of its field. -/
def NumbersFit (doc : Json) : Prop :=
  ∀ field ∈ numberFields, ∀ n : Int, doc.numberAt field.path = some n → n < 2 ^ field.width

/-- What `getNumber` does to the number under a path. -/
def CastFrom (doc : Json) (path : List String) (width value : Nat) : Prop :=
  ∃ n : Nat, doc.numberAt path = some (n : Int) ∧ n < 2 ^ 63 ∧ value = n % 2 ^ width

variable {path : List String} {j : Json} {width value : Nat} {key : String} {doc : Json}

theorem CastFrom.inside (known : doc.get? key = some j) (cast : CastFrom j path width value) :
    CastFrom doc (key :: path) width value := by
  obtain ⟨n, stands, small, same⟩ := cast
  refine ⟨n, ?_, small, same⟩
  rw [Json.numberAt, known, Option.bind_some, stands]

/-- A number that is read is not negative as a signed one, and loses what its field cannot hold. -/
theorem castFrom_of_getNumber (read : getNumber width j key = .ok value) :
    CastFrom j [key] width value := by
  unfold getNumber at read
  rcases found : j.get? key with _ | item
  · rw [found] at read
    cases read
  rw [found] at read
  refine CastFrom.inside found ?_
  cases item with
  | unsigned n =>
    simp only at read
    split_ifs at read with negative
    exact ⟨n.toNat, rfl, toNat_lt_of_toInt64 negative, (Except.ok.inj read).symm⟩
  | integer i =>
    simp only at read
    split_ifs at read with negative
    rw [Int64.lt_iff_toInt_lt, Int64.toInt_zero] at negative
    have small := i.toInt_lt
    refine ⟨i.toInt.toNat, ?_, by omega, (Except.ok.inj read).symm⟩
    rw [Json.numberAt, Json.number?, Int.toNat_of_nonneg (by omega)]
  | _ => cases read

theorem castFrom_of_parseGeometryJson {geometry : SlotGeometry}
    (read : parseGeometryJson doc = .ok geometry) :
    CastFrom doc ["geometry", "slot_count"] 32 geometry.slotCount ∧
      CastFrom doc ["geometry", "bytes_per_slot"] 32 geometry.bytesPerSlot ∧
      CastFrom doc ["geometry", "record_bytes"] 32 geometry.recordBytes := by
  unfold parseGeometryJson at read
  split at read
  · cases read
  rename_i j known
  obtain ⟨_, _, read⟩ := bind_eq_ok.1 read
  obtain ⟨slotCount, slots, read⟩ := bind_eq_ok.1 read
  obtain ⟨bytesPerSlot, perSlot, read⟩ := bind_eq_ok.1 read
  obtain ⟨recordBytes, record, read⟩ := bind_eq_ok.1 read
  cases read
  exact ⟨.inside known (castFrom_of_getNumber slots), .inside known (castFrom_of_getNumber perSlot),
    .inside known (castFrom_of_getNumber record)⟩

variable {manifest : Manifest}

/-- The fields of a segment that was read from under a key. -/
theorem castFrom_segmentFields {what : String} {segment : Manifest → SegmentDescriptor}
    (known : doc.get? key = some j) (read : parseSegment j what = .ok (segment manifest)) :
    ∀ field ∈ segmentFields key segment,
      CastFrom doc field.path field.width (field.value manifest) := by
  obtain ⟨stride, count, crc⟩ := parseSegment_ok read
  simp only [segmentFields, List.forall_mem_cons, List.not_mem_nil, false_imp_iff, implies_true,
    and_true]
  exact ⟨.inside known (castFrom_of_getNumber stride), .inside known (castFrom_of_getNumber count),
    .inside known (castFrom_of_getNumber crc)⟩

/-- Every number of an accepted document is cast to its field. -/
theorem ReadFrom.casts (parts : ReadFrom doc manifest) :
    ∀ field ∈ numberFields, CastFrom doc field.path field.width (field.value manifest) := by
  obtain ⟨slots, perSlot, record⟩ := castFrom_of_parseGeometryJson parts.geometry
  obtain ⟨_, matchKnown, matchRead⟩ := parts.match_
  obtain ⟨_, payloadKnown, payloadRead⟩ := parts.payload
  rw [numberFields, List.forall_mem_append, List.forall_mem_append]
  refine ⟨?_, castFrom_segmentFields matchKnown matchRead,
    castFrom_segmentFields payloadKnown payloadRead⟩
  simp only [List.forall_mem_cons, List.not_mem_nil, false_imp_iff, implies_true, and_true]
  exact ⟨castFrom_of_getNumber parts.format, castFrom_of_getNumber parts.epoch,
    castFrom_of_getNumber parts.keyBits, slots, perSlot, record⟩

/-- A number is kept by its cast exactly when it fits. -/
theorem CastFrom.kept_iff (cast : CastFrom doc path width value) :
    doc.numberAt path = some (value : Int) ↔
      ∀ n : Int, doc.numberAt path = some n → n < 2 ^ width := by
  obtain ⟨n, stands, _, rfl⟩ := cast
  have positive : 0 < 2 ^ width := Nat.two_pow_pos width
  constructor
  · intro kept m same
    rw [kept] at same
    obtain rfl := Option.some.inj same
    exact_mod_cast Nat.mod_lt n positive
  · intro fits
    have small : n < 2 ^ width := by exact_mod_cast fits n stands
    rw [stands, Nat.mod_eq_of_lt small]

/-- **A manifest is accepted with the numbers of its document exactly when they fit their fields.**
The format version is then the supported one in the document as well. -/
theorem unaltered_iff {lib : JsonLibrary} {text : Bytes} {doc : Json} {manifest : Manifest}
    (known : lib.parse text = some doc) (parsed : parseManifest lib text = .ok manifest) :
    Unaltered doc manifest ∧ doc.numberAt ["format_version"] = some (kManifestFormatVersion : Int) ↔
      NumbersFit doc := by
  rw [parseManifest, known] at parsed
  have parts := readFrom_of_manifestOfJson parsed
  have casts := parts.casts
  constructor
  · rintro ⟨unaltered, _⟩ field member
    exact (casts field member).kept_iff.1 (unaltered field member)
  · intro fit
    have unaltered : Unaltered doc manifest := fun field member =>
      (casts field member).kept_iff.2 (fit field member)
    refine ⟨unaltered, ?_⟩
    rw [← parts.valid.format]
    exact unaltered ⟨["format_version"], 32, (·.formatVersion)⟩ List.mem_cons_self

/-- The table of one column, written under a format version that is 1 only in its low 32 bits. -/
def futureManifest : Manifest :=
  { sampleManifest 7 with formatVersion := 2 ^ 32 + 1 }

theorem futureManifest_canonical :
    (manifestToJson futureManifest).Canonical exact.Text :=
  manifestToJson_canonical ⟨(sampleManifest_names 7).table, (sampleManifest_names 7).columns,
    (sampleManifest_names 7).matchFile, (sampleManifest_names 7).payloadFile⟩

/-- A format version of 2^32 + 1 is accepted as version 1. -/
theorem altered_version_accepted :
    parseManifest exact (serializeManifest exact futureManifest) = .ok (sampleManifest 7) ∧
      (manifestToJson futureManifest).numberAt ["format_version"] = some (2 ^ 32 + 1) ∧
      ¬ Unaltered (manifestToJson futureManifest) (sampleManifest 7) := by
  have read : manifestOfJson (manifestToJson futureManifest) = .ok (sampleManifest 7) := rfl
  refine ⟨?_, rfl, fun unaltered => ?_⟩
  · rw [parseManifest, serializeManifest, exact.parse_dump _ futureManifest_canonical]
    exact read
  · have format := unaltered ⟨["format_version"], 32, (·.formatVersion)⟩ List.mem_cons_self
    cases format

theorem sampleManifest_unaltered :
    Unaltered (manifestToJson (sampleManifest 7)) (sampleManifest 7) := by
  have known := exact.parse_dump _ (manifestToJson_canonical (sampleManifest_names 7))
  have parsed : parseManifest exact (exact.dump (manifestToJson (sampleManifest 7))) =
      .ok (sampleManifest 7) := by
    rw [parseManifest, known]
    rfl
  have fit : ∀ field ∈ numberFields, ((manifestToJson (sampleManifest 7)).numberAt field.path).all
      (fun n => n < 2 ^ field.width) = true := by decide
  refine ((unaltered_iff known parsed).2 fun field member n stands => ?_).1
  have here := fit field member
  rwa [stands, Option.all_some, decide_eq_true_eq] at here

end OpaqueDb.Storage
