/-
# Storage.Epoch -- rows, staging epochs and published epochs

A row is its packed sub-keys and its payload record.  A `StagingEpoch` takes rows one
at a time and refuses those that do not have its strides; a published `Epoch` holds
its rows under a version.  Both carry the strides of their rows, so what is read out of
a row (`Row.subKey`) is always there.
-/
import OpaqueDb.Core.RecordCodec

namespace OpaqueDb.Storage

open OpaqueDb.Core Theory List

set_option autoImplicit false

structure SlotGeometry where
  slotCount : Nat
  bytesPerSlot : Nat
  recordBytes : Nat
  deriving DecidableEq, Repr

def SlotGeometry.validate (geometry : SlotGeometry) : StatusOr Unit :=
  if geometry.slotCount = 0 then .error (invalidArgument ["geometry: slot_count is zero"])
  else if geometry.bytesPerSlot = 0 then
    .error (invalidArgument ["geometry: bytes_per_slot is zero"])
  else if geometry.recordBytes = 0 then
    .error (invalidArgument ["geometry: record_bytes is zero"])
  else .ok ()

theorem SlotGeometry.validate_iff {geometry : SlotGeometry} : geometry.validate = .ok () ↔
    geometry.slotCount ≠ 0 ∧ geometry.bytesPerSlot ≠ 0 ∧ geometry.recordBytes ≠ 0 := by
  unfold SlotGeometry.validate
  split_ifs <;> simp_all

/-- One stored row: its packed sub-keys and its payload record. -/
structure Row where
  match_ : Bytes
  payload : Bytes
  deriving DecidableEq, Repr

/-- One sub-key for each searchable column. -/
def matchRecordBytes (schema : Schema) (keyBits : Nat) : Nat :=
  schema.searchableCount * keyRecordBytes keyBits

variable {keyBits : Nat}

theorem matchRecordBytes_ne_zero {schema : Schema} (valid : schema.validate = .ok ())
    (bits : 1 ≤ keyBits) : matchRecordBytes schema keyBits ≠ 0 := by
  have searchable : 1 ≤ schema.searchableCount := by
    rw [← validate_single valid]
    exact countP_mono_left fun column _ eq_ => by simp_all [isSearchable]
  have bytes : 1 ≤ keyRecordBytes keyBits := by
    rw [keyRecordBytes]
    omega
  exact Nat.mul_ne_zero (by omega) (by omega)

/-! ## Staging -/

/-- Rows gathered for one epoch, all of its strides. -/
structure StagingEpoch where
  schema : Schema
  keyBits : Nat
  geometry : SlotGeometry
  rows : List Row
  match_length : ∀ row ∈ rows, row.match_.length = matchRecordBytes schema keyBits
  payload_length : ∀ row ∈ rows, row.payload.length = geometry.recordBytes

namespace StagingEpoch

def empty (schema : Schema) (keyBits : Nat) (geometry : SlotGeometry) : StagingEpoch :=
  ⟨schema, keyBits, geometry, [], by simp, by simp⟩

def validate (staging : StagingEpoch) : StatusOr Unit := do
  staging.schema.validate
  if staging.keyBits = 0 ∨ staging.keyBits > 64 then
    .error (invalidArgument ["staging: key_bits ", dec staging.keyBits,
      " must be in [1, 64]"])
  else staging.geometry.validate

variable {staging : StagingEpoch}

theorem validate_iff : staging.validate = .ok () ↔
    staging.schema.validate = .ok () ∧ (1 ≤ staging.keyBits ∧ staging.keyBits ≤ 64) ∧
      staging.geometry.validate = .ok () := by
  unfold StagingEpoch.validate
  constructor
  · intro valid
    obtain ⟨_, schema, valid₁⟩ := bind_eq_ok.1 valid
    split at valid₁
    · cases valid₁
    · exact ⟨schema, by omega, valid₁⟩
  · rintro ⟨schema, range, geometry⟩
    rw [schema]
    show (if _ then _ else _) = _
    rw [if_neg (by omega), geometry]

def appendRow (staging : StagingEpoch) (row : Row) : StatusOr StagingEpoch :=
  if match_ : row.match_.length ≠ matchRecordBytes staging.schema staging.keyBits then
    .error (invalidArgument ["staging: match part is ", dec row.match_.length,
      " bytes, expected ", dec (matchRecordBytes staging.schema staging.keyBits)])
  else if payload : row.payload.length ≠ staging.geometry.recordBytes then
    .error (invalidArgument ["staging: payload is ", dec row.payload.length,
      " bytes, expected ", dec staging.geometry.recordBytes])
  else
    .ok {
      staging with
      rows := staging.rows ++ [row]
      match_length := by
        intro r member
        rcases mem_append.1 member with old | new
        · exact staging.match_length r old
        · rw [mem_singleton.1 new]
          exact not_not.1 match_
      payload_length := by
        intro r member
        rcases mem_append.1 member with old | new
        · exact staging.payload_length r old
        · rw [mem_singleton.1 new]
          exact not_not.1 payload }

/-- The result holds these rows after those of the staging epoch. -/
structure Extends (staging : StagingEpoch) (stored : List Row) (result : StagingEpoch) : Prop where
  schema : result.schema = staging.schema
  keyBits : result.keyBits = staging.keyBits
  geometry : result.geometry = staging.geometry
  rows : result.rows = staging.rows ++ stored

theorem Extends.trans {first second third : StagingEpoch} {stored later : List Row}
    (step : first.Extends stored second) (rest : second.Extends later third) :
    first.Extends (stored ++ later) third :=
  ⟨rest.schema.trans step.schema, rest.keyBits.trans step.keyBits,
    rest.geometry.trans step.geometry, by rw [rest.rows, step.rows, append_assoc]⟩

theorem Extends.refl (staging : StagingEpoch) : staging.Extends [] staging :=
  ⟨rfl, rfl, rfl, (append_nil _).symm⟩

/-- The row has the strides of the staging epoch. -/
def Fits (staging : StagingEpoch) (row : Row) : Prop :=
  row.match_.length = matchRecordBytes staging.schema staging.keyBits ∧
    row.payload.length = staging.geometry.recordBytes

variable {result : StagingEpoch}

theorem Extends.fits {stored : List Row} (step : staging.Extends stored result) (row : Row) :
    result.Fits row ↔ staging.Fits row := by
  rw [Fits, Fits, step.schema, step.keyBits, step.geometry]

variable {row : Row}

theorem appendRow_of_fits (fits : staging.Fits row) :
    ∃ result, staging.appendRow row = .ok result ∧ staging.Extends [row] result := by
  rw [appendRow, dif_neg (not_not.2 fits.1), dif_neg (not_not.2 fits.2)]
  exact ⟨_, rfl, rfl, rfl, rfl, rfl⟩

variable {rows : List Row}

theorem appendRows_of_fits (fits : ∀ row ∈ rows, staging.Fits row) :
    ∃ result, rows.foldlM appendRow staging = .ok result ∧ staging.Extends rows result := by
  induction rows generalizing staging with
  | nil => exact ⟨staging, rfl, .refl _⟩
  | cons row rows ih =>
    obtain ⟨next, first, step⟩ := appendRow_of_fits (fits row mem_cons_self)
    obtain ⟨result, rest, steps⟩ := ih fun other listed =>
      (step.fits other).2 (fits other (mem_cons_of_mem _ listed))
    refine ⟨result, ?_, step.trans steps⟩
    rw [foldlM_cons, first]
    exact rest

theorem appendRow_eq_ok (appended : staging.appendRow row = .ok result) :
    staging.Extends [row] result := by
  unfold appendRow at appended
  split at appended
  · cases appended
  · split at appended
    · cases appended
    · cases appended
      exact ⟨rfl, rfl, rfl, rfl⟩

theorem appendRows_eq_ok (appended : rows.foldlM appendRow staging = .ok result) :
    staging.Extends rows result := by
  induction rows generalizing staging with
  | nil =>
    cases pure_eq_ok.1 appended
    exact .refl _
  | cons row rows ih =>
    obtain ⟨next, first, rest⟩ := bind_eq_ok.1 appended
    exact (appendRow_eq_ok first).trans (ih rest)

end StagingEpoch

/-! ## Published epochs -/

/-- What queries and inserts read of an epoch's manifest. -/
structure EpochManifest where
  epochVersion : Nat
  schema : Schema
  keyBits : Nat
  geometry : SlotGeometry
  deriving DecidableEq, Repr

/-- A published epoch: every match record holds one sub-key for each searchable column
and every payload has the record stride. -/
structure Epoch where
  manifest : EpochManifest
  rows : List Row
  match_length : ∀ row ∈ rows, row.match_.length = matchRecordBytes manifest.schema manifest.keyBits
  payload_length : ∀ row ∈ rows, row.payload.length = manifest.geometry.recordBytes

/-- The epoch a staging epoch is published as. -/
def StagingEpoch.published (staging : StagingEpoch) (epochVersion : Nat) : Epoch where
  manifest := ⟨epochVersion, staging.schema, staging.keyBits, staging.geometry⟩
  rows := staging.rows
  match_length := staging.match_length
  payload_length := staging.payload_length

/-! ## The columns of an epoch -/

/-- A row's sub-key of the given rank. -/
def Row.subKey (keyBits rank : Nat) (row : Row) : UInt64 :=
  UInt64.ofNat (orBytes ((row.match_.drop (rank * keyRecordBytes keyBits)).take
    (keyRecordBytes keyBits))) &&& keyMask keyBits

def Epoch.keys (epoch : Epoch) (rank : Nat) : List UInt64 :=
  epoch.rows.map (Row.subKey epoch.manifest.keyBits rank)

def Epoch.records (epoch : Epoch) : List Bytes :=
  epoch.rows.map Row.payload

/-- The packed sub-keys read back by their rank. -/
theorem subKey_packed (small : keyBits ≤ 64) (before after : List UInt64) {key : UInt64}
    (inside : key.toNat < 2 ^ keyBits) (payload : Bytes) : Row.subKey keyBits before.length
      ⟨((before ++ key :: after).map (packKey · keyBits)).flatten, payload⟩ = key := by
  have skipped : ((before.map (packKey · keyBits)).flatten).length =
      before.length * keyRecordBytes keyBits := by
    simp [Function.comp_def, packKey_length]
  have stored : (((((before ++ key :: after).map (packKey · keyBits)).flatten).drop
      (before.length * keyRecordBytes keyBits)).take (keyRecordBytes keyBits)) =
      packKey key keyBits := by
    rw [map_append, flatten_append, ← skipped, drop_left, map_cons, flatten_cons,
      ← packKey_length key keyBits, take_left]
  have unpacked := unpackKey_packKey small inside
  rw [unpackKey, if_neg (by simp [packKey_length])] at unpacked
  rw [Row.subKey, stored]
  exact Except.ok.inj unpacked

end OpaqueDb.Storage
