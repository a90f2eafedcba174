/-
# Server.Columns -- the key column of a query is the queried column's

A match record packs one sub-key for each searchable column, in the order of the columns;
a query on one of them reads at its rank.  `subKey_of_column` says that it finds the
encoding of the row's own value there, wherever the key column, the indexes and the other
columns stand.

`buildColumnsOf` is the loop of the source over an epoch opened from disk.  On an epoch
that was published it reads every row, for every plan the planner accepts
(`buildColumnsOf_shows`).
-/
import OpaqueDb.Server.Engine
import OpaqueDb.Server.Ingest
import OpaqueDb.Storage.RoundTrip

namespace OpaqueDb.Server

open OpaqueDb.Core Theory Backend Sql Planner Storage

set_option autoImplicit false

/-! ## One row -/

variable {match_ : Bytes} {schema : Schema} {keyBits : Nat} {key : Value} {payload : List Value}

section

variable (encoded : encodeMatchRecord schema key payload keyBits = .ok match_)
include encoded

theorem encodeMatchRecord_length :
    match_.length = schema.searchableCount * keyRecordBytes keyBits := by
  obtain ⟨keys, subKeys, rfl⟩ := map_eq_ok.1 encoded
  rw [packKeys_length, encodeSubKeys_length subKeys]
  rfl

/-- What `BuildColumns` extracts at the rank of a column encodes the row's value there. -/
theorem subKey_of_column (small : keyBits ≤ 64) {index : Nat} {column : Column}
    (known : schema.columns[index]? = some column)
    (searchable : isSearchable column.encoding = true) :
    ∃ rank value k, schema.searchableRank index = some rank ∧
      cellValue schema.columns key payload index = some value ∧
      encodeKeyValue column.type value keyBits = .ok k ∧
      ∀ record, readKey keyBits (rank * keyRecordBytes keyBits) ⟨match_, record⟩ = .ok k.value := by
  obtain ⟨inside, rfl⟩ := List.getElem?_eq_some_iff.1 known
  obtain ⟨rank, ranked, below⟩ := searchableRank_of_searchable inside
    (by rw [List.getD_eq_getElem _ _ inside]; exact searchable)
  obtain ⟨value, k, cell, encoding, stored⟩ := matchRecord_subKey encoded small known ranked []
  -- the payload record plays no part in the read
  have read : readKey keyBits (rank * keyRecordBytes keyBits) ⟨match_, []⟩ = .ok k.value := by
    rw [readKey_of_length (encodeMatchRecord_length encoded) below, stored]
  exact ⟨rank, value, k, ranked, cell, encoding, fun _ => read⟩

end

/-! ## An epoch on disk -/

def readRow (reader : EpochReader) (matchOffset r : Nat) : StatusOr (UInt64 × Bytes) := do
  let matchBytes ← reader.matchRecord r
  let value ← readKey reader.manifest.keyBits matchOffset ⟨matchBytes, []⟩
  let payloadBytes ← reader.payloadRecord r
  return (value, payloadBytes)

/-- `BuildColumns` over the opened segments. -/
def buildColumnsOf (reader : EpochReader) (matchOffset : Nat) :
    StatusOr (KeyColumn × PayloadColumns) := do
  let rows ← (List.range reader.rowCount).mapM (readRow reader matchOffset)
  return (⟨reader.manifest.keyBits, rows.map Prod.fst⟩,
    ⟨reader.manifest.geometry.recordBytes, reader.manifest.geometry.bytesPerSlot,
      rows.map Prod.snd⟩)

/-- The rows of a published epoch are read, whichever searchable column is asked for. -/
theorem buildColumnsOf_shows {reader : EpochReader} {staging : StagingEpoch}
    (shows : Shows reader staging) {rank : Nat} (ranked : rank < staging.schema.searchableCount) :
    buildColumnsOf reader (rank * keyRecordBytes reader.manifest.keyBits) =
      .ok (⟨staging.keyBits, staging.rows.map (Row.subKey staging.keyBits rank)⟩,
        ⟨staging.geometry.recordBytes, staging.geometry.bytesPerSlot,
          staging.rows.map Row.payload⟩) := by
  have read : (List.range reader.rowCount).mapM
      (readRow reader (rank * keyRecordBytes reader.manifest.keyBits)) =
      .ok (staging.rows.map fun row => (row.subKey staging.keyBits rank, row.payload)) := by
    refine mapM_eq_ok_iff.2 (List.forall₂_iff_get.2 ⟨by simp [shows.count], fun i below inside => ?_⟩)
    have listed : i < staging.rows.length := by simpa using inside
    obtain ⟨match_, payload⟩ := shows.records i _ (List.getElem?_eq_getElem listed)
    have length := staging.match_length _ (List.getElem_mem listed)
    have key := readKey_of_length length ranked
    simp only [List.get_eq_getElem, List.getElem_range, List.getElem_map, readRow, match_, payload,
      shows.keyBits]
    exact bind_eq_ok.2 ⟨_, rfl, bind_eq_ok.2 ⟨_, key, rfl⟩⟩
  rw [buildColumnsOf, read, shows.keyBits, shows.geometry]
  show (.ok _ : StatusOr _) = .ok _
  simp

section Published

variable {root : Bytes} {lib : JsonLibrary} {staging : StagingEpoch} {version : Nat}
  {disk disk' later after : RepoDisk} {reader : EpochReader}

/-- An epoch that was published and opens shows what was staged. -/
theorem shows_of_publish (named : Named lib staging.schema)
    (words : staging.geometry.slotCount < 2 ^ 32 ∧ staging.geometry.bytesPerSlot < 2 ^ 32 ∧
      staging.geometry.recordBytes < 2 ^ 32)
    (small : version < 2 ^ 64) (returns : Returns (publish root lib staging version) disk (.ok ()) disk')
    (kept : later.dirs.lookup (.epoch version) = disk'.dirs.lookup (.epoch version))
    (opened : runCall (openVersion root lib version) later = (.ok reader, after)) :
    Shows reader staging := by
  obtain ⟨l, able, published⟩ := publish_ok returns
  obtain ⟨dir, there, holds⟩ := published.epoch
  have stands : Stands later version l := ⟨dir, kept.trans there, holds⟩
  obtain ⟨_, rfl⟩ := stands.opened able.laid named words.1 words.2.1 words.2.2 small opened
  exact reader_shows able.laid

end Published

/-- **Each query reads its own column's sub-key.**  A match record has one sub-key for each
searchable column; at the rank of a column stands the encoding of the row's value there; and
on an epoch that was published and opened, an accepted plan finds its rank and every row's
columns. -/
theorem query_reads_own_column (schema : Schema) (keyBits : Nat) (small : keyBits ≤ 64) :
    (∀ key payload match_, encodeMatchRecord schema key payload keyBits = .ok match_ →
      match_.length = schema.searchableCount * keyRecordBytes keyBits ∧
      ∀ index column, schema.columns[index]? = some column → isSearchable column.encoding = true →
        ∃ rank value k, schema.searchableRank index = some rank ∧
          cellValue schema.columns key payload index = some value ∧
          encodeKeyValue column.type value keyBits = .ok k ∧
          ∀ record, readKey keyBits (rank * keyRecordBytes keyBits) ⟨match_, record⟩ = .ok k.value) ∧
    (∀ root lib (staging : StagingEpoch) version disk disk' later after reader,
      staging.schema = schema → staging.keyBits = keyBits → Named lib schema →
      (staging.geometry.slotCount < 2 ^ 32 ∧ staging.geometry.bytesPerSlot < 2 ^ 32 ∧
        staging.geometry.recordBytes < 2 ^ 32) → version < 2 ^ 64 →
      Returns (publish root lib staging version) disk (.ok ()) disk' →
      later.dirs.lookup (.epoch version) = disk'.dirs.lookup (.epoch version) →
      runCall (openVersion root lib version) later = (.ok reader, after) →
      ∀ all logical hint physical, plan all reader.manifest.schema logical hint = .ok physical →
        ∃ rank columns,
          reader.manifest.schema.searchableRank physical.matchColumnIndex = some rank ∧
          buildColumnsOf reader (rank * keyRecordBytes reader.manifest.keyBits) = .ok columns) := by
  constructor
  · intro key payload match_ encoded
    exact ⟨encodeMatchRecord_length encoded, fun index column known searchable =>
      subKey_of_column encoded small known searchable⟩
  · intro root lib staging version disk disk' later after reader schema_ keyBits_ named words small
      returns kept opened all logical hint physical planned
    have shows := shows_of_publish (schema_ ▸ named) words small returns kept opened
    obtain ⟨rank, ranked, below⟩ := (plan_eq_ok planned).rank
    rw [shows.schema] at below
    exact ⟨rank, _, ranked, buildColumnsOf_shows shows below⟩

/-- The key column of a table with an index behind a raw column: the index's sub-key is the
second one. -/
theorem query_reads_own_column_index :
    let schema : Schema := ⟨bytes "t", [⟨bytes "note", .raw, .text⟩, ⟨bytes "id", .eq, .int⟩,
      ⟨bytes "age", .index, .int⟩]⟩
    encodeMatchRecord schema (.int 7) [.text (bytes "x"), .int 9] 8 = .ok [7, 9] ∧
      ∃ rank, schema.searchableRank 2 = some rank ∧
        readKey 8 (rank * keyRecordBytes 8) ⟨[7, 9], []⟩ = .ok 9 := by
  intro schema
  have encoded : encodeMatchRecord schema (.int 7) [.text (bytes "x"), .int 9] 8 = .ok [7, 9] := by
    decide
  obtain ⟨rank, value, k, ranked, cell, encoding, read⟩ :=
    ((query_reads_own_column schema 8 (by decide)).1 _ _ _ encoded).2 2 ⟨bytes "age", .index, .int⟩
      rfl rfl
  cases cell
  cases encoding
  exact ⟨encoded, rank, ranked, read []⟩

end OpaqueDb.Server
