/-
# Cluster.Sharding -- a table loaded shard by shard

The load command keeps the rows whose key the ring gives to its own node.  Over one node
list the shards of the distinct ids are disjoint and cover the table
(`loadRows_perm`).  On an INT primary key the sub-key determines the key, so a shard
holds all rows of a key or none: evaluating the shards and combining them is read as
evaluating the whole table (`sharded_equals_single`).
-/
import OpaqueDb.Backend.Covering
import OpaqueDb.Backend.Shards
import OpaqueDb.Cluster.ShardMap
import OpaqueDb.Server.Engine
import OpaqueDb.Server.Ingest

namespace OpaqueDb.Cluster

open OpaqueDb.Core Crypto Theory Backend Storage Server Config List

set_option autoImplicit false

/-! ## The load command's filter -/

variable {id shardNodes : Bytes}

section Load

variable (lib : Library) (database : Bytes) (schema : Schema)

/-- The shard key of a row, under its database and table. -/
def shardKey (key : Value) : Bytes :=
  strCat [database, ".", schema.table, ".", valueToString lib key]

def ownerOf (shardNodes : Bytes) (key : Value) : StatusOr Bytes :=
  (ShardMap.setNodes {} (strSplitSkipEmpty 44 shardNodes)).ownerOfKey (shardKey lib database schema key)

/-- The rows a node loads: all of them, or those it owns when it is given a shard. -/
def loadRows (shardId shardNodes : Bytes) (rows : List IngestRow) : List IngestRow :=
  if shardId ≠ [] ∧ shardNodes ≠ [] then
    rows.filter fun row => ownerOf lib database schema shardNodes row.key = .ok shardId
  else rows

/-- The distinct ids of a node list. -/
def shardIds (shardNodes : Bytes) : List Bytes :=
  uniqueIds (strSplitSkipEmpty 44 shardNodes)

theorem shardIds_ne_nil (member : id ∈ shardIds shardNodes) : id ≠ [] ∧ shardNodes ≠ [] := by
  have part := mem_uniqueIds.1 member
  have kept := (mem_filter.1 part).2
  refine ⟨by simpa using kept, ?_⟩
  rintro rfl
  cases part

/-- The owner of a key, as one of the ids. -/
theorem ownerOf_mem (some_ : strSplitSkipEmpty 44 shardNodes ≠ []) (key : Value) :
    ∃ id ∈ shardIds shardNodes, ownerOf lib database schema shardNodes key = .ok id :=
  ownerOfHash_mem (show 1 ≤ 128 by decide) some_ _

/-- The owner of an INT key, by its sub-key. -/
def subKeyOwner (shardNodes : Bytes) (k : UInt64) : Bytes :=
  (ownerOf lib database schema shardNodes (.int k.toInt64)).toOption.getD []

theorem subKeyOwner_mem (some_ : strSplitSkipEmpty 44 shardNodes ≠ []) (k : UInt64) :
    subKeyOwner lib database schema shardNodes k ∈ shardIds shardNodes := by
  obtain ⟨id, listed, known⟩ := ownerOf_mem lib database schema some_ (.int k.toInt64)
  rw [subKeyOwner, known]
  exact listed

theorem loadRows_eq (member : id ∈ shardIds shardNodes) (rows : List IngestRow) :
    loadRows lib database schema id shardNodes rows =
      rows.filter fun row => ownerOf lib database schema shardNodes row.key = .ok id := by
  rw [loadRows, if_pos (shardIds_ne_nil member)]

/-- No row is loaded by two nodes. -/
theorem loadRows_disjoint {first second : Bytes} (left : first ∈ shardIds shardNodes)
    (right : second ∈ shardIds shardNodes) (different : first ≠ second) (rows : List IngestRow) :
    (loadRows lib database schema first shardNodes rows).Disjoint
      (loadRows lib database schema second shardNodes rows) := by
  rw [loadRows_eq _ _ _ left, loadRows_eq _ _ _ right]
  intro row here there
  have owned := (mem_filter.1 here).2
  have taken := (mem_filter.1 there).2
  simp only [decide_eq_true_eq] at owned taken
  exact different (Except.ok.inj (owned.symm.trans taken))

/-- **The shards hold the table**, each row once. -/
theorem loadRows_perm (some_ : strSplitSkipEmpty 44 shardNodes ≠ []) (rows : List IngestRow) :
    ((shardIds shardNodes).flatMap fun id => loadRows lib database schema id shardNodes rows).Perm
      rows := by
  have loaded : (shardIds shardNodes).flatMap (fun id =>
      loadRows lib database schema id shardNodes rows) =
      (shardIds shardNodes).flatMap fun id => rows.filter fun row =>
        (ownerOf lib database schema shardNodes row.key).toOption.getD [] = id := by
    apply flatMap_congr
    intro id member
    rw [loadRows_eq _ _ _ member]
    apply filter_congr
    intro row _
    obtain ⟨owner, _, known⟩ := ownerOf_mem lib database schema some_ row.key
    simp [known, Except.toOption]
  rw [loaded]
  apply classes_perm (uniqueIds_nodup _)
  intro row _
  obtain ⟨owner, listed, known⟩ := ownerOf_mem lib database schema some_ row.key
  rw [known]
  exact listed

end Load

/-! ## The shards of an INT primary key -/

variable {ctx : CryptoContext}

/-- One node's evaluation over the sub-keys of a column. -/
def evaluateEpoch (hardwareConcurrency : Nat) (query : EncryptedQuery ctx) (epoch : Epoch)
    (rank : Nat) : StatusOr (List (Ciphertext ctx)) := do
  let (keys, payload) ← buildColumns epoch (rank * keyRecordBytes epoch.manifest.keyBits)
  evaluate hardwareConcurrency query keys payload

/-- The table loaded whole: its primary key is an INT column, of this rank among the
searchable ones, and its records have the geometry of the matcher. -/
structure LoadedTable (g : Geometry ctx) (cfg : Config) (schema : Schema) (rows : List IngestRow)
    (whole : StagingEpoch) (rank : Nat) : Prop where
  built : buildStagingFromRows cfg schema rows = .ok whole
  primary : ∃ index column, schema.columns[index]? = some column ∧ column.encoding = .eq ∧
    column.type = .int ∧ schema.searchableRank index = some rank
  keyBits : cfg.crypto.keyBits = g.keyBits
  recordBytes : cfg.storage.recordBytes = g.recordBytes
  bytesPerSlot : cfg.crypto.bytesPerSlot = g.bytesPerSlot

/-- An equality question with distinct operands, matched by fewer rows of each bucket than
the modulus. -/
structure KeyQuestion (g : Geometry ctx) (keys : List UInt64) (op : Op) (operands : List UInt64)
    (resultBuckets : Nat) : Prop where
  equality : op = .eq ∨ op = .ne
  some_ : operands ≠ []
  distinct : operands.Nodup
  inside : ∀ value ∈ operands, value.toNat < 2 ^ g.keyBits
  buckets : effectiveBuckets resultBuckets = g.buckets
  few : ∀ bucket < g.buckets, (bucketRows g.buckets keys op operands bucket).length < ctx.plainModulus

section Split

variable {g : Geometry ctx} {cfg : Config} {schema : Schema} {rows : List IngestRow}
  {whole : StagingEpoch} {rank : Nat} (loaded : LoadedTable g cfg schema rows whole rank)
include loaded

theorem LoadedTable.staged : whole.schema = schema ∧ whole.keyBits = g.keyBits ∧
    whole.geometry.recordBytes = g.recordBytes ∧ whole.geometry.bytesPerSlot = g.bytesPerSlot := by
  obtain ⟨⟨same, keyBits, geometry⟩, _⟩ := build_ingested loaded.built
  rw [geometry]
  exact ⟨same, keyBits.trans loaded.keyBits, loaded.recordBytes, loaded.bytesPerSlot⟩

theorem LoadedTable.encoded : Encoded whole rows whole.rows :=
  ((build_ingested loaded.built).2 0).encoded

theorem LoadedTable.rank_lt : rank < whole.schema.searchableCount := by
  obtain ⟨index, column, _, _, _, ranked⟩ := loaded.primary
  rw [loaded.staged.1]
  exact Schema.searchableRank_lt ranked

/-- The key of a row is its primary sub-key, read as an INT. -/
theorem LoadedTable.key (small : g.keyBits ≤ 64) {row : IngestRow} {stored : Row}
    (encoded : encodeRow whole.schema whole.keyBits whole.geometry.recordBytes row = .ok stored) :
    row.key = .int (stored.subKey whole.keyBits rank).toInt64 := by
  obtain ⟨index, column, known, primary, int, ranked⟩ := loaded.primary
  have small' : whole.keyBits ≤ 64 := by rw [loaded.staged.2.1]; exact small
  rw [← loaded.staged.1] at known ranked
  obtain ⟨value, k, cell, encoding, read⟩ := encodeRow_subKey encoded small' known ranked
  rw [IngestRow.value, cellValue, known] at cell
  simp only [primary, if_true, Option.some.injEq] at cell
  rw [int] at encoding
  rw [cell, read]
  exact encodeKeyValue_int encoding

/-- **A shard holds whole keys**: its stored rows are those of the table whose sub-key
the node owns. -/
theorem LoadedTable.shard (small : g.keyBits ≤ 64) (lib : Library) (database : Bytes)
    (some_ : strSplitSkipEmpty 44 shardNodes ≠ []) (member : id ∈ shardIds shardNodes) :
    ∃ staged, buildStagingFromRows cfg schema (loadRows lib database schema id shardNodes rows) =
        .ok staged ∧ staged.schema = whole.schema ∧ staged.keyBits = whole.keyBits ∧
      staged.geometry = whole.geometry ∧
      staged.rows = shardOf (Row.subKey whole.keyBits rank)
        (subKeyOwner lib database schema shardNodes) whole.rows id := by
  apply build_of_encoded loaded.built
  rw [loadRows_eq _ _ _ member]
  refine rel_filter ?_ loaded.encoded
  intro row stored encoded
  obtain ⟨owner, _, known⟩ := ownerOf_mem lib database schema some_ row.key
  have same := known
  rw [loaded.key small encoded] at same
  simp [known, same, subKeyOwner, Except.toOption]

end Split

/-- An epoch of the geometry answers with its planes. -/
theorem evaluateEpoch_eq {g : Geometry ctx} (carries : g.Carries) (epoch : Epoch) {rank : Nat}
    (ranked : rank < epoch.manifest.schema.searchableCount)
    (keyBits : epoch.manifest.keyBits = g.keyBits)
    (recordBytes : epoch.manifest.geometry.recordBytes = g.recordBytes)
    (bytesPerSlot : epoch.manifest.geometry.bytesPerSlot = g.bytesPerSlot)
    {query : EncryptedQuery ctx} (equality : query.op = .eq ∨ query.op = .ne)
    {operands : List UInt64} (encrypts : Encrypts g query operands)
    (buckets : effectiveBuckets query.resultBuckets = g.buckets) (hardwareConcurrency : Nat) :
    evaluateEpoch hardwareConcurrency query epoch rank = .ok (shardPartials (g.planes + 1)
      (shardPlanes g (epoch.keys rank) epoch.records query.op operands)) := by
  have columns := epoch_columns epoch rank carries.keyBits_le keyBits.symm recordBytes.symm
  have answered := evaluate_eq_partials carries columns equality encrypts buckets
    hardwareConcurrency
  rw [← keyBits, ← recordBytes, ← bytesPerSlot] at answered
  rw [evaluateEpoch, buildColumns_eq epoch ranked]
  exact answered

section Answers

variable {g : Geometry ctx} {cfg : Config} {schema : Schema} {rows : List IngestRow}
  {whole : StagingEpoch} {rank : Nat} (loaded : LoadedTable g cfg schema rows whole rank)
  (carries : g.Carries) {query : EncryptedQuery ctx} (equality : query.op = .eq ∨ query.op = .ne)
  {operands : List UInt64} (encrypts : Encrypts g query operands)
  (buckets : effectiveBuckets query.resultBuckets = g.buckets)
include loaded carries equality encrypts buckets

theorem LoadedTable.answer (version hardwareConcurrency : Nat) :
    evaluateEpoch hardwareConcurrency query (whole.published version) rank =
      .ok (shardPartials (g.planes + 1) (shardPlanes g
        (whole.rows.map (Row.subKey whole.keyBits rank)) (whole.rows.map Row.payload) query.op
        operands)) := by
  obtain ⟨_, keyBits, recordBytes, bytesPerSlot⟩ := loaded.staged
  exact evaluateEpoch_eq carries (whole.published version) loaded.rank_lt keyBits recordBytes
    bytesPerSlot equality encrypts buckets hardwareConcurrency

/-- A node loads its shard and answers with the planes of the keys it owns. -/
theorem LoadedTable.shard_answer (lib : Library) (database : Bytes)
    (some_ : strSplitSkipEmpty 44 shardNodes ≠ []) (member : id ∈ shardIds shardNodes)
    (version hardwareConcurrency : Nat) :
    ∃ staged, buildStagingFromRows cfg schema (loadRows lib database schema id shardNodes rows) =
        .ok staged ∧
      evaluateEpoch hardwareConcurrency query (staged.published version) rank =
        .ok (shardPartials (g.planes + 1) (ownerPlanes (Row.subKey whole.keyBits rank) Row.payload g
          (subKeyOwner lib database schema shardNodes) query.op operands whole.rows id)) := by
  obtain ⟨_, keyBits, recordBytes, bytesPerSlot⟩ := loaded.staged
  obtain ⟨staged, built, schema', keyBits', geometry', stored⟩ :=
    loaded.shard carries.keyBits_le lib database some_ member
  have ranked : rank < staged.schema.searchableCount := by
    rw [schema']
    exact loaded.rank_lt
  have answered := evaluateEpoch_eq carries (staged.published version) ranked
    (keyBits'.trans keyBits) ((congrArg _ geometry').trans recordBytes)
    ((congrArg _ geometry').trans bytesPerSlot) equality encrypts buckets hardwareConcurrency
  have keys : (staged.published version).keys rank =
      staged.rows.map (Row.subKey whole.keyBits rank) := by
    rw [← keyBits']
    rfl
  have records : (staged.published version).records = staged.rows.map Row.payload := rfl
  rw [keys, records, stored] at answered
  exact ⟨staged, built, answered⟩

end Answers

/-- **Sharded answers equal single-node answers.**  Over any node list with an id, the
shards are disjoint and hold every row; and for a table with an INT primary key every
equality question on it decodes, from the combined answers of the shards, to the buckets
of the whole table on one node. -/
theorem sharded_equals_single (lib : Library) (database : Bytes) (schema : Schema)
    {shardNodes : Bytes} (some_ : strSplitSkipEmpty 44 shardNodes ≠ []) (rows : List IngestRow) :
    (∀ first ∈ shardIds shardNodes, ∀ second ∈ shardIds shardNodes, first ≠ second →
      (loadRows lib database schema first shardNodes rows).Disjoint
        (loadRows lib database schema second shardNodes rows)) ∧
    ((shardIds shardNodes).flatMap fun id => loadRows lib database schema id shardNodes rows).Perm
      rows ∧
    ∀ {ctx : CryptoContext} {g : Geometry ctx} {cfg : Config} {whole : StagingEpoch} {rank : Nat}
      {op : Op} {operands : List UInt64} {resultBuckets : Nat}, g.Carries →
      LoadedTable g cfg schema rows whole rank → ∀ (version : Nat),
      KeyQuestion g ((whole.published version).keys rank) op operands resultBuckets →
      ∀ (hardwareConcurrency : Nat) (shardConcurrency : Bytes → Nat),
        ∃ (query : Ciphertext ctx) (extra : List (Ciphertext ctx)) (staged : Bytes → StagingEpoch)
          (partials : Bytes → List (Ciphertext ctx)) (single combined : List (Ciphertext ctx)),
          buildEncryptedOperands ctx operands cfg.crypto.keyBits = .ok (query :: extra) ∧
          (∀ id ∈ shardIds shardNodes,
            buildStagingFromRows cfg schema (loadRows lib database schema id shardNodes rows) =
              .ok (staged id) ∧
            evaluateEpoch (shardConcurrency id) ⟨op, query, extra, resultBuckets⟩
              ((staged id).published version) rank = .ok (partials id)) ∧
          evaluateEpoch hardwareConcurrency ⟨op, query, extra, resultBuckets⟩
            (whole.published version) rank = .ok single ∧
          combine ((shardIds shardNodes).map partials) = .ok combined ∧
          (rows = [] → single = [] ∧ combined = []) ∧
          (rows ≠ [] → ∃ results,
            decryptResults ctx single g.keyBits g.recordBytes g.bytesPerSlot g.buckets 0 g.buckets =
              .ok results ∧
            decryptResults ctx combined g.keyBits g.recordBytes g.bytesPerSlot g.buckets 0
              g.buckets = .ok results) := by
  refine ⟨fun first left second right different =>
      loadRows_disjoint lib database schema left right different rows,
    loadRows_perm lib database schema some_ rows, ?_⟩
  intro ctx g cfg whole rank op operands resultBuckets carries loaded version question
    hardwareConcurrency shardConcurrency
  obtain ⟨same, keyBits, recordBytes, bytesPerSlot⟩ := loaded.staged
  obtain ⟨query, extra, tiles⟩ : ∃ query extra,
      operands.map (tile g.keyBits) = (query :: extra : List (Ciphertext ctx)) := by
    cases operands with
    | nil => exact absurd rfl question.some_
    | cons value rest => exact ⟨_, _, rfl⟩
  have encrypts : Encrypts g ⟨op, query, extra, resultBuckets⟩ operands :=
    ⟨tiles.symm, question.distinct, question.inside⟩
  have columns := epoch_columns (whole.published version) rank carries.keyBits_le keyBits.symm
    recordBytes.symm
  have few : ∀ bucket < g.buckets, (bucketRecords (Row.subKey whole.keyBits rank) Row.payload
      g.buckets op operands whole.rows bucket).length < ctx.plainModulus := by
    intro bucket inside
    rw [← bucketRecords_eq, length_map]
    exact question.few bucket inside
  obtain ⟨combined, sum, nothing, read⟩ := combine_decodes (Row.subKey whole.keyBits rank)
    Row.payload carries columns few (uniqueIds_nodup _) fun x _ =>
      subKeyOwner_mem lib database schema some_ (x.subKey whole.keyBits rank)
  have shards := fun id (member : id ∈ shardIds shardNodes) =>
    loaded.shard_answer carries question.equality encrypts question.buckets lib database some_ member
      version (shardConcurrency id)
  have : Nonempty StagingEpoch := ⟨whole⟩
  choose! staged shards using shards
  have none_iff : whole.rows = [] ↔ rows = [] := by
    rw [← length_eq_zero_iff, ← loaded.encoded.length_eq, length_eq_zero_iff]
  refine ⟨query, extra, staged, _, _, combined, ?_, shards,
    loaded.answer carries question.equality encrypts question.buckets version hardwareConcurrency,
    sum, fun empty => ⟨?_, nothing (none_iff.2 empty)⟩, fun filled => ?_⟩
  · rw [loaded.keyBits, buildEncryptedOperands_eq carries.keyBits_le question.some_
      question.distinct, tiles]
  · rw [none_iff.2 empty]
    rfl
  · have stored : whole.rows ≠ [] := fun h => filled (none_iff.1 h)
    exact ⟨_, single_decodes _ _ carries columns few stored, read stored⟩

/-! ## A table of three rows on two nodes -/

def smallSchema : Schema where
  table := bytes "t"
  columns := [⟨bytes "k", .eq, .int⟩, ⟨bytes "a", .raw, .text⟩]

def smallRows : List IngestRow :=
  [⟨.int 1, [.text [7]]⟩, ⟨.int 2, [.text [8]]⟩, ⟨.int 1, [.text [9]]⟩]

def smallStaging : StagingEpoch where
  schema := smallSchema
  keyBits := 2
  geometry := ⟨16384, 2, 3⟩
  rows := [⟨[1], [1, 0, 7]⟩, ⟨[2], [1, 0, 8]⟩, ⟨[1], [1, 0, 9]⟩]
  match_length := by decide
  payload_length := by decide

theorem smallStaging_loaded :
    LoadedTable sampleGeometry smallConfig smallSchema smallRows smallStaging 0 where
  built := rfl
  primary := ⟨0, ⟨bytes "k", .eq, .int⟩, rfl, rfl, rfl, rfl⟩
  keyBits := rfl
  recordBytes := rfl
  bytesPerSlot := by decide

theorem sharded_three_rows :
    ∃ (query : Ciphertext defaultContext) (extra : List (Ciphertext defaultContext))
      (partials : Bytes → List (Ciphertext defaultContext))
      (single combined : List (Ciphertext defaultContext)) (results : List BucketResult),
      buildEncryptedOperands defaultContext [1] 2 = .ok (query :: extra) ∧
      evaluateEpoch 4 ⟨.eq, query, extra, 2⟩ (smallStaging.published 1) 0 = .ok single ∧
      combine ((shardIds (bytes "a,,b,a")).map partials) = .ok combined ∧
      decryptResults defaultContext single 2 3 2 2 0 2 = .ok results ∧
      decryptResults defaultContext combined 2 3 2 2 0 2 = .ok results := by
  have keys : (smallStaging.published 1).keys 0 = [1, 2, 1] := by decide
  have question : KeyQuestion sampleGeometry ((smallStaging.published 1).keys 0) .eq [1] 2 := by
    rw [keys]
    exact ⟨.inl rfl, by decide, by decide, by simp [sampleGeometry], by decide, by decide⟩
  obtain ⟨_, _, answers⟩ := sharded_equals_single strictLibrary (bytes "d") smallSchema
    (show strSplitSkipEmpty 44 (bytes "a,,b,a") ≠ [] by decide) smallRows
  obtain ⟨query, extra, _, partials, single, combined, built, _, one, sum, _, read⟩ :=
    answers sampleGeometry_carries smallStaging_loaded 1 question 4 fun _ => 4
  obtain ⟨results, first, second⟩ := read (by decide)
  exact ⟨query, extra, partials, single, combined, results, built, one, sum, first, second⟩

end OpaqueDb.Cluster
