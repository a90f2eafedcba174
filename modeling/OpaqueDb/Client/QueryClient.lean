/-
# Client.QueryClient -- the client's queries against one node

`runQuery` lifts the literals out of the text, encodes and encrypts them, sends the
template, and decodes every bucket of the reply.  `queryClean` keeps the buckets with
one record, `query` cuts the row window out of them, `queryCount` adds the counts.

A `Deployment` is a client and a node under one accepted configuration, with every
table published under it; `Asks` says which question a request puts to which epoch.
`runQuery_eq` is the pipeline in closed form: the client reads, bucket by bucket, the
records of the matching rows.
-/
import OpaqueDb.Config.Validate
import OpaqueDb.Server.Engine

namespace OpaqueDb.Client

open OpaqueDb.Core Crypto Theory Backend Sql Server List Storage Config

set_option autoImplicit false

variable {ctx : CryptoContext}

/-- The arguments of a query call; `value` is used when the text has no literal. -/
structure Request where
  clientId : Bytes
  sqlTemplate : Bytes
  value : UInt64 := 0
  backendHint : Bytes := []
  database : Bytes := []
  deriving DecidableEq, Repr

structure Decoded where
  prepared : PreparedQuery
  buckets : List BucketResult
  deriving DecidableEq, Repr

/-- The match operands: the lifted literals, or the one bound value. -/
def operandValues (prepared : PreparedQuery) (value : UInt64) : List Value :=
  if prepared.literals.isEmpty then [.int value.toInt64] else prepared.literals

/-- A value as the client encodes it: by the type of the literal, without the schema. -/
def encodeOperand (keyBits : Nat) (value : Value) : StatusOr UInt64 :=
  KeyEncoding.value <$> encodeKeyValue (columnTypeOf value) value keyBits

def encodeOperands (keyBits : Nat) (prepared : PreparedQuery) (value : UInt64) :
    StatusOr (List UInt64) :=
  (operandValues prepared value).mapM (encodeOperand keyBits)

variable (ctx) in
def runQuery (cfg : Config) (engine : Engine) (request : Request) : StatusOr Decoded := do
  let prepared ← prepareClientQuery request.sqlTemplate
  let operands ← encodeOperands cfg.crypto.keyBits prepared request.value
  let encryptedParam ← buildEncryptedOperands ctx operands cfg.crypto.keyBits
  let reply ← execute engine request.clientId request.database prepared.sqlTemplate encryptedParam
    request.backendHint
  let buckets ← reply.mapM fun blob =>
    decryptResults ctx blob cfg.crypto.keyBits cfg.storage.recordBytes cfg.crypto.bytesPerSlot
      cfg.crypto.resultBuckets 0 cfg.crypto.resultBuckets
  return ⟨prepared, buckets.flatten⟩

/-- The clean records in bucket order, and how many buckets collided. -/
def collectClean (buckets : List BucketResult) : List Bytes × Nat :=
  buckets.foldl (fun (matched, collided) br =>
    if br.collided then (matched, u32 (collided + 1))
    else if br.present then (matched ++ [br.record], collided)
    else (matched, collided)) ([], 0)

variable (ctx) in
def queryClean (cfg : Config) (engine : Engine) (request : Request) :
    StatusOr (List Bytes × Nat) := do
  let decoded ← runQuery ctx cfg engine request
  return collectClean decoded.buckets

def kDefaultSelectLimit : Nat := 10

/-- The rows from `offset` on, at most `limit` of them. -/
def rowWindow (offset limit : Nat) (matched : List Bytes) : List Bytes :=
  (matched.drop offset).take limit

variable (ctx) in
def query (cfg : Config) (engine : Engine) (request : Request) : StatusOr (List Bytes × Nat) := do
  let decoded ← runQuery ctx cfg engine request
  let (matched, collided) := collectClean decoded.buckets
  return (rowWindow (decoded.prepared.offset.getD 0)
    (decoded.prepared.limit.getD kDefaultSelectLimit) matched, collided)

variable (ctx) in
def queryCount (cfg : Config) (engine : Engine) (request : Request) : StatusOr Nat := do
  let decoded ← runQuery ctx cfg engine request
  return decoded.buckets.foldl (fun total br => (total + br.count) % 2 ^ 64) 0

/-! ## One configuration -/

/-- A client and a node that agree on an accepted configuration, over parameters that
carry its slots; every published epoch has its geometry. -/
structure Deployment (ctx : CryptoContext) where
  config : Config
  valid : validate config = .ok ()
  slots : ctx.slotCount = config.crypto.polyModulusDegree
  modulus : 2 ^ (8 * config.crypto.bytesPerSlot) ≤ ctx.plainModulus
  recordBytes_le : config.storage.recordBytes ≤ 2 ^ 31
  engine : Engine
  buckets : engine.resultBuckets = config.crypto.resultBuckets
  published : ∀ {id : TableId} {epoch : Epoch}, engine.openCurrent id = .ok epoch →
    epoch.manifest.keyBits = config.crypto.keyBits ∧
    epoch.manifest.geometry.recordBytes = config.storage.recordBytes ∧
    epoch.manifest.geometry.bytesPerSlot = config.crypto.bytesPerSlot

namespace Deployment

variable (d : Deployment ctx)

/-- The matcher's geometry under the configuration. -/
def geometry : Geometry ctx where
  keyBits := d.config.crypto.keyBits
  bytesPerSlot := d.config.crypto.bytesPerSlot
  recordBytes := d.config.storage.recordBytes
  buckets := d.config.crypto.resultBuckets
  keyBits_pow := (accepted_of_validate d.valid).keyBits_pow
  buckets_pow := (accepted_of_validate d.valid).buckets_pow
  payload_pos := by
    have range := d.config.crypto.bytesPerSlot_range
    have record := (accepted_of_validate d.valid).recordBytes_pos
    omega
  room := by
    have fits := (accepted_of_validate d.valid).buckets_le
    rw [← d.slots, CryptoContext.slotCount, Nat.mul_div_cancel_left _ (by decide)] at fits
    calc d.config.crypto.keyBits * d.config.crypto.resultBuckets ≤
        d.config.crypto.keyBits * (ctx.row / d.config.crypto.keyBits) := Nat.mul_le_mul_left _ fits
      _ ≤ ctx.row := Nat.mul_div_le _ _

theorem carries : d.geometry.Carries where
  bytesPerSlot_le := d.config.crypto.bytesPerSlot_range.2
  keyBits_le := (accepted_of_validate d.valid).keyBits_le
  recordBytes_le := d.recordBytes_le
  modulus := d.modulus

theorem effective : effectiveBuckets d.engine.resultBuckets = d.geometry.buckets := by
  have several := d.geometry.buckets_pos
  rw [effectiveBuckets, d.buckets, if_neg]
  · rfl
  · exact Nat.ne_of_gt several

end Deployment

/-- The request asks for the rows of the epoch whose sub-key of this rank satisfies the
operator on these distinct operands, and the node accepts it. -/
structure Asks (d : Deployment ctx) (request : Request) (prepared : PreparedQuery) (epoch : Epoch)
    (rank : Nat) (op : Op) (operands : List UInt64) : Prop where
  lifted : prepareClientQuery request.sqlTemplate = .ok prepared
  encoded : encodeOperands d.config.crypto.keyBits prepared request.value = .ok operands
  distinct : operands.Nodup
  accepts : Accepts d.engine request.clientId request.database prepared.sqlTemplate
    request.backendHint epoch rank op operands.length

/-! ## The pipeline -/

variable {keyBits : Nat}

section Pipeline

variable {d : Deployment ctx} {request : Request} {prepared : PreparedQuery} {epoch : Epoch}
  {rank : Nat} {op : Op} {operands : List UInt64}

theorem encodeOperand_lt (small : keyBits ≤ 64) {value : Value} {k : UInt64}
    (encoded : encodeOperand keyBits value = .ok k) : k.toNat < 2 ^ keyBits := by
  obtain ⟨key, known, rfl⟩ := map_eq_ok.1 encoded
  exact encodeKeyValue_lt small known

variable {value : UInt64}

theorem encodeOperands_ne_nil (encoded : encodeOperands keyBits prepared value = .ok operands) :
    operands ≠ [] := by
  have length := (mapM_eq_ok_iff.1 encoded).length_eq
  have some_ : operandValues prepared value ≠ [] := by
    unfold operandValues
    split
    · simp
    · rename_i literals
      simpa using literals
  rintro rfl
  exact some_ (length_eq_zero_iff.1 length)

theorem encodeOperands_lt (small : keyBits ≤ 64)
    (encoded : encodeOperands keyBits prepared value = .ok operands) :
    ∀ k ∈ operands, k.toNat < 2 ^ keyBits := by
  intro k member
  obtain ⟨v, _, known⟩ := exists_of_mem_mapM encoded member
  exact encodeOperand_lt small known

/-- The records in one half-row of a bucket that a question selects. -/
def selected (d : Deployment ctx) (epoch : Epoch) (rank : Nat) (op : Op) (operands : List UInt64)
    (half bucket : Nat) : List Bytes :=
  matchedRecords d.geometry (epoch.keys rank) epoch.records op operands half bucket

variable (asks : Asks d request prepared epoch rank op operands)
include asks

/-- The epoch a request is answered from has the configured geometry. -/
theorem Asks.published : epoch.manifest.keyBits = d.geometry.keyBits ∧
    epoch.manifest.geometry.recordBytes = d.geometry.recordBytes ∧
    epoch.manifest.geometry.bytesPerSlot = d.geometry.bytesPerSlot := by
  obtain ⟨physical, routed, _⟩ := asks.accepts.routed
  obtain ⟨_, _, opened, _⟩ := route_eq_ok routed
  exact d.published opened

theorem Asks.columns : Columns d.geometry (epoch.keys rank) epoch.records :=
  epoch_columns epoch rank d.carries.keyBits_le asks.published.1.symm asks.published.2.1.symm

/-- What a reply holds, by half-row and bucket. -/
theorem Asks.holds :
    Holds d.geometry (resultPlane d.geometry (epoch.keys rank) epoch.records op operands)
      (selected d epoch rank op operands) :=
  evaluate_holds asks.columns op operands

/-- The node's reply to the encrypted operands. -/
theorem Asks.execute_eq :
    ∃ encryptedParam, buildEncryptedOperands ctx operands d.config.crypto.keyBits = .ok encryptedParam ∧
      execute d.engine request.clientId request.database prepared.sqlTemplate encryptedParam
        request.backendHint = .ok (if epoch.rows = [] then [] else
          [table (d.geometry.planes + 1)
            (resultPlane d.geometry (epoch.keys rank) epoch.records op operands)]) := by
  have some_ := encodeOperands_ne_nil asks.encoded
  have inside := encodeOperands_lt d.carries.keyBits_le asks.encoded
  obtain ⟨query, extra, tiles⟩ : ∃ query extra,
      operands.map (tile d.geometry.keyBits) = (query :: extra : List (Ciphertext ctx)) := by
    cases operands with
    | nil => exact absurd rfl some_
    | cons value rest => exact ⟨_, _, rfl⟩
  have encrypts : Encrypts d.geometry ⟨op, query, extra, d.engine.resultBuckets⟩ operands :=
    ⟨tiles.symm, asks.distinct, inside⟩
  have sent : (query :: extra).length = operands.length := by
    rw [← tiles, length_map]
  have answered := evaluate_eq_partials d.carries asks.columns asks.accepts.equality encrypts
    d.effective d.engine.hardwareConcurrency
  rw [← asks.published.1, ← asks.published.2.1, ← asks.published.2.2] at answered
  refine ⟨query :: extra, ?_, ?_⟩
  · rw [← tiles]
    exact buildEncryptedOperands_eq d.carries.keyBits_le some_ asks.distinct
  · rw [Server.execute_eq asks.accepts sent answered]
    by_cases none_ : epoch.rows = []
    · simp [shardPlanes, Epoch.keys, none_, shardPartials]
    · have keys : epoch.keys rank ≠ [] := by simpa [Epoch.keys] using none_
      have planes : (table (d.geometry.planes + 1)
          (resultPlane d.geometry (epoch.keys rank) epoch.records op operands)).isEmpty = false := by
        simp [table]
      rw [shardPlanes, if_neg keys, if_neg none_]
      simp [shardPartials, planes]

/-- The buckets of a question, as the client reads them. -/
def readBuckets (d : Deployment ctx) (epoch : Epoch) (rank : Nat) (op : Op)
    (operands : List UInt64) : List BucketResult :=
  (range d.geometry.buckets).map fun bucket =>
    bucketRead d.geometry (selected d epoch rank op operands 0 bucket)
      (selected d epoch rank op operands 1 bucket)

/-- **A query in closed form.**  The client reads every bucket of the epoch's matching
rows; an empty epoch has no bucket to read. -/
theorem runQuery_eq : runQuery ctx d.config d.engine request =
      .ok ⟨prepared, if epoch.rows = [] then [] else readBuckets d epoch rank op operands⟩ := by
  obtain ⟨encryptedParam, built, replied⟩ := asks.execute_eq
  have decoded := decryptResults_holds d.carries asks.holds 0 d.geometry.buckets
  rw [windowBuckets_all] at decoded
  simp only [runQuery, asks.lifted, asks.encoded, built, replied, bind, Except.bind]
  by_cases none_ : epoch.rows = []
  · simp [none_, pure, Except.pure]
  · simp only [none_, if_false, mapM_cons]
    have read : decryptResults ctx (table (d.geometry.planes + 1)
        (resultPlane d.geometry (epoch.keys rank) epoch.records op operands))
        d.config.crypto.keyBits d.config.storage.recordBytes d.config.crypto.bytesPerSlot
        d.config.crypto.resultBuckets 0 d.config.crypto.resultBuckets =
          .ok (readBuckets d epoch rank op operands) := decoded
    rw [read]
    simp [bind, Except.bind, pure, Except.pure]

end Pipeline

/-! ## A small deployment -/

/-- Seven primes, for keys of up to 64 bits. -/
def sampleConfig (keyBits buckets : Nat) : Config where
  crypto := {
    coeffModulusBits := [60, 60, 60, 60, 60, 60, 60]
    keyBits := keyBits
    resultBuckets := buckets }
  storage := { recordBytes := 6 }

/-- An INT key, an indexed TEXT column and a payload column. -/
def sampleSchema : Schema where
  table := bytes "t"
  columns := [⟨bytes "k", .eq, .int⟩, ⟨bytes "c", .index, .text⟩, ⟨bytes "a", .raw, .text⟩]

/-- The record of one byte of text in each of the two TEXT columns. -/
def sampleRecord (c a : UInt8) : Bytes :=
  [1, 0, c, 1, 0, a]

/-- A row by its key and the bytes of its two texts. -/
def sampleRow (keyBits : Nat) (cells : UInt64 × UInt8 × UInt8) : Row :=
  ⟨packKeys keyBits [cells.1 &&& keyMask keyBits, fnv1a [cells.2.1] &&& keyMask keyBits],
    sampleRecord cells.2.1 cells.2.2⟩

def sampleEpoch (keyBits : Nat) (cells : List (UInt64 × UInt8 × UInt8)) : Epoch where
  manifest := ⟨1, sampleSchema, keyBits, ⟨16384, 2, 6⟩⟩
  rows := cells.map (sampleRow keyBits)
  match_length := by
    intro row member
    obtain ⟨c, _, rfl⟩ := mem_map.1 member
    simp only [sampleRow, packKeys, map_cons, map_nil, flatten_cons, flatten_nil, append_nil,
      length_append, packKey_length]
    exact (Nat.two_mul _).symm
  payload_length := by
    intro row member
    obtain ⟨c, _, rfl⟩ := mem_map.1 member
    rfl

def sampleEngine (keyBits buckets : Nat) (cells : List (UInt64 × UInt8 × UInt8)) : Engine where
  resultBuckets := buckets
  openCurrent := fun _ => .ok (sampleEpoch keyBits cells)
  hasKeys := fun _ => true
  hardwareConcurrency := 4

def sampleDeployment (keyBits buckets : Nat)
    (valid : validate (sampleConfig keyBits buckets) = .ok ())
    (cells : List (UInt64 × UInt8 × UInt8)) : Deployment defaultContext where
  config := sampleConfig keyBits buckets
  valid := valid
  slots := rfl
  modulus := two_pow_le_batching (accepted_of_validate valid) (by decide)
    (show 2 ^ 19 ≤ 786433 by decide) (show 786433 % (2 * 16384) = 1 by decide)
  recordBytes_le := show 6 ≤ 2 ^ 31 by decide
  engine := sampleEngine keyBits buckets cells
  buckets := rfl
  published := by
    rintro id epoch ⟨⟩
    exact ⟨rfl, rfl, by simp [sampleEpoch, sampleConfig, CryptoConfig.bytesPerSlot]⟩

theorem masked_lt (small : keyBits ≤ 64) (v : UInt64) :
    (v &&& keyMask keyBits).toNat < 2 ^ keyBits := by
  rw [and_keyMask _ small]
  exact Nat.mod_lt _ (Nat.two_pow_pos keyBits)

/-- The sub-keys of the primary key column. -/
theorem sampleEpoch_keys (cells : List (UInt64 × UInt8 × UInt8)) :
    (sampleEpoch 64 cells).keys 0 = cells.map Prod.fst := by
  rw [Epoch.keys, sampleEpoch, map_map]
  apply map_congr_left
  intro c _
  have stored := subKey_packed (show 64 ≤ 64 by decide) [] [fnv1a [c.2.1] &&& keyMask 64]
    (masked_lt (show 64 ≤ 64 by decide) c.1) (sampleRecord c.2.1 c.2.2)
  refine stored.trans (UInt64.toNat_inj.1 ?_)
  rw [and_keyMask _ (by decide), Nat.mod_eq_of_lt c.1.toNat_lt]

end OpaqueDb.Client
