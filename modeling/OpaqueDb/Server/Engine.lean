/-
# Server.Engine -- one node's answer to a template

`evaluateShard` parses the public template, routes it to the current epoch of its
table, receives the encrypted operands the plan asks for, reads the queried column's
sub-keys and runs the matcher; `combinePartials` adds the partials of the shards and
`execute` is both on one node.  An epoch carries the strides of its records, so the
columns of any accepted plan can be read (`buildColumns_eq`).

`execute_eq` is what the layers above use: an accepted, non-empty epoch answers with
the matcher's planes and an empty one with no result at all.
-/
import OpaqueDb.Backend.Combine
import OpaqueDb.Planner.Planner
import OpaqueDb.Storage.Epoch

namespace OpaqueDb.Server

open OpaqueDb.Core Crypto Theory Backend Sql Planner Storage

set_option autoImplicit false

structure TableId where
  database : Bytes
  table : Bytes
  deriving DecidableEq, Repr

def kDefaultDatabase : Bytes := bytes "default"

/-- A node: its tables, its registered clients and its processors. -/
structure Engine where
  resultBuckets : Nat
  openCurrent : TableId → StatusOr Epoch
  hasKeys : Bytes → Bool
  hardwareConcurrency : Nat

/-! ## Reading the columns -/

def readKey (keyBits matchOffset : Nat) (row : Row) : StatusOr UInt64 :=
  let stride := keyRecordBytes keyBits
  if matchOffset + stride > row.match_.length then
    .error ⟨.dataLoss, bytes "match record is too short for the queried column's sub-key"⟩
  else unpackKey ((row.match_.drop matchOffset).take stride) keyBits

def buildColumns (epoch : Epoch) (matchOffset : Nat) : StatusOr (KeyColumn × PayloadColumns) := do
  let keys ← epoch.rows.mapM (readKey epoch.manifest.keyBits matchOffset)
  return (⟨epoch.manifest.keyBits, keys⟩,
    ⟨epoch.manifest.geometry.recordBytes, epoch.manifest.geometry.bytesPerSlot, epoch.rows.map Row.payload⟩)

/-! ## The engine -/

def kMaxOperands : Nat := 64

/-- The table of a request; an empty database is the default one. -/
def tableOf (database table : Bytes) : TableId :=
  ⟨if database.isEmpty then kDefaultDatabase else database, table⟩

def isPrimaryKey (schema : Schema) (index : Nat) : Bool :=
  (schema.columns.getD index { name := [] }).encoding == .eq

/-- Parse, plan and pin: the epoch a template is answered from and its plan. -/
def route (engine : Engine) (database sqlTemplate backendHint : Bytes) (epochVersion : Nat) :
    StatusOr (Epoch × PhysicalPlan) := do
  let statement ← parse sqlTemplate
  let logical ← buildLogicalPlan statement
  let epoch ← engine.openCurrent (tableOf database logical.table)
  if epochVersion ≠ 0 ∧ epoch.manifest.epochVersion ≠ epochVersion then
    .error ⟨.failedPrecondition, strCat ["shard is at epoch ",
      dec epoch.manifest.epochVersion, " but the query pinned ", dec epochVersion]⟩
  else do
    let physical ← plan registered epoch.manifest.schema logical backendHint
    if physical.projectionIndices.any (isPrimaryKey epoch.manifest.schema) then
      .error (unimplemented
        ["the primary key column is not projectable; it is matched, not returned"])
    else return (epoch, physical)

def evalContextFor (engine : Engine) (clientId : Bytes) : StatusOr Unit :=
  if engine.hasKeys clientId then .ok ()
  else .error ⟨.unauthenticated, strCat ["client '", clientId,
    "' has not registered keys"]⟩

variable (ctx : CryptoContext)

/-- The operands of a query, as many as the plan expects. -/
def receiveOperands (matchOperands : Nat) (encryptedParam : List (Ciphertext ctx)) :
    StatusOr (Ciphertext ctx × List (Ciphertext ctx)) :=
  if matchOperands = 0 ∨ matchOperands > kMaxOperands then
    .error (invalidArgument ["query has ", dec matchOperands,
      " match operands, supported range is [1, ", dec kMaxOperands, "]"])
  else do
    let operands ← deserializeCiphertexts ctx encryptedParam (u32 matchOperands)
    if operands.length ≠ matchOperands then
      .error (invalidArgument ["encrypted query has ", dec operands.length,
        " ciphertexts, expected ", dec matchOperands])
    else
      match operands with
      | [] => .error readPastEnd
      | query :: extra => return (query, extra)

structure ShardResult where
  backendName : Bytes
  partials : List (Ciphertext ctx)

variable {ctx}

def evaluateShard (engine : Engine) (clientId database sqlTemplate : Bytes)
    (encryptedParam : List (Ciphertext ctx)) (backendHint : Bytes) (epochVersion : Nat) :
    StatusOr (ShardResult ctx) :=
  if clientId.isEmpty then .error (invalidArgument ["client id is empty"])
  else do
    let (epoch, physical) ← route engine database sqlTemplate backendHint epochVersion
    evalContextFor engine clientId
    let (query, extra) ← receiveOperands ctx physical.matchOperands encryptedParam
    match epoch.manifest.schema.searchableRank physical.matchColumnIndex with
    | none => .error (internalError
        [bytes "planner routed a non-searchable column as the match column"])
    | some rank => do
      let (keys, payload) ← buildColumns epoch (rank * keyRecordBytes epoch.manifest.keyBits)
      let partials ← evaluate engine.hardwareConcurrency
        ⟨physical.op, query, extra, engine.resultBuckets⟩ keys payload
      return ⟨physical.backendName, partials⟩

/-- The combined planes as one result, or no result when there are none. -/
def combinePartials (engine : Engine) (clientId : Bytes)
    (shardPartials : List (List (Ciphertext ctx))) : StatusOr (List (List (Ciphertext ctx))) := do
  evalContextFor engine clientId
  let combined ← combine shardPartials
  return if combined.isEmpty then [] else [combined]

def execute (engine : Engine) (clientId database sqlTemplate : Bytes)
    (encryptedParam : List (Ciphertext ctx)) (backendHint : Bytes) :
    StatusOr (List (List (Ciphertext ctx))) := do
  let shard ← evaluateShard engine clientId database sqlTemplate encryptedParam backendHint 0
  combinePartials engine clientId [shard.partials]

/-! ## The columns of an epoch -/

/-- A record of `count` sub-keys has one at every rank below. -/
theorem readKey_of_length {keyBits count rank : Nat} {row : Row}
    (length : row.match_.length = count * keyRecordBytes keyBits) (ranked : rank < count) :
    readKey keyBits (rank * keyRecordBytes keyBits) row = .ok (row.subKey keyBits rank) := by
  have fits : rank * keyRecordBytes keyBits + keyRecordBytes keyBits ≤ row.match_.length := by
    rw [length, ← Nat.succ_mul]
    exact Nat.mul_le_mul_right _ ranked
  have sliced : ((row.match_.drop (rank * keyRecordBytes keyBits)).take
      (keyRecordBytes keyBits)).length = keyRecordBytes keyBits := by
    rw [List.length_take, List.length_drop]
    omega
  rw [readKey, if_neg (by omega), unpackKey, if_neg (by rw [sliced]; exact fun h => h rfl)]
  rfl

theorem readKey_eq {epoch : Epoch} {row : Row} (member : row ∈ epoch.rows) {rank : Nat}
    (ranked : rank < epoch.manifest.schema.searchableCount) :
    readKey epoch.manifest.keyBits (rank * keyRecordBytes epoch.manifest.keyBits) row =
      .ok (row.subKey epoch.manifest.keyBits rank) :=
  readKey_of_length (epoch.match_length row member) ranked

theorem buildColumns_eq (epoch : Epoch) {rank : Nat}
    (ranked : rank < epoch.manifest.schema.searchableCount) :
    buildColumns epoch (rank * keyRecordBytes epoch.manifest.keyBits) =
      .ok (⟨epoch.manifest.keyBits, epoch.keys rank⟩,
        ⟨epoch.manifest.geometry.recordBytes, epoch.manifest.geometry.bytesPerSlot, epoch.records⟩) := by
  have keys := mapM_eq_ok fun row member => readKey_eq member ranked
  rw [buildColumns, keys]
  rfl

/-- The columns of an epoch are what the matcher expects of them. -/
theorem epoch_columns (epoch : Epoch) (rank : Nat) {g : Geometry ctx} (small : g.keyBits ≤ 64)
    (keyBits : g.keyBits = epoch.manifest.keyBits)
    (recordBytes : g.recordBytes = epoch.manifest.geometry.recordBytes) :
    Columns g (epoch.keys rank) epoch.records where
  sameLength := by simp [Epoch.keys, Epoch.records]
  keysInside := by
    intro key member
    obtain ⟨row, _, rfl⟩ := List.mem_map.1 member
    rw [Row.subKey, ← keyBits, and_keyMask _ small]
    exact Nat.mod_lt _ (Nat.two_pow_pos _)
  whole := by
    intro record member
    obtain ⟨row, stored, rfl⟩ := List.mem_map.1 member
    rw [recordBytes]
    exact epoch.payload_length row stored

/-! ## An accepted request -/

/-- The node answers the template from this epoch, by `op` on the searchable column of
this rank, and expects this many operands. -/
structure Accepts (engine : Engine) (clientId database sqlTemplate backendHint : Bytes)
    (epoch : Epoch) (rank : Nat) (op : Op) (operands : Nat) : Prop where
  client : clientId ≠ []
  keys : engine.hasKeys clientId = true
  routed : ∃ physical, route engine database sqlTemplate backendHint 0 = .ok (epoch, physical) ∧
    physical.op = op ∧ physical.matchOperands = operands ∧
    epoch.manifest.schema.searchableRank physical.matchColumnIndex = some rank
  few : operands ≤ kMaxOperands

/-- What a routed template's plan is made of. -/
theorem route_eq_ok {engine : Engine} {database sqlTemplate backendHint : Bytes} {pinned : Nat}
    {epoch : Epoch} {physical : PhysicalPlan}
    (routed : route engine database sqlTemplate backendHint pinned = .ok (epoch, physical)) :
    ∃ logical, (parse sqlTemplate >>= buildLogicalPlan) = .ok logical ∧
      engine.openCurrent (tableOf database logical.table) = .ok epoch ∧
      plan registered epoch.manifest.schema logical backendHint = .ok physical := by
  obtain ⟨statement, parsed, routed₁⟩ := bind_eq_ok.1 routed
  obtain ⟨logical, built, routed₂⟩ := bind_eq_ok.1 routed₁
  obtain ⟨epoch', opened, routed₃⟩ := bind_eq_ok.1 routed₂
  split at routed₃
  · cases routed₃
  · obtain ⟨physical', planned, routed₄⟩ := bind_eq_ok.1 routed₃
    split at routed₄
    · cases routed₄
    · cases pure_eq_ok.1 routed₄
      exact ⟨logical, bind_eq_ok.2 ⟨statement, parsed, built⟩, opened, planned⟩

section Accepted

variable {engine : Engine} {clientId database sqlTemplate backendHint : Bytes} {epoch : Epoch}
  {rank : Nat} {op : Op} {operands : Nat}
  (accepts : Accepts engine clientId database sqlTemplate backendHint epoch rank op operands)
include accepts

theorem Accepts.equality : op = .eq ∨ op = .ne := by
  obtain ⟨physical, routed, rfl, _⟩ := accepts.routed
  obtain ⟨logical, _, _, planned⟩ := route_eq_ok routed
  rcases (plan_eq_ok planned).op with h | h
  · exact .inl h.1
  · exact .inr h.1

theorem Accepts.rank_lt : rank < epoch.manifest.schema.searchableCount := by
  obtain ⟨physical, routed, _, _, ranked⟩ := accepts.routed
  obtain ⟨logical, _, _, planned⟩ := route_eq_ok routed
  obtain ⟨found, known, below⟩ := (plan_eq_ok planned).rank
  rw [ranked] at known
  cases known
  exact below

/-- **The node's answer** is the matcher's, as one result or none. -/
theorem execute_eq {query : Ciphertext ctx} {extra : List (Ciphertext ctx)}
    (sent : (query :: extra).length = operands) {n : Nat} {answer : Option (Nat → Ciphertext ctx)}
    (evaluated : evaluate engine.hardwareConcurrency ⟨op, query, extra, engine.resultBuckets⟩
      ⟨epoch.manifest.keyBits, epoch.keys rank⟩
      ⟨epoch.manifest.geometry.recordBytes, epoch.manifest.geometry.bytesPerSlot, epoch.records⟩ =
        .ok (shardPartials n answer)) :
    execute engine clientId database sqlTemplate (query :: extra) backendHint =
      .ok (if (shardPartials n answer).isEmpty then [] else [shardPartials n answer]) := by
  obtain ⟨physical, routed, rfl, rfl, ranked⟩ := accepts.routed
  have few := accepts.few
  have several : ¬ (physical.matchOperands = 0 ∨ physical.matchOperands > kMaxOperands) := by
    rw [List.length_cons] at sent
    omega
  have word : u32 physical.matchOperands = physical.matchOperands := by
    apply u32_of_lt
    rw [kMaxOperands] at few
    omega
  have received : receiveOperands ctx physical.matchOperands (query :: extra) =
      .ok (query, extra) := by
    rw [receiveOperands, if_neg several, deserializeCiphertexts, word, sent, if_neg (lt_irrefl _)]
    show (if (query :: extra).length ≠ physical.matchOperands then _ else _) = _
    rw [if_neg (not_not.2 sent)]
    rfl
  have authorized : evalContextFor engine clientId = .ok () := by
    rw [evalContextFor, if_pos accepts.keys]
  have shard : evaluateShard engine clientId database sqlTemplate (query :: extra) backendHint 0 =
      .ok ⟨physical.backendName, shardPartials n answer⟩ := by
    rw [evaluateShard, if_neg (by simpa using accepts.client)]
    simp only [routed, authorized, received, ranked, buildColumns_eq epoch accepts.rank_lt,
      evaluated, bind, Except.bind]
    rfl
  rw [execute, shard]
  show combinePartials engine clientId [shardPartials n answer] = _
  rw [combinePartials, authorized, combine_single]
  rfl

end Accepted

end OpaqueDb.Server
