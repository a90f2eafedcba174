/-
# Server.Services -- the calls of a node

A node is a process with its client owners and its rate limits in memory, and with its keys
and its tables on disk.  Three services act on it: the clients' queries, the operator's
administration, and the calls of the other nodes.  A request comes in surroundings that the
node does not choose: the time, a fault of the disk, the peers and what they answer.

Each handler is a `Call`: what it changed before it failed stays changed.
-/
import OpaqueDb.Server.EvalCache
import OpaqueDb.Server.RepositoryManager
import OpaqueDb.Server.RequestGate
import OpaqueDb.Server.Writers
import OpaqueDb.Theory.Calls

namespace OpaqueDb.Server

open OpaqueDb.Core Config Crypto Theory Storage Auth Theory.Call
open Server.EvalCache (KeyMaterial KeyLoader)

set_option autoImplicit false

/-! ## The node and its surroundings -/

structure Node where
  config : Config
  gate : RequestGate
  clientOwner : Finmap fun _ : Bytes => Bytes := ∅
  keyring : Finmap fun _ : Bytes => KeyMaterial := ∅
  /-- The repositories, by the place of their root. -/
  repositories : Place Bytes → Repository
  /-- How often a query has been evaluated here. -/
  evaluations : Nat := 0

/-- The process starts again: the disk keeps the keys and the tables. -/
def Node.restart (node : Node) (gate : RequestGate) : Node where
  config := node.config
  gate
  keyring := node.keyring
  repositories := node.repositories
  evaluations := node.evaluations

inductive KeyKind where
  | publicKey
  | relinKeys
  | galoisKeys
  /-- Any other number. -/
  | unspecified
  deriving DecidableEq, Repr

/-- A part of a stream of keys, from a client or from another node. -/
structure KeyChunk where
  wireVersion : Nat
  clientId : Bytes
  kind : KeyKind
  data : Bytes
  deriving DecidableEq

/-- How the forwarding of keys to a peer ended: a write failed, or the call was finished. -/
inductive Forwarded where
  | broken
  | finished (status : StatusOr Unit)

structure ShardQuery (ctx : CryptoContext) where
  wireVersion : Nat
  clientId : Bytes
  sqlTemplate : Bytes
  encryptedParam : List (Ciphertext ctx)
  backend : Bytes
  epochVersion : Nat
  database : Bytes

/-- What a request meets: the libraries, the time, the disk under the keyring, and the peers, whose
own state is `P`. -/
structure Surroundings (ctx : CryptoContext) (P : Type) where
  lib : Library
  loader : KeyLoader
  hardwareConcurrency : Nat
  now : Rat
  putFault : Option Status
  peers : List Bytes
  epoch : Nat
  forward : Bytes → List KeyChunk → P → Forwarded × P
  evaluate : P → Bytes → ShardQuery ctx → StatusOr (List (Ciphertext ctx))

structure NodeWorld (P : Type) where
  node : Node
  peers : P

abbrev NodeCall (P : Type) := Call Status (NodeWorld P)

section Engine

variable {ctx : CryptoContext} {P : Type} (around : Surroundings ctx P)

/-- Where a table of this configuration lies. -/
def placeOf (config : Config) (id : TableId) : Place Bytes :=
  resolve (config.epochRootFor id.database id.table)

/-- The node as the evaluation sees it. -/
def Node.engine (node : Node) : Engine where
  resultBuckets := node.config.crypto.resultBuckets
  openCurrent id := (node.repositories (placeOf node.config id)).openCurrent
  hasKeys clientId := (node.keyring.lookup clientId).any fun keys =>
    (around.loader.loadKeys (bytes "reference") keys).isOk
  hardwareConcurrency := around.hardwareConcurrency

/-- A change of one repository. -/
def atRepository {α : Type} (place : Place Bytes) (f : Repository → StatusOr (α × Repository)) :
    NodeCall P α :=
  step fun world =>
    match f (world.node.repositories place) with
    | .error status => (.error status, world)
    | .ok (a, repo) => (.ok a, { world with node := { world.node with
        repositories := Function.update world.node.repositories place repo } })

/-- What a change of one repository that succeeds leaves there. -/
theorem atRepository_ok {α : Type} {place : Place Bytes} {f : Repository → StatusOr (α × Repository)}
    {world after : NodeWorld P} {a : α}
    (done : (atRepository place f).eval world = (.ok a, after)) :
    f (world.node.repositories place) = .ok (a, after.node.repositories place) := by
  rw [atRepository, eval_step] at done
  split at done
  · cases (Prod.mk.inj done).1
  · rename_i a' repo changed
    obtain ⟨same, rfl⟩ := Prod.mk.inj done
    cases same
    refine changed.trans (congrArg (fun repo => Except.ok (a, repo)) ?_)
    exact (Function.update_self place repo world.node.repositories).symm

/-- The keyring's file is written before the old one is replaced. -/
def putKeys (clientId : Bytes) (keys : KeyMaterial) : NodeCall P Unit :=
  step fun world =>
    if clientId.isEmpty then (.error (invalidArgument ["client id is empty"]), world)
    else
      match around.putFault with
      | some status => (.error status, world)
      | none => (.ok (), { world with node := { world.node with
          keyring := world.node.keyring.insert clientId keys } })

/-- The keys must load before they are stored. -/
def registerClient (clientId : Bytes) (keys : KeyMaterial) : NodeCall P Unit := do
  if clientId.isEmpty then lift (.error (invalidArgument ["client id is empty"]))
  lift (around.loader.loadKeyMaterial keys)
  putKeys around clientId keys

def evaluateShardHere (query : ShardQuery ctx) : NodeCall P (ShardResult ctx) := do
  change fun world =>
    { world with node := { world.node with evaluations := world.node.evaluations + 1 } }
  let world ← current
  lift (evaluateShard (world.node.engine around) query.clientId query.database query.sqlTemplate
    query.encryptedParam query.backend query.epochVersion)

def combinePartialsHere (clientId : Bytes) (shards : List (List (Ciphertext ctx))) :
    NodeCall P (List (List (Ciphertext ctx))) := do
  let world ← current
  lift (combinePartials (world.node.engine around) clientId shards)

def insertRow (database table : Bytes) (cells : List Bytes) : NodeCall P InsertResult := do
  if table.isEmpty then lift (.error (invalidArgument ["insert: table is required"]))
  let world ← current
  atRepository (placeOf world.node.config (tableOf database table)) fun repo =>
    insertRowAndPublish around.lib repo cells

structure ScanResult where
  totalRows : Nat
  rows : List Bytes
  deriving DecidableEq, Repr

def kScanRowCap : Nat := 10000

def scanEpoch (epoch : Epoch) (maxRows : Nat) : ScanResult where
  totalRows := epoch.rows.length
  rows := (epoch.rows.take (min (min maxRows kScanRowCap) epoch.rows.length)).map Row.payload

/-- A scan ends at the server's cap. -/
theorem scanEpoch_eq (epoch : Epoch) (maxRows : Nat) :
    scanEpoch epoch maxRows =
      ⟨epoch.rows.length, (epoch.rows.map Row.payload).take (min maxRows kScanRowCap)⟩ := by
  rw [scanEpoch, ← List.take_eq_take_min, List.map_take]

/-- The first rows of a table, in the clear. -/
def Node.scan (node : Node) (database table : Bytes) (maxRows : Nat) : StatusOr ScanResult := do
  if table.isEmpty then .error (invalidArgument ["scan: table is required"])
  let epoch ← (node.repositories (placeOf node.config (tableOf database table))).openCurrent
  return scanEpoch epoch maxRows

def Node.describeTable (node : Node) (database table : Bytes) : StatusOr Schema := do
  let epoch ← (node.repositories (placeOf node.config (tableOf database table))).openCurrent
  return epoch.manifest.schema

end Engine

/-! ## Parts the services share -/

def kWireVersion : Nat := 1

def checkWireVersion (version : Nat) : StatusOr Unit :=
  if version = kWireVersion then .ok ()
  else .error ⟨.failedPrecondition, strCat ["wire version ", dec version,
    " not supported"]⟩

/-- The keys with one more piece of one kind. -/
def appendKeys (keys : KeyMaterial) (data : Bytes) : KeyKind → Option KeyMaterial
  | .publicKey => some { keys with publicKey := keys.publicKey ++ data }
  | .relinKeys => some { keys with relinKeys := keys.relinKeys ++ data }
  | .galoisKeys => some { keys with galoisKeys := keys.galoisKeys ++ data }
  | .unspecified => none

/-- One chunk of a stream called `what`, after those that have been seen. -/
def readChunk (what : Bytes) (seen : Option (Bytes × KeyMaterial)) (chunk : KeyChunk) :
    StatusOr (Option (Bytes × KeyMaterial)) := do
  checkWireVersion chunk.wireVersion
  if chunk.clientId.isEmpty then
    .error (invalidArgument [what, " chunk has empty client id"])
  else
    let (clientId, keys) := seen.getD (chunk.clientId, ⟨[], [], []⟩)
    if chunk.clientId ≠ clientId then
      .error (invalidArgument [what, " chunks disagree on the client id"])
    else
      match appendKeys keys chunk.data chunk.kind with
      | none => .error (invalidArgument [what, " chunk has an unspecified key kind"])
      | some keys => return some (clientId, keys)

/-- The client and the keys of a stream. -/
def collectKeys (what : Bytes) (chunks : List KeyChunk) : StatusOr (Bytes × KeyMaterial) := do
  match ← chunks.foldlM (readChunk what) none with
  | none => .error (invalidArgument [what, " stream carried no chunks"])
  | some found => return found

section Gate

variable {ctx : CryptoContext} {P : Type} (around : Surroundings ctx P)

def checkGate (context : ServerContext) (required : Role) : NodeCall P Principal :=
  step fun world =>
    let (result, gate) := world.node.gate.check (extractAuthInputs context) required around.now
    (result, { world with node := { world.node with gate } })

end Gate

/-! ## The clients' service -/

namespace QueryService

variable {ctx : CryptoContext} {P : Type} (around : Surroundings ctx P)

def otherPrincipal : Status :=
  ⟨.permissionDenied, bytes "client id is registered to another principal"⟩

/-- A client id belongs to the principal that registered it first. -/
def checkClientOwnership (clientId principalId : Bytes) (claim : Bool) : NodeCall P Unit :=
  step fun world =>
    match world.node.clientOwner.lookup clientId with
    | some owner => (if owner = principalId then .ok () else .error otherPrincipal, world)
    | none =>
      (.ok (), if claim then { world with node := { world.node with
        clientOwner := world.node.clientOwner.insert clientId principalId } } else world)

def kChunkBytes : Nat := 4 * 1024 * 1024

/-- A key in pieces of the size of a chunk; an empty one has none. -/
def pieces (data : Bytes) : List Bytes :=
  if data = [] then [] else data.take kChunkBytes :: pieces (data.drop kChunkBytes)
termination_by data.length
decreasing_by
  rename_i some_
  have := List.length_pos_iff.2 some_
  rw [List.length_drop, kChunkBytes]
  omega

def forwardKey (clientId : Bytes) (kind : KeyKind) (data : Bytes) : List KeyChunk :=
  (pieces data).map fun piece => ⟨kWireVersion, clientId, kind, piece⟩

/-- The stream that carries a client's keys to a peer. -/
def keyStream (clientId : Bytes) (keys : KeyMaterial) : List KeyChunk :=
  forwardKey clientId .publicKey keys.publicKey ++ forwardKey clientId .relinKeys keys.relinKeys ++
    forwardKey clientId .galoisKeys keys.galoisKeys

def forwardTo (peer clientId : Bytes) (keys : KeyMaterial) : NodeCall P Unit :=
  step fun world =>
    let (forwarded, peers) := around.forward peer (keyStream clientId keys) world.peers
    (match forwarded with
      | .broken => .error ⟨.unavailable, strCat ["failed to distribute keys to ", peer]⟩
      | .finished (.error status) => .error ⟨.unavailable,
          strCat ["failed to distribute keys to ", peer, ": ", status.message]⟩
      | .finished (.ok ()) => .ok (), { world with peers })

/-- The peers get the keys one after the other; the first failure ends the call. -/
def distribute (clientId : Bytes) (keys : KeyMaterial) : List Bytes → NodeCall P Unit
  | [] => return
  | peer :: rest => do
    forwardTo around peer clientId keys
    distribute clientId keys rest

/-- The client id is claimed before the keys are looked at, and the peers come last. -/
def register (context : ServerContext) (chunks : List KeyChunk) : NodeCall P Bytes := do
  let principal ← checkGate around context .query
  let (clientId, keys) ← lift (collectKeys (bytes "register") chunks)
  checkClientOwnership clientId principal.id true
  registerClient around clientId keys
  distribute around clientId keys around.peers
  return clientId

structure QueryRequest (ctx : CryptoContext) where
  wireVersion : Nat
  clientId : Bytes
  sqlTemplate : Bytes
  encryptedParam : List (Ciphertext ctx)
  backend : Bytes
  database : Bytes

/-- The same query for every shard, pinned to one epoch. -/
def QueryRequest.pinned (request : QueryRequest ctx) (epochVersion : Nat) : ShardQuery ctx where
  wireVersion := kWireVersion
  clientId := request.clientId
  sqlTemplate := request.sqlTemplate
  encryptedParam := request.encryptedParam
  backend := request.backend
  epochVersion
  database := request.database

/-- `QueryCoordinator::Execute`: this node's shard and every peer's, all or nothing. -/
def coordinate (query : ShardQuery ctx) : NodeCall P (List (List (Ciphertext ctx))) := do
  let shard ← evaluateShardHere around query
  let world ← current
  let others ← lift (around.peers.mapM fun peer => around.evaluate world.peers peer query)
  combinePartialsHere around query.clientId (shard.partials :: others)

/-- `Engine::Execute`: this node alone, at whatever epoch it is. -/
def executeHere (query : ShardQuery ctx) : NodeCall P (List (List (Ciphertext ctx))) := do
  let shard ← evaluateShardHere around query
  combinePartialsHere around query.clientId [shard.partials]

def execute (context : ServerContext) (request : QueryRequest ctx) :
    NodeCall P (List (List (Ciphertext ctx))) := do
  let principal ← checkGate around context .query
  lift (checkWireVersion request.wireVersion)
  checkClientOwnership request.clientId principal.id false
  if around.peers.isEmpty then executeHere around (request.pinned 0)
  else coordinate around (request.pinned around.epoch)

structure InsertRequest where
  wireVersion : Nat
  database : Bytes
  table : Bytes
  values : List Bytes
  deriving DecidableEq, Repr

def insert (context : ServerContext) (request : InsertRequest) : NodeCall P InsertResult := do
  let _ ← checkGate around context .admin
  lift (checkWireVersion request.wireVersion)
  insertRow around request.database request.table request.values

structure ScanRequest where
  wireVersion : Nat
  database : Bytes
  table : Bytes
  maxRows : Nat
  deriving DecidableEq, Repr

def notOnCluster : Status :=
  unimplemented ["full-table scan (SELECT with no WHERE) is not yet supported on a ",
    "sharded cluster; add a WHERE clause or query a single-node ", "deployment"]

def scan (context : ServerContext) (request : ScanRequest) : NodeCall P ScanResult := do
  let _ ← checkGate around context .query
  lift (checkWireVersion request.wireVersion)
  if around.peers.isEmpty then do
    let world ← current
    lift (world.node.scan request.database request.table request.maxRows)
  else lift (.error notOnCluster)

structure DescribeRequest where
  wireVersion : Nat
  database : Bytes
  table : Bytes
  deriving DecidableEq, Repr

def describeTable (context : ServerContext) (request : DescribeRequest) : NodeCall P Schema := do
  let _ ← checkGate around context .query
  lift (checkWireVersion request.wireVersion)
  let world ← current
  lift (world.node.describeTable request.database request.table)

end QueryService

/-! ## The service of the other nodes -/

namespace ShardService

variable {ctx : CryptoContext} {P : Type} (around : Surroundings ctx P) (requirePeerCert : Bool)

def authorizePeer (context : ServerContext) : StatusOr Unit :=
  if requirePeerCert ∧ ((extractAuthInputs context).peerIdentity.getD []).isEmpty then
    .error ⟨.permissionDenied, bytes "node-to-node RPC requires a verified cluster certificate"⟩
  else .ok ()

def evaluate (context : ServerContext) (query : ShardQuery ctx) : NodeCall P (List (Ciphertext ctx)) := do
  lift (authorizePeer requirePeerCert context)
  lift (checkWireVersion query.wireVersion)
  let shard ← evaluateShardHere around query
  return shard.partials

/-- The keys a coordinator forwards; whose client it is, is not asked. -/
def registerKeys (context : ServerContext) (chunks : List KeyChunk) : NodeCall P Bytes := do
  lift (authorizePeer requirePeerCert context)
  let (clientId, keys) ← lift (collectKeys (bytes "key upload") chunks)
  registerClient around clientId keys
  return clientId

end ShardService

/-! ## The operator's service -/

/-- `CURRENT` moves to a version that opens. -/
def Repository.rollback (repo : Repository) (version : Nat) : StatusOr Repository := do
  let _ ← repo.openVersion version
  return { repo with currentVersion := .ok version }

/-- The next version, published. -/
def Repository.publishNext (repo : Repository) (staging : StagingEpoch) :
    StatusOr (Nat × Repository) := do
  let next := after repo.currentVersion
  let published ← repo.publish staging next
  return (next, published)

theorem publishNext_opens {repo repo' : Repository} {staging : StagingEpoch} {version : Nat}
    (published : repo.publishNext staging = .ok (version, repo')) :
    repo'.openCurrent = .ok (staging.published version) := by
  obtain ⟨_, done, last⟩ := bind_eq_ok.1 published
  cases pure_eq_ok.1 last
  exact publish_opens done

namespace AdminGrpcService

variable {ctx : CryptoContext} {P : Type} (around : Surroundings ctx P)

/-- The one repository the operator's calls act on. -/
def adminPlace (config : Config) : Place Bytes :=
  resolve config.effectiveEpochDir

def admitAdmin (context : ServerContext) (wireVersion : Nat) : NodeCall P Unit := do
  lift (checkWireVersion wireVersion)
  let _ ← checkGate around context .admin
  return

/-- The operator's repository, for a call that only reads it. -/
def adminRepository (context : ServerContext) (wireVersion : Nat) : NodeCall P Repository := do
  admitAdmin around context wireVersion
  let world ← current
  return world.node.repositories (adminPlace world.node.config)

structure NodeStatus where
  nodeId : Bytes
  role : Bytes
  epochVersion : Option Nat
  rowCount : Nat
  authMode : AuthMode
  backends : List Bytes

def statusOf (config : Config) (repo : Repository) : NodeStatus where
  nodeId := config.node.id
  role := bytes "standalone"
  epochVersion := repo.currentVersion.toOption
  rowCount := (repo.openCurrent.toOption.map fun epoch => epoch.rows.length).getD 0
  authMode := config.auth.mode
  backends := Planner.registered.map fun backend => backend.name

def status (context : ServerContext) (wireVersion : Nat) : NodeCall P NodeStatus := do
  let repo ← adminRepository around context wireVersion
  let world ← current
  return statusOf world.node.config repo

def inspectSchema (context : ServerContext) (wireVersion : Nat) : NodeCall P Schema := do
  let repo ← adminRepository around context wireVersion
  let epoch ← lift repo.openCurrent
  return epoch.manifest.schema

/-- The versions in ascending order, and the current one. -/
def listEpochs (context : ServerContext) (wireVersion : Nat) : NodeCall P (List Nat × Option Nat) := do
  let repo ← adminRepository around context wireVersion
  return ((repo.epochs.map fun epoch => epoch.manifest.epochVersion).insertionSort (· ≤ ·),
    repo.currentVersion.toOption)

def rollbackEpoch (context : ServerContext) (wireVersion version : Nat) : NodeCall P Nat := do
  admitAdmin around context wireVersion
  let world ← current
  atRepository (adminPlace world.node.config) fun repo => do
    let rolled ← repo.rollback version
    return (version, rolled)

structure LoadChunk where
  wireVersion : Nat
  table : Bytes
  keyColumn : Bytes
  valueColumn : Bytes
  key : UInt64
  value : Bytes
  deriving DecidableEq

def LoadChunk.row (chunk : LoadChunk) : IngestRow :=
  ⟨.int chunk.key.toInt64, [.text chunk.value]⟩

/-- The schema of a loaded table: an integer key and a text. -/
def LoadChunk.schema (chunk : LoadChunk) : Schema :=
  ⟨chunk.table, [⟨chunk.keyColumn, .eq, .int⟩, ⟨chunk.valueColumn, .raw, .text⟩]⟩

/-- A chunk behind the first one. -/
def followsHeader (first chunk : LoadChunk) : StatusOr IngestRow :=
  if chunk.wireVersion ≠ kWireVersion then .error ⟨.failedPrecondition, bytes "bad wire version"⟩
  else if chunk.table ≠ first.table ∨ chunk.keyColumn ≠ first.keyColumn ∨
      chunk.valueColumn ≠ first.valueColumn then
    .error (invalidArgument ["load chunks disagree on the table or columns"])
  else .ok chunk.row

/-- The version and the number of rows of a loaded table; the first chunk names it. -/
def load (context : ServerContext) (chunks : List LoadChunk) : NodeCall P (Nat × Nat) :=
  match chunks with
  | [] => lift (.error (invalidArgument ["load stream carried no chunks"]))
  | first :: rest => do
    if first.wireVersion ≠ kWireVersion then
      lift (.error ⟨.failedPrecondition, bytes "bad wire version"⟩)
    admitAdmin around context first.wireVersion
    let rows ← lift (rest.mapM (followsHeader first))
    let world ← current
    let staging ← lift
      (buildStagingFromRows world.node.config first.schema (first.row :: rows))
    let version ← atRepository (adminPlace world.node.config) fun repo => repo.publishNext staging
    return (version, rows.length + 1)

def listPrincipals (context : ServerContext) (wireVersion : Nat) : NodeCall P (Finset Bytes) := do
  admitAdmin around context wireVersion
  let world ← current
  return world.node.keyring.keys

end AdminGrpcService

end OpaqueDb.Server
