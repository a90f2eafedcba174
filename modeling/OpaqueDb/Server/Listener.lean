/-
# Server.Listener -- the services a listener offers

The client-facing listener carries the clients' service and the operator's service, and the
service of the other nodes too, unless `cluster.listen` gives that one a listener of its own.
The first two ask the gate before they do anything.  The third asks for a certificate of the
transport, and on a shared listener it does so only in mtls mode.

* `serve_refused`: what the gate guards is closed to a caller without credentials.
* `no_service_iff`: in token mode the listener as a whole is closed to such callers exactly if
  the other nodes' service has its own listener.
-/
import OpaqueDb.Server.Ownership

namespace OpaqueDb.Server.Listener

open OpaqueDb.Core Config Crypto Theory Auth Server.AdminGrpcService Server.QueryService Theory.Call
open Server.EvalCache (KeyMaterial KeyLoader)
open Server.Ownership

set_option autoImplicit false

/-! ## Requests -/

/-- A call of any service. -/
inductive Rpc (ctx : CryptoContext) where
  | register (chunks : List KeyChunk)
  | execute (request : QueryService.QueryRequest ctx)
  | insert (request : QueryService.InsertRequest)
  | describeTable (request : QueryService.DescribeRequest)
  | scan (request : QueryService.ScanRequest)
  | status (wireVersion : Nat)
  | inspectSchema (wireVersion : Nat)
  | listEpochs (wireVersion : Nat)
  | rollbackEpoch (wireVersion version : Nat)
  | load (chunks : List AdminGrpcService.LoadChunk)
  | listPrincipals (wireVersion : Nat)
  | evaluate (query : ShardQuery ctx)
  | registerKeys (chunks : List KeyChunk)

variable {ctx : CryptoContext} {P : Type}

def Rpc.Reply : Rpc ctx → Type
  | .register _ => Bytes
  | .execute _ => List (List (Ciphertext ctx))
  | .insert _ => InsertResult
  | .describeTable _ => Schema
  | .scan _ => ScanResult
  | .status _ => AdminGrpcService.NodeStatus
  | .inspectSchema _ => Schema
  | .listEpochs _ => List Nat × Option Nat
  | .rollbackEpoch _ _ => Nat
  | .load _ => Nat × Nat
  | .listPrincipals _ => Finset Bytes
  | .evaluate _ => List (Ciphertext ctx)
  | .registerKeys _ => Bytes

/-! ## The listener -/

def separateCluster (config : Config) : Bool :=
  !config.cluster.listen.isEmpty

def hasClusterMtls (config : Config) : Bool :=
  !config.cluster.tlsCert.isEmpty && !config.cluster.tlsKey.isEmpty && !config.cluster.caCert.isEmpty

def requirePeerCert (config : Config) : Bool :=
  if separateCluster config then hasClusterMtls config else config.auth.mode = .mtls

/-- What the transport answers for a service it does not have. -/
def notRegistered : Status :=
  ⟨.unimplemented, []⟩

/-- A call of the other nodes' service, where the listener has it. -/
def shared {α : Type} (call : Config → NodeCall P α) : NodeCall P α := do
  let world ← current
  if separateCluster world.node.config then lift (.error notRegistered)
  else call world.node.config

/-- The client-facing listener. -/
def serve (around : Surroundings ctx P) (context : ServerContext) :
    (rpc : Rpc ctx) → NodeCall P rpc.Reply
  | .register chunks => register around context chunks
  | .execute request => QueryService.execute around context request
  | .insert request => QueryService.insert around context request
  | .describeTable request => describeTable around context request
  | .scan request => scan around context request
  | .status wireVersion => status around context wireVersion
  | .inspectSchema wireVersion => inspectSchema around context wireVersion
  | .listEpochs wireVersion => listEpochs around context wireVersion
  | .rollbackEpoch wireVersion version =>
    rollbackEpoch around context wireVersion version
  | .load chunks => load around context chunks
  | .listPrincipals wireVersion => listPrincipals around context wireVersion
  | .evaluate query => shared fun config =>
    ShardService.evaluate around (requirePeerCert config) context query
  | .registerKeys chunks => shared fun config =>
    ShardService.registerKeys around (requirePeerCert config) context chunks

/-- A request on its way, with what it will meet. -/
structure Sent (ctx : CryptoContext) (P : Type) where
  around : Surroundings ctx P
  context : ServerContext
  rpc : Rpc ctx

def deliver (world : NodeWorld P) (sent : Sent ctx P) : NodeWorld P :=
  ((serve sent.around sent.context sent.rpc).eval world).2

def run (world : NodeWorld P) (sent : List (Sent ctx P)) : NodeWorld P :=
  sent.foldl deliver world

/-- The node runs with an accepted configuration and the authenticator made from it. -/
structure Started (node : Node) : Prop where
  valid : validate node.config = .ok ()
  authenticator : ∃ lines, makeAuthenticator node.config.auth lines = .ok node.gate.authenticator

/-- The token is one of the file's. -/
def Valid (node : Node) (token : Bytes) : Prop :=
  ∃ tokens, node.gate.authenticator = .token tokens ∧ ∃ entry ∈ tokens, entry.token = token

/-- Neither a valid token nor a verified certificate. -/
structure Anonymous (node : Node) (context : ServerContext) : Prop where
  token : ∀ token, (extractAuthInputs context).bearerToken = some token → ¬ Valid node token
  certificate : context.peerIdentity = []

/-- No keys, no owner and no table has changed, and no query was evaluated. -/
structure Untouched (before after : NodeWorld P) : Prop where
  keyring : after.node.keyring = before.node.keyring
  owners : after.node.clientOwner = before.node.clientOwner
  repositories : after.node.repositories = before.node.repositories
  evaluations : after.node.evaluations = before.node.evaluations

/-! ## Behind the gate -/

variable {around : Surroundings ctx P} {world : NodeWorld P} {context : ServerContext}

theorem token_authenticator (started : Started world.node)
    (mode : world.node.config.auth.mode = .token) :
    ∃ tokens, world.node.gate.authenticator = .token tokens := by
  obtain ⟨lines, made⟩ := started.authenticator
  rw [makeAuthenticator, mode] at made
  obtain ⟨tokens, _, made⟩ := bind_eq_ok.1 made
  exact ⟨tokens, (pure_eq_ok.1 made).symm⟩

/-- The gate turns the caller away, whatever role is asked for. -/
theorem anonymous_refused {tokens : List Known}
    (known : world.node.gate.authenticator = .token tokens)
    (anonymous : Anonymous world.node context) (required : Role) :
    ∃ status, authorize world.node.gate.authenticator (extractAuthInputs context) required =
      .error status := by
  rw [known, authorize, authenticate]
  cases presented : (extractAuthInputs context).bearerToken.filter fun token => !token.isEmpty with
  | none => exact ⟨_, rfl⟩
  | some token =>
    cases found : findToken tokens token with
    | none =>
      simp only [found]
      exact ⟨_, rfl⟩
    | some principal =>
      obtain ⟨entry, listed, same, _⟩ := findToken_mem found
      have bearer := (Option.filter_eq_some_iff.1 presented).1
      exact absurd ⟨tokens, known, entry, listed, same⟩ (anonymous.token token bearer)

variable {α : Type}

section Refused

variable (refused : ∀ required, ∃ status,
  authorize world.node.gate.authenticator (extractAuthInputs context) required = .error status)
include refused

variable (required : Role)

theorem checkGate_refused :
    ∃ status, (checkGate around context required).eval world = (.error status, world) := by
  obtain ⟨status, denied⟩ := refused required
  refine ⟨status, ?_⟩
  simp [checkGate, RequestGate.check_of_error denied]

theorem behind_gate (rest : Principal → NodeCall P α) :
    ∃ status, (checkGate around context required >>= rest).eval world = (.error status, world) := by
  obtain ⟨status, denied⟩ := checkGate_refused refused required
  exact ⟨status, eval_bind_error denied rest⟩

variable (wireVersion : Nat)

theorem behind_admin (rest : Unit → NodeCall P α) :
    ∃ status, (admitAdmin around context wireVersion >>= rest).eval world =
      (.error status, world) := by
  have closed : ∃ status, (admitAdmin around context wireVersion).eval world =
      (.error status, world) := by
    unfold admitAdmin
    cases version : checkWireVersion wireVersion with
    | error status => exact ⟨status, rfl⟩
    | ok u =>
      obtain ⟨status, denied⟩ := behind_gate refused .admin (fun _ => (pure () : NodeCall P Unit))
      exact ⟨status, (eval_bind_ok rfl _).trans denied⟩
  obtain ⟨status, denied⟩ := closed
  exact ⟨status, eval_bind_error denied rest⟩

theorem behind_repository (rest : Repository → NodeCall P α) :
    ∃ status, (adminRepository around context wireVersion >>= rest).eval world =
      (.error status, world) := by
  have closed : ∃ status, (adminRepository around context wireVersion).eval world =
      (.error status, world) := behind_admin refused wireVersion _
  obtain ⟨status, denied⟩ := closed
  exact ⟨status, eval_bind_error denied rest⟩

omit refused in
theorem shared_separate (separate : separateCluster world.node.config = true)
    (call : Config → NodeCall P α) : (shared call).eval world = (.error notRegistered, world) := by
  rw [shared, eval_bind_ok (eval_current world), if_pos separate]
  rfl

/-- **What the gate guards is closed** to a refused caller: nothing changes, not even a counter of
the gate. -/
theorem serve_refused (around : Surroundings ctx P)
    (separate : separateCluster world.node.config = true) (rpc : Rpc ctx) :
    ∃ status, (serve around context rpc).eval world = (.error status, world) := by
  cases rpc with
  | register chunks => exact behind_gate refused .query _
  | execute request => exact behind_gate refused .query _
  | insert request => exact behind_gate refused .admin _
  | describeTable request => exact behind_gate refused .query _
  | scan request => exact behind_gate refused .query _
  | status wireVersion => exact behind_repository refused wireVersion _
  | inspectSchema wireVersion => exact behind_repository refused wireVersion _
  | listEpochs wireVersion => exact behind_repository refused wireVersion _
  | rollbackEpoch wireVersion version => exact behind_admin refused wireVersion _
  | load chunks =>
    cases chunks with
    | nil => exact ⟨_, rfl⟩
    | cons first rest =>
      rw [serve, AdminGrpcService.load]
      split
      · exact ⟨_, rfl⟩
      · exact behind_admin refused first.wireVersion _
  | listPrincipals wireVersion => exact behind_admin refused wireVersion _
  | evaluate query =>
    rw [serve]
    exact ⟨_, shared_separate separate _⟩
  | registerKeys chunks =>
    rw [serve]
    exact ⟨_, shared_separate separate _⟩

end Refused

/-- Callers without credentials leave everything as it is, if the other nodes call elsewhere. -/
theorem run_anonymous (started : Started world.node) (mode : world.node.config.auth.mode = .token)
    (separate : separateCluster world.node.config = true) {sent : List (Sent ctx P)}
    (anonymous : ∀ s ∈ sent, Anonymous world.node s.context) : run world sent = world := by
  obtain ⟨tokens, known⟩ := token_authenticator started mode
  induction sent with
  | nil => rfl
  | cons s sent ih =>
    obtain ⟨status, refused⟩ := serve_refused
      (anonymous_refused known (anonymous s List.mem_cons_self)) s.around separate s.rpc
    have kept : deliver world s = world := congrArg Prod.snd refused
    rw [run, List.foldl_cons, kept]
    exact ih fun s' member => anonymous s' (List.mem_cons_of_mem s member)

/-! ## Around the gate -/

theorem shared_open (open_ : separateCluster world.node.config = false)
    (call : Config → NodeCall P α) :
    (shared call).eval world = (call world.node.config).eval world := by
  rw [shared, eval_bind_ok (eval_current world), open_]
  rfl

/-- Surroundings in which two clients' keys load. -/
def twoKeys (ctx : CryptoContext) (P : Type) : Surroundings ctx P where
  lib := strictLibrary
  loader := twoKeysLoader
  hardwareConcurrency := 1
  now := 0
  putFault := none
  peers := []
  epoch := 0
  forward _ _ peers := (.broken, peers)
  evaluate _ _ _ := .ok []

/-- Keys from nobody. -/
def strangersKeys (ctx : CryptoContext) (P : Type) (byte : UInt8) : Sent ctx P where
  around := twoKeys ctx P
  context := {}
  rpc := .registerKeys (sampleChunks byte)

variable (node : Node)

theorem stranger_anonymous (byte : UInt8) : Anonymous node (strangersKeys ctx P byte).context :=
  ⟨fun token presented => (by cases presented), rfl⟩

/-- Where no certificate is asked for, the keys are stored. -/
theorem registerKeys_unchecked (world : NodeWorld P) {byte : UInt8} (known : byte = 1 ∨ byte = 2) :
    (ShardService.registerKeys (twoKeys ctx P) false {} (sampleChunks byte)).eval world =
      (.ok (bytes "c"), { world with node := { world.node with
        keyring := world.node.keyring.insert (bytes "c") (sampleKeys byte) } }) := by
  have put : (registerClient (twoKeys ctx P) (bytes "c") (sampleKeys byte)).eval world = _ :=
    registerClient_eval (by decide) ⟨by rcases known with rfl | rfl <;> rfl, rfl⟩ world
  refine (eval_bind_ok rfl _).trans ((eval_bind_ok rfl _).trans ?_)
  exact eval_bind_ok put _

/-- On a shared listener in token mode none is asked for. -/
theorem stranger_stores (mode : world.node.config.auth.mode = .token)
    (open_ : separateCluster world.node.config = false) {byte : UInt8} (known : byte = 1 ∨ byte = 2) :
    (serve (twoKeys ctx P) {} (.registerKeys (sampleChunks byte))).eval world =
      (.ok (bytes "c"), { world with node := { world.node with
        keyring := world.node.keyring.insert (bytes "c") (sampleKeys byte) } }) := by
  have unchecked : requirePeerCert world.node.config = false := by
    rw [requirePeerCert, open_, mode]
    rfl
  rw [serve]
  refine (shared_open open_ _).trans ?_
  rw [unchecked]
  exact registerKeys_unchecked world known

/-- **No service without credentials.**  In token mode, callers with neither a valid token nor a
verified certificate leave the keys, the owners and the tables of a started node as they are and
have no query evaluated, whatever they send, if and only if `cluster.listen` is set. -/
theorem no_service_iff (started : Started world.node) (mode : world.node.config.auth.mode = .token) :
    (∀ sent : List (Sent ctx P), (∀ s ∈ sent, Anonymous world.node s.context) →
      Untouched world (run world sent)) ↔ world.node.config.cluster.listen ≠ [] := by
  constructor
  · intro closed shared
    have open_ : separateCluster world.node.config = false := by
      rw [separateCluster, shared]
      rfl
    -- of two keys at least one is not the client's already
    obtain ⟨byte, known, new⟩ : ∃ byte : UInt8, (byte = 1 ∨ byte = 2) ∧
        world.node.keyring.lookup (bytes "c") ≠ some (sampleKeys byte) := by
      by_contra all
      push Not at all
      have differ := (all 1 (.inl rfl)).symm.trans (all 2 (.inr rfl))
      revert differ
      decide
    have untouched := closed [strangersKeys ctx P byte] (fun s member => by
      rw [List.mem_singleton.1 member]
      exact stranger_anonymous _ byte)
    have same : (deliver world (strangersKeys ctx P byte)).node.keyring = world.node.keyring :=
      untouched.keyring
    have stored : deliver world (strangersKeys ctx P byte) = _ :=
      congrArg Prod.snd (stranger_stores mode open_ known)
    rw [stored] at same
    apply new
    rw [← same]
    exact Finmap.lookup_insert _
  · intro separate sent anonymous
    have separate : separateCluster world.node.config = true := by
      simpa [separateCluster] using separate
    rw [run_anonymous started mode separate anonymous]
    exact ⟨rfl, rfl, rfl, rfl⟩

/-- A node whose other nodes call elsewhere. -/
def guardedNode : Node where
  config := { cluster := { listen := bytes "10.0.0.1:7001" } }
  gate := .new twoTokens 10 20 0
  repositories := unpublished

theorem started_of_lines (valid : validate node.config = .ok ()) (mode : node.config.auth = {})
    (tokens : node.gate.authenticator = twoTokens) : Started node := by
  refine ⟨valid, some [bytes "alice query s1", bytes "bob query s2"], ?_⟩
  rw [mode, tokens]
  decide

theorem no_service_guarded : Started guardedNode ∧
    ∀ sent : List (Sent Backend.defaultContext Unit),
      (∀ s ∈ sent, Anonymous guardedNode s.context) →
        Untouched ⟨guardedNode, ()⟩ (run ⟨guardedNode, ()⟩ sent) := by
  have started : Started guardedNode := started_of_lines guardedNode (by decide) rfl rfl
  refine ⟨started, ?_⟩
  exact (@no_service_iff Backend.defaultContext Unit ⟨guardedNode, ()⟩ started rfl).2 (by decide)

/-- With the default configuration a caller without any credentials replaces a client's keys. -/
theorem stranger_replaces_keys :
    let world : NodeWorld Unit := ⟨{ bareNode with keyring :=
      (∅ : Finmap fun _ : Bytes => KeyMaterial).insert (bytes "c") (sampleKeys 2) }, ()⟩
    let sent := strangersKeys Backend.defaultContext Unit 1
    validate world.node.config = .ok () ∧ world.node.config.auth.mode = .token ∧
      Anonymous world.node sent.context ∧
      ((serve sent.around sent.context sent.rpc).eval world).1 = .ok (bytes "c") ∧
      (run world [sent]).node.keyring.lookup (bytes "c") = some (sampleKeys 1) := by
  intro world sent
  have stores : (serve sent.around sent.context sent.rpc).eval world = _ :=
    stranger_stores rfl rfl (.inl rfl)
  refine ⟨validate_default, rfl, stranger_anonymous _ 1, congrArg Prod.fst stores, ?_⟩
  show ((serve sent.around sent.context sent.rpc).eval world).2.node.keyring.lookup _ = _
  rw [stores]
  exact Finmap.lookup_insert _

end OpaqueDb.Server.Listener
