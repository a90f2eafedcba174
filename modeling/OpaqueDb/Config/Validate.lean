/-
# Config.Validate -- the configurations a node or a client accepts

`validate` runs its checks in order and returns the first that fails
(`firstFailure`).  `Accepted` is what the crypto and storage checks establish; the
matcher's geometry is built from it.
-/
import OpaqueDb.Core.Text
import OpaqueDb.Theory.Radix

namespace OpaqueDb.Config

open OpaqueDb.Core Theory

set_option autoImplicit false

set_option linter.dupNamespace false

inductive AuthMode where
  | token
  | mtls
  | none
  deriving DecidableEq, Repr

inductive LogFormat where
  | json
  | text
  deriving DecidableEq, Repr

structure NodeConfig where
  id : Bytes := []
  dataDir : Bytes := bytes "/var/lib/opaquedb"
  deriving DecidableEq, Repr

structure ClusterConfig where
  enabled : Bool := false
  etcdEndpoints : List Bytes := [bytes "http://127.0.0.1:2379"]
  leaderKey : Bytes := bytes "/opaquedb/leader"
  etcdUsername : Bytes := []
  etcdPassword : Bytes := []
  etcdCaCert : Bytes := []
  etcdClientCert : Bytes := []
  etcdClientKey : Bytes := []
  etcdTlsName : Bytes := []
  listen : Bytes := []
  advertise : Bytes := []
  tlsCert : Bytes := []
  tlsKey : Bytes := []
  caCert : Bytes := []
  allowInsecure : Bool := false
  deriving DecidableEq, Repr

structure ServerConfig where
  listen : Bytes := bytes "0.0.0.0:50051"
  advertise : Bytes := []
  maxMessageBytes : Nat := 67108864
  tlsCert : Bytes := []
  tlsKey : Bytes := []
  rateLimitPerSecond : Nat := 2000
  rateLimitBurst : Nat := 2000
  deriving DecidableEq, Repr

structure ClientConfig where
  caCert : Bytes := []
  tlsCert : Bytes := []
  tlsKey : Bytes := []
  serverName : Bytes := []
  allowInsecure : Bool := false
  deriving DecidableEq, Repr

structure CryptoConfig where
  polyModulusDegree : Nat := 16384
  plainModulusBits : Nat := 20
  coeffModulusBits : List Int := [60, 60, 60, 60, 60, 49]
  keyBits : Nat := 16
  resultBuckets : Nat := 16
  deriving DecidableEq, Repr

variable (c : CryptoConfig)

def CryptoConfig.bytesPerSlot : Nat :=
  let bytes := if c.plainModulusBits > 8 then (c.plainModulusBits - 1) / 8 else 1
  if bytes < 1 then 1 else if bytes > 7 then 7 else bytes

structure StorageConfig where
  recordBytes : Nat := 128
  epochDir : Bytes := []
  deriving DecidableEq, Repr

structure AuthConfig where
  mode : AuthMode := .token
  enableInsecure : Bool := false
  tokenFile : Bytes := bytes "/etc/opaquedb/tokens"
  caCert : Bytes := []
  adminIdentities : List Bytes := []
  deriving DecidableEq, Repr

structure KeyringConfig where
  path : Bytes := []
  deriving DecidableEq, Repr

structure MetricsConfig where
  listen : Bytes := bytes "0.0.0.0:9090"
  deriving DecidableEq, Repr

structure LoggingConfig where
  level : Bytes := bytes "info"
  format : LogFormat := .json
  file : Bytes := []
  deriving DecidableEq, Repr

structure Config where
  node : NodeConfig := {}
  cluster : ClusterConfig := {}
  server : ServerConfig := {}
  client : ClientConfig := {}
  crypto : CryptoConfig := {}
  storage : StorageConfig := {}
  auth : AuthConfig := {}
  keyring : KeyringConfig := {}
  metrics : MetricsConfig := {}
  logging : LoggingConfig := {}
  deriving DecidableEq, Repr

/-! ## The checks -/

/-- Checks in order, each with the status of its failure. -/
def firstFailure : List (Bool × Status) → StatusOr Unit
  | [] => .ok ()
  | (failed, status) :: rest => if failed then .error status else firstFailure rest

theorem firstFailure_eq_ok {checks : List (Bool × Status)} :
    firstFailure checks = .ok () ↔ ∀ check ∈ checks, check.1 = false := by
  induction checks with
  | nil => simp [firstFailure]
  | cons check rest ih =>
    obtain ⟨failed, status⟩ := check
    cases failed <;> simp [firstFailure, ih]

/-- `log2` by halving; `fuel` bounds the number of halvings. -/
def halvings : Nat → Nat → Nat
  | 0, _ => 0
  | fuel + 1, k => if k > 1 then halvings fuel (k >>> 1) + 1 else 0

/-- The matcher's multiplicative depth: the square and the levels of the AND tree. -/
def matcherDepth (keyBits : Nat) : Nat :=
  1 + halvings keyBits keyBits

def badCoeffBits (bits : Int) : Bool :=
  bits < 1 || bits > 60

def cryptoChecks : List (Bool × Status) :=
  [ (!isPowerOfTwo c.polyModulusDegree, invalidArgument
      ["crypto.poly_modulus_degree must be a power of two, got ", dec c.polyModulusDegree]),
    (c.polyModulusDegree < 1024 || c.polyModulusDegree > 32768, invalidArgument
      ["crypto.poly_modulus_degree must be in [1024, 32768], got ", dec c.polyModulusDegree]),
    (c.plainModulusBits < 2 || c.plainModulusBits > 60, invalidArgument
      ["crypto.plain_modulus_bits must be in [2, 60], got ", dec c.plainModulusBits]),
    (c.coeffModulusBits.isEmpty, invalidArgument
      ["crypto.coeff_modulus_bits must list at least one prime size"]),
    (c.coeffModulusBits.any badCoeffBits, invalidArgument
      ["crypto.coeff_modulus_bits entries must be in [1, 60], got ",
        decInt ((c.coeffModulusBits.find? badCoeffBits).getD 0)]),
    (c.keyBits == 0 || !isPowerOfTwo c.keyBits, invalidArgument
      ["crypto.key_bits must be a positive power of two, got ", dec c.keyBits]),
    (c.keyBits > 64, invalidArgument
      ["crypto.key_bits must be at most 64, got ", dec c.keyBits]),
    (c.keyBits > c.polyModulusDegree / 2, invalidArgument
      ["crypto.key_bits (", dec c.keyBits, ") must not exceed poly_modulus_degree/2 (",
        dec (c.polyModulusDegree / 2), ")"]),
    (matcherDepth c.keyBits > c.coeffModulusBits.length, invalidArgument
      ["crypto.key_bits (", dec c.keyBits, ") needs a matcher depth of ",
        dec (matcherDepth c.keyBits),
        " (1 + log2(key_bits)), but crypto.coeff_modulus_bits lists only ",
        dec c.coeffModulusBits.length,
        " primes; add primes or lower key_bits so the modulus chain is deep enough"]),
    (c.resultBuckets == 0 || !isPowerOfTwo c.resultBuckets, invalidArgument
      ["crypto.result_buckets must be a positive power of two, got ", dec c.resultBuckets]),
    (c.resultBuckets > c.polyModulusDegree / 2 / c.keyBits, invalidArgument
      ["crypto.result_buckets (", dec c.resultBuckets,
        ") must not exceed (poly_modulus_degree/2)/key_bits (",
        dec (c.polyModulusDegree / 2 / c.keyBits), ")"]) ]

def storageChecks (s : StorageConfig) : List (Bool × Status) :=
  [ (s.recordBytes == 0, invalidArgument ["storage.record_bytes must be positive"]) ]

variable (config : Config)

def transportChecks : List (Bool × Status) :=
  [ (config.server.maxMessageBytes == 0, invalidArgument
      ["server.max_message_bytes must be positive"]),
    (config.server.rateLimitPerSecond == 0 || config.server.rateLimitBurst == 0, invalidArgument
      ["server.rate_limit_per_second and server.rate_limit_burst must be positive"]),
    (config.client.tlsCert.isEmpty != config.client.tlsKey.isEmpty, invalidArgument
      ["client.tls_cert and client.tls_key must be set together"]),
    (!config.client.tlsCert.isEmpty && config.client.caCert.isEmpty, invalidArgument
      ["client mTLS (client.tls_cert) requires client.ca_cert to verify the server"]) ]

/-- All three parts of the cluster's own mutual TLS. -/
def ClusterConfig.hasTls (cl : ClusterConfig) : Bool :=
  !cl.tlsCert.isEmpty && !cl.tlsKey.isEmpty && !cl.caCert.isEmpty

def ServerConfig.hasTls (s : ServerConfig) : Bool :=
  !s.tlsCert.isEmpty && !s.tlsKey.isEmpty

def clusterChecks : List (Bool × Status) :=
  [ (config.cluster.enabled && (!config.cluster.hasTls && !config.server.hasTls &&
        !config.cluster.allowInsecure), ⟨.failedPrecondition, strCat
      ["cluster.enabled requires cluster mTLS (cluster.tls_cert, cluster.tls_key, ",
        "cluster.ca_cert) or server TLS; set cluster.allow_insecure = true only for local ",
        "development"]⟩),
    (config.cluster.enabled && (!config.cluster.tlsCert.isEmpty &&
        (config.cluster.tlsKey.isEmpty || config.cluster.caCert.isEmpty)), invalidArgument
      ["cluster.tls_cert requires cluster.tls_key and cluster.ca_cert"]) ]

def authChecks : List (Bool × Status) :=
  [ (config.auth.mode == .none && !config.auth.enableInsecure, ⟨.failedPrecondition, strCat
      ["auth.mode = none requires auth.enable_insecure = true; refusing to start an open ",
        "node by accident"]⟩),
    (config.auth.mode == .mtls && (config.server.tlsCert.isEmpty || config.server.tlsKey.isEmpty),
      invalidArgument ["auth.mode = mtls requires server.tls_cert and server.tls_key"]),
    (config.auth.mode == .mtls && config.auth.caCert.isEmpty, invalidArgument
      ["auth.mode = mtls requires auth.ca_cert to verify client certs"]) ]

def kLevels : List Bytes :=
  [bytes "trace", bytes "debug", bytes "info", bytes "warn", bytes "error", bytes "critical",
    bytes "off"]

def loggingChecks (l : LoggingConfig) : List (Bool × Status) :=
  [ (!kLevels.contains l.level, invalidArgument ["logging.level '", l.level,
      "' is not one of trace|debug|info|warn|error|critical|off"]) ]

def validate : StatusOr Unit :=
  firstFailure (cryptoChecks config.crypto ++ storageChecks config.storage ++
    transportChecks config ++ clusterChecks config ++ authChecks config ++
    loggingChecks config.logging)

/-- Every built-in default passes its own check. -/
theorem validate_default : validate {} = .ok () := by decide

/-! ## What acceptance gives the matcher -/

/-- The geometry facts of an accepted configuration. -/
structure Accepted (config : Config) : Prop where
  degree_pow : config.crypto.polyModulusDegree.isPowerOfTwo
  degree_range : 1024 ≤ config.crypto.polyModulusDegree ∧ config.crypto.polyModulusDegree ≤ 32768
  plainBits_range : 2 ≤ config.crypto.plainModulusBits ∧ config.crypto.plainModulusBits ≤ 60
  keyBits_pow : config.crypto.keyBits.isPowerOfTwo
  keyBits_le : config.crypto.keyBits ≤ 64
  buckets_pow : config.crypto.resultBuckets.isPowerOfTwo
  buckets_le : config.crypto.resultBuckets ≤
    config.crypto.polyModulusDegree / 2 / config.crypto.keyBits
  recordBytes_pos : config.storage.recordBytes ≠ 0

theorem accepted_of_validate {config : Config} (valid : validate config = .ok ()) :
    Accepted config := by
  have checks := firstFailure_eq_ok.1 valid
  simp only [cryptoChecks, storageChecks, List.cons_append, List.nil_append, List.forall_mem_cons] at checks
  obtain ⟨power, range, bits, _, _, keyPower, keySmall, _, _, bucketPower, bucketFit, record, _⟩ :=
    checks
  simp only [Bool.not_eq_false', Bool.or_eq_false_iff, decide_eq_false_iff_not, beq_eq_false_iff_ne]
    at power range bits keyPower keySmall bucketPower bucketFit record
  exact ⟨(isPowerOfTwo_iff _).1 power, by omega, by omega, (isPowerOfTwo_iff _).1 keyPower.2,
    by omega, (isPowerOfTwo_iff _).1 bucketPower.2, by omega, record⟩

theorem CryptoConfig.bytesPerSlot_range : 1 ≤ c.bytesPerSlot ∧ c.bytesPerSlot ≤ 7 := by
  unfold bytesPerSlot
  simp only
  split_ifs <;> omega

/-- The library's batching primes carry the bytes of a slot: such a prime has exactly
`plain_modulus_bits` bits and is one modulo twice the degree. -/
theorem two_pow_le_batching {config : Config} (accepted : Accepted config) {t : Nat} (large : 1 < t)
    (bits : 2 ^ (config.crypto.plainModulusBits - 1) ≤ t)
    (batching : t % (2 * config.crypto.polyModulusDegree) = 1) :
    2 ^ (8 * config.crypto.bytesPerSlot) ≤ t := by
  have degree := accepted.degree_range
  by_cases wide : config.crypto.plainModulusBits > 8
  · refine le_trans (Nat.pow_le_pow_right (by decide) ?_) bits
    unfold CryptoConfig.bytesPerSlot
    simp only [if_pos wide]
    split_ifs <;> omega
  · have one : config.crypto.bytesPerSlot = 1 := by
      unfold CryptoConfig.bytesPerSlot
      simp [wide]
    have above : 2 * config.crypto.polyModulusDegree < t := by
      by_contra below
      rcases Nat.lt_or_ge t (2 * config.crypto.polyModulusDegree) with lt | ge
      · rw [Nat.mod_eq_of_lt lt] at batching
        omega
      · obtain rfl : t = 2 * config.crypto.polyModulusDegree := by omega
        simp at batching
    rw [one]
    omega

end OpaqueDb.Config
