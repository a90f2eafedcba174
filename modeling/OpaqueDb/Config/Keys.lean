/-
# Config.Keys -- the settings by their keys

Every setting has a dotted key and a kind of value, and a text is read for it the same way from
the file, the environment and the command line.  A configuration is one value for each key:
`get` and `ofFields` go back and forth (`get_ofFields`, `ofFields_get`), so assigning one field
is updating a function.
-/
import OpaqueDb.Config.Validate
import Mathlib.Data.List.Nodup

namespace OpaqueDb.Config

open OpaqueDb.Core

set_option autoImplicit false

set_option linter.dupNamespace false

/-! ## Reading a value -/

variable (key value : Bytes)

def parseU64 : StatusOr Nat :=
  match simpleAtou64 value with
  | none => .error (invalidArgument [key, ": expected an unsigned integer, got '", value,
      "'"])
  | some v => .ok v

def parseU32 : StatusOr Nat := do
  let v ← parseU64 key value
  if v > 0xFFFFFFFF then
    .error (invalidArgument [key, ": value ", dec v, " is out of range"])
  else return v

def parseBool : StatusOr Bool :=
  let v := asciiStrToLower value
  if v = bytes "true" ∨ v = bytes "1" ∨ v = bytes "yes" ∨ v = bytes "on" then .ok true
  else if v = bytes "false" ∨ v = bytes "0" ∨ v = bytes "no" ∨ v = bytes "off" then .ok false
  else .error (invalidArgument [key, ": expected a boolean, got '", value, "'"])

/-- `SimpleAtoi` into a signed 32-bit integer. -/
def simpleAtoi32 (text : Bytes) : Option Int :=
  (simpleAtoi64 text).filter fun v => -(2 ^ 31) ≤ v && v < 2 ^ 31

def comma : UInt8 := 44

def parseIntList : StatusOr (List Int) :=
  let trimmed := stripAsciiWhitespace value
  if trimmed.isEmpty then .ok []
  else (strSplit comma trimmed).mapM fun part =>
    match simpleAtoi32 (stripAsciiWhitespace part) with
    | none => .error (invalidArgument [key, ": expected a comma-separated integer list, got '",
        value, "'"])
    | some n => .ok n

def parseStringList : List Bytes :=
  let trimmed := stripAsciiWhitespace value
  if trimmed.isEmpty then [] else (strSplit comma trimmed).map stripAsciiWhitespace

def AuthMode.toBytes : AuthMode → Bytes
  | .token => bytes "token"
  | .mtls => bytes "mtls"
  | .none => bytes "none"

def parseAuthMode : StatusOr AuthMode :=
  if value = bytes "token" then .ok .token
  else if value = bytes "mtls" then .ok .mtls
  else if value = bytes "none" then .ok .none
  else .error (invalidArgument ["auth.mode: expected token|mtls|none, got '", value, "'"])

def LogFormat.toBytes : LogFormat → Bytes
  | .json => bytes "json"
  | .text => bytes "text"

def parseLogFormat : StatusOr LogFormat :=
  if value = bytes "json" then .ok .json
  else if value = bytes "text" then .ok .text
  else .error (invalidArgument ["logging.format: expected json|text, got '", value, "'"])

/-- The kinds of values a setting has. -/
inductive Kind where
  | text
  | flag
  | word64
  | word32
  | ints
  | texts
  | authMode
  | logFormat
  deriving DecidableEq, Repr

abbrev Kind.Value : Kind → Type
  | .text => Bytes
  | .flag => Bool
  | .word64 => Nat
  | .word32 => Nat
  | .ints => List Int
  | .texts => List Bytes
  | .authMode => AuthMode
  | .logFormat => LogFormat

def Kind.parse : (kind : Kind) → StatusOr kind.Value
  | .text => .ok value
  | .flag => parseBool key value
  | .word64 => parseU64 key value
  | .word32 => parseU32 key value
  | .ints => parseIntList key value
  | .texts => .ok (parseStringList value)
  | .authMode => parseAuthMode value
  | .logFormat => parseLogFormat value

/-! ## The keys -/

inductive Key where
  | nodeId | nodeDataDir | clusterEnabled | clusterEtcdEndpoints | clusterLeaderKey
  | clusterEtcdUsername | clusterEtcdPassword | clusterEtcdCaCert | clusterEtcdClientCert
  | clusterEtcdClientKey | clusterEtcdTlsName | clusterListen | clusterAdvertise | clusterTlsCert
  | clusterTlsKey | clusterCaCert | clusterAllowInsecure | serverListen | serverAdvertise
  | serverMaxMessageBytes | serverTlsCert | serverTlsKey | serverRateLimitPerSecond
  | serverRateLimitBurst | clientCaCert | clientTlsCert | clientTlsKey | clientServerName
  | clientAllowInsecure | cryptoPolyModulusDegree | cryptoPlainModulusBits
  | cryptoCoeffModulusBits | cryptoKeyBits | cryptoResultBuckets | storageRecordBytes
  | storageEpochDir | authMode | authEnableInsecure | authTokenFile | authCaCert
  | authAdminIdentities | keyringPath | metricsListen | loggingLevel | loggingFormat
  | loggingFile
  deriving DecidableEq, Repr

/-- The section of the file a key is in, and its name there. -/
def Key.parts : Key → Bytes × Bytes
  | .nodeId => ("node", "id")
  | .nodeDataDir => ("node", "data_dir")
  | .clusterEnabled => ("cluster", "enabled")
  | .clusterEtcdEndpoints => ("cluster", "etcd_endpoints")
  | .clusterLeaderKey => ("cluster", "leader_key")
  | .clusterEtcdUsername => ("cluster", "etcd_username")
  | .clusterEtcdPassword => ("cluster", "etcd_password")
  | .clusterEtcdCaCert => ("cluster", "etcd_ca_cert")
  | .clusterEtcdClientCert => ("cluster", "etcd_client_cert")
  | .clusterEtcdClientKey => ("cluster", "etcd_client_key")
  | .clusterEtcdTlsName => ("cluster", "etcd_tls_name")
  | .clusterListen => ("cluster", "listen")
  | .clusterAdvertise => ("cluster", "advertise")
  | .clusterTlsCert => ("cluster", "tls_cert")
  | .clusterTlsKey => ("cluster", "tls_key")
  | .clusterCaCert => ("cluster", "ca_cert")
  | .clusterAllowInsecure => ("cluster", "allow_insecure")
  | .serverListen => ("server", "listen")
  | .serverAdvertise => ("server", "advertise")
  | .serverMaxMessageBytes => ("server", "max_message_bytes")
  | .serverTlsCert => ("server", "tls_cert")
  | .serverTlsKey => ("server", "tls_key")
  | .serverRateLimitPerSecond => ("server", "rate_limit_per_second")
  | .serverRateLimitBurst => ("server", "rate_limit_burst")
  | .clientCaCert => ("client", "ca_cert")
  | .clientTlsCert => ("client", "tls_cert")
  | .clientTlsKey => ("client", "tls_key")
  | .clientServerName => ("client", "server_name")
  | .clientAllowInsecure => ("client", "allow_insecure")
  | .cryptoPolyModulusDegree => ("crypto", "poly_modulus_degree")
  | .cryptoPlainModulusBits => ("crypto", "plain_modulus_bits")
  | .cryptoCoeffModulusBits => ("crypto", "coeff_modulus_bits")
  | .cryptoKeyBits => ("crypto", "key_bits")
  | .cryptoResultBuckets => ("crypto", "result_buckets")
  | .storageRecordBytes => ("storage", "record_bytes")
  | .storageEpochDir => ("storage", "epoch_dir")
  | .authMode => ("auth", "mode")
  | .authEnableInsecure => ("auth", "enable_insecure")
  | .authTokenFile => ("auth", "token_file")
  | .authCaCert => ("auth", "ca_cert")
  | .authAdminIdentities => ("auth", "admin_identities")
  | .keyringPath => ("keyring", "path")
  | .metricsListen => ("metrics", "listen")
  | .loggingLevel => ("logging", "level")
  | .loggingFormat => ("logging", "format")
  | .loggingFile => ("logging", "file")

variable (k : Key)

/-- The dotted key. -/
def Key.name : Bytes :=
  strCat [k.parts.1, ".", k.parts.2]

def kKeys : List Key :=
  [.nodeId, .nodeDataDir, .clusterEnabled, .clusterEtcdEndpoints, .clusterLeaderKey,
    .clusterEtcdUsername, .clusterEtcdPassword, .clusterEtcdCaCert, .clusterEtcdClientCert,
    .clusterEtcdClientKey, .clusterEtcdTlsName, .clusterListen, .clusterAdvertise,
    .clusterTlsCert, .clusterTlsKey, .clusterCaCert, .clusterAllowInsecure, .serverListen,
    .serverAdvertise, .serverMaxMessageBytes, .serverTlsCert, .serverTlsKey,
    .serverRateLimitPerSecond, .serverRateLimitBurst, .clientCaCert, .clientTlsCert,
    .clientTlsKey, .clientServerName, .clientAllowInsecure, .cryptoPolyModulusDegree,
    .cryptoPlainModulusBits, .cryptoCoeffModulusBits, .cryptoKeyBits, .cryptoResultBuckets,
    .storageRecordBytes, .storageEpochDir, .authMode, .authEnableInsecure, .authTokenFile,
    .authCaCert, .authAdminIdentities, .keyringPath, .metricsListen, .loggingLevel,
    .loggingFormat, .loggingFile]

def Key.kind : Key → Kind
  | .clusterEnabled | .clusterAllowInsecure | .clientAllowInsecure | .authEnableInsecure => .flag
  | .clusterEtcdEndpoints | .authAdminIdentities => .texts
  | .serverMaxMessageBytes => .word64
  | .serverRateLimitPerSecond | .serverRateLimitBurst | .cryptoPolyModulusDegree
  | .cryptoPlainModulusBits | .cryptoKeyBits | .cryptoResultBuckets | .storageRecordBytes => .word32
  | .cryptoCoeffModulusBits => .ints
  | .authMode => .authMode
  | .loggingFormat => .logFormat
  | _ => .text

abbrev Key.Value (k : Key) : Type :=
  k.kind.Value

def Key.parse (value : Bytes) : StatusOr k.Value :=
  k.kind.parse k.name value

/-! ## A configuration as its values -/

variable (config : Config)

def Config.get : (k : Key) → k.Value
  | .nodeId => config.node.id
  | .nodeDataDir => config.node.dataDir
  | .clusterEnabled => config.cluster.enabled
  | .clusterEtcdEndpoints => config.cluster.etcdEndpoints
  | .clusterLeaderKey => config.cluster.leaderKey
  | .clusterEtcdUsername => config.cluster.etcdUsername
  | .clusterEtcdPassword => config.cluster.etcdPassword
  | .clusterEtcdCaCert => config.cluster.etcdCaCert
  | .clusterEtcdClientCert => config.cluster.etcdClientCert
  | .clusterEtcdClientKey => config.cluster.etcdClientKey
  | .clusterEtcdTlsName => config.cluster.etcdTlsName
  | .clusterListen => config.cluster.listen
  | .clusterAdvertise => config.cluster.advertise
  | .clusterTlsCert => config.cluster.tlsCert
  | .clusterTlsKey => config.cluster.tlsKey
  | .clusterCaCert => config.cluster.caCert
  | .clusterAllowInsecure => config.cluster.allowInsecure
  | .serverListen => config.server.listen
  | .serverAdvertise => config.server.advertise
  | .serverMaxMessageBytes => config.server.maxMessageBytes
  | .serverTlsCert => config.server.tlsCert
  | .serverTlsKey => config.server.tlsKey
  | .serverRateLimitPerSecond => config.server.rateLimitPerSecond
  | .serverRateLimitBurst => config.server.rateLimitBurst
  | .clientCaCert => config.client.caCert
  | .clientTlsCert => config.client.tlsCert
  | .clientTlsKey => config.client.tlsKey
  | .clientServerName => config.client.serverName
  | .clientAllowInsecure => config.client.allowInsecure
  | .cryptoPolyModulusDegree => config.crypto.polyModulusDegree
  | .cryptoPlainModulusBits => config.crypto.plainModulusBits
  | .cryptoCoeffModulusBits => config.crypto.coeffModulusBits
  | .cryptoKeyBits => config.crypto.keyBits
  | .cryptoResultBuckets => config.crypto.resultBuckets
  | .storageRecordBytes => config.storage.recordBytes
  | .storageEpochDir => config.storage.epochDir
  | .authMode => config.auth.mode
  | .authEnableInsecure => config.auth.enableInsecure
  | .authTokenFile => config.auth.tokenFile
  | .authCaCert => config.auth.caCert
  | .authAdminIdentities => config.auth.adminIdentities
  | .keyringPath => config.keyring.path
  | .metricsListen => config.metrics.listen
  | .loggingLevel => config.logging.level
  | .loggingFormat => config.logging.format
  | .loggingFile => config.logging.file

def Config.ofFields (value : (k : Key) → k.Value) : Config where
  node := ⟨value .nodeId, value .nodeDataDir⟩
  cluster := ⟨value .clusterEnabled, value .clusterEtcdEndpoints, value .clusterLeaderKey,
    value .clusterEtcdUsername, value .clusterEtcdPassword, value .clusterEtcdCaCert,
    value .clusterEtcdClientCert, value .clusterEtcdClientKey, value .clusterEtcdTlsName,
    value .clusterListen, value .clusterAdvertise, value .clusterTlsCert, value .clusterTlsKey,
    value .clusterCaCert, value .clusterAllowInsecure⟩
  server := ⟨value .serverListen, value .serverAdvertise, value .serverMaxMessageBytes,
    value .serverTlsCert, value .serverTlsKey, value .serverRateLimitPerSecond,
    value .serverRateLimitBurst⟩
  client := ⟨value .clientCaCert, value .clientTlsCert, value .clientTlsKey,
    value .clientServerName, value .clientAllowInsecure⟩
  crypto := ⟨value .cryptoPolyModulusDegree, value .cryptoPlainModulusBits,
    value .cryptoCoeffModulusBits, value .cryptoKeyBits, value .cryptoResultBuckets⟩
  storage := ⟨value .storageRecordBytes, value .storageEpochDir⟩
  auth := ⟨value .authMode, value .authEnableInsecure, value .authTokenFile, value .authCaCert,
    value .authAdminIdentities⟩
  keyring := ⟨value .keyringPath⟩
  metrics := ⟨value .metricsListen⟩
  logging := ⟨value .loggingLevel, value .loggingFormat, value .loggingFile⟩

@[simp] theorem Config.get_ofFields (value : (k : Key) → k.Value) (k : Key) :
    (Config.ofFields value).get k = value k := by
  cases k <;> rfl

@[simp] theorem Config.ofFields_get : Config.ofFields config.get = config :=
  rfl

/-- The same values make the same configuration. -/
theorem Config.ext_get {config config' : Config} (same : ∀ k, config.get k = config'.get k) :
    config = config' := by
  rw [← config.ofFields_get, ← config'.ofFields_get, funext same]

/-- The configuration with one field assigned. -/
def Config.set (k : Key) (value : k.Value) : Config :=
  Config.ofFields (Function.update config.get k value)

theorem Config.get_set (k : Key) (value : k.Value) (k' : Key) :
    (config.set k value).get k' = Function.update config.get k value k' :=
  Config.get_ofFields _ k'

theorem mem_kKeys : k ∈ kKeys := by
  cases k <;> decide

theorem names_nodup : (kKeys.map Key.name).Nodup := by
  decide +kernel

theorem Key.name_injective : Function.Injective Key.name := by
  intro a b same
  exact List.inj_on_of_nodup_map names_nodup (mem_kKeys a) (mem_kKeys b) same

/-- The key with a dotted name. -/
def Key.ofName (name : Bytes) : Option Key :=
  kKeys.find? fun k => k.name == name

theorem Key.ofName_eq_some {name : Bytes} {k : Key} : Key.ofName name = some k ↔ k.name = name := by
  constructor
  · intro found
    simpa using List.find?_some found
  · rintro rfl
    cases found : Key.ofName k.name with
    | none => exact absurd (List.find?_eq_none.1 found k (mem_kKeys k)) (by simp)
    | some k' =>
      have same : k'.name = k.name := by simpa using List.find?_some found
      rw [Key.name_injective same]

def applyKeyValue (key value : Bytes) : StatusOr Config :=
  match Key.ofName key with
  | none => .error (invalidArgument ["unknown config key '", key, "'"])
  | some k => do
    let v ← k.parse value
    return config.set k v

/-- A value is applied to the key it is for if it parses. -/
theorem applyKeyValue_eq_ok {config config' : Config} {key value : Bytes} :
    applyKeyValue config key value = .ok config' ↔
      ∃ (k : Key) (v : k.Value), k.name = key ∧ k.parse value = .ok v ∧ config.set k v = config' := by
  unfold applyKeyValue
  cases found : Key.ofName key with
  | none =>
    constructor
    · intro applied
      cases applied
    rintro ⟨k, v, named, _⟩
    rw [Key.ofName_eq_some.2 named] at found
    cases found
  | some k =>
    have named := Key.ofName_eq_some.1 found
    simp only [bind_eq_ok]
    constructor
    · rintro ⟨v, parsed, applied⟩
      exact ⟨k, v, named, parsed, pure_eq_ok.1 applied⟩
    · rintro ⟨k', v, named', parsed, applied⟩
      obtain rfl := Key.name_injective (named'.trans named.symm)
      exact ⟨v, parsed, pure_eq_ok.2 applied⟩

end OpaqueDb.Config
