/-
# Config.Printing -- a configuration as TOML and back

`toToml` prints one table for each section and one entry for each field.  Read back, a value goes
through the text that the command line would give: a list is joined by commas and split again, and
a size is printed as a signed word.

* `parseStringList_joined_iff`: a list of texts comes back if no text holds a comma or has blanks
  at its ends, and it is not the list of one empty text.
* `toToml_loads_iff`: a valid configuration is read back exactly if its two lists of texts are
  such and the message size is below `2 ^ 63`.
-/
import OpaqueDb.Config.Loader

namespace OpaqueDb.Config

open OpaqueDb.Core Theory List

set_option autoImplicit false

set_option linter.dupNamespace false

/-! ## Printing -/

def Kind.toml : (kind : Kind) → kind.Value → Toml
  | .text, s => .string s
  | .flag, b => .boolean b
  | .word64, v => .integer (Int64.ofNat v)
  | .word32, v => .integer (Int64.ofNat v)
  | .ints, l => .array (l.map fun i => .integer (Int64.ofInt i))
  | .texts, l => .array (l.map .string)
  | .authMode, mode => .string mode.toBytes
  | .logFormat, format => .string format.toBytes

/-- The tables of the file, with the keys of their entries. -/
def sections : List (Bytes × List Key) :=
  [ (bytes "node", [.nodeId, .nodeDataDir]),
    (bytes "cluster", [.clusterEnabled, .clusterEtcdEndpoints, .clusterLeaderKey,
      .clusterEtcdUsername, .clusterEtcdPassword, .clusterEtcdCaCert, .clusterEtcdClientCert,
      .clusterEtcdClientKey, .clusterEtcdTlsName, .clusterListen, .clusterAdvertise,
      .clusterTlsCert, .clusterTlsKey, .clusterCaCert, .clusterAllowInsecure]),
    (bytes "server", [.serverListen, .serverAdvertise, .serverMaxMessageBytes, .serverTlsCert,
      .serverTlsKey, .serverRateLimitPerSecond, .serverRateLimitBurst]),
    (bytes "client", [.clientCaCert, .clientTlsCert, .clientTlsKey, .clientServerName,
      .clientAllowInsecure]),
    (bytes "crypto", [.cryptoPolyModulusDegree, .cryptoPlainModulusBits, .cryptoCoeffModulusBits,
      .cryptoKeyBits, .cryptoResultBuckets]),
    (bytes "storage", [.storageRecordBytes, .storageEpochDir]),
    (bytes "auth", [.authMode, .authEnableInsecure, .authTokenFile, .authCaCert,
      .authAdminIdentities]),
    (bytes "keyring", [.keyringPath]),
    (bytes "metrics", [.metricsListen]),
    (bytes "logging", [.loggingLevel, .loggingFormat, .loggingFile]) ]

def Config.entry (config : Config) (k : Key) : Bytes × Toml :=
  (k.parts.2, k.kind.toml (config.get k))

def Config.document (config : Config) : List (Bytes × Toml) :=
  sections.map fun part => (part.1, .table (part.2.map config.entry))

def toToml (lib : TomlLibrary) (config : Config) : Bytes :=
  lib.print config.document ++ bytes "\n"

/-! ## The entry of a key -/

theorem lookup_map {α β : Type} (f : α → β) (name : Bytes) (l : List (Bytes × α)) :
    (l.map fun pair => (pair.1, f pair.2)).lookup name = (l.lookup name).map f := by
  induction l with
  | nil => rfl
  | cons pair l ih =>
    rw [map_cons, lookup_cons, lookup_cons]
    split
    · rfl
    · exact ih

variable (config : Config)

theorem lookup_entry {k : Key} {keys : List Key} (member : k ∈ keys)
    (once : (keys.map fun k => k.parts.2).Nodup) :
    (keys.map config.entry).lookup k.parts.2 = some (k.kind.toml (config.get k)) := by
  induction keys with
  | nil => cases member
  | cons k' keys ih =>
    obtain ⟨new, once⟩ := nodup_cons.1 once
    rw [map_cons, Config.entry, lookup_cons]
    by_cases same : k = k'
    · rw [same, BEq.rfl]
    · have later := (mem_cons.1 member).resolve_left same
      have other : k.parts.2 ≠ k'.parts.2 := fun equal =>
        new (mem_map.2 ⟨k, later, equal⟩)
      rw [beq_false_of_ne other]
      exact ih later once

variable (k : Key)

/-- Every key has its place in the tables. -/
theorem sections_lookup : ∃ keys, sections.lookup k.parts.1 = some keys ∧ k ∈ keys ∧
    (keys.map fun k => k.parts.2).Nodup := by
  have all : ∀ k ∈ kKeys, ∃ keys ∈ sections.lookup k.parts.1, k ∈ keys ∧
      (keys.map fun k => k.parts.2).Nodup := by
    decide +kernel
  obtain ⟨keys, found, member, once⟩ := all k (mem_kKeys k)
  exact ⟨keys, found, member, once⟩

theorem nodeAt_document : nodeAt config.document k.parts = some (k.kind.toml (config.get k)) := by
  obtain ⟨keys, found, member, once⟩ := sections_lookup k
  have located : config.document.lookup k.parts.1 = some (.table (keys.map config.entry)) := by
    rw [Config.document, lookup_map (fun keys : List Key => Toml.table (keys.map config.entry)), found]
    rfl
  rw [nodeAt, located]
  exact lookup_entry config member once

/-! ## Lists in one text -/

/-- A list of texts that survives being joined by commas. -/
def Listable (l : List Bytes) : Prop :=
  (∀ e ∈ l, stripAsciiWhitespace e = e ∧ comma ∉ e) ∧ l ≠ [[]]

instance (l : List Bytes) : Decidable (Listable l) :=
  inferInstanceAs (Decidable (_ ∧ _))

theorem intercalate_cons_cons (a b : Bytes) (l : List Bytes) :
    [comma].intercalate (a :: b :: l) = a ++ comma :: [comma].intercalate (b :: l) := by
  simp [intercalate]

theorem trimmed_of_strip {s : Bytes} (same : stripAsciiWhitespace s = s) : Trimmed s :=
  same ▸ strip_trimmed s

variable {l : List Bytes}

variable {c : UInt8}

theorem joined_last (trimmed : ∀ e ∈ l, Trimmed e)
    (last : ([comma].intercalate l).getLast? = some c) : isSpace c = false := by
  induction l with
  | nil => cases last
  | cons a l ih =>
    cases l with
    | nil =>
      have single : [comma].intercalate [a] = a := by simp [intercalate]
      rw [single] at last
      exact (trimmed a mem_cons_self).last c last
    | cons b l =>
      rw [intercalate_cons_cons, getLast?_append_of_ne_nil _ (cons_ne_nil _ _)] at last
      cases rest : [comma].intercalate (b :: l) with
      | nil =>
        rw [rest] at last
        cases last
        decide
      | cons d rest' =>
        exact ih (fun e member => trimmed e (mem_cons_of_mem a member)) (rest ▸ last)

/-- The joined text has no blank at its ends, and is empty only for no text. -/
theorem joined_trimmed (listable : Listable l) (some_ : l ≠ []) :
    Trimmed ([comma].intercalate l) ∧ [comma].intercalate l ≠ [] := by
  obtain ⟨each, other⟩ := listable
  have trimmed : ∀ e ∈ l, Trimmed e := fun e member => trimmed_of_strip (each e member).1
  cases l with
  | nil => exact absurd rfl some_
  | cons a l =>
    cases l with
    | nil =>
      have single : [comma].intercalate [a] = a := by simp [intercalate]
      rw [single]
      exact ⟨trimmed a mem_cons_self, fun empty => other (by rw [empty])⟩
    | cons b l =>
      refine ⟨⟨fun c first => ?_, fun c last => joined_last trimmed last⟩, ?_⟩
      · cases a with
        | nil =>
          cases first
          decide
        | cons d a => exact (trimmed _ mem_cons_self).head c first
      · exact append_ne_nil_of_right_ne_nil _ (cons_ne_nil _ _)

/-- **A list of texts in one text.** -/
theorem parseStringList_joined_iff (l : List Bytes) :
    parseStringList ([comma].intercalate l) = l ↔ Listable l := by
  constructor
  · intro same
    refine ⟨fun e member => ?_, ?_⟩
    · rw [← same, parseStringList] at member
      split at member
      · cases member
      · obtain ⟨part, split_, rfl⟩ := mem_map.1 member
        refine ⟨(strip_trimmed part).strip, fun inside => absent_of_mem_strSplit split_ ?_⟩
        have front := rdropWhile_prefix isSpace (part.dropWhile isSpace)
        exact (dropWhile_suffix isSpace).subset (front.subset inside)
    · rintro rfl
      cases same
  · intro listable
    cases empty : l with
    | nil => rfl
    | cons a l' =>
      rw [← empty]
      have some_ : l ≠ [] := by
        rw [empty]
        exact cons_ne_nil _ _
      obtain ⟨trimmed, nonempty⟩ := joined_trimmed listable some_
      rw [parseStringList]
      simp only [trimmed.strip]
      rw [if_neg (by simpa using nonempty),
        strSplit_intercalate some_ fun e member => (listable.1 e member).2]
      exact (map_congr_left fun e member => (listable.1 e member).1).trans (map_id _)

theorem decInt_solid {i : Int} (member : c ∈ decInt i) : isSpace c = false ∧ c ≠ comma := by
  have digit : ∀ {n : Nat}, c ∈ dec n → isSpace c = false ∧ c ≠ comma := by
    intro n inside
    refine ⟨isSpace_of_isDigit (dec_digits inside), ?_⟩
    rintro rfl
    exact absurd (dec_digits inside) (by decide)
  rw [decInt] at member
  split at member
  · rcases mem_append.1 member with sign | inside
    · rw [mem_singleton.1 sign]
      decide
    · exact digit inside
  · exact digit member

theorem mem_joined (member : c ∈ [comma].intercalate l) : c = comma ∨ ∃ e ∈ l, c ∈ e := by
  induction l with
  | nil => cases member
  | cons a l ih =>
    cases l with
    | nil =>
      have single : [comma].intercalate [a] = a := by simp [intercalate]
      exact .inr ⟨a, mem_cons_self, single ▸ member⟩
    | cons b l =>
      rw [intercalate_cons_cons, mem_append, mem_cons] at member
      rcases member with here | rfl | later
      · exact .inr ⟨a, mem_cons_self, here⟩
      · exact .inl rfl
      · exact (ih later).imp_right fun ⟨e, inside, held⟩ => ⟨e, mem_cons_of_mem a inside, held⟩

/-- A list of numbers comes back from its text. -/
theorem parseIntList_joined (key : Bytes) {l : List Int}
    (words : ∀ i ∈ l, -(2 ^ 31) ≤ i ∧ i < 2 ^ 31) :
    parseIntList key ([comma].intercalate (l.map decInt)) = .ok l := by
  cases shape : l with
  | nil => rfl
  | cons i l' =>
    rw [← shape]
    have some_ : l.map decInt ≠ [] := by simp [shape]
    have solid : stripAsciiWhitespace ([comma].intercalate (l.map decInt)) =
        [comma].intercalate (l.map decInt) := by
      refine stripAsciiWhitespace_of_solid fun c member => ?_
      rcases mem_joined member with rfl | ⟨e, inside, held⟩
      · decide
      · obtain ⟨j, _, rfl⟩ := mem_map.1 inside
        exact (decInt_solid held).1
    have nonempty : [comma].intercalate (l.map decInt) ≠ [] := by
      have digits : ∀ j, decInt j ≠ [] := by
        intro j
        rw [decInt]
        split
        · exact cons_ne_nil _ _
        · exact dec_ne_nil _
      rw [shape]
      cases l' with
      | nil => simpa [intercalate] using digits i
      | cons j l' =>
        exact append_ne_nil_of_left_ne_nil (digits i) _
    unfold parseIntList
    simp only [solid]
    rw [if_neg (by simpa using nonempty), strSplit_intercalate some_, mapM_eq_ok_iff,
      forall₂_map_left_iff, forall₂_same]
    · intro j member
      obtain ⟨low, high⟩ := words j member
      have read : simpleAtoi32 (stripAsciiWhitespace (decInt j)) = some j := by
        rw [stripAsciiWhitespace_of_solid fun c inside => (decInt_solid inside).1, simpleAtoi32,
          simpleAtoi64_decInt (by omega) (by omega)]
        exact Option.filter_some_pos (by simp; omega)
      rw [read]
    · intro part member inside
      obtain ⟨j, _, rfl⟩ := mem_map.1 member
      exact (decInt_solid inside).2 rfl

/-! ## A value and its text -/

/-- The values that are read back from their text; a 64-bit word is printed as a signed one. -/
def Kind.Survives : (kind : Kind) → kind.Value → Prop
  | .word64, v => v < 2 ^ 63
  | .word32, v => v < 2 ^ 32
  | .ints, l => ∀ i ∈ l, -(2 ^ 31) ≤ i ∧ i < 2 ^ 31
  | .texts, l => Listable l
  | _, _ => True

/-- The values the machine has. -/
def Kind.Word : (kind : Kind) → kind.Value → Prop
  | .word64, v => v < 2 ^ 64
  | .word32, v => v < 2 ^ 32
  | .ints, l => ∀ i ∈ l, -(2 ^ 31) ≤ i ∧ i < 2 ^ 31
  | _, _ => True

variable (lib : TomlLibrary)

theorem tomlNodesToStrings_eq (l : List Toml) :
    tomlNodesToStrings lib l = l.map (tomlNodeToString lib) := by
  induction l with
  | nil => rfl
  | cons element l ih => rw [tomlNodesToStrings, ih, map_cons]

theorem tomlNodeToString_word {v : Nat} (small : v < 2 ^ 63) :
    tomlNodeToString lib (.integer (Int64.ofNat v)) = dec v := by
  rw [tomlNodeToString, Int64.toInt_ofNat_of_lt small]
  rfl

/-- With the sign bit set a word is printed with a minus sign, which is refused. -/
theorem parseU64_printed_iff (key : Bytes) {v : Nat} (word : v < 2 ^ 64) :
    parseU64 key (tomlNodeToString lib (.integer (Int64.ofNat v))) = .ok v ↔ v < 2 ^ 63 := by
  by_cases small : v < 2 ^ 63
  · rw [tomlNodeToString_word lib small, parseU64, simpleAtou64_dec word]
    exact ⟨fun _ => small, fun _ => rfl⟩
  · have signed : (Int64.ofNat v).toInt < 0 := by
      rw [Int64.toInt_ofNat', Int.bmod]
      simp only [Int64.size]
      omega
    rw [tomlNodeToString, parseU64, simpleAtou64_negative signed]
    constructor
    · intro parsed
      cases parsed
    · exact fun below => absurd below small

theorem parseU32_printed (key : Bytes) {v : Nat} (word : v < 2 ^ 32) :
    parseU32 key (tomlNodeToString lib (.integer (Int64.ofNat v))) = .ok v := by
  have read : parseU64 key (dec v) = .ok v := by
    rw [parseU64, simpleAtou64_dec (by omega)]
  rw [tomlNodeToString_word lib (by omega), parseU32, read]
  exact if_neg (by omega)

theorem parse_printed_iff (key : Bytes) (kind : Kind) {v : kind.Value} (word : kind.Word v) :
    kind.parse key (tomlNodeToString lib (kind.toml v)) = .ok v ↔ kind.Survives v := by
  cases kind with
  | text => exact ⟨fun _ => trivial, fun _ => rfl⟩
  | flag =>
    refine ⟨fun _ => trivial, fun _ => ?_⟩
    cases v <;> rfl
  | word64 => exact parseU64_printed_iff lib key word
  | word32 => exact ⟨fun _ => word, fun _ => parseU32_printed lib key word⟩
  | ints =>
    refine ⟨fun _ => word, fun _ => ?_⟩
    have printed : tomlNodeToString lib (Kind.toml .ints v) =
        [comma].intercalate (v.map decInt) := by
      rw [Kind.toml, tomlNodeToString, tomlNodesToStrings_eq, map_map]
      refine congrArg _ (map_congr_left fun i member => ?_)
      obtain ⟨low, high⟩ := word i member
      rw [Function.comp_apply, tomlNodeToString, Int64.toInt_ofInt_of_le (by omega) (by omega)]
    rw [printed]
    exact parseIntList_joined key word
  | texts =>
    have printed : tomlNodeToString lib (Kind.toml .texts v) = [comma].intercalate v := by
      rw [Kind.toml, tomlNodeToString, tomlNodesToStrings_eq, map_map]
      refine congrArg _ ((map_congr_left fun s _ => ?_).trans (map_id v))
      rfl
    rw [printed]
    exact ⟨fun parsed => (parseStringList_joined_iff v).1 (Except.ok.inj parsed),
      fun listable => congrArg Except.ok ((parseStringList_joined_iff v).2 listable)⟩
  | authMode =>
    refine ⟨fun _ => trivial, fun _ => ?_⟩
    cases v <;> rfl
  | logFormat =>
    refine ⟨fun _ => trivial, fun _ => ?_⟩
    cases v <;> rfl

/-! ## The round trip -/

/-- The numbers of a configuration are machine words of the source's types. -/
def Config.Words (config : Config) : Prop :=
  ∀ k : Key, k.kind.Word (config.get k)

theorem loadFileOnly_toToml (files : Bytes → Option Bytes) {path : Bytes} {config : Config}
    (written : files path = some (toToml lib config)) (inverts : lib.Inverts config.document)
    (valid : validate config = .ok ()) : loadFileOnly lib files path = .ok config ↔
      ∀ k : Key, k.parse (tomlNodeToString lib (k.kind.toml (config.get k))) = .ok (config.get k) := by
  obtain ⟨read, parsed, same⟩ := inverts
  have opened : parseFile lib files path = .ok read := by
    rw [parseFile, written]
    exact parsed
  have supplied : fromDocument lib read =
      fun k : Key => some (tomlNodeToString lib (k.kind.toml (config.get k))) := by
    funext k
    rw [fromDocument, same, nodeAt_document]
    rfl
  have layer : applyTomlFile lib files {} path false = applySupplied
      (fun k : Key => some (tomlNodeToString lib (k.kind.toml (config.get k)))) {} := by
    rw [applyTomlFile, opened]
    exact congrArg (applySupplied · {}) supplied
  rw [loadFileOnly, layer]
  constructor
  · intro loaded
    obtain ⟨config', applied, loaded⟩ := bind_eq_ok.1 loaded
    obtain ⟨_, _, loaded⟩ := bind_eq_ok.1 loaded
    obtain rfl := pure_eq_ok.1 loaded
    exact applySupplied_eq_ok.1 applied
  · intro survives
    exact bind_eq_ok.2 ⟨config, applySupplied_eq_ok.2 survives, bind_eq_ok.2 ⟨(), valid, rfl⟩⟩

/-- **A printed configuration loads back**, with every field as it was, exactly if the admin
identities and the endpoints survive being joined by commas and the message size is below
`2 ^ 63`. -/
theorem toToml_loads_iff (lib : TomlLibrary) (files : Bytes → Option Bytes) {path : Bytes}
    {config : Config} (written : files path = some (toToml lib config))
    (inverts : lib.Inverts config.document) (valid : validate config = .ok ())
    (words : config.Words) :
    loadFileOnly lib files path = .ok config ↔
      Listable config.auth.adminIdentities ∧ Listable config.cluster.etcdEndpoints ∧
        config.server.maxMessageBytes < 2 ^ 63 := by
  rw [loadFileOnly_toToml lib files written inverts valid]
  have each : ∀ k : Key, k.parse (tomlNodeToString lib (k.kind.toml (config.get k))) =
      .ok (config.get k) ↔ k.kind.Survives (config.get k) := fun k =>
    parse_printed_iff lib k.name k.kind (words k)
  constructor
  · intro survives
    exact ⟨(each .authAdminIdentities).1 (survives _), (each .clusterEtcdEndpoints).1 (survives _),
      (each .serverMaxMessageBytes).1 (survives _)⟩
  · rintro ⟨identities, endpoints, size⟩ k
    refine (each k).2 ?_
    -- every other kind of value survives whenever it is a value of the machine
    cases k with
    | authAdminIdentities => exact identities
    | clusterEtcdEndpoints => exact endpoints
    | serverMaxMessageBytes => exact size
    | serverRateLimitPerSecond => exact words .serverRateLimitPerSecond
    | serverRateLimitBurst => exact words .serverRateLimitBurst
    | cryptoPolyModulusDegree => exact words .cryptoPolyModulusDegree
    | cryptoPlainModulusBits => exact words .cryptoPlainModulusBits
    | cryptoCoeffModulusBits => exact words .cryptoCoeffModulusBits
    | cryptoKeyBits => exact words .cryptoKeyBits
    | cryptoResultBuckets => exact words .cryptoResultBuckets
    | storageRecordBytes => exact words .storageRecordBytes
    | _ => trivial

theorem constantLibrary_inverts (document : List (Bytes × Toml)) :
    (constantLibrary (.ok document)).Inverts document :=
  ⟨document, rfl, fun _ => rfl⟩

theorem words_default : ({} : Config).Words := by
  intro k
  cases k <;> first | trivial | simp [Key.kind, Kind.Word, Config.get]

theorem toToml_loads_default : loadFileOnly (constantLibrary (.ok ({} : Config).document))
    (fun _ => some (toToml (constantLibrary (.ok ({} : Config).document)) {}))
    (bytes "/etc/opaquedb.toml") = .ok {} :=
  (toToml_loads_iff _ _ rfl (constantLibrary_inverts _) validate_default words_default).2 (by decide)

/-- An administrator with a comma in the name. -/
def commaConfig : Config where
  auth := { adminIdentities := [bytes "CN=ops,O=example"] }

/-- The identity comes back as two. -/
theorem admin_identity_splits : validate commaConfig = .ok () ∧
    loadFileOnly (constantLibrary (.ok commaConfig.document))
      (fun _ => some (toToml (constantLibrary (.ok commaConfig.document)) commaConfig))
      (bytes "/etc/opaquedb.toml") =
        .ok { commaConfig with auth := { adminIdentities := [bytes "CN=ops", bytes "O=example"] } } := by
  decide +kernel

end OpaqueDb.Config
