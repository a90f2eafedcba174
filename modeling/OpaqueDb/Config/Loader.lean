/-
# Config.Loader -- a configuration from its layers

`load` starts from the built-in defaults and lets the file, the environment and the command line
set fields, in this order, each field through the parser of its key.  A layer is the texts it
supplies, by key; `applyAll_eq_ok` says what applying one does.

* `Overlays.above`: two layers, one after the other, are one layer in which the later one wins.
* `precedence_iff`: a loaded configuration has in each field the value of the last layer that
  supplies one, and every layer is read, except that an optional file that is not TOML is
  passed over.

TOML itself is read and printed by a library.
-/
import OpaqueDb.Config.Keys
import OpaqueDb.Theory.Maps

namespace OpaqueDb.Config

open OpaqueDb.Core Theory List

set_option autoImplicit false

set_option linter.dupNamespace false

/-! ## TOML -/

inductive Toml where
  | string (s : Bytes)
  | integer (i : Int64)
  | boolean (b : Bool)
  | float (bits : UInt64)
  | array (elements : List Toml)
  | table (entries : List (Bytes × Toml))
  /-- A date or a time. -/
  | moment (text : Bytes)

/-- `table[first][second]` of a document, a list of entries. -/
def nodeAt (document : List (Bytes × Toml)) (place : Bytes × Bytes) : Option Toml :=
  match document.lookup place.1 with
  | some (.table entries) => entries.lookup place.2
  | _ => none

/-- The library's calls: the parser with the description of its failure, the printer, the text of
a floating point number, and the failure to open a file. -/
structure TomlLibrary where
  parse : Bytes → Except Bytes (List (Bytes × Toml))
  print : List (Bytes × Toml) → Bytes
  strCatReal : UInt64 → Bytes
  cannotOpen : Bytes → Bytes

/-- The parser reads back what the printer has printed, up to the order of the entries. -/
def TomlLibrary.Inverts (lib : TomlLibrary) (document : List (Bytes × Toml)) : Prop :=
  ∃ read, lib.parse (lib.print document ++ bytes "\n") = .ok read ∧
    ∀ place, nodeAt read place = nodeAt document place

section Loading

variable (lib : TomlLibrary) (files : Bytes → Option Bytes)

mutual

def tomlNodeToString : Toml → Bytes
  | .string s => s
  | .integer i => decInt i.toInt
  | .boolean b => if b then bytes "true" else bytes "false"
  | .float bits => lib.strCatReal bits
  | .array elements => [comma].intercalate (tomlNodesToStrings elements)
  | .table _ => []
  | .moment _ => []

def tomlNodesToStrings : List Toml → List Bytes
  | [] => []
  | element :: elements => tomlNodeToString element :: tomlNodesToStrings elements

end

def parseFile (path : Bytes) : Except Bytes (List (Bytes × Toml)) :=
  match files path with
  | none => .error (lib.cannotOpen path)
  | some content => lib.parse content

/-! ## Layers -/

/-- Apply what a source supplies for the keys, in the order of the keys. -/
def applySupplied (supplied : Key → Option Bytes) (config : Config) : StatusOr Config :=
  kKeys.foldlM (fun config k =>
    match supplied k with
    | none => .ok config
    | some value => applyKeyValue config k.name value) config

/-- The texts a document supplies. -/
def fromDocument (document : List (Bytes × Toml)) (k : Key) : Option Bytes :=
  (nodeAt document k.parts).map (tomlNodeToString lib)

def applyTomlFile (config : Config) (path : Bytes) (optional : Bool) : StatusOr Config :=
  match parseFile lib files path with
  | .error description =>
    if optional then .ok config
    else .error (invalidArgument ["failed to parse config file '", path, "': ",
      description])
  | .ok document => applySupplied (fromDocument lib document) config

def envNameForKey (key : Bytes) : Bytes :=
  bytes "OPAQUEDB_" ++ key.map fun c => if c = 46 then 95 else toUpper c

/-- The texts an environment supplies. -/
def fromEnv (env : Bytes → Option Bytes) (k : Key) : Option Bytes :=
  env (envNameForKey k.name)

def applyEnv (config : Config) (env : Bytes → Option Bytes) : StatusOr Config :=
  applySupplied (fromEnv env) config

structure LoadOptions where
  configPath : Bytes := []
  fileIsOptional : Bool := false
  env : Bytes → Option Bytes
  flagOverrides : Finmap fun _ : Bytes => Bytes := ∅

def applyFlags (config : Config) (flags : Finmap fun _ : Bytes => Bytes) : StatusOr Config :=
  (listing flags).foldlM (fun config flag => applyKeyValue config flag.1 flag.2) config

def load (options : LoadOptions) : StatusOr Config := do
  let config ←
    if options.configPath.isEmpty then .ok {}
    else applyTomlFile lib files {} options.configPath options.fileIsOptional
  let config ← applyEnv config options.env
  let config ← applyFlags config options.flagOverrides
  validate config
  return config

def loadFileOnly (configPath : Bytes) : StatusOr Config := do
  let config ← applyTomlFile lib files {} configPath false
  validate config
  return config

end Loading

/-! ## What a layer does -/

/-- Every supplied text parses for its key. -/
def Parses (supplied : Key → Option Bytes) : Prop :=
  ∀ k value, supplied k = some value → ∃ v, k.parse value = .ok v

/-- `config'` has the supplied values and is `config` elsewhere. -/
def Overlays (supplied : Key → Option Bytes) (config config' : Config) : Prop :=
  ∀ k, match supplied k with
    | none => config'.get k = config.get k
    | some value => k.parse value = .ok (config'.get k)

def applyAll (pairs : List (Bytes × Bytes)) (config : Config) : StatusOr Config :=
  pairs.foldlM (fun config pair => applyKeyValue config pair.1 pair.2) config

theorem lookup_of_notMem {pairs : List (Bytes × Bytes)} {name : Bytes}
    (absent : name ∉ pairs.map Prod.fst) : pairs.lookup name = none := by
  rw [lookup_eq_none_iff]
  rintro ⟨other, text⟩ member
  rw [bne_iff_ne]
  rintro rfl
  exact absent (mem_map_of_mem member)

variable {config' config : Config}

/-- **One layer.**  Pairs of distinct keys are applied if every key is known and every value
parses; they set the fields of their keys and no other. -/
theorem applyAll_eq_ok {pairs : List (Bytes × Bytes)} (once : (pairs.map Prod.fst).Nodup) :
    applyAll pairs config = .ok config' ↔ (∀ pair ∈ pairs, ∃ k : Key, k.name = pair.1) ∧
      Overlays (fun k => pairs.lookup k.name) config config' := by
  induction pairs generalizing config with
  | nil =>
    refine ⟨fun applied => ⟨by simp, fun k => ?_⟩, fun overlays => ?_⟩
    · cases applied
      rfl
    · exact congrArg Except.ok (Config.ext_get fun k => (overlays.2 k).symm)
  | cons pair pairs ih =>
    obtain ⟨name, text⟩ := pair
    obtain ⟨new, once⟩ := nodup_cons.1 once
    have absent := lookup_of_notMem new
    have other : ∀ {k k' : Key}, k'.name = name → k ≠ k' →
        ((name, text) :: pairs).lookup k.name = pairs.lookup k.name := by
      intro k k' named differs
      rw [lookup_cons, ← named, beq_false_of_ne (Key.name_injective.ne differs)]
    rw [applyAll, foldlM_cons, bind_eq_ok]
    constructor
    · rintro ⟨config₁, applied, rest⟩
      obtain ⟨k, v, named, parsed, rfl⟩ := applyKeyValue_eq_ok.1 applied
      obtain ⟨known, overlays⟩ := (ih once).1 rest
      refine ⟨forall_mem_cons.2 ⟨⟨k, named⟩, known⟩, fun k' => ?_⟩
      have here := overlays k'
      by_cases same : k' = k
      · subst same
        simp only [named, absent, Config.get_set, Function.update_self] at here
        simp only [named, lookup_cons, BEq.rfl, here]
        exact parsed
      · simp only [Config.get_set, Function.update_of_ne same] at here
        simp only [other named same]
        exact here
    · rintro ⟨known, overlays⟩
      obtain ⟨⟨k, named⟩, known⟩ := forall_mem_cons.1 known
      have here := overlays k
      simp only [named, lookup_cons, BEq.rfl] at here
      refine ⟨config.set k (config'.get k), applyKeyValue_eq_ok.2 ⟨k, _, named, here, rfl⟩,
        (ih once).2 ⟨known, fun k' => ?_⟩⟩
      have there := overlays k'
      by_cases same : k' = k
      · subst same
        simp [named, absent, Config.get_set]
      · simp only [other named same] at there
        simp only [Config.get_set, Function.update_of_ne same]
        exact there

/-- The pairs a source supplies. -/
def suppliedPairs (supplied : Key → Option Bytes) (keys : List Key) : List (Bytes × Bytes) :=
  keys.filterMap fun k => (supplied k).map (k.name, ·)

variable (supplied : Key → Option Bytes)

theorem applySupplied_eq (config : Config) :
    applySupplied supplied config = applyAll (suppliedPairs supplied kKeys) config := by
  rw [applySupplied]
  generalize kKeys = keys
  induction keys generalizing config with
  | nil => rfl
  | cons k keys ih =>
    rw [foldlM_cons, suppliedPairs, filterMap_cons]
    cases supplied k with
    | none => exact ih config
    | some value =>
      exact congrArg _ (funext ih)

theorem suppliedPairs_names (keys : List Key) :
    ((suppliedPairs supplied keys).map Prod.fst).Sublist (keys.map Key.name) := by
  induction keys with
  | nil => exact List.Sublist.refl _
  | cons k keys ih =>
    rw [suppliedPairs, filterMap_cons]
    cases supplied k with
    | none => exact ih.cons _
    | some value => exact ih.cons_cons _

theorem suppliedPairs_lookup (k : Key) {keys : List Key} (member : k ∈ keys)
    (once : (keys.map Key.name).Nodup) :
    (suppliedPairs supplied keys).lookup k.name = supplied k := by
  induction keys with
  | nil => cases member
  | cons k' keys ih =>
    obtain ⟨new, once⟩ := nodup_cons.1 once
    rw [suppliedPairs, filterMap_cons]
    by_cases same : k = k'
    · subst same
      cases found : supplied k with
      | none => exact lookup_of_notMem fun here => new ((suppliedPairs_names supplied keys).subset here)
      | some value => rw [Option.map_some, lookup_cons, BEq.rfl]
    · have later := ih ((mem_cons.1 member).resolve_left same) once
      cases supplied k' with
      | none => exact later
      | some value =>
        rw [Option.map_some, lookup_cons, beq_false_of_ne (Key.name_injective.ne same)]
        exact later

theorem applySupplied_eq_ok {supplied : Key → Option Bytes} :
    applySupplied supplied config = .ok config' ↔ Overlays supplied config config' := by
  rw [applySupplied_eq, applyAll_eq_ok (names_nodup.sublist (suppliedPairs_names supplied kKeys))]
  have lookups := funext fun k => suppliedPairs_lookup supplied k (mem_kKeys k) names_nodup
  rw [lookups]
  refine and_iff_right fun pair member => ?_
  obtain ⟨k, _, given⟩ := mem_filterMap.1 member
  obtain ⟨value, _, rfl⟩ := Option.map_eq_some_iff.1 given
  exact ⟨k, rfl⟩

theorem applyFlags_eq_ok {flags : Finmap fun _ : Bytes => Bytes} :
    applyFlags config flags = .ok config' ↔ (∀ name ∈ flags, ∃ k : Key, k.name = name) ∧
      Overlays (fun k => flags.lookup k.name) config config' := by
  have lookups : (fun k : Key => (listing flags).lookup k.name) = fun k => flags.lookup k.name :=
    funext fun k => lookup_listing flags k.name
  have applied : applyFlags config flags = .ok config' ↔ _ := applyAll_eq_ok (listing_nodup flags)
  rw [lookups] at applied
  refine applied.trans (and_congr_left fun _ => ⟨fun known name member => ?_, ?_⟩)
  · obtain ⟨text, found⟩ := Finmap.mem_iff.1 member
    exact known (name, text) ((mem_listing flags name text).2 found)
  · rintro known ⟨name, text⟩ member
    exact known name (Finmap.mem_of_lookup_eq_some ((mem_listing flags name text).1 member))

/-! ## Layers over each other -/

theorem Overlays.parses {supplied : Key → Option Bytes}
    (overlays : Overlays supplied config config') : Parses supplied := by
  intro k value given
  have here := overlays k
  rw [given] at here
  exact ⟨_, here⟩

/-- The texts of two layers, of which the upper one wins. -/
def above (upper lower : Key → Option Bytes) (k : Key) : Option Bytes :=
  (upper k).or (lower k)

theorem Overlays.above {lower upper : Key → Option Bytes} {config₁ config₂ : Config}
    (first : Overlays lower config config₁) (second : Overlays upper config₁ config₂) :
    Overlays (above upper lower) config config₂ := by
  intro k
  have below := first k
  have here := second k
  rw [Config.above]
  cases given : upper k with
  | some value =>
    rw [given] at here
    exact here
  | none =>
    rw [given] at here
    cases given' : lower k with
    | some value =>
      rw [given'] at below
      exact below.trans (congrArg Except.ok here.symm)
    | none =>
      rw [given'] at below
      exact here.trans below

/-! ## Precedence -/

section Precedence

variable (lib : TomlLibrary) (files : Bytes → Option Bytes) (options : LoadOptions) (content : Bytes)

/-- The texts of the command line. -/
def LoadOptions.fromFlags (k : Key) : Option Bytes :=
  options.flagOverrides.lookup k.name

/-- Some layer supplies what the loader has to refuse. -/
def Refusable : Prop :=
  (∃ document, lib.parse content = .ok document ∧ ¬ Parses (fromDocument lib document)) ∨
    ¬ Parses (fromEnv options.env) ∨ ¬ Parses options.fromFlags ∨
    ∃ name ∈ options.flagOverrides, ∀ k : Key, k.name ≠ name

/-- A loaded configuration comes from a file that is TOML and has, field by field, what the flags,
else the environment, else the file, else the defaults say; what is to be refused is refused. -/
def Precedence : Prop :=
  (∀ config, load lib files options = .ok config → ∃ document, lib.parse content = .ok document ∧
    Overlays (above options.fromFlags (above (fromEnv options.env) (fromDocument lib document)))
      {} config) ∧
  (Refusable lib options content → ∀ config, load lib files options ≠ .ok config)

/-- The environment and the flags, over `config₀`, make the valid configuration `config`. -/
def UpperLayers (config₀ config : Config) : Prop :=
  ∃ config₁, Overlays (fromEnv options.env) config₀ config₁ ∧
    (∀ name ∈ options.flagOverrides, ∃ k : Key, k.name = name) ∧
    Overlays options.fromFlags config₁ config ∧ validate config = .ok ()

theorem upperLayers_iff {config₀ : Config} : (do
      let config ← applyEnv config₀ options.env
      let config ← applyFlags config options.flagOverrides
      validate config
      return config) = .ok config ↔ UpperLayers options config₀ config := by
  constructor
  · intro loaded
    obtain ⟨config₁, fromEnv_, loaded⟩ := bind_eq_ok.1 loaded
    obtain ⟨config₂, flags, loaded⟩ := bind_eq_ok.1 loaded
    obtain ⟨_, valid, loaded⟩ := bind_eq_ok.1 loaded
    obtain rfl := pure_eq_ok.1 loaded
    obtain ⟨known, overlays⟩ := applyFlags_eq_ok.1 flags
    exact ⟨config₁, applySupplied_eq_ok.1 fromEnv_, known, overlays, valid⟩
  · rintro ⟨config₁, fromEnv_, known, overlays, valid⟩
    exact bind_eq_ok.2 ⟨config₁, applySupplied_eq_ok.2 fromEnv_, bind_eq_ok.2 ⟨config,
      applyFlags_eq_ok.2 ⟨known, overlays⟩, bind_eq_ok.2 ⟨(), valid, rfl⟩⟩⟩

/-- **Precedence.**  For a file that is there, the layers come one above the other as they should,
and what is to be refused is refused, exactly if the file is TOML, or is not optional, or the
other layers do not load either. -/
theorem precedence_iff (present : files options.configPath = some content)
    (path : options.configPath ≠ []) :
    Precedence lib files options content ↔
      (∃ document, lib.parse content = .ok document) ∨ options.fileIsOptional = false ∨
        ¬ ∃ config, UpperLayers options {} config := by
  have named : ¬ options.configPath.isEmpty = true := by simpa using path
  have parsed : parseFile lib files options.configPath = lib.parse content := by
    rw [parseFile, present]
  cases read : lib.parse content with
  | error description =>
    rw [read] at parsed
    cases optional : options.fileIsOptional with
    | false =>
      -- a file that has to be there is read or refused
      have failed : ∀ config, load lib files options ≠ .ok config := by
        intro config loaded
        rw [load, if_neg named, applyTomlFile, parsed, optional] at loaded
        cases loaded
      refine ⟨fun _ => .inr (.inl rfl), fun _ => ⟨fun config loaded => ?_, fun _ => failed⟩⟩
      exact absurd loaded (failed config)
    | true =>
      have loads : ∀ config, load lib files options = .ok config ↔ UpperLayers options {} config := by
        intro config
        rw [load, if_neg named, applyTomlFile, parsed, optional]
        exact upperLayers_iff options
      constructor
      · intro precedence
        refine .inr (.inr fun ⟨config, loadable⟩ => ?_)
        obtain ⟨document, toml, _⟩ := precedence.1 config ((loads config).2 loadable)
        rw [read] at toml
        cases toml
      · rintro (⟨document, toml⟩ | required | unloadable)
        · cases toml
        · cases required
        · have failed : ∀ config, load lib files options ≠ .ok config := by
            intro config loaded
            exact unloadable ⟨config, (loads config).1 loaded⟩
          exact ⟨fun config loaded => absurd loaded (failed config), fun _ => failed⟩
  | ok document =>
    rw [read] at parsed
    refine ⟨fun _ => .inl ⟨document, rfl⟩, fun _ => ?_⟩
    have layers : ∀ config, load lib files options = .ok config →
        ∃ config₀ config₁, Overlays (fromDocument lib document) {} config₀ ∧
          Overlays (fromEnv options.env) config₀ config₁ ∧
          (∀ name ∈ options.flagOverrides, ∃ k : Key, k.name = name) ∧
          Overlays options.fromFlags config₁ config := by
      intro config loaded
      rw [load, if_neg named, applyTomlFile, parsed] at loaded
      obtain ⟨config₀, file, loaded⟩ := bind_eq_ok.1 loaded
      obtain ⟨config₁, env, known, flags, _⟩ := (upperLayers_iff options).1 loaded
      exact ⟨config₀, config₁, applySupplied_eq_ok.1 file, env, known, flags⟩
    constructor
    · intro config loaded
      obtain ⟨config₀, config₁, file, env, _, flags⟩ := layers config loaded
      exact ⟨document, read, (file.above env).above flags⟩
    · intro refusable config loaded
      obtain ⟨config₀, config₁, file, env, known, flags⟩ := layers config loaded
      rcases refusable with ⟨document', toml, bad⟩ | bad | bad | ⟨name, member, unknown⟩
      · rw [read] at toml
        cases toml
        exact bad file.parses
      · exact bad env.parses
      · exact bad flags.parses
      · obtain ⟨k, named⟩ := known name member
        exact unknown k named

end Precedence

/-- A library for which every text is the same. -/
def constantLibrary (result : Except Bytes (List (Bytes × Toml))) : TomlLibrary where
  parse _ := result
  print _ := []
  strCatReal _ := []
  cannotOpen _ := bytes "File could not be opened for reading"

/-- A node identity from the environment, over an optional file. -/
def optionalFile : LoadOptions where
  configPath := bytes "/etc/opaquedb.toml"
  fileIsOptional := true
  env name := if name = bytes "OPAQUEDB_NODE_ID" then some (bytes "b") else none

theorem precedence_of_document :
    Precedence (constantLibrary (.ok [(bytes "node", .table [(bytes "id", .string (bytes "a"))])]))
      (fun _ => some (bytes "[node]\nid = 'a'")) optionalFile (bytes "[node]\nid = 'a'") :=
  (precedence_iff _ _ optionalFile (bytes "[node]\nid = 'a'") rfl (by decide)).2 (.inl ⟨_, rfl⟩)

/-- An optional file that is not TOML is passed over, and the defaults stand for it. -/
theorem broken_file_ignored :
    (constantLibrary (.error (bytes "expected a value"))).parse (bytes "[server]\nlisten =") =
        .error (bytes "expected a value") ∧
      load (constantLibrary (.error (bytes "expected a value")))
        (fun _ => some (bytes "[server]\nlisten =")) optionalFile =
          .ok { node := { id := bytes "b" } } ∧
      ¬ Precedence (constantLibrary (.error (bytes "expected a value")))
        (fun _ => some (bytes "[server]\nlisten =")) optionalFile (bytes "[server]\nlisten =") := by
  have loaded : load (constantLibrary (.error (bytes "expected a value")))
      (fun _ => some (bytes "[server]\nlisten =")) optionalFile =
        .ok { node := { id := bytes "b" } } := by
    decide +kernel
  refine ⟨rfl, loaded, fun precedence => ?_⟩
  obtain ⟨document, toml, _⟩ := precedence.1 _ loaded
  cases toml

end OpaqueDb.Config
