/-
# Server.AdminTables -- the tables the operator's calls act on

`Load` and `RollbackEpoch` act on one repository, at the directory the operator's calls are
configured with; a query reads the repository of its table, under `db`.  For no table name are the
two the same directory (`tablePlace_ne_adminPlace`), so what a query reads of a table after either
call is what it read before (`load_leaves`, `rollbackEpoch_leaves`), although the call has
published what it was given (`load_publishes`).
-/
import OpaqueDb.Server.Ownership

namespace OpaqueDb.Server.AdminTables

open OpaqueDb.Core Config Crypto Theory Storage Auth List Theory.Call
open Sql Server.Ownership Server.AdminGrpcService

set_option autoImplicit false

/-! ## Table names -/

/-- The tokenizer reads the name as an identifier. -/
def AcceptedAsIdentifier (table : Bytes) : Prop :=
  tokenize table = .ok [⟨.identifier, table, 0⟩, ⟨.end_, [], table.length⟩]

instance acceptedAsIdentifierDecidable (table : Bytes) : Decidable (AcceptedAsIdentifier table) :=
  inferInstanceAs (Decidable (_ = _))

variable {table : Bytes}

theorem AcceptedAsIdentifier.plain (accepted : AcceptedAsIdentifier table) : Plain table := by
  have chars := (identifier_of_tokenized accepted mem_cons_self rfl).chars
  refine ⟨?_, ?_, ?_, fun climbs => ?_, fun ends => ?_⟩
  · rintro rfl
    revert accepted
    decide
  · rintro rfl
    exact absurd (chars 46 (by decide)) (by decide)
  · rintro rfl
    exact absurd (chars 46 (by decide)) (by decide)
  · exact absurd (chars slash climbs) (by decide)
  · exact absurd (chars 0 ends) (by decide)

/-! ## Two directories -/

variable (config : Config)

/-- The operator's repository is the base itself or a directory of it. -/
theorem adminPlace_eq : adminPlace config = (basePlace config).down [] ∨
      adminPlace config = (basePlace config).down [epochs] := by
  by_cases unset : config.storage.epochDir.isEmpty = true
  · right
    have base : config.base = config.node.dataDir := if_pos unset
    have text : config.effectiveEpochDir = config.base ++ slash :: epochs := by
      rw [base]
      exact if_pos unset
    rw [adminPlace, text, resolve_base]
    rfl
  · left
    have base : config.base = config.storage.epochDir := if_neg unset
    have text : config.effectiveEpochDir = config.base := by
      rw [base]
      exact if_neg unset
    have starts : config.base.head? = (config.base ++ [slash]).head? := by
      rcases shape : config.base with _ | ⟨c, rest⟩
      · rw [← base, shape] at unset
        exact absurd rfl unset
      · rfl
    rw [adminPlace, text, resolve, starts]
    exact Place.ext rfl rfl (append_nil _).symm

theorem plain_default : Plain (bytes "default") := by
  decide

theorem tablePlace_eq (plain : Plain table) : placeOf config (tableOf [] table) =
      (basePlace config).down [db, bytes "default", table, epochs] := by
  have both : (tableOf [] table).Plain := ⟨plain_default, plain⟩
  rw [placeOf, resolve_epochRootFor, both.components_text]
  exact walk_of_inside (insideFrom_names [] [db, bytes "default", table, epochs])

/-- **No table lies in the operator's directory.** -/
theorem tablePlace_ne_adminPlace (plain : Plain table) :
    placeOf config (tableOf [] table) ≠ adminPlace config := by
  intro same
  rw [tablePlace_eq config plain] at same
  rcases adminPlace_eq config with admin | admin
  all_goals
    rw [admin] at same
    have names := append_cancel_left (congrArg Place.names same)
    simp at names

/-! ## What queries show of a table -/

/-- The repository that queries of a table of the default database read. -/
def tableRepository (node : Node) (table : Bytes) : Repository :=
  node.repositories (placeOf node.config (tableOf [] table))

/-- Scan and DescribeTable return these records and this schema. -/
structure Shows (node : Node) (table : Bytes) (schema : Schema) (records : List Bytes) : Prop where
  described : node.describeTable [] table = .ok schema
  scanned : ∀ maxRows, node.scan [] table maxRows =
    .ok ⟨records.length, records.take (min maxRows kScanRowCap)⟩

/-- The current epoch has the schema, and the records as far as a scan may read. -/
def Holds (repo : Repository) (schema : Schema) (records : List Bytes) : Prop :=
  ∃ epoch, repo.openCurrent = .ok epoch ∧ epoch.manifest.schema = schema ∧
    epoch.rows.length = records.length ∧
    (epoch.rows.map Row.payload).take kScanRowCap = records.take kScanRowCap

/-- **What is shown of a table** is what its own repository holds. -/
theorem shows_iff {node : Node} (named : table ≠ []) (schema : Schema) (records : List Bytes) :
    Shows node table schema records ↔ Holds (tableRepository node table) schema records := by
  have visible : table.isEmpty = false := by simpa using named
  have scan_ : ∀ maxRows, node.scan [] table maxRows =
      (tableRepository node table).openCurrent.map fun epoch => scanEpoch epoch maxRows := by
    intro maxRows
    rw [Node.scan, visible]
    rfl
  have describe_ : node.describeTable [] table =
      (tableRepository node table).openCurrent.map fun epoch => epoch.manifest.schema := rfl
  constructor
  · rintro ⟨described, scanned⟩
    rw [describe_] at described
    obtain ⟨epoch, opened, same⟩ := map_eq_ok.1 described
    have whole := scanned kScanRowCap
    rw [scan_, opened] at whole
    have result := (scanEpoch_eq epoch _).symm.trans (Except.ok.inj whole)
    rw [ScanResult.mk.injEq] at result
    exact ⟨epoch, opened, same, result⟩
  · rintro ⟨epoch, opened, same, count, records_⟩
    refine ⟨by rw [describe_, opened, ← same]; rfl, fun maxRows => ?_⟩
    rw [scan_, opened]
    refine congrArg Except.ok ((scanEpoch_eq epoch maxRows).trans ?_)
    rw [count, ← take_take, records_, take_take]

/-! ## The operator's calls -/

section Calls

variable {ctx : CryptoContext} {P : Type} (around : Surroundings ctx P) (context : ServerContext)

/-- What decides the answers to the queries of a table. -/
def seen (table : Bytes) (world : NodeWorld P) : Config × Repository :=
  (world.node.config, tableRepository world.node table)

theorem admitAdmin_keeps (wireVersion : Nat) (table : Bytes) :
    Call.Keeps (seen table) (admitAdmin around context wireVersion : NodeCall P Unit) := by
  refine .bind (.lift _) fun _ => .bind ?_ fun _ => .pure _
  exact fun _ => rfl

/-- A change of the operator's repository is not seen at any table. -/
theorem atRepository_keeps {α : Type} (plain : Plain table) (world : NodeWorld P)
    (f : Repository → StatusOr (α × Repository)) :
    seen table ((atRepository (adminPlace world.node.config) f).eval world).2 = seen table world := by
  rw [atRepository, eval_step]
  split
  · rfl
  · refine Prod.ext rfl ?_
    exact Function.update_of_ne (tablePlace_ne_adminPlace _ plain) _ _

/-- **A rollback** leaves what is seen of every table as it is. -/
theorem rollbackEpoch_leaves (plain : Plain table) (wireVersion version : Nat) :
    Call.Keeps (seen table) (rollbackEpoch around context wireVersion version) := by
  refine .bind (admitAdmin_keeps around context wireVersion table) fun _ => ?_
  intro world
  rw [eval_bind_ok (eval_current world)]
  exact atRepository_keeps plain world _

/-- **A load** leaves what is seen of every table as it is. -/
theorem load_leaves (plain : Plain table) (chunks : List LoadChunk) :
    Call.Keeps (seen table) (load around context chunks) := by
  unfold AdminGrpcService.load
  cases chunks with
  | nil => exact .lift _
  | cons first rest =>
    dsimp only
    split
    · exact fun _ => rfl
    refine .bind (admitAdmin_keeps around context _ table) fun _ => .bind (.lift _) fun rows => ?_
    intro world
    rw [eval_bind_ok (eval_current world)]
    cases buildStagingFromRows world.node.config first.schema (first.row :: rows) with
    | error status => rfl
    | ok staging =>
      rw [eval_bind_ok (eval_lift _ world)]
      exact Call.Keeps.bind_at (atRepository_keeps plain world _) fun version => .pure _

end Calls

/-! ## What a load publishes -/

/-- The records of the loaded rows, in order. -/
def loadedRecords (config : Config) (first : LoadChunk) (chunks : List LoadChunk) :
    StatusOr (List Bytes) :=
  chunks.mapM fun chunk => encodeRecord first.schema chunk.row.payload config.storage.recordBytes

section Published

variable {ctx : CryptoContext} {P : Type} {around : Surroundings ctx P} {context : ServerContext}

theorem admitAdmin_config {wireVersion : Nat} {world after : NodeWorld P}
    (admitted : (admitAdmin around context wireVersion).eval world = (.ok (), after)) :
    after.node.config = world.node.config := by
  have keeps := admitAdmin_keeps (P := P) around context wireVersion [] world
  rw [admitted] at keeps
  exact congrArg Prod.fst keeps

variable {first : LoadChunk}

theorem followsHeader_row {chunk : LoadChunk} {row : IngestRow}
    (follows : followsHeader first chunk = .ok row) : chunk.row = row := by
  unfold followsHeader at follows
  split_ifs at follows
  exact Except.ok.inj follows

variable {rest : List LoadChunk}

theorem rows_of_follows {rows : List IngestRow}
    (follow : rest.mapM (followsHeader first) = .ok rows) : rows = rest.map LoadChunk.row := by
  have each := (mapM_eq_ok_iff.1 follow).imp fun _ _ => followsHeader_row
  have same := forall₂_map_left_iff.2 each
  rw [forall₂_eq_eq_eq] at same
  exact same.symm

/-- The records of a staged load. -/
theorem loadedRecords_of_built {config : Config} {chunks : List LoadChunk} {staging : StagingEpoch}
    (built : buildStagingFromRows config first.schema (chunks.map LoadChunk.row) = .ok staging) :
    loadedRecords config first chunks = .ok (staging.rows.map Row.payload) := by
  obtain ⟨⟨schema, _, geometry⟩, ingested⟩ := build_ingested built
  have encoded := (ingested 0).encoded
  refine mapM_eq_ok_iff.2 (forall₂_map_right_iff.2 ?_)
  refine (forall₂_map_left_iff.1 encoded).imp fun chunk stored row => ?_
  have record := (encodeRow_eq_ok row).2
  have schema' : (staging.published 0).manifest.schema = first.schema := schema
  have geometry' : (staging.published 0).manifest.geometry = geometryFrom config := geometry
  rwa [schema', geometry'] at record

/-- **A load that returns OK** has made the rows it was given the current epoch of the operator's
repository. -/
theorem load_publishes {world : NodeWorld P} {answer : Nat × Nat}
    (loaded : ((load around context (first :: rest)).eval world).1 = .ok answer) :
    ∃ epoch, (((load around context (first :: rest)).eval world).2.node.repositories
        (adminPlace world.node.config)).openCurrent = .ok epoch ∧
      epoch.manifest.schema = first.schema ∧
      loadedRecords world.node.config first (first :: rest) = .ok (epoch.rows.map Row.payload) := by
  unfold AdminGrpcService.load at loaded ⊢
  dsimp only at loaded ⊢
  split at loaded
  · cases loaded
  rename_i version
  rw [if_neg version]
  obtain ⟨_, here, admitted, run⟩ := eval_bind_inv loaded
  rw [run] at loaded ⊢
  obtain ⟨rows, follow, run⟩ := eval_lift_inv loaded
  rw [run] at loaded ⊢
  rw [eval_bind_ok (eval_current _)] at loaded ⊢
  obtain ⟨staging, built, run⟩ := eval_lift_inv loaded
  rw [run] at loaded ⊢
  obtain ⟨next, after, published, run⟩ := eval_bind_inv loaded
  rw [run, eval_pure]
  -- the gate has not changed the configuration
  rw [rows_of_follows follow, admitAdmin_config admitted] at built
  rw [admitAdmin_config admitted] at published
  exact ⟨_, publishNext_opens (atRepository_ok published), (build_ingested built).1.1,
    loadedRecords_of_built built⟩

end Published

/-! ## The operator and the queries -/

/-- The epoch has this version, among those of the table or among the operator's. -/
def VersionOf (node : Node) (table : Bytes) (version : Nat) (epoch : Epoch) : Prop :=
  (tableRepository node table).openVersion version = .ok epoch ∨
    (node.repositories (adminPlace node.config)).openVersion version = .ok epoch

/-- **The operator's calls act on no table that queries read.**  After a load of a table has
returned OK, its queries show the loaded rows and schema exactly if its own repository held the
same before; after a rollback, they show the version it went back to under the same condition. -/
theorem admin_acts_iff {ctx : CryptoContext} {P : Type} (around : Surroundings ctx P)
    (context : ServerContext) (world : NodeWorld P) {table : Bytes}
    (accepted : AcceptedAsIdentifier table) :
    (∀ first rest answer, first.table = table →
      ((load around context (first :: rest)).eval world).1 = .ok answer →
      ∃ records, loadedRecords world.node.config first (first :: rest) = .ok records ∧
        (Shows ((load around context (first :: rest)).eval world).2.node table first.schema records ↔
          Holds (tableRepository world.node table) first.schema records)) ∧
    ∀ wireVersion version answer epoch, VersionOf world.node table version epoch →
      ((rollbackEpoch around context wireVersion version).eval world).1 = .ok answer →
      (Shows ((rollbackEpoch around context wireVersion version).eval world).2.node table
          epoch.manifest.schema (epoch.rows.map Row.payload) ↔
        Holds (tableRepository world.node table) epoch.manifest.schema
          (epoch.rows.map Row.payload)) := by
  have plain := accepted.plain
  refine ⟨fun first rest answer _ loaded => ?_, fun wireVersion version answer epoch _ _ => ?_⟩
  · obtain ⟨epoch, _, _, records⟩ := load_publishes loaded
    refine ⟨_, records, ?_⟩
    have kept := congrArg Prod.snd (load_leaves around context plain (first :: rest) world)
    rw [shows_iff plain.1]
    exact iff_of_eq (congrArg (Holds · first.schema _) kept)
  · have kept := congrArg Prod.snd
      (rollbackEpoch_leaves around context plain wireVersion version world)
    rw [shows_iff plain.1]
    exact iff_of_eq (congrArg (Holds · epoch.manifest.schema _) kept)

def loadedChunk : LoadChunk :=
  ⟨kWireVersion, bytes "t", bytes "id", bytes "v", 7, bytes "x"⟩

def loading : Except Status (Nat × Nat) × NodeWorld Unit :=
  (load (aloneSurroundings Unit) (bearing (bytes "s1")) [loadedChunk]).eval ⟨operatorNode, ()⟩

theorem loading_ok : loading.1 = .ok (1, 1) := by
  decide +kernel

theorem admin_acts_nowhere :
    AcceptedAsIdentifier (bytes "t") ∧ loading.1 = .ok (1, 1) ∧
      ∃ records, loadedRecords operatorNode.config loadedChunk [loadedChunk] = .ok records ∧
        (Shows loading.2.node (bytes "t") loadedChunk.schema records ↔
          Holds (tableRepository operatorNode (bytes "t")) loadedChunk.schema records) := by
  have accepted : AcceptedAsIdentifier (bytes "t") := by decide
  refine ⟨accepted, loading_ok, ?_⟩
  exact (admin_acts_iff (aloneSurroundings Unit) (bearing (bytes "s1")) ⟨operatorNode, ()⟩
    accepted).1 loadedChunk [] (1, 1) rfl loading_ok

/-- A table is loaded, and queries do not find it. -/
theorem loaded_table_not_found :
    loading.1 = .ok (1, 1) ∧
      let missing : Status := ⟨.notFound,
        bytes "no such file '/var/lib/opaquedb/db/default/t/epochs/CURRENT'"⟩
      loading.2.node.scan [] (bytes "t") 10 = .error missing ∧
      loading.2.node.describeTable [] (bytes "t") = .error missing := by
  decide +kernel

end OpaqueDb.Server.AdminTables
