/-
# Server.RepositoryManager -- the directory a table is read from

A request names a database and a table; the manager opens the repository of that table at
`<base>/db/<database>/<table>/epochs` and keeps it.  Nothing between the request and the
path looks at the two strings, except that Scan and Insert want a table and Execute takes
its table from the SQL text.

The file system reads the path up to the first NUL, and what is left is what `Theory.Paths`
walks: `..` inside a name climbs.  A pair of tables is kept apart in every configuration
without a NUL exactly when the walks of their names come back under `db` and neither ends
inside the other (`roots_apart_iff`); plain names always are (`TableId.Plain.confined`,
`TableId.unrelated_of_ne`).
-/
import OpaqueDb.Config.Validate
import OpaqueDb.Server.Engine
import OpaqueDb.Theory.Paths

namespace OpaqueDb.Config

open OpaqueDb.Core

set_option autoImplicit false

set_option linter.dupNamespace false

/-- The directory under which the databases lie. -/
def Config.base (config : Config) : Bytes :=
  if config.storage.epochDir.isEmpty then config.node.dataDir else config.storage.epochDir

def Config.databasesDir (config : Config) : Bytes :=
  config.base ++ bytes "/db"

def Config.epochRootFor (config : Config) (database table : Bytes) : Bytes :=
  strCat [config.databasesDir, "/", database, "/", table, "/epochs"]

/-- The directory of the operator's own repository. -/
def Config.effectiveEpochDir (config : Config) : Bytes :=
  if config.storage.epochDir.isEmpty then config.node.dataDir ++ bytes "/epochs"
  else config.storage.epochDir

end OpaqueDb.Config

namespace OpaqueDb.Server

open OpaqueDb.Core Config Sql Theory

/-! ## Requests and the manager -/

/-- The parts of a request that decide its table. -/
inductive Request where
  | scan (database table : Bytes)
  | insert (database table : Bytes)
  | describeTable (database table : Bytes)
  | execute (database sqlTemplate : Bytes)
  deriving DecidableEq, Repr

/-- The table a request asks the manager for. -/
def Request.tableId : Request → StatusOr TableId
  | .scan database table =>
    if table.isEmpty then .error (invalidArgument ["scan: table is required"])
    else .ok (tableOf database table)
  | .insert database table =>
    if table.isEmpty then .error (invalidArgument ["insert: table is required"])
    else .ok (tableOf database table)
  | .describeTable database table => .ok (tableOf database table)
  | .execute database sqlTemplate => do
    let statement ← parse sqlTemplate
    let logical ← buildLogicalPlan statement
    return tableOf database logical.table

/-- The opened repositories, by table; each is at its table's root. -/
structure RepositoryManager where
  config : Config
  repos : List (TableId × Bytes) := []
  rooted : ∀ entry ∈ repos, entry.2 = config.epochRootFor entry.1.database entry.1.table := by simp

/-- `LocalEpochRepository::Open`, up to the creation of the directory. -/
def openRepository (root : Bytes) : StatusOr Bytes :=
  if root.isEmpty then .error (invalidArgument ["repository root is empty"]) else .ok root

namespace RepositoryManager

def find (manager : RepositoryManager) (id : TableId) : Option Bytes :=
  (manager.repos.find? fun entry => entry.1 = id).map Prod.snd

/-- Keep a repository opened at its table's root. -/
def emplace (manager : RepositoryManager) (id : TableId) : RepositoryManager where
  config := manager.config
  repos := (id, manager.config.epochRootFor id.database id.table) :: manager.repos
  rooted := List.forall_mem_cons.2 ⟨rfl, manager.rooted⟩

/-- The root of a table's repository, and the manager that keeps it. -/
def get (manager : RepositoryManager) (id : TableId) : StatusOr (Bytes × RepositoryManager) :=
  match manager.find id with
  | some root => .ok (root, manager)
  | none => do
    let root ← openRepository (manager.config.epochRootFor id.database id.table)
    return (root, manager.emplace id)

theorem find_root {manager : RepositoryManager} {id : TableId} {root : Bytes}
    (found : manager.find id = some root) :
    root = manager.config.epochRootFor id.database id.table := by
  obtain ⟨entry, located, rfl⟩ := Option.map_eq_some_iff.1 found
  obtain rfl : entry.1 = id := by simpa using List.find?_some located
  exact manager.rooted entry (List.mem_of_find?_eq_some located)

/-- Whatever was opened before, a table is read from its own root. -/
theorem get_eq (manager : RepositoryManager) (id : TableId) :
    (manager.get id).map Prod.fst = .ok (manager.config.epochRootFor id.database id.table) := by
  rcases found : manager.find id with _ | root
  · have visible : (manager.config.epochRootFor id.database id.table).isEmpty = false := by
      simp [Config.epochRootFor, strCat, bytes]
    have opened : openRepository (manager.config.epochRootFor id.database id.table) =
        .ok (manager.config.epochRootFor id.database id.table) := by
      rw [openRepository, visible]
      rfl
    rw [get, found]
    rw [opened]
    rfl
  · rw [get, found, find_root found]
    rfl

end RepositoryManager

/-! ## Resolving a path -/

def slash : UInt8 := 47

def classify (part : Bytes) : Component Bytes :=
  if part = bytes "." then .here else if part = bytes ".." then .up else .name part

/-- The components of a path; repeated separators count once. -/
def components (path : Bytes) : List (Component Bytes) :=
  (strSplitSkipEmpty slash path).map classify

/-- Where a path leads. -/
def resolve (path : Bytes) : Place Bytes :=
  (Place.mk (path.head? == some slash) 0 []).walk (components path)

theorem components_append (a b : Bytes) :
    components (a ++ slash :: b) = components a ++ components b := by
  simp [components, strSplitSkipEmpty, strSplit_append]

/-- What the file system reads of a path. -/
def cString (path : Bytes) : Bytes :=
  path.takeWhile (· ≠ 0)

/-- Where the file system opens a path. -/
def openedAt (path : Bytes) : Place Bytes :=
  resolve (cString path)

theorem cString_append {a : Bytes} (text : 0 ∉ a) (b : Bytes) : cString (a ++ b) = a ++ cString b :=
  List.takeWhile_append_of_pos fun c member =>
    decide_eq_true fun same : c = 0 => text (same ▸ member)

theorem cString_of_text {a : Bytes} (text : 0 ∉ a) : cString a = a := by
  have whole := cString_append text []
  rwa [List.append_nil, show cString [] = [] from rfl, List.append_nil] at whole

theorem cString_stops {a : Bytes} (stops : 0 ∈ a) (b : Bytes) : cString (a ++ b) = cString a := by
  unfold cString
  rw [List.takeWhile_append, if_neg]
  intro whole
  have kept := List.takeWhile_eq_self_iff.1 ((List.takeWhile_sublist _).eq_of_length whole) 0 stops
  simp at kept

/-- A plain name: what `IsSafeBasename` asks of a segment file, up to backslashes, and no NUL. -/
def Plain (name : Bytes) : Prop :=
  name ≠ [] ∧ name ≠ bytes "." ∧ name ≠ bytes ".." ∧ slash ∉ name ∧ 0 ∉ name

instance (name : Bytes) : Decidable (Plain name) :=
  inferInstanceAs (Decidable (_ ∧ _))

theorem Plain.components {name : Bytes} (plain : Plain name) : components name = [.name name] := by
  obtain ⟨nonempty, here, up, single, _⟩ := plain
  simp [Server.components, strSplitSkipEmpty, strSplit_of_absent single, nonempty, classify, here, up]

/-! ## Roots -/

def db : Bytes := bytes "db"

def epochs : Bytes := bytes "epochs"

/-- The names of a table under the databases. -/
def TableId.text (id : TableId) : Bytes :=
  id.database ++ slash :: (id.table ++ slash :: epochs)

/-- The walk from the base directory to a table's root. -/
def TableId.walk (id : TableId) : List (Component Bytes) :=
  .name db :: components (cString id.text)

/-- The place the base leads to; a path under an empty base starts at the root. -/
def basePlace (config : Config) : Place Bytes :=
  (Place.mk ((config.base ++ [slash]).head? == some slash) 0 []).walk (components config.base)

variable (config : Config)

theorem resolve_base (rest : Bytes) :
    resolve (config.base ++ slash :: rest) = (basePlace config).walk (components rest) := by
  have starts : (config.base ++ slash :: rest).head? =
      (config.base ++ [slash]).head? := by
    cases config.base <;> rfl
  rw [resolve, components_append, Place.walk_append, starts]
  rfl

theorem epochRootFor_eq (id : TableId) : config.epochRootFor id.database id.table =
    config.base ++ slash :: (db ++ slash :: id.text) := by
  simp only [Config.epochRootFor, strCat, List.flatten_cons, Config.databasesDir, List.append_assoc]
  rfl

theorem resolve_epochRootFor (id : TableId) :
    resolve (config.epochRootFor id.database id.table) =
      (basePlace config).walk (.name db :: components id.text) := by
  rw [epochRootFor_eq, resolve_base, components_append]
  rfl

section Text

variable {config} (text : 0 ∉ config.base)
include text

theorem cString_base (rest : Bytes) :
    cString (config.base ++ slash :: rest) = config.base ++ slash :: cString rest :=
  cString_append text _

theorem openedAt_databasesDir : openedAt config.databasesDir = (basePlace config).down [db] := by
  have joined : config.databasesDir = config.base ++ slash :: db := rfl
  rw [openedAt, joined, cString_base text, resolve_base]
  rfl

theorem openedAt_epochRootFor (id : TableId) :
    openedAt (config.epochRootFor id.database id.table) = (basePlace config).walk id.walk := by
  have under : cString (db ++ slash :: id.text) = db ++ slash :: cString id.text :=
    cString_append (by decide) _
  rw [openedAt, epochRootFor_eq, cString_base text, under, resolve_base, components_append]
  rfl

end Text

/-- Under a base with a NUL every root is the directory of the databases. -/
theorem openedAt_stops (stops : 0 ∈ config.base) (id : TableId) :
    openedAt (config.epochRootFor id.database id.table) = openedAt config.databasesDir := by
  rw [openedAt, openedAt, epochRootFor_eq, Config.databasesDir, cString_stops stops,
    cString_stops stops]

/-! ## When a root stays in its directory -/

/-- The walk comes back under `db` and ends strictly below it, along `rest`. -/
def TableId.Confined (id : TableId) (rest : List Bytes) : Prop :=
  rest ≠ [] ∧ inside id.walk = some (db :: rest)

/-- Neither path leads into the other. -/
def Unrelated (first second : List Bytes) : Prop :=
  ¬ first <+: second ∧ ¬ second <+: first

theorem exists_plain_unspelled (cs : List (Component Bytes)) :
    ∃ x, Plain x ∧ .name x ∉ cs := by
  have apart : Function.Injective fun n : Nat => Component.name (List.replicate (n + 3) (120 : UInt8)) := by
    intro n m same
    have lengths := congrArg List.length (Component.name.inj same)
    simpa using lengths
  obtain ⟨n, unspelled⟩ := Infinite.exists_notMem_finset (cs.toFinset.preimage _ apart.injOn)
  refine ⟨List.replicate (n + 3) 120, ⟨by simp, ?_, ?_, ?_, ?_⟩, by simpa using unspelled⟩
  · exact fun same => by simpa [bytes] using congrArg List.length same
  · exact fun same => by simpa [bytes] using congrArg List.length same
  · exact fun member => absurd (List.eq_of_mem_replicate member) (by decide)
  · exact fun member => absurd (List.eq_of_mem_replicate member) (by decide)

/-- A configuration whose base is the directory `x` at the root. -/
theorem basePlace_named {x : Bytes} (plain : Plain x) :
    basePlace { node := { dataDir := slash :: x } } = ⟨true, 0, [x]⟩ := by
  have base : Config.base { node := { dataDir := slash :: x } } = [] ++ slash :: x := rfl
  rw [basePlace, base, components_append, plain.components]
  rfl

/-- **A root lies below the databases in every configuration** exactly when its walk is
confined. -/
theorem below_iff (id : TableId) :
    (∀ config : Config, 0 ∉ config.base → (openedAt config.databasesDir).Below
      (openedAt (config.epochRootFor id.database id.table))) ↔ ∃ rest, id.Confined rest := by
  constructor
  · intro below
    rcases stays : inside id.walk with _ | names
    · -- a base the walk cannot name again
      obtain ⟨x, plain, unspelled⟩ := exists_plain_unspelled id.walk
      have text : 0 ∉ Config.base { node := { dataDir := slash :: x } } :=
        fun member => plain.2.2.2.2 ((List.mem_cons.1 member).resolve_left (by decide))
      obtain ⟨⟨_, _, under⟩, _⟩ := below { node := { dataDir := slash :: x } } text
      rw [openedAt_databasesDir text, openedAt_epochRootFor text, basePlace_named plain] at under
      have escapes := walk_escapes unspelled stays
      refine absurd (List.IsPrefix.trans ?_ under) escapes
      exact ⟨[db], rfl⟩
    · have text : 0 ∉ Config.base {} := by decide
      have strict := below {} text
      rw [openedAt_databasesDir text, openedAt_epochRootFor text, walk_of_inside stays,
        Place.down_below_iff] at strict
      obtain ⟨⟨rest, rfl⟩, proper⟩ := strict
      exact ⟨rest, fun none_ => proper (by rw [none_]; rfl), stays⟩
  · rintro ⟨rest, nonempty, stays⟩ config text
    rw [openedAt_databasesDir text, openedAt_epochRootFor text, walk_of_inside stays,
      Place.down_below_iff]
    exact ⟨⟨rest, rfl⟩, fun same => nonempty (List.cons.inj same).2.symm⟩

theorem within_iff {a b : TableId} {first second : List Bytes} (confined : a.Confined first)
    (confined' : b.Confined second) {config : Config} (text : 0 ∉ config.base) :
    (openedAt (config.epochRootFor a.database a.table)).Within
      (openedAt (config.epochRootFor b.database b.table)) ↔ first <+: second := by
  rw [openedAt_epochRootFor text, openedAt_epochRootFor text, walk_of_inside confined.2,
    walk_of_inside confined'.2, Place.down_within_iff]
  simp

/-! ## Plain names -/

def TableId.Plain (id : TableId) : Prop :=
  Server.Plain id.database ∧ Server.Plain id.table

instance (id : TableId) : Decidable id.Plain :=
  inferInstanceAs (Decidable (_ ∧ _))

/-- Plain names are walked as they are written. -/
theorem TableId.Plain.components_text {id : TableId} (plain : id.Plain) :
    components id.text = [.name id.database, .name id.table, .name epochs] := by
  rw [TableId.text, components_append, components_append, plain.1.components, plain.2.components]
  rfl

theorem TableId.Plain.confined {id : TableId} (plain : id.Plain) :
    id.Confined [id.database, id.table, epochs] := by
  have text : cString id.text = id.text := by
    refine cString_of_text fun member => ?_
    rcases List.mem_append.1 member with name | rest
    · exact plain.1.2.2.2.2 name
    rcases List.mem_append.1 ((List.mem_cons.1 rest).resolve_left (by decide)) with name | rest
    · exact plain.2.2.2.2.2 name
    · exact absurd rest (by decide)
  refine ⟨List.cons_ne_nil _ _, ?_⟩
  rw [TableId.walk, text, plain.components_text]
  exact insideFrom_names [] [db, id.database, id.table, epochs]

theorem TableId.unrelated_of_ne {a b : TableId} (other : a ≠ b) :
    Unrelated [a.database, a.table, epochs] [b.database, b.table, epochs] := by
  -- paths of one length are prefixes of each other only when they are equal
  have apart : ∀ c d : TableId, [c.database, c.table, epochs] <+: [d.database, d.table, epochs] →
      c = d := by
    intro c d into
    cases c
    simp_all
  exact ⟨fun into => other (apart a b into), fun into => other (apart b a into).symm⟩

/-! ## Every request -/

/-- **Which tables stay in their own directory.**  Whatever was opened before, and in every
configuration without a NUL, the roots of two tables lie strictly below the databases and outside
each other exactly when both walks are confined and unrelated; plain names always are.  A NUL in
the configuration cuts every root to the directory of the databases. -/
theorem roots_apart_iff (a b : TableId) :
    ((∀ manager : RepositoryManager, 0 ∉ manager.config.base → ∃ rootA rootB,
        (manager.get a).map Prod.fst = .ok rootA ∧ (manager.get b).map Prod.fst = .ok rootB ∧
        (openedAt manager.config.databasesDir).Below (openedAt rootA) ∧
        (openedAt manager.config.databasesDir).Below (openedAt rootB) ∧
        (a ≠ b → ¬ (openedAt rootA).Within (openedAt rootB) ∧
          ¬ (openedAt rootB).Within (openedAt rootA))) ↔
      ∃ restA restB, a.Confined restA ∧ b.Confined restB ∧ (a ≠ b → Unrelated restA restB)) ∧
    (a.Plain → b.Plain →
      ∃ restA restB, a.Confined restA ∧ b.Confined restB ∧ (a ≠ b → Unrelated restA restB)) ∧
    ∀ manager : RepositoryManager, 0 ∈ manager.config.base → ∃ rootA,
      (manager.get a).map Prod.fst = .ok rootA ∧
        openedAt rootA = openedAt manager.config.databasesDir := by
  refine ⟨⟨fun apart => ?_, ?_⟩, fun plainA plainB =>
    ⟨_, _, plainA.confined, plainB.confined, TableId.unrelated_of_ne⟩, fun manager stops =>
    ⟨_, manager.get_eq a, openedAt_stops _ stops a⟩⟩
  · have roots : ∀ config : Config, 0 ∉ config.base →
        (openedAt config.databasesDir).Below (openedAt (config.epochRootFor a.database a.table)) ∧
        (openedAt config.databasesDir).Below (openedAt (config.epochRootFor b.database b.table)) ∧
        (a ≠ b →
          ¬ (openedAt (config.epochRootFor a.database a.table)).Within
              (openedAt (config.epochRootFor b.database b.table)) ∧
          ¬ (openedAt (config.epochRootFor b.database b.table)).Within
              (openedAt (config.epochRootFor a.database a.table))) := by
      intro config text
      obtain ⟨rootA, rootB, openedA, openedB, inside_⟩ := apart { config } text
      rw [RepositoryManager.get_eq] at openedA openedB
      rwa [← Except.ok.inj openedA, ← Except.ok.inj openedB] at inside_
    obtain ⟨restA, confinedA⟩ := (below_iff a).1 fun config text => (roots config text).1
    obtain ⟨restB, confinedB⟩ := (below_iff b).1 fun config text => (roots config text).2.1
    refine ⟨restA, restB, confinedA, confinedB, fun other => ?_⟩
    have text : 0 ∉ Config.base {} := by decide
    have outside := (roots {} text).2.2 other
    rwa [within_iff confinedA confinedB text, within_iff confinedB confinedA text] at outside
  · rintro ⟨restA, restB, confinedA, confinedB, unrelated⟩ manager text
    refine ⟨_, _, manager.get_eq a, manager.get_eq b, (below_iff a).2 ⟨restA, confinedA⟩ _ text,
      (below_iff b).2 ⟨restB, confinedB⟩ _ text, fun other => ?_⟩
    rw [within_iff confinedA confinedB text, within_iff confinedB confinedA text]
    exact unrelated other

/-- A table name may climb: a scan of `../../../etc` opens a root outside the databases. -/
theorem scan_escapes :
    (Request.scan [] (bytes "../../../etc")).tableId = .ok ⟨bytes "default", bytes "../../../etc"⟩ ∧
    (RepositoryManager.get { config := {} } ⟨bytes "default", bytes "../../../etc"⟩).map Prod.fst =
      .ok (bytes "/var/lib/opaquedb/db/default/../../../etc/epochs") ∧
    openedAt (bytes "/var/lib/opaquedb/db/default/../../../etc/epochs") =
      ⟨true, 0, [bytes "var", bytes "lib", bytes "etc", bytes "epochs"]⟩ ∧
    ¬ (openedAt (Config.databasesDir {})).Below
      (openedAt (bytes "/var/lib/opaquedb/db/default/../../../etc/epochs")) := by
  refine ⟨rfl, ?_, by decide, ?_⟩
  · rw [RepositoryManager.get_eq]
    decide
  · rintro ⟨⟨_, _, under⟩, _⟩
    revert under
    decide

end OpaqueDb.Server
