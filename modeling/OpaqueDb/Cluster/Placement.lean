/-
# Cluster.Placement -- which shard an inserted row is on

The load command keeps the rows whose key the ring gives to its own node.  An insert stores its
row on the node it was sent to, which does not look at the ring.  So after a sharded load and any
inserts a node holds the rows it loaded and those it was sent (`stored_run`), and every row is on
the node that owns its key exactly when every insert was sent there (`rows_owned_iff`).
-/
import OpaqueDb.Cluster.Sharding
import OpaqueDb.Server.Ownership

namespace OpaqueDb.Cluster.Placement

open OpaqueDb.Core Config Crypto Theory Storage Sql List Function
open Server Server.Ownership

set_option autoImplicit false

/-! ## Loading a shard -/

/-- The load command, on the disk of one node: the version it published and its rows. -/
def loadCommand (lib : Library) (node : Node) (ddl csvPath : Bytes) (file : Option Bytes)
    (database shardId shardNodes : Bytes) : StatusOr ((Nat × Nat) × Node) := do
  let schema ← parseCreateTable ddl
  let rows ← parseCsvRows lib schema csvPath file
  let mine := loadRows lib database schema shardId shardNodes rows
  let staging ← buildStagingFromRows node.config schema mine
  let place := placeOf node.config ⟨database, schema.table⟩
  let (version, repo) ← (node.repositories place).publishNext staging
  return ((version, staging.rows.length),
    { node with repositories := update node.repositories place repo })

/-- The table's repository on a node. -/
def repositoryOf (node : Node) (id : TableId) : Repository :=
  node.repositories (placeOf node.config id)

/-- The node's current epoch holds these rows, under this schema. -/
def Stores (node : Node) (database : Bytes) (schema : Schema) (rows : List IngestRow) : Prop :=
  ∃ epoch, (repositoryOf node ⟨database, schema.table⟩).openCurrent = .ok epoch ∧
    epoch.manifest.schema = schema ∧ Ingested epoch rows

variable {rows : List IngestRow}

theorem loadCommand_stores {lib : Library} {before after : Node} {ddl csvPath : Bytes}
    {file : Option Bytes} {database shardId shardNodes : Bytes} {outcome : Nat × Nat}
    {schema : Schema} (declared : parseCreateTable ddl = .ok schema)
    (parsed : parseCsvRows lib schema csvPath file = .ok rows)
    (loaded : loadCommand lib before ddl csvPath file database shardId shardNodes =
      .ok (outcome, after)) :
    Stores after database schema (loadRows lib database schema shardId shardNodes rows) := by
  rw [loadCommand, declared] at loaded
  obtain ⟨_, same, loaded₁⟩ := bind_eq_ok.1 loaded
  obtain rfl := Except.ok.inj same
  rw [parsed] at loaded₁
  obtain ⟨_, same, loaded₂⟩ := bind_eq_ok.1 loaded₁
  obtain rfl := Except.ok.inj same
  obtain ⟨staging, built, loaded₃⟩ := bind_eq_ok.1 loaded₂
  obtain ⟨⟨version, repo⟩, published, loaded₄⟩ := bind_eq_ok.1 loaded₃
  cases pure_eq_ok.1 loaded₄
  refine ⟨staging.published version, ?_, (build_ingested built).1.1, (build_ingested built).2 version⟩
  rw [← publishNext_opens published]
  refine congrArg Repository.openCurrent ?_
  exact update_self (placeOf before.config _) repo before.repositories

/-! ## Inserts -/

section Inserts

variable {ctx : CryptoContext} {P : Type}

/-- An insert, and the node it is sent to. -/
structure InsertCall (ctx : CryptoContext) (P : Type) where
  node : Bytes
  around : Surroundings ctx P
  context : ServerContext
  request : QueryService.InsertRequest

/-- The nodes by their ids. -/
abbrev Nodes (P : Type) := Bytes → NodeWorld P

def outcome (nodes : Nodes P) (call : InsertCall ctx P) : StatusOr InsertResult × NodeWorld P :=
  (QueryService.insert call.around call.context call.request).eval (nodes call.node)

def step (nodes : Nodes P) (call : InsertCall ctx P) : Nodes P :=
  update nodes call.node (outcome nodes call).2

def run (nodes : Nodes P) (calls : List (InsertCall ctx P)) : Nodes P :=
  calls.foldl step nodes

/-- A listed node answers the insert into this table with OK. -/
structure Succeeds (lib : Library) (shardNodes : Bytes) (id : TableId) (nodes : Nodes P)
    (call : InsertCall ctx P) : Prop where
  listed : call.node ∈ shardIds shardNodes
  table : tableOf call.request.database call.request.table = id
  lib : call.around.lib = lib
  answered : ∃ result, (outcome nodes call).1 = .ok result

def AllSucceed (lib : Library) (shardNodes : Bytes) (id : TableId) :
    Nodes P → List (InsertCall ctx P) → Prop
  | _, [] => True
  | nodes, call :: rest =>
    Succeeds lib shardNodes id nodes call ∧
      AllSucceed lib shardNodes id (step nodes call) rest

/-- The row an insert makes of its values. -/
def typedRow (lib : Library) (schema : Schema) (cells : List Bytes) : StatusOr IngestRow :=
  (parseCells lib schema.columns cells).map (rowOf schema.columns)

/-- The rows a node has been sent, in order. -/
def sentTo (lib : Library) (schema : Schema) (id : Bytes) (calls : List (InsertCall ctx P)) :
    List IngestRow :=
  calls.filterMap fun call =>
    if call.node = id then (typedRow lib schema call.request.values).toOption else none

theorem atRepository_config {α : Type} (place : Place Bytes)
    (f : Repository → StatusOr (α × Repository)) :
    Call.Keeps (fun world : NodeWorld P => world.node.config) (atRepository place f) := by
  intro world
  rw [atRepository, Call.eval_step]
  split <;> rfl

variable {cells : List Bytes} {around : Surroundings ctx P} {result : InsertResult}

/-- Inserting has changed the repository of its table and no configuration. -/
theorem insertRow_ok {database table : Bytes} {world after : NodeWorld P}
    (done : (insertRow around database table cells).eval world = (.ok result, after)) :
    after.node.config = world.node.config ∧
      insertRowAndPublish around.lib (repositoryOf world.node (tableOf database table)) cells =
        .ok (result, repositoryOf after.node (tableOf database table)) := by
  unfold insertRow at done
  split at done
  · cases (Prod.mk.inj done).1
  rw [Call.eval_bind_ok (Call.eval_current world)] at done
  have config : after.node.config = world.node.config := by
    have kept := atRepository_config (placeOf world.node.config (tableOf database table))
      (fun repo => insertRowAndPublish around.lib repo cells) world
    rw [done] at kept
    exact kept
  refine ⟨config, (atRepository_ok done).trans ?_⟩
  rw [repositoryOf, config]

/-- An insert that returns OK has changed the repository of its table. -/
theorem insert_ok {context : ServerContext} {request : QueryService.InsertRequest}
    {world after : NodeWorld P}
    (answered : (QueryService.insert around context request).eval world = (.ok result, after)) :
    after.node.config = world.node.config ∧
      insertRowAndPublish around.lib
          (repositoryOf world.node (tableOf request.database request.table)) request.values =
        .ok (result, repositoryOf after.node (tableOf request.database request.table)) := by
  unfold QueryService.insert at answered
  obtain ⟨_, here, admitted, run⟩ := Call.eval_bind_inv (congrArg Prod.fst answered)
  rw [run] at answered
  obtain ⟨_, _, run⟩ := Call.eval_lift_inv (congrArg Prod.fst answered)
  rw [run] at answered
  -- the gate has only counted the request
  have counted : here.node.config = world.node.config ∧
      here.node.repositories = world.node.repositories := by
    rw [Prod.mk.injEq] at admitted
    rw [← admitted.2]
    exact ⟨rfl, rfl⟩
  have there : ∀ id, repositoryOf here.node id = repositoryOf world.node id := by
    intro id
    rw [repositoryOf, counted.1, counted.2, repositoryOf]
  obtain ⟨config, inserted⟩ := insertRow_ok answered
  exact ⟨config.trans counted.1, by rw [← there]; exact inserted⟩

variable {lib : Library} {shardNodes database id : Bytes} {schema : Schema} {nodes : Nodes P}

theorem typedRow_of_typed {row : IngestRow} (typed : Typed lib schema cells row) :
    typedRow lib schema cells = .ok row := by
  obtain ⟨_, values, parsed, rfl⟩ := typed
  rw [typedRow, parsed]
  rfl

/-- **One insert** adds its row to the node it was sent to. -/
theorem stored_step {call : InsertCall ctx P}
    (succeeds : Succeeds lib shardNodes ⟨database, schema.table⟩ nodes call)
    (stores : Stores (nodes id).node database schema rows) :
    Stores (step nodes call id).node database schema (rows ++ sentTo lib schema id [call]) := by
  by_cases here : call.node = id
  · subst here
    obtain ⟨result, answered⟩ := succeeds.answered
    have run : outcome nodes call = (.ok result, (outcome nodes call).2) := Prod.ext answered rfl
    obtain ⟨_, inserted⟩ := insert_ok run
    rw [succeeds.table, succeeds.lib] at inserted
    obtain ⟨epoch, opened, same, ingested⟩ := stores
    obtain ⟨epoch', row, opened', typed, ingested'⟩ := insert_ingested opened ingested inserted
    obtain ⟨epoch'', _, _, opened'', _, _, _, _, _, kept, _⟩ := insert_stored opened inserted
    obtain rfl := Except.ok.inj (opened'.symm.trans opened'')
    rw [same] at typed
    have sent : sentTo lib schema call.node [call] = [row] := by
      simp [sentTo, typedRow_of_typed typed, Except.toOption]
    rw [step, update_self, sent]
    exact ⟨epoch', opened', kept.trans same, ingested'⟩
  · have sent : sentTo lib schema id [call] = [] := by
      simp [sentTo, here]
    rw [step, update_of_ne (Ne.symm here), sent, append_nil]
    exact stores

/-- **A run of inserts** adds to each node the rows it was sent. -/
theorem stored_run {calls : List (InsertCall ctx P)}
    (succeed : AllSucceed lib shardNodes ⟨database, schema.table⟩ nodes calls)
    (stores : Stores (nodes id).node database schema rows) :
    Stores (run nodes calls id).node database schema (rows ++ sentTo lib schema id calls) := by
  induction calls generalizing nodes rows with
  | nil =>
    rw [sentTo, filterMap_nil, append_nil]
    exact stores
  | cons call rest ih =>
    obtain ⟨first, later⟩ := succeed
    have both : sentTo lib schema id (call :: rest) =
        sentTo lib schema id [call] ++ sentTo lib schema id rest :=
      filterMap_append (l := [call])
    rw [both, ← append_assoc]
    exact ih later (stored_step first stores)

theorem listed_of_succeed {calls : List (InsertCall ctx P)}
    (succeed : AllSucceed lib shardNodes ⟨database, schema.table⟩ nodes calls) :
    ∀ call ∈ calls, call.node ∈ shardIds shardNodes := by
  induction calls generalizing nodes with
  | nil => simp
  | cons call rest ih =>
    obtain ⟨first, later⟩ := succeed
    exact forall_mem_cons.2 ⟨first.listed, ih later⟩

theorem mem_sentTo {row : IngestRow} {calls : List (InsertCall ctx P)} :
    row ∈ sentTo lib schema id calls ↔
      ∃ call ∈ calls, call.node = id ∧ typedRow lib schema call.request.values = .ok row := by
  rw [sentTo, mem_filterMap]
  refine exists_congr fun call => and_congr_right fun _ => ?_
  by_cases here : call.node = id
  · cases typedRow lib schema call.request.values <;> simp [Except.toOption]
  · simp [here]

end Inserts

/-! ## The owners of the rows -/

section Owners

variable {ctx : CryptoContext} {P : Type} (lib : Library) (database shardNodes : Bytes)
  (schema : Schema)

/-- The rows on a node: those it loaded and those it was sent. -/
def rowsOn (loaded : List IngestRow) (calls : List (InsertCall ctx P)) (id : Bytes) : List IngestRow :=
  loadRows lib database schema id shardNodes loaded ++ sentTo lib schema id calls

/-- Every row is on the node that owns its key. -/
def Owned (rows : Bytes → List IngestRow) : Prop :=
  ∀ id ∈ shardIds shardNodes, ∀ row ∈ rows id,
    ownerOf lib database schema shardNodes row.key = .ok id

/-- No two nodes have rows of one INT key. -/
def KeysApart (rows : Bytes → List IngestRow) : Prop :=
  ∀ first ∈ shardIds shardNodes, ∀ second ∈ shardIds shardNodes, ∀ row ∈ rows first,
    ∀ row' ∈ rows second, ∀ k, row.key = .int k → row'.key = .int k → first = second

theorem keysApart_of_owned {rows : Bytes → List IngestRow}
    (owned : Owned lib database shardNodes schema rows) : KeysApart shardNodes rows := by
  intro first listed second listed' row here row' there k key key'
  have owner := owned first listed row here
  have owner' := owned second listed' row' there
  rw [key] at owner
  rw [key'] at owner'
  exact Except.ok.inj (owner.symm.trans owner')

/-- The rows are on their owners exactly if the inserts were sent there. -/
theorem owned_iff (loaded : List IngestRow) {calls : List (InsertCall ctx P)}
    (listed : ∀ call ∈ calls, call.node ∈ shardIds shardNodes) :
    Owned lib database shardNodes schema (rowsOn lib database shardNodes schema loaded calls) ↔
      ∀ call ∈ calls, ∀ row, typedRow lib schema call.request.values = .ok row →
        ownerOf lib database schema shardNodes row.key = .ok call.node := by
  constructor
  · intro owned call sent row typed
    refine owned call.node (listed call sent) row (mem_append_right _ ?_)
    exact mem_sentTo.2 ⟨call, sent, rfl, typed⟩
  · intro sent id member row stored
    rcases mem_append.1 stored with here | here
    · rw [loadRows_eq lib database schema member] at here
      simpa using (mem_filter.1 here).2
    · obtain ⟨call, among, rfl, typed⟩ := mem_sentTo.1 here
      exact sent call among row typed

end Owners

/-- **Where the rows of a sharded table are.**  After a load of each node's shard and any inserts,
the nodes store the rows they loaded and those they were sent.  Every row is on the node that owns
its key, and no INT key is on two nodes, exactly if every insert was sent to the owner of its
row. -/
theorem rows_owned_iff {ctx : CryptoContext} {P : Type} (lib : Library)
    (database shardNodes ddl csvPath : Bytes) (file : Option Bytes) (nodes : Nodes P)
    (calls : List (InsertCall ctx P)) {schema : Schema} {rows : List IngestRow}
    (declared : parseCreateTable ddl = .ok schema)
    (parsed : parseCsvRows lib schema csvPath file = .ok rows)
    (loaded : ∀ id ∈ shardIds shardNodes, ∃ before outcome,
      loadCommand lib before ddl csvPath file database id shardNodes = .ok (outcome, (nodes id).node))
    (succeed : AllSucceed lib shardNodes ⟨database, schema.table⟩ nodes calls) :
    let stored := rowsOn lib database shardNodes schema rows calls
    (∀ id ∈ shardIds shardNodes, Stores (run nodes calls id).node database schema (stored id)) ∧
      (Owned lib database shardNodes schema stored ∧ KeysApart shardNodes stored ↔
        ∀ call ∈ calls, ∀ row, typedRow lib schema call.request.values = .ok row →
          ownerOf lib database schema shardNodes row.key = .ok call.node) := by
  intro stored
  constructor
  · intro id member
    obtain ⟨before, outcome, done⟩ := loaded id member
    exact stored_run succeed (loadCommand_stores declared parsed done)
  · rw [← owned_iff lib database shardNodes schema rows (listed_of_succeed succeed)]
    exact ⟨And.left, fun owned => ⟨owned, keysApart_of_owned lib database shardNodes schema owned⟩⟩

/-! ## Two nodes -/

/-- The load of a node's shard of this file. -/
def shardOf (file id : Bytes) : StatusOr ((Nat × Nat) × Node) :=
  loadCommand strictLibrary operatorNode (bytes "CREATE TABLE t (id INT KEY, v TEXT)") (bytes "t.csv")
    (some file) (bytes "default") id (bytes "a,b")

def twoNodes (file id : Bytes) : NodeWorld Unit where
  node := ((shardOf file id).toOption.map Prod.snd).getD operatorNode
  peers := ()

def sendRow (id key : Bytes) : InsertCall Backend.defaultContext Unit where
  node := id
  around := aloneSurroundings Unit
  context := bearing (bytes "s1")
  request := ⟨kWireVersion, [], bytes "t", [key, bytes "x"]⟩

def sentSchema : Schema where
  table := bytes "t"
  columns := [⟨bytes "id", .eq, .int⟩, ⟨bytes "v", .raw, .text⟩]

theorem twoNodes_loaded {file : Bytes}
    (done : ∀ id ∈ shardIds (bytes "a,b"), (shardOf file id).isOk = true) :
    ∀ id ∈ shardIds (bytes "a,b"), ∃ before outcome,
      loadCommand strictLibrary before (bytes "CREATE TABLE t (id INT KEY, v TEXT)") (bytes "t.csv")
        (some file) (bytes "default") id (bytes "a,b") = .ok (outcome, (twoNodes file id).node) := by
  intro id member
  refine ⟨operatorNode, ?_⟩
  show ∃ outcome, shardOf file id = .ok (outcome, (twoNodes file id).node)
  rw [twoNodes]
  cases known : shardOf file id with
  | error status => cases known ▸ done id member
  | ok result => exact ⟨result.1, rfl⟩

def rowOfKey (k : Int64) : IngestRow :=
  ⟨.int k, [.text (bytes "x")]⟩

/-- The row of key 7 is loaded where it belongs, and that of 11 is sent there. -/
theorem rows_owned_two :
    let nodes := twoNodes (bytes "id,v\n7,x\n")
    let calls := [sendRow (bytes "b") (bytes "11")]
    let stored := rowsOn strictLibrary (bytes "default") (bytes "a,b") sentSchema [rowOfKey 7] calls
    AllSucceed strictLibrary (bytes "a,b") ⟨bytes "default", bytes "t"⟩ nodes calls ∧
      (∀ id ∈ shardIds (bytes "a,b"),
        Stores (run nodes calls id).node (bytes "default") sentSchema (stored id)) ∧
      Owned strictLibrary (bytes "default") (bytes "a,b") sentSchema stored ∧
      KeysApart (bytes "a,b") stored ∧ rowOfKey 11 ∈ stored (bytes "b") := by
  intro nodes calls stored
  have declared : parseCreateTable (bytes "CREATE TABLE t (id INT KEY, v TEXT)") = .ok sentSchema := by
    decide +kernel
  have parsed : parseCsvRows strictLibrary sentSchema (bytes "t.csv") (some (bytes "id,v\n7,x\n")) =
      .ok [rowOfKey 7] := by
    decide +kernel
  have answered : (outcome nodes (sendRow (bytes "b") (bytes "11"))).1 = .ok ⟨2, 1⟩ := by
    decide +kernel
  have succeed : AllSucceed strictLibrary (bytes "a,b") ⟨bytes "default", bytes "t"⟩ nodes calls :=
    ⟨⟨by decide, rfl, rfl, _, answered⟩, trivial⟩
  have eleven : typedRow strictLibrary sentSchema [bytes "11", bytes "x"] = .ok (rowOfKey 11) := by
    decide +kernel
  have sent : ∀ call ∈ calls, ∀ row, typedRow strictLibrary sentSchema call.request.values = .ok row →
      ownerOf strictLibrary (bytes "default") sentSchema (bytes "a,b") row.key = .ok call.node := by
    intro call member row typed
    obtain rfl := mem_singleton.1 member
    cases eleven.symm.trans typed
    decide +kernel
  obtain ⟨stores, owned⟩ := rows_owned_iff strictLibrary (bytes "default") (bytes "a,b") _ _ _ nodes
    calls declared parsed (twoNodes_loaded (by decide +kernel)) succeed
  exact ⟨succeed, stores, (owned.2 sent).1, (owned.2 sent).2, mem_append_right _
    (mem_sentTo.2 ⟨_, mem_singleton_self _, rfl, eleven⟩)⟩

/-- The same row goes to both nodes. -/
def bothSent : List (InsertCall Backend.defaultContext Unit) :=
  [sendRow (bytes "a") (bytes "7"), sendRow (bytes "b") (bytes "7")]

theorem bothSent_rows (id : Bytes) (either : id ∈ [bytes "a", bytes "b"]) :
    rowOfKey 7 ∈ rowsOn strictLibrary (bytes "default") (bytes "a,b") sentSchema [] bothSent id := by
  revert id
  decide +kernel

/-- Two nodes answer with OK, and both have the key. -/
theorem key_on_two_nodes :
    let nodes := twoNodes (bytes "id,v\n")
    let keysAt := fun id => (repositoryOf (run nodes bothSent id).node
      ⟨bytes "default", bytes "t"⟩).openCurrent.map fun epoch => epoch.rows.map Row.match_
    AllSucceed strictLibrary (bytes "a,b") ⟨bytes "default", bytes "t"⟩ nodes bothSent ∧
      keysAt (bytes "a") = .ok [[7, 0]] ∧ keysAt (bytes "b") = .ok [[7, 0]] ∧
      ¬ KeysApart (bytes "a,b")
        (rowsOn strictLibrary (bytes "default") (bytes "a,b") sentSchema [] bothSent) := by
  intro nodes keysAt
  have first : (outcome nodes (sendRow (bytes "a") (bytes "7"))).1 = .ok ⟨2, 1⟩ := by
    decide +kernel
  have second : (outcome (step nodes (sendRow (bytes "a") (bytes "7")))
      (sendRow (bytes "b") (bytes "7"))).1 = .ok ⟨2, 1⟩ := by
    decide +kernel
  refine ⟨⟨⟨by decide, rfl, rfl, _, first⟩, ⟨by decide, rfl, rfl, _, second⟩, trivial⟩,
    by decide +kernel, by decide +kernel, fun apart => ?_⟩
  have same := apart (bytes "a") (by decide) (bytes "b") (by decide) _
    (bothSent_rows (bytes "a") (by decide)) _ (bothSent_rows (bytes "b") (by decide)) 7 rfl rfl
  revert same
  decide

end OpaqueDb.Cluster.Placement
