/-
# Cluster.Manager -- one node's part in the cluster

Each node holds a lease, registers itself under a membership key and contends for the one
leader key.  A `tick` does all three; it also remembers whether the node came out as the
leader.  The leader publishes the shard map and advances the global epoch.

The manager's functions are programs of etcd calls that also change its own fields: what a
function has changed stays changed when it returns an error.
-/
import OpaqueDb.Cluster.Etcd
import OpaqueDb.Cluster.ShardMap

namespace OpaqueDb.Cluster

open OpaqueDb.Core Theory Theory.Prog

set_option autoImplicit false

structure NodeInfo where
  id : Bytes
  address : Bytes
  deriving DecidableEq

structure ClusterOptions where
  nodeId : Bytes
  nodeAddress : Bytes
  leaderKey : Bytes := bytes "/opaquedb/leader"
  leaseTtlSeconds : Int := 10
  virtualNodes : Nat := 128

structure ClusterManager where
  options : ClusterOptions
  lease : LeaseId := 0
  publishedShardMap : Bytes := []
  isLeader : Bool := false

/-! ## The keys -/

/-- The leader key without its final segment. -/
def baseOf (leaderKey : Bytes) : Bytes :=
  match leaderKey.reverse.dropWhile (· != 47) with
  | [] => []
  | _ :: rest => rest.reverse

namespace ClusterOptions

variable (options : ClusterOptions)

def membersPrefix : Bytes :=
  strCat [baseOf options.leaderKey, "/members/"]

def memberKey : Bytes :=
  strCat [options.membersPrefix, options.nodeId]

def shardMapKey : Bytes :=
  strCat [baseOf options.leaderKey, "/shardmap"]

def epochKey : Bytes :=
  strCat [baseOf options.leaderKey, "/epoch"]

end ClusterOptions

/-! ## The programs -/

abbrev ManagerCall (α : Type) := ExceptT Status (StateT ClusterManager EtcdIO) α

variable (op : EtcdCall)

/-- A call whose answer the caller looks at. -/
def asked : ManagerCall op.Answer :=
  ExceptT.mk fun manager => call op fun answer => done (.ok answer, manager)

/-- A call whose error is returned. -/
def etcd : ManagerCall op.Value :=
  ExceptT.mk fun manager => call op fun answer => done (answer, manager)

variable (f : ClusterManager → ClusterManager)

namespace ClusterManager

def current : ManagerCall ClusterManager :=
  ExceptT.mk fun manager => done (.ok manager, manager)

def change : ManagerCall Unit :=
  ExceptT.mk fun manager => done (.ok (), f manager)

def fail {α : Type} (status : Status) : ManagerCall α :=
  ExceptT.mk fun manager => done (.error status, manager)

/-- A lapsed lease costs the leadership, whatever the leader key says. -/
def dropLapsed : ManagerCall Unit := do
  let manager ← current
  if manager.lease = 0 then return
  else
    match ← asked (.leaseKeepAlive manager.lease) with
    | .ok () => return
    | .error _ => change fun manager => { manager with lease := 0, isLeader := false }

def ensureLease : ManagerCall Unit := do
  dropLapsed
  let manager ← current
  if manager.lease = 0 then do
    let lease ← etcd (.leaseGrant manager.options.leaseTtlSeconds)
    change fun manager => { manager with lease }
  else return

/-- The members in the order of their ids. -/
def membersOf (start : Bytes) (found : List KeyValue) : List NodeInfo :=
  (found.map fun kv => ⟨kv.key.drop start.length, kv.value⟩).insertionSort fun a b => a.id ≤ b.id

def members : ManagerCall (List NodeInfo) := do
  let manager ← current
  let found ← etcd (.getPrefix manager.options.membersPrefix)
  return membersOf manager.options.membersPrefix found

/-- If the leader key is free, an atomic create decides the winner. -/
def contend : ManagerCall Unit := do
  let manager ← current
  match ← etcd (.get manager.options.leaderKey) with
  | none => do
    let won ← etcd (.createIfAbsent manager.options.leaderKey manager.options.nodeId manager.lease)
    change fun manager => { manager with isLeader := won }
  | some leader =>
    change fun manager => { manager with isLeader := leader == manager.options.nodeId }

/-- The leader keeps the shard map in step with membership. -/
def publishShardMap : ManagerCall Unit := do
  let manager ← current
  if manager.isLeader then do
    let nodes ← members
    let map := { virtualNodes := manager.options.virtualNodes : ShardMap }.setNodes
      (nodes.map NodeInfo.id)
    let serialized := map.serialize
    if serialized = manager.publishedShardMap then return
    else do
      etcd (.put manager.options.shardMapKey serialized 0)
      change fun manager => { manager with publishedShardMap := serialized }
  else return

def tick : ManagerCall Unit := do
  ensureLease
  let manager ← current
  etcd (.put manager.options.memberKey manager.options.nodeAddress manager.lease)
  contend
  publishShardMap

def currentLeader : ManagerCall (Option Bytes) := do
  let manager ← current
  etcd (.get manager.options.leaderKey)

/-- Before a map is published it is derived from the membership. -/
def currentShardMap : ManagerCall ShardMap := do
  let manager ← current
  match ← etcd (.get manager.options.shardMapKey) with
  | some text => return ShardMap.parse text manager.options.virtualNodes
  | none => do
    let nodes ← members
    return { virtualNodes := manager.options.virtualNodes : ShardMap }.setNodes
      (nodes.map NodeInfo.id)

/-- The number an epoch key holds. -/
def epochOf (text : Option Bytes) : StatusOr Nat :=
  match text with
  | none => .ok 0
  | some text =>
    match simpleAtou64 text with
    | some version => .ok version
    | none => .error ⟨.dataLoss, bytes "epoch key does not hold a number"⟩

def currentEpoch : ManagerCall Nat := do
  let manager ← current
  let text ← etcd (.get manager.options.epochKey)
  ExceptT.mk fun manager => done (epochOf text, manager)

def advanceEpoch (version : Nat) : ManagerCall Unit := do
  let manager ← current
  if manager.isLeader then etcd (.put manager.options.epochKey (dec version) 0)
  else fail ⟨.failedPrecondition, bytes "only the leader advances the epoch version"⟩

/-- The lease is given back, so that the node leaves at once. -/
def stop : ManagerCall Unit := do
  let manager ← current
  if manager.lease = 0 then return
  else do
    let _ ← asked (.leaseRevoke manager.lease)
    change fun manager => { manager with lease := 0, isLeader := false }

end ClusterManager

/-! ## Runs on the in-memory store -/

/-- The result, the manager and the store after an undisturbed call. -/
def runOn {α : Type} (call : ManagerCall α) (manager : ClusterManager) (e : FakeEtcd) :
    StatusOr α × ClusterManager × FakeEtcd :=
  let ((result, manager'), e') := run FakeEtcd.exec (call manager) e
  (result, manager', e')

section Runs

variable {α β : Type} (manager : ClusterManager) (e : FakeEtcd)

theorem runOn_bind (call : ManagerCall α) (next : α → ManagerCall β) :
    runOn (call >>= next) manager e =
      match runOn call manager e with
      | (.ok a, manager', e') => runOn (next a) manager' e'
      | (.error status, manager', e') => (.error status, manager', e') := by
  have split : (call >>= next) manager = (call manager : EtcdIO _) >>= fun r =>
      match r with
      | (.ok a, manager') => next a manager'
      | (.error status, manager') => done (.error status, manager') := by
    show Prog.bind _ _ = Prog.bind _ _
    congr 1
    funext ⟨result, manager'⟩
    rcases result with status | a <;> rfl
  rw [runOn, split, run_bind, runOn]
  rcases run FakeEtcd.exec (call manager) e with ⟨⟨status | a, manager'⟩, e'⟩ <;> rfl

@[simp] theorem runOn_pure (a : α) : runOn (pure a) manager e = (.ok a, manager, e) := rfl

@[simp] theorem runOn_current :
    runOn ClusterManager.current manager e = (.ok manager, manager, e) := rfl

@[simp] theorem runOn_change :
    runOn (ClusterManager.change f) manager e = (.ok (), f manager, e) := rfl

@[simp] theorem runOn_fail (status : Status) :
    runOn (ClusterManager.fail status : ManagerCall α) manager e = (.error status, manager, e) := rfl

@[simp] theorem runOn_asked (op : EtcdCall) :
    runOn (asked op) manager e = (.ok (FakeEtcd.exec op e).1, manager, (FakeEtcd.exec op e).2) := rfl

@[simp] theorem runOn_etcd :
    runOn (etcd op) manager e = ((FakeEtcd.exec op e).1, manager, (FakeEtcd.exec op e).2) := rfl

end Runs

end OpaqueDb.Cluster
