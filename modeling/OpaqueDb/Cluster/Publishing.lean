/-
# Cluster.Publishing -- when the published shard map follows the membership

A leader writes the shard map at each tick, unless the text is the one it wrote last.  What
it wrote last is its own memory: another leader may have written the key since.

`shard_map_follows_iff` says when the map that is read right after a leader's tick names the
nodes registered then: when the membership's text is new to the leader (and no id is empty,
for the text leaves those out), or when the key still names the same nodes.
-/
import OpaqueDb.Cluster.Leadership

namespace OpaqueDb.Cluster

open OpaqueDb.Core Theory List Cluster.ClusterManager

set_option autoImplicit false

variable {ι : Type}

/-! ## What is registered and what is read -/

namespace Nodes

variable (c : Nodes ι) (s : ClusterState ι)

def membersPrefix : Bytes :=
  strCat [baseOf c.leaderKey, "/members/"]

def shardMapKey : Bytes :=
  strCat [baseOf c.leaderKey, "/shardmap"]

/-- The node ids under the members prefix. -/
def registered : List Bytes :=
  ((listing s.etcd.kv).filter fun entry => c.membersPrefix.isPrefixOf entry.1).map fun entry =>
    entry.1.drop c.membersPrefix.length

/-- The ids a tick of the manager finds registered, its own among them. -/
def joining (i : ι) : List Bytes :=
  (c.options i).nodeId :: c.registered s

/-- What the shard map key holds. -/
def storedMap : Option Bytes :=
  (s.etcd.kv.lookup c.shardMapKey).map Entry.value

end Nodes

/-- The text of the map over these nodes. -/
def mapText (ids : List Bytes) : Bytes :=
  intercalate [10] (uniqueIds ids)

theorem mapText_congr {ids others : List Bytes} (same : ∀ id, id ∈ others ↔ id ∈ ids) :
    mapText others = mapText ids :=
  congrArg ShardMap.serialize (setNodes_congr {} same)

/-- The text names the nodes whose ids are not empty. -/
theorem mem_split_mapText {ids : List Bytes} (plain : ∀ id ∈ ids, 10 ∉ id) (id : Bytes) :
    id ∈ strSplitSkipEmpty 10 (mapText ids) ↔ id ∈ ids ∧ id ≠ [] := by
  have listed : ∀ id ∈ uniqueIds ids, 10 ∉ id := fun id member => plain id (mem_uniqueIds.1 member)
  rw [← @mem_uniqueIds ids, mapText, strSplitSkipEmpty]
  generalize uniqueIds ids = nodes at listed ⊢
  cases nodes with
  | nil => simp [strSplit]
  | cons first rest =>
    rw [strSplit_intercalate (cons_ne_nil _ _) listed]
    simp

section Read

variable {c : Nodes ι} {s : ClusterState ι}

theorem mem_registered (id : Bytes) :
    id ∈ c.registered s ↔ ∃ entry, s.etcd.kv.lookup (c.membersPrefix ++ id) = some entry := by
  simp only [Nodes.registered, mem_map, mem_filter, isPrefixOf_iff_prefix]
  constructor
  · rintro ⟨⟨key, entry⟩, ⟨listed, rest, rfl⟩, rfl⟩
    rw [drop_left]
    exact ⟨entry, (mem_listing ..).1 listed⟩
  · rintro ⟨entry, found⟩
    exact ⟨(_, entry), ⟨(mem_listing ..).2 found, prefix_append ..⟩, drop_left⟩

variable {idle : ι → Nat}

theorem Led.membersPrefix (led : Led c s idle) (i : ι) :
    (s.managers i).options.membersPrefix = c.membersPrefix := by
  rw [ClusterOptions.membersPrefix, led.leaderKey, Nodes.membersPrefix]

theorem Nodes.memberKey (c : Nodes ι) (i : ι) :
    (c.options i).memberKey = c.membersPrefix ++ (c.options i).nodeId := by
  rw [ClusterOptions.memberKey, ClusterOptions.membersPrefix, c.shared, Nodes.membersPrefix]
  simp [strCat]

theorem Led.shardMapKey (led : Led c s idle) (i : ι) :
    (s.managers i).options.shardMapKey = c.shardMapKey := by
  rw [ClusterOptions.shardMapKey, led.leaderKey, Nodes.shardMapKey]

/-- No member is registered at the leader key, -/
theorem Nodes.member_ne_leader (c : Nodes ι) (i : ι) (id : Bytes) :
    c.membersPrefix ++ id ≠ c.leaderKey := by
  have apart := Cluster.memberKey_ne { c.options i with nodeId := id }
  rw [ClusterOptions.memberKey, ClusterOptions.membersPrefix] at apart
  rw [Nodes.membersPrefix, ← c.shared i]
  simpa [strCat] using apart

/-- nor at the keys of the map and the epoch. -/
theorem Nodes.member_ne_segment (c : Nodes ι) (id : Bytes) {segment : Bytes}
    (other : segment.take 2 ≠ bytes "/m") :
    c.membersPrefix ++ id ≠ strCat [baseOf c.leaderKey, segment] := by
  intro same
  simp only [Nodes.membersPrefix, strCat, flatten_cons, flatten_nil, append_nil, append_assoc,
    append_cancel_left_eq] at same
  refine other ?_
  rw [← same]
  rfl

variable [DecidableEq ι]

theorem Led.act_members (led : Led c s idle) (i : ι) :
    ∃ nodes, s.act i members = (.ok nodes, s) ∧
      ∀ id, id ∈ nodes.map NodeInfo.id ↔ id ∈ c.registered s := by
  rw [members, act_current_bind, act_bind, act_etcd, led.settled.exec_getPrefix,
    led.membersPrefix]
  refine ⟨_, act_pure .., fun id => ?_⟩
  simp only [membersOf, mem_map, mem_insertionSort, Nodes.registered]
  constructor
  · rintro ⟨_, ⟨_, ⟨entry, listed, rfl⟩, rfl⟩, rfl⟩
    exact ⟨entry, listed, rfl⟩
  · rintro ⟨entry, listed, rfl⟩
    exact ⟨_, ⟨_, ⟨entry, listed, rfl⟩, rfl⟩, rfl⟩

/-- The map read by any manager has exactly the registered nodes. -/
def Nodes.Follows (c : Nodes ι) (s : ClusterState ι) : Prop :=
  ∀ i, ∃ map, (s.act i currentShardMap).1 = .ok map ∧
    ∀ id, id ∈ map.nodes ↔ id ∈ c.registered s

/-- Without a stored map the membership is read; a stored one must name it. -/
theorem Led.follows_iff (led : Led c s idle) (i : ι) :
    c.Follows s ↔ ∀ text, c.storedMap s = some text →
      ∀ id, id ∈ strSplitSkipEmpty 10 text ↔ id ∈ c.registered s := by
  have read : ∀ i, (c.storedMap s = none ∧ ∃ map,
        (s.act i currentShardMap).1 = .ok map ∧
          ∀ id, id ∈ map.nodes ↔ id ∈ c.registered s) ∨
      ∃ text map, c.storedMap s = some text ∧
        (s.act i currentShardMap).1 = .ok map ∧
          ∀ id, id ∈ map.nodes ↔ id ∈ strSplitSkipEmpty 10 text := by
    intro i
    rw [currentShardMap, act_current_bind, act_bind, act_etcd,
      led.settled.exec_get, led.shardMapKey, Nodes.storedMap]
    generalize (s.etcd.kv.lookup c.shardMapKey).map Entry.value = stored
    rcases stored with _ | text
    · obtain ⟨nodes, listed, ids⟩ := led.act_members i
      refine .inl ⟨rfl, ?_⟩
      show ∃ map, (s.act i (members >>= _)).1 = .ok map ∧ _
      rw [act_bind_ok _ _ listed]
      exact ⟨_, rfl, fun id => mem_uniqueIds.trans (ids id)⟩
    · exact .inr ⟨text, ShardMap.parse text (s.managers i).options.virtualNodes, rfl,
        congrArg Prod.fst (act_pure s i _), fun id => mem_uniqueIds⟩
  constructor
  · intro follows text stored id
    obtain ⟨map, is, ids⟩ := follows i
    rcases read i with ⟨none_, _⟩ | ⟨text', map', stored', is', ids'⟩
    · cases none_.symm.trans stored
    · cases stored.symm.trans stored'
      cases is.symm.trans is'
      exact (ids' id).symm.trans (ids id)
  · intro named j
    rcases read j with ⟨_, map, is, ids⟩ | ⟨text, map, stored, is, ids⟩
    · exact ⟨map, is, ids⟩
    · exact ⟨map, is, fun id => (ids id).trans (named text stored id)⟩

end Read

/-! ## What a tick writes -/

section Writes

variable [DecidableEq ι] {c : Nodes ι} {s : ClusterState ι} {idle : ι → Nat}

section

variable (led : Led c s idle)
include led

/-- The leader writes the text of the membership, if it is not the one it wrote last. -/
theorem Led.publish_run {i : ι} (flag : (s.managers i).isLeader = true) :
    s.act i ClusterManager.publishShardMap =
      let text := mapText (c.registered s)
      if (s.managers i).publishedShardMap = text then (.ok (), s)
      else (.ok (), s.put i { s.managers i with publishedShardMap := text }
        (s.etcd.store c.shardMapKey ⟨text, 0⟩)) := by
  obtain ⟨nodes, listed, ids⟩ := led.act_members i
  have serialized : (ShardMap.setNodes { virtualNodes := (s.managers i).options.virtualNodes }
      (nodes.map NodeInfo.id)).serialize = mapText (c.registered s) := mapText_congr ids
  rw [ClusterManager.publishShardMap, act_current_bind, if_pos flag,
    act_bind_ok _ _ listed]
  dsimp only
  rw [serialized]
  by_cases same : mapText (c.registered s) = (s.managers i).publishedShardMap
  · rw [if_pos same, if_pos same.symm, act_pure]
  · rw [if_neg same, if_neg (Ne.symm same), act_bind, act_etcd,
      led.settled.exec_put _ _ (Or.inl rfl), led.shardMapKey]
    rfl

theorem Led.publish_frame (i : ι) {key : Bytes} (other : key ≠ c.shardMapKey) :
    (s.act i ClusterManager.publishShardMap).2.etcd.kv.lookup key = s.etcd.kv.lookup key := by
  rcases flag : (s.managers i).isLeader with _ | _
  · rw [ClusterManager.publishShardMap, act_current_bind, flag, if_neg (by decide),
      act_pure]
  · rw [led.publish_run flag]
    dsimp only
    split_ifs
    · rfl
    · exact Finmap.lookup_insert_of_ne _ other

end

/-- The state in which a tick comes to the publishing: the manager is registered under its
lease, and nothing else has changed about the members and the map. -/
structure Joined (c : Nodes ι) (s : ClusterState ι) (i : ι) (t : ClusterState ι) : Prop where
  mine : ∃ address, t.etcd.kv.lookup (c.membersPrefix ++ (c.options i).nodeId) =
    some ⟨address, (t.managers i).lease⟩
  others : ∀ id, id ≠ (c.options i).nodeId → t.etcd.kv.lookup (c.membersPrefix ++ id) =
    s.etcd.kv.lookup (c.membersPrefix ++ id)
  stored : t.etcd.kv.lookup c.shardMapKey = s.etcd.kv.lookup c.shardMapKey
  published : (t.managers i).publishedShardMap = (s.managers i).publishedShardMap

omit [DecidableEq ι] in
theorem Joined.registered {i : ι} {t : ClusterState ι} (joined : Joined c s i t) (id : Bytes) :
    id ∈ c.registered t ↔ id ∈ c.joining s i := by
  rw [Nodes.joining, mem_cons, mem_registered, mem_registered]
  by_cases own : id = (c.options i).nodeId
  · obtain ⟨address, mine⟩ := joined.mine
    exact iff_of_true ⟨_, own ▸ mine⟩ (.inl own)
  · rw [joined.others id own, or_iff_right own]

/-- A tick fails to get a lease, and then its flag is down, or it joins and publishes. -/
theorem Led.tick_joins (apart : c.Apart) (led : Led c s idle) (i : ι) :
    ((s.act i ClusterManager.tick).2.etcd.kv = s.etcd.kv ∧
      ((s.act i ClusterManager.tick).2.managers i).isLeader = false) ∨
    ∃ t, Led c t (Function.update idle i 0) ∧ Joined c s i t ∧
      s.act i ClusterManager.tick = t.act i ClusterManager.publishShardMap := by
  rcases led.tick_registers i with ⟨_, _, failed⟩ | ⟨t, led', alive, before, kv, ticked⟩
  · exact .inl failed
  rw [c.memberKey] at kv
  obtain ⟨u, contended, led'', published, lease, frame, _⟩ := led'.act_contend alive
  refine .inr ⟨u, led'', ⟨⟨(c.options i).nodeAddress, ?_⟩, fun id own => ?_, ?_,
    published.trans before⟩, ?_⟩
  · rw [frame _ (c.member_ne_leader i _), kv, Finmap.lookup_insert, lease]
  · rw [frame _ (c.member_ne_leader i id), kv,
      Finmap.lookup_insert_of_ne _ fun same => own (append_cancel_left same)]
  · have key : c.shardMapKey ≠ c.leaderKey := by
      have := apart.shardMap i
      rwa [ClusterOptions.shardMapKey, c.shared] at this
    rw [frame _ key, kv]
    exact Finmap.lookup_insert_of_ne _ (c.member_ne_segment _ (by decide)).symm
  · rw [ticked, act_bind_ok _ _ contended]

/-- A tick that leaves its manager the leader registers it, and writes the map unless its text
is the manager's last one. -/
theorem Led.tick_effect (apart : c.Apart) (led : Led c s idle) {i : ι}
    (flag : ((s.act i ClusterManager.tick).2.managers i).isLeader = true) :
    let s' := (s.act i ClusterManager.tick).2
    let text := mapText (c.joining s i)
    (∃ address, s'.etcd.kv.lookup (c.membersPrefix ++ (c.options i).nodeId) =
        some ⟨address, (s'.managers i).lease⟩) ∧
      (∀ id, id ∈ c.registered s' ↔ id ∈ c.joining s i) ∧
      (s'.managers i).publishedShardMap = text ∧
      s'.etcd.kv.lookup c.shardMapKey =
        if (s.managers i).publishedShardMap = text then s.etcd.kv.lookup c.shardMapKey
        else some ⟨text, 0⟩ := by
  rcases led.tick_joins apart i with ⟨_, lowered⟩ | ⟨t, led', joined, after⟩
  · exact absurd (flag.symm.trans lowered) (by decide)
  rw [after] at flag ⊢
  have flag' : (t.managers i).isLeader = true := by
    obtain ⟨_, published, _, same⟩ := led'.act_publishShardMap apart i
    rw [published] at flag
    exact same.symm.trans flag
  have text := mapText_congr joined.registered
  have kept := fun id =>
    led'.publish_frame i (c.member_ne_segment id (by decide))
  obtain ⟨address, mine⟩ := joined.mine
  have registered : ∀ id, id ∈ c.registered (t.act i ClusterManager.publishShardMap).2 ↔
      id ∈ c.joining s i := by
    intro id
    rw [← joined.registered, mem_registered, mem_registered, kept]
  have run := led'.publish_run flag'
  rw [text, joined.published] at run
  dsimp only at run ⊢
  by_cases same : (s.managers i).publishedShardMap = mapText (c.joining s i)
  · rw [if_pos same] at run ⊢
    refine ⟨⟨address, ?_⟩, registered, ?_, ?_⟩
    · rw [run, mine]
    · rw [run, joined.published, same]
    · rw [run, joined.stored]
  · rw [if_neg same] at run ⊢
    rw [kept]
    refine ⟨⟨address, ?_⟩, registered, ?_, ?_⟩
    · rw [run, mine, put_managers_self]
    · rw [run, put_managers_self]
    · rw [run, put_etcd, FakeEtcd.store, Finmap.lookup_insert]

/-- A stop takes the manager's keys with its lease. -/
theorem act_stop {i : ι} (held : (s.managers i).lease ≠ 0) :
    s.act i ClusterManager.stop = (.ok (), s.put i
      { s.managers i with lease := 0, isLeader := false }
      (s.etcd.leaseRevoke (s.managers i).lease).2) := by
  rw [ClusterManager.stop, act_current_bind, if_neg held, act_bind, act_asked]
  rfl

/-! ## The members are nodes of the cluster -/

/-- An event registers nobody but nodes. -/
theorem Led.registered_step (apart : c.Apart) (led : Led c s idle) (event : Event ι) {id : Bytes}
    (member : id ∈ c.registered (s.step event)) :
    (∃ i, (c.options i).nodeId = id) ∨ id ∈ c.registered s := by
  rw [mem_registered] at member ⊢
  obtain ⟨entry, found⟩ := member
  cases event with
  | tick i =>
    have found : (s.act i ClusterManager.tick).2.etcd.kv.lookup (c.membersPrefix ++ id) =
      some entry := found
    rcases led.tick_joins apart i with ⟨kv, _⟩ | ⟨t, led', joined, after⟩
    · rw [kv] at found
      exact .inr ⟨entry, found⟩
    · rw [after, led'.publish_frame i (c.member_ne_segment id (by decide))] at found
      have listed := (joined.registered id).1 ((mem_registered id).2 ⟨entry, found⟩)
      rcases mem_cons.1 listed with own | old
      · exact .inl ⟨i, own.symm⟩
      · exact .inr ((mem_registered id).1 old)
  | advanceEpoch i version =>
    have found : (s.act i (advanceEpoch version)).2.etcd.kv.lookup
      (c.membersPrefix ++ id) = some entry := found
    refine .inr ⟨entry, ?_⟩
    rcases led.act_advanceEpoch i version with ⟨_, advanced⟩ | ⟨_, failed⟩
    · have other : c.membersPrefix ++ id ≠ (c.options i).epochKey := by
        rw [ClusterOptions.epochKey, c.shared]
        exact c.member_ne_segment id (by decide)
      rw [advanced] at found
      exact (Finmap.lookup_insert_of_ne _ other).symm.trans found
    · rwa [failed] at found
  | stop i =>
    have found : (s.act i ClusterManager.stop).2.etcd.kv.lookup (c.membersPrefix ++ id) =
      some entry := found
    refine .inr ⟨entry, ?_⟩
    by_cases held : (s.managers i).lease = 0
    · rwa [ClusterManager.stop, act_current_bind, if_pos held, act_pure] at found
    · rw [act_stop held] at found
      exact (Option.filter_eq_some_iff.1 ((lookup_keep ..).symm.trans found)).1
  | pass seconds =>
    exact .inr ⟨entry, (Option.filter_eq_some_iff.1 ((lookup_keep ..).symm.trans found)).1⟩

theorem registered_run (apart : c.Apart) (events : List (Event ι)) {id : Bytes}
    (member : id ∈ c.registered (c.run events)) : ∃ i, (c.options i).nodeId = id := by
  induction events using reverseRecOn with
  | nil =>
    obtain ⟨entry, found⟩ := (mem_registered id).1 member
    cases found
  | append_singleton events event ih =>
    rw [Nodes.run, foldl_append] at member
    rcases (led_run apart events).registered_step apart event member with node | old
    · exact node
    · exact ih old

end Writes

/-! ## The published map -/

section Published

variable [DecidableEq ι]

/-- The manager's last text is another one, and the new one can name every node; or the key,
if it is set, names the nodes. -/
def Nodes.UpToDate (c : Nodes ι) (s : ClusterState ι) (i : ι) : Prop :=
  if (s.managers i).publishedShardMap = mapText (c.joining s i) then
    ∀ text, c.storedMap s = some text →
      ∀ id, id ∈ strSplitSkipEmpty 10 text ↔ id ∈ c.joining s i
  else [] ∉ c.joining s i

theorem Led.follows_tick {c : Nodes ι} {s : ClusterState ι} {idle : ι → Nat} (apart : c.Apart)
    (led : Led c s idle) {i : ι} (plain : ∀ id ∈ c.joining s i, 10 ∉ id)
    (leader : ((s.act i ClusterManager.tick).2.managers i).isLeader = true) :
    c.Follows (s.act i ClusterManager.tick).2 ↔ c.UpToDate s i := by
  obtain ⟨_, registered, _, stored⟩ := led.tick_effect apart leader
  rw [(led.tick apart i).1.follows_iff i, Nodes.UpToDate]
  simp only [registered]
  show (∀ text, ((s.act i ClusterManager.tick).2.etcd.kv.lookup c.shardMapKey).map Entry.value =
    some text → _) ↔ _
  rw [stored]
  by_cases same : (s.managers i).publishedShardMap = mapText (c.joining s i)
  · rw [if_pos same, if_pos same]
    rfl
  · rw [if_neg same, if_neg same]
    constructor
    · intro named empty
      exact ((mem_split_mapText plain []).1 ((named _ rfl []).2 empty)).2 rfl
    · rintro full text stored id
      cases stored
      rw [mem_split_mapText plain]
      exact and_iff_left_of_imp fun member is => full (is ▸ member)

/-- **The published shard map follows the membership exactly when the leader's memory of it is
up to date.**  Right after a tick that leaves its manager the leader, in any run, the map read by
`CurrentShardMap` has the ids registered then if and only if, before the tick, the manager's last
text was not the membership's and no id was empty, or it was and the key was unset or named the
members. -/
theorem shard_map_follows_iff (c : Nodes ι) (apart : c.Apart)
    (plain : ∀ i, 10 ∉ (c.options i).nodeId) (events : List (Event ι)) (i : ι)
    (leader : ((c.run (events ++ [.tick i])).managers i).isLeader = true) :
    c.Follows (c.run (events ++ [.tick i])) ↔ c.UpToDate (c.run events) i := by
  have last : c.run (events ++ [.tick i]) = ((c.run events).act i ClusterManager.tick).2 := by
    rw [Nodes.run, foldl_append]
    rfl
  rw [last] at leader ⊢
  refine (led_run apart events).follows_tick apart (fun id member => ?_) leader
  rcases mem_cons.1 member with rfl | listed
  · exact plain i
  · obtain ⟨j, rfl⟩ := registered_run apart events listed
    exact plain j

end Published

/-! ## Two nodes in turn -/

section Turns

variable [DecidableEq ι] {c : Nodes ι} {s : ClusterState ι} {idle : ι → Nat}

/-- Nobody is registered and nobody leads; the map, if there is one, is under no lease. -/
structure Deserted (c : Nodes ι) (s : ClusterState ι) : Prop where
  empty : ∀ id, id ∉ c.registered s
  free : s.etcd.kv.lookup c.leaderKey = none
  unleased : ∀ entry, s.etcd.kv.lookup c.shardMapKey = some entry → entry.lease = 0

omit [DecidableEq ι] in
theorem Deserted.joining (deserted : Deserted c s) (i : ι) (id : Bytes) :
    id ∈ c.joining s i ↔ id ∈ [(c.options i).nodeId] := by
  rw [Nodes.joining, mem_cons, or_iff_left (deserted.empty id), mem_singleton]

/-- The manager's keys go with its lease, and a key under no lease stays. -/
theorem lookup_stop {i : ι} (held : (s.managers i).lease ≠ 0) (key : Bytes) :
    (s.act i ClusterManager.stop).2.etcd.kv.lookup key =
      (s.etcd.kv.lookup key).filter fun entry => entry.lease != (s.managers i).lease := by
  rw [act_stop held]
  exact lookup_keep ..

/-- A node that comes alone becomes the leader; when it leaves, its map stays. -/
theorem Led.turn (apart : c.Apart) (led : Led c s idle) (deserted : Deserted c s) {i : ι}
    (positive : 0 < (c.options i).leaseTtlSeconds) :
    let ticked := (s.act i ClusterManager.tick).2
    let stopped := (ticked.act i ClusterManager.stop).2
    let text := mapText [(c.options i).nodeId]
    (ticked.managers i).isLeader = true ∧ Deserted c stopped ∧
      (stopped.managers i).publishedShardMap = text ∧
      stopped.etcd.kv.lookup c.shardMapKey =
        if (s.managers i).publishedShardMap = text then s.etcd.kv.lookup c.shardMapKey
        else some ⟨text, 0⟩ := by
  intro ticked stopped text
  obtain ⟨led', wins⟩ := led.tick apart i
  have flag : (ticked.managers i).isLeader = true := wins positive deserted.free
  obtain ⟨⟨address, mine⟩, registered, published, stored⟩ := led.tick_effect apart flag
  rw [mapText_congr (deserted.joining i)] at published stored
  have held : (ticked.managers i).lease ≠ 0 := (led'.each i).flagged flag
  have leads : ticked.etcd.kv.lookup c.leaderKey =
      some ⟨(c.options i).nodeId, (ticked.managers i).lease⟩ :=
    (led'.each i).leads flag ((led'.settled.leased _ _ mine).resolve_left held)
  have unleased : ∀ entry, ticked.etcd.kv.lookup c.shardMapKey = some entry → entry.lease = 0 := by
    intro entry found
    rw [stored] at found
    split_ifs at found
    · exact deserted.unleased entry found
    · cases found
      rfl
  have kept : stopped.etcd.kv.lookup c.shardMapKey = ticked.etcd.kv.lookup c.shardMapKey := by
    rw [lookup_stop held]
    rcases found : ticked.etcd.kv.lookup c.shardMapKey with _ | entry
    · rfl
    · refine Option.filter_some_pos ?_
      rw [unleased entry found, bne_iff_ne]
      exact held.symm
  refine ⟨flag, ⟨fun id member => ?_, ?_, fun entry found => unleased entry (kept ▸ found)⟩, ?_, ?_⟩
  · obtain ⟨entry, found⟩ := (mem_registered id).1 member
    rw [lookup_stop held] at found
    obtain ⟨before, passes⟩ := Option.filter_eq_some_iff.1 found
    have own : id = (c.options i).nodeId := mem_singleton.1
      ((deserted.joining i id).1 ((registered id).1 ((mem_registered id).2 ⟨entry, before⟩)))
    cases (own ▸ mine).symm.trans before
    exact absurd rfl (bne_iff_ne.1 passes)
  · rw [lookup_stop held, leads]
    exact Option.filter_some_neg (by simp)
  · show ((ticked.act i ClusterManager.stop).2.managers i).publishedShardMap = text
    rw [act_stop held, put_managers_self]
    exact published
  · rw [kept]
    exact stored

end Turns

theorem deserted_initial (c : Nodes ι) : Deserted c c.initial where
  empty id member := by
    obtain ⟨entry, found⟩ := (mem_registered id).1 member
    cases found
  free := rfl
  unleased entry found := by cases found

/-- The first tick of a cluster publishes its node. -/
theorem shard_map_follows_twoNodes :
    ((twoNodes.run [.tick false]).managers false).isLeader = true ∧
      twoNodes.Follows (twoNodes.run [.tick false]) := by
  obtain ⟨leader, _⟩ := (led_initial twoNodes).turn twoNodes_apart (deserted_initial twoNodes)
    (i := false) (by decide)
  refine ⟨leader, (shard_map_follows_iff twoNodes twoNodes_apart (by decide) [] false leader).2 ?_⟩
  show twoNodes.UpToDate twoNodes.initial false
  have fresh : ¬ (twoNodes.initial.managers false).publishedShardMap =
      mapText (twoNodes.joining twoNodes.initial false) := by
    rw [mapText_congr ((deserted_initial twoNodes).joining false)]
    decide
  rw [Nodes.UpToDate, if_neg fresh]
  exact fun member => absurd (((deserted_initial twoNodes).joining false []).1 member) (by decide)

/-- The first node leads and leaves, the second leads and leaves, and the first comes back.  It
finds the text it wrote last and leaves the second node's map in place: the map names `b` while
only `a` is registered. -/
theorem returning_leader_keeps_old_map :
    let s := twoNodes.run [.tick false, .stop false, .tick true, .stop true, .tick false]
    (s.managers false).isLeader = true ∧ twoNodes.storedMap s = some (bytes "b") ∧
      (∀ id, id ∈ twoNodes.registered s ↔ id = bytes "a") ∧ ¬ twoNodes.Follows s := by
  intro s
  have led₂ := led_run twoNodes_apart [Event.tick false, .stop false]
  have led₄ := led_run twoNodes_apart [Event.tick false, .stop false, .tick true, .stop true]
  obtain ⟨_, deserted₂, published₂, _⟩ := (led_initial twoNodes).turn twoNodes_apart
    (deserted_initial twoNodes) (i := false) (by decide)
  obtain ⟨_, deserted₄, _, stored₄⟩ := led₂.turn twoNodes_apart deserted₂ (i := true) (by decide)
  replace deserted₄ : Deserted twoNodes
    (twoNodes.run [.tick false, .stop false, .tick true, .stop true]) := deserted₄
  obtain ⟨leader, _⟩ := led₄.turn twoNodes_apart deserted₄ (i := false) (by decide)
  obtain ⟨_, registered, _, stored⟩ := led₄.tick_effect twoNodes_apart leader
  -- the first node still remembers its own map, and the second has written its own
  have remembered : ((twoNodes.run [.tick false, .stop false, .tick true, .stop true]).managers
      false).publishedShardMap = mapText [(twoNodes.options false).nodeId] := published₂
  have fresh : ((twoNodes.run [.tick false, .stop false]).managers true).publishedShardMap ≠
      mapText [(twoNodes.options true).nodeId] := by
    show (twoNodes.initial.managers true).publishedShardMap ≠ _
    decide
  rw [mapText_congr (deserted₄.joining false), if_pos remembered] at stored
  rw [if_neg fresh] at stored₄
  have ids : ∀ id, id ∈ twoNodes.registered s ↔ id = bytes "a" := fun id =>
    (registered id).trans ((deserted₄.joining false id).trans mem_singleton)
  have map : twoNodes.storedMap s = some (bytes "b") :=
    congrArg (Option.map Entry.value) (stored.trans stored₄)
  refine ⟨leader, map, ids, fun follows => ?_⟩
  have named := ((led₄.tick twoNodes_apart false).1.follows_iff false).1 follows _ map (bytes "a")
  exact absurd (named.2 ((ids _).2 rfl)) (by decide)

end OpaqueDb.Cluster
