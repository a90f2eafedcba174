/-
# Cluster.Epochs -- the global epoch as a register, and who leads after a silence

The epoch key is written by leaders and read by everybody, and the store it lies in also
forgets keys: with a lease that runs out, or with a manager that leaves.  The epoch key is
under no lease, and no other key of the cluster is it.

`epoch_is_register`: whatever the managers do and however long they pause, every manager reads
the version of the last `AdvanceEpoch` that returned OK.  `silence_hands_over`: when all the
others have been silent for their leases, the next tick of a manager makes the leader key name it
and sets its leader flag.
-/
import OpaqueDb.Cluster.Publishing

namespace OpaqueDb.Cluster

open OpaqueDb.Core Theory List Cluster.ClusterManager

set_option autoImplicit false

variable {ι : Type} [DecidableEq ι] {c : Nodes ι} {s : ClusterState ι} {idle : ι → Nat}

/-! ## Who leads after a silence -/

/-- A manager that finds the leader key free, or naming itself, comes out as the leader. -/
theorem Led.tick_leads (apart : c.Apart) (led : Led c s idle) {i : ι}
    (positive : 0 < (c.options i).leaseTtlSeconds)
    (free : ∀ entry, s.etcd.kv.lookup c.leaderKey = some entry → entry.value = (c.options i).nodeId) :
    ((s.act i ClusterManager.tick).2.managers i).isLeader = true := by
  rcases led.tick_registers i with ⟨negative, _⟩ | ⟨t, led', alive, _, kv, ticked⟩
  · exact absurd positive negative
  obtain ⟨u, contended, led'', _, _, _, wins⟩ := led'.act_contend alive
  obtain ⟨v, published, _, kept⟩ := led''.act_publishShardMap apart i
  rw [ticked, act_bind_ok _ _ contended, published, kept]
  refine wins fun entry found => free entry ?_
  rwa [kv, Finmap.lookup_insert_of_ne _ (c.memberKey_ne i).symm] at found

/-- **A silence hands the leadership over.**  In any run, when every other manager has been silent
for the time of its lease, a tick of a manager whose leases last makes the leader key name it, and
the manager knows. -/
theorem silence_hands_over (c : Nodes ι) (apart : c.Apart) (events : List (Event ι)) (i : ι)
    (positive : 0 < (c.options i).leaseTtlSeconds)
    (silent : ∀ j, j ≠ i → (c.options j).leaseTtlSeconds ≤ (Cluster.idle events j : Int)) :
    c.Leads (c.run (events ++ [.tick i])) i ∧
      ((c.run (events ++ [.tick i])).managers i).isLeader = true := by
  have led := led_run apart events
  have flag := led.tick_leads apart positive fun entry found => by
    obtain ⟨k, rfl, _⟩ := led.leader entry found
    have leads : c.Leads (c.run events) k := by
      rw [Nodes.Leads, FakeEtcd.get, led.settled.purgeExpired, found]
      rfl
    by_contra other
    have late := silent k fun same => other (by rw [same])
    exact absurd late (not_le.2 (led.prompt_of_leads leads))
  rw [Nodes.run, foldl_append]
  refine ⟨(led.tick apart i).1.leads_of_prompt flag ?_, flag⟩
  rw [Function.update_self]
  exact positive

/-- The second node takes over from the first when its ten seconds are up. -/
theorem silence_hands_over_twoNodes :
    twoNodes.Leads (twoNodes.run ([.tick false, .pass 10] ++ [.tick true])) true ∧
      ((twoNodes.run ([.tick false, .pass 10] ++ [.tick true])).managers true).isLeader = true :=
  silence_hands_over twoNodes twoNodes_apart [.tick false, .pass 10] true (by decide) (by decide)

/-! ## The epoch -/

def Nodes.epochKey (c : Nodes ι) : Bytes :=
  strCat [baseOf c.leaderKey, "/epoch"]

/-- The version after an event: an `AdvanceEpoch` that returns OK sets it. -/
def ClusterState.latest (s : ClusterState ι) (event : Event ι) (version : Option Nat) : Option Nat :=
  match event with
  | .advanceEpoch i new =>
    match (s.act i (advanceEpoch new)).1 with
    | .ok _ => some new
    | .error _ => version
  | _ => version

/-- The version of the last `AdvanceEpoch` of a run that returned OK. -/
def Nodes.latest (c : Nodes ι) (events : List (Event ι)) : Option Nat :=
  (events.foldl (fun (state : ClusterState ι × Option Nat) event =>
    (state.1.step event, state.1.latest event state.2)) (c.initial, none)).2

theorem Nodes.latest_concat (events : List (Event ι)) (event : Event ι) :
    c.latest (events ++ [event]) = (c.run events).latest event (c.latest events) := by
  have reached : ∀ state : ClusterState ι × Option Nat, (events.foldl (fun state event =>
      (state.1.step event, state.1.latest event state.2)) state).1 =
        events.foldl ClusterState.step state.1 := by
    induction events with
    | nil => exact fun _ => rfl
    | cons event events ih => exact fun state => ih _
  rw [Nodes.latest, foldl_append, foldl_cons, foldl_nil, reached]
  rfl

/-- Only the member's, the leader's and the map's key are written. -/
theorem Led.tick_frame (led : Led c s idle) (i : ι) {key : Bytes}
    (member : key ≠ (c.options i).memberKey) (leader : key ≠ c.leaderKey)
    (map : key ≠ c.shardMapKey) :
    (s.act i ClusterManager.tick).2.etcd.kv.lookup key = s.etcd.kv.lookup key := by
  rcases led.tick_registers i with ⟨_, _, kv, _⟩ | ⟨t, led', alive, _, kv, ticked⟩
  · rw [kv]
  · obtain ⟨u, contended, led'', _, _, frame, _⟩ := led'.act_contend alive
    rw [ticked, act_bind_ok _ _ contended, led''.publish_frame i map, frame key leader, kv,
      Finmap.lookup_insert_of_ne _ member]

/-- An event leaves the epoch key alone, or it is an `AdvanceEpoch` that returns OK. -/
theorem Led.epoch_step (apart : c.Apart) (led : Led c s idle) {version : Option Nat}
    (holds : s.etcd.kv.lookup c.epochKey = version.map fun v => ⟨dec v, 0⟩) (event : Event ι) :
    (s.step event).etcd.kv.lookup c.epochKey = (s.latest event version).map fun v => ⟨dec v, 0⟩ := by
  have named : ∀ i, (c.options i).epochKey = c.epochKey := fun i => by
    rw [ClusterOptions.epochKey, c.shared, Nodes.epochKey]
  -- the key is under no lease, so it does not go with one
  have kept : ∀ test : Entry → Bool, (∀ v, test ⟨dec v, 0⟩ = true) →
      (s.etcd.kv.lookup c.epochKey).filter test = version.map fun v => ⟨dec v, 0⟩ := by
    intro test passes
    rw [holds]
    cases version with
    | none => rfl
    | some v => exact Option.filter_some_pos (passes v)
  cases event with
  | tick i =>
    have map : c.epochKey ≠ c.shardMapKey := fun same => by
      simp [Nodes.epochKey, Nodes.shardMapKey, strCat, bytes] at same
    have member : c.epochKey ≠ (c.options i).memberKey := by
      rw [c.memberKey]
      exact (c.member_ne_segment _ (by decide)).symm
    exact (led.tick_frame i member (named i ▸ apart.epoch i) map).trans holds
  | advanceEpoch i new =>
    show (s.act i (advanceEpoch new)).2.etcd.kv.lookup c.epochKey = _
    rw [ClusterState.latest]
    rcases led.act_advanceEpoch i new with ⟨_, advanced⟩ | ⟨_, failed⟩
    · rw [advanced, named]
      exact Finmap.lookup_insert _
    · rw [failed]
      exact holds
  | stop i =>
    show (s.act i ClusterManager.stop).2.etcd.kv.lookup c.epochKey = version.map _
    by_cases held : (s.managers i).lease = 0
    · rwa [ClusterManager.stop, act_current_bind, if_pos held, act_pure]
    · rw [lookup_stop held]
      exact kept _ fun _ => bne_iff_ne.2 (Ne.symm held)
  | pass seconds =>
    have none_ : s.etcd.leases.lookup 0 = none := by
      simpa [FakeEtcd.Alive] using led.settled.not_alive_zero
    exact (lookup_keep ..).trans (kept _ fun _ => by simp [FakeEtcd.expired, none_])

/-- **The global epoch is a register.**  After any run, the `CurrentEpoch` of every manager is the
version of the last `AdvanceEpoch` that returned OK, and zero if there was none. -/
theorem epoch_is_register (c : Nodes ι) (apart : c.Apart) (events : List (Event ι))
    (fits : ∀ i version, Event.advanceEpoch i version ∈ events → version < 2 ^ 64) (i : ι) :
    ((c.run events).act i currentEpoch).1 = .ok ((c.latest events).getD 0) := by
  have held : (c.run events).etcd.kv.lookup c.epochKey = (c.latest events).map
      (fun v => ⟨dec v, 0⟩) ∧ ∀ v ∈ c.latest events, v < 2 ^ 64 := by
    induction events using reverseRecOn with
    | nil => exact ⟨rfl, nofun⟩
    | append_singleton events event ih =>
      obtain ⟨holds, small⟩ := ih fun i version member => fits i version (mem_append_left _ member)
      rw [Nodes.latest_concat, Nodes.run, foldl_append]
      refine ⟨(led_run apart events).epoch_step apart holds event, ?_⟩
      unfold ClusterState.latest
      split
      · split
        · rintro _ ⟨rfl⟩
          exact fits _ _ (mem_append_right _ mem_cons_self)
        · exact small
      · exact small
  have led := led_run apart events
  have key : ((c.run events).managers i).options.epochKey = c.epochKey := by
    rw [ClusterOptions.epochKey, led.leaderKey, Nodes.epochKey]
  rw [currentEpoch, act_current_bind, act_bind, act_etcd, led.settled.exec_get, key,
    held.1]
  rcases last : c.latest events with _ | v
  · rfl
  · show epochOf (some (dec v)) = _
    rw [epochOf, simpleAtou64_dec (held.2 v last)]
    rfl

/-- The first node leads, advances the epoch to seven and leaves; the second still reads it. -/
theorem epoch_is_register_twoNodes :
    let events := [Event.tick false, .advanceEpoch false 7, .stop false]
    ((twoNodes.run events).act true currentEpoch).1 = .ok ((twoNodes.latest events).getD 0) :=
  epoch_is_register twoNodes twoNodes_apart _ (by simp) true

end OpaqueDb.Cluster
