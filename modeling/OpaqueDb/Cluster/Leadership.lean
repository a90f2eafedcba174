/-
# Cluster.Leadership -- who may advance the global epoch

Any number of managers on one store, each ticking, advancing the epoch or leaving when it
likes, while time passes.  `advanceEpoch` asks the manager's own flag, which only a tick
brings up to date: between two ticks the lease can run out and another node can win.

`only_leader_advances_iff` says when the flag can be trusted: while less than the lease's
time has passed since the manager's last tick.
-/
import OpaqueDb.Cluster.Manager
import Mathlib.Algebra.Order.Group.Int

namespace OpaqueDb.Cluster

open OpaqueDb.Core Theory List Cluster.ClusterManager Function Cluster.FakeEtcd Finmap Option

set_option autoImplicit false

/-! ## The leader key among the others -/

theorem baseOf_append (base segment : Bytes) (plain : 47 ∉ segment) :
    baseOf (base ++ 47 :: segment) = base := by
  have passed : ∀ c ∈ segment.reverse, (c != 47) = true := by
    intro c member
    rw [bne_iff_ne]
    rintro rfl
    exact plain (mem_reverse.1 member)
  have stopped : (base ++ 47 :: segment).reverse.dropWhile (· != 47) = 47 :: base.reverse := by
    simp [dropWhile_append_of_pos passed]
  rw [baseOf, stopped]
  exact reverse_reverse base

/-- A key is a base, a slash and a segment, or it has no slash at all. -/
theorem key_cases (key : Bytes) :
    (∃ segment, 47 ∉ segment ∧ key = baseOf key ++ 47 :: segment) ∨ 47 ∉ key := by
  by_cases slash : (47 : UInt8) ∈ key
  · obtain ⟨front, back, turned, before⟩ := eq_append_cons_of_mem (mem_reverse.2 slash)
    have whole : key = back.reverse ++ 47 :: front.reverse := by
      rw [← reverse_reverse key, turned]
      simp
    have plain : (47 : UInt8) ∉ front.reverse := fun member => before (mem_reverse.1 member)
    refine Or.inl ⟨front.reverse, plain, ?_⟩
    conv_rhs => rw [whole, baseOf_append _ _ plain]
    exact whole
  · exact Or.inr slash

/-- The leader key never lies under the members. -/
theorem memberKey_ne (options : ClusterOptions) : options.memberKey ≠ options.leaderKey := by
  have spelled : options.memberKey = baseOf options.leaderKey ++ 47 :: (bytes "members/" ++
      options.nodeId) := by
    simp only [ClusterOptions.memberKey, ClusterOptions.membersPrefix, strCat, flatten_cons,
      flatten_nil, append_nil, append_assoc]
    rfl
  rw [spelled]
  intro same
  rcases key_cases options.leaderKey with ⟨segment, plain, split⟩ | plain
  · have tails := append_cancel_left (same.trans split)
    refine plain ?_
    rw [← (cons.inj tails).2]
    exact mem_append_left _ (by decide)
  · refine plain ?_
    rw [← same]
    exact mem_append_right _ mem_cons_self

/-! ## A cluster and its runs -/

/-- The managers of one cluster: one leader key, and a node id each. -/
structure Nodes (ι : Type) where
  options : ι → ClusterOptions
  leaderKey : Bytes
  shared : ∀ i, (options i).leaderKey = leaderKey
  distinct : Function.Injective fun i => (options i).nodeId

structure ClusterState (ι : Type) where
  managers : ι → ClusterManager
  etcd : FakeEtcd

inductive Event (ι : Type) where
  | tick (i : ι)
  | advanceEpoch (i : ι) (version : Nat)
  | stop (i : ι)
  | pass (seconds : Nat)

section Runs

variable {ι : Type} [DecidableEq ι]

namespace ClusterState

variable (s : ClusterState ι)

def put (i : ι) (manager : ClusterManager) (e : FakeEtcd) : ClusterState ι :=
  ⟨update s.managers i manager, e⟩

/-- One manager makes a call. -/
def act {α : Type} (i : ι) (call : ManagerCall α) : StatusOr α × ClusterState ι :=
  let (result, manager, e) := runOn call (s.managers i) s.etcd
  (result, s.put i manager e)

def step : Event ι → ClusterState ι
  | .tick i => (s.act i ClusterManager.tick).2
  | .advanceEpoch i version => (s.act i (advanceEpoch version)).2
  | .stop i => (s.act i ClusterManager.stop).2
  | .pass seconds => { s with etcd := s.etcd.advanceTime seconds }

end ClusterState

namespace Nodes

variable (c : Nodes ι)

def initial : ClusterState ι :=
  ⟨fun i => { options := c.options i }, {}⟩

def run (events : List (Event ι)) : ClusterState ι :=
  events.foldl ClusterState.step c.initial

end Nodes

/-- The seconds since the manager's last tick, one event later. -/
def waited (event : Event ι) (i : ι) (seconds : Nat) : Nat :=
  match event with
  | .tick j => if i = j then 0 else seconds
  | .pass more => seconds + more
  | _ => seconds

/-- The seconds since the manager's last tick. -/
def idle (events : List (Event ι)) (i : ι) : Nat :=
  events.foldl (fun seconds event => waited event i seconds) 0

/-- The leader key holds the manager's node id. -/
def Nodes.Leads (c : Nodes ι) (s : ClusterState ι) (i : ι) : Prop :=
  (s.etcd.get c.leaderKey).1 = .ok (some (c.options i).nodeId)

def MayAdvance (s : ClusterState ι) (i : ι) : Prop :=
  ∃ version, (s.act i (advanceEpoch version)).1 = .ok ()

/-- The epoch can be advanced by the leader only, so by one manager at most. -/
structure OnlyLeaderAdvances (c : Nodes ι) (s : ClusterState ι) : Prop where
  leads : ∀ i, MayAdvance s i → c.Leads s i
  one : ∀ i j, MayAdvance s i → MayAdvance s j → i = j

/-! ## Calls of one manager -/

section Calls

variable {α β : Type} (s : ClusterState ι) (i : ι)

variable (manager : ClusterManager)

@[simp] theorem put_managers_self (e : FakeEtcd) : (s.put i manager e).managers i = manager :=
  update_self ..

variable {s i} in
theorem put_managers_ne {j : ι} (other : j ≠ i) (manager : ClusterManager) (e : FakeEtcd) :
    (s.put i manager e).managers j = s.managers j :=
  update_of_ne other ..

@[simp] theorem put_etcd (e : FakeEtcd) : (s.put i manager e).etcd = e := rfl

@[simp] theorem put_put (manager' : ClusterManager) (e e' : FakeEtcd) :
    (s.put i manager e).put i manager' e' = s.put i manager' e' := by
  simp [ClusterState.put]

theorem act_bind (call : ManagerCall α) (next : α → ManagerCall β) :
    s.act i (call >>= next) =
      match s.act i call with
      | (.ok a, s') => s'.act i (next a)
      | (.error status, s') => (.error status, s') := by
  rw [ClusterState.act, runOn_bind, ClusterState.act]
  rcases runOn call (s.managers i) s.etcd with ⟨status | a, manager, e⟩
  · rfl
  · simp [ClusterState.act]

theorem act_bind_ok {call : ManagerCall α} {a : α} {s' : ClusterState ι}
    (first : s.act i call = (.ok a, s')) (next : α → ManagerCall β) :
    s.act i (call >>= next) = s'.act i (next a) := by
  rw [act_bind, first]

@[simp] theorem act_current :
    s.act i current = (.ok (s.managers i), s) := by
  simp [ClusterState.act, ClusterState.put]

@[simp] theorem act_current_bind (next : ClusterManager → ManagerCall β) :
    s.act i (current >>= next) = s.act i (next (s.managers i)) :=
  act_bind_ok s i (act_current s i) next

@[simp] theorem act_pure (a : α) : s.act i (pure a) = (.ok a, s) := by
  simp [ClusterState.act, ClusterState.put]

@[simp] theorem act_change (f : ClusterManager → ClusterManager) :
    s.act i (change f) = (.ok (), s.put i (f (s.managers i)) s.etcd) := rfl

@[simp] theorem act_etcd (op : EtcdCall) :
    s.act i (etcd op) =
      ((exec op s.etcd).1, { s with etcd := (exec op s.etcd).2 }) := by
  simp [ClusterState.act, ClusterState.put]

@[simp] theorem act_asked (op : EtcdCall) :
    s.act i (asked op) =
      (.ok (exec op s.etcd).1, { s with etcd := (exec op s.etcd).2 }) := by
  simp [ClusterState.act, ClusterState.put]

end Calls

/-! ## What a tick leaves true -/

/-- What is known of one manager that has been idle for this time. -/
structure Member (c : Nodes ι) (e : FakeEtcd) (i : ι) (idle : Nat) (manager : ClusterManager) :
    Prop where
  options : manager.options = c.options i
  known : manager.lease < e.nextLease
  /-- A lease that is held was renewed by its manager's last tick, -/
  renewed : ∀ lease, e.leases.lookup manager.lease = some lease →
    lease.ttlSeconds = (c.options i).leaseTtlSeconds ∧
    lease.expiresAt + idle = e.now + (c.options i).leaseTtlSeconds
  /-- and one that is not has had its time. -/
  lapsed : manager.lease ≠ 0 → ¬ e.Alive manager.lease → (c.options i).leaseTtlSeconds ≤ idle
  flagged : manager.isLeader = true → manager.lease ≠ 0
  /-- A flag is right as long as the lease is held. -/
  leads : manager.isLeader = true → e.Alive manager.lease →
    e.kv.lookup c.leaderKey = some ⟨(c.options i).nodeId, manager.lease⟩

/-- Where leadership stands when each manager has been idle for its time. -/
structure Led (c : Nodes ι) (s : ClusterState ι) (idle : ι → Nat) : Prop where
  settled : s.etcd.Settled
  each : ∀ i, Member c s.etcd i (idle i) (s.managers i)
  /-- No two managers have one lease. -/
  apart : ∀ i j, (s.managers i).lease = (s.managers j).lease → (s.managers i).lease ≠ 0 → i = j
  /-- The leader key belongs to some manager and its lease. -/
  leader : ∀ entry, s.etcd.kv.lookup c.leaderKey = some entry →
    ∃ i, entry = ⟨(c.options i).nodeId, (s.managers i).lease⟩ ∧ s.etcd.Alive (s.managers i).lease

section Steps

variable {c : Nodes ι} {s : ClusterState ι} {idle : ι → Nat}

omit [DecidableEq ι] in
theorem led_initial (c : Nodes ι) : Led c c.initial fun _ => 0 where
  settled := settled_empty
  each _ := ⟨rfl, Nat.one_pos, nofun, fun held => absurd rfl held, nofun, nofun⟩
  apart _ _ _ held := absurd rfl held
  leader _ found := by cases found

omit [DecidableEq ι] in
/-- Any key but the leader key may be written. -/
theorem Led.write (led : Led c s idle) {key : Bytes} (value : Bytes) {lease : LeaseId}
    (other : key ≠ c.leaderKey) (usable : lease = 0 ∨ s.etcd.Alive lease) :
    Led c { s with etcd := s.etcd.store key ⟨value, lease⟩ } idle where
  settled := led.settled.store usable
  each i := { led.each i with
    leads := fun flag alive =>
      (lookup_insert_of_ne _ other.symm).trans ((led.each i).leads flag alive) }
  apart := led.apart
  leader entry found := led.leader entry
    ((lookup_insert_of_ne _ other.symm).symm.trans found)

section Put

variable {i : ι} {manager : ClusterManager} {e : FakeEtcd}

theorem each_put {idle' : ι → Nat} (own : Member c e i (idle' i) manager)
    (others : ∀ j, j ≠ i → Member c e j (idle' j) (s.managers j)) (j : ι) :
    Member c e j (idle' j) ((s.put i manager e).managers j) := by
  by_cases same : j = i
  · subst same
    rwa [put_managers_self]
  · rw [put_managers_ne same]
    exact others j same

/-- A lease that no other manager has keeps the managers apart. -/
theorem Led.apart_put (led : Led c s idle)
    (others : ∀ j, j ≠ i → (s.managers j).lease = manager.lease → manager.lease = 0) (j k : ι)
    (same : ((s.put i manager e).managers j).lease = ((s.put i manager e).managers k).lease)
    (held : ((s.put i manager e).managers j).lease ≠ 0) : j = k := by
  by_cases first : j = i <;> by_cases second : k = i
  · exact first.trans second.symm
  · subst first
    rw [put_managers_self] at same held
    rw [put_managers_ne second] at same
    exact absurd (others k second same.symm) held
  · subst second
    rw [put_managers_ne first] at same held
    rw [put_managers_self] at same
    exact absurd (others j first same) (same ▸ held)
  · rw [put_managers_ne first] at same held
    rw [put_managers_ne second] at same
    exact led.apart j k same held

/-- The leader key stays with a manager that keeps its lease. -/
theorem leader_put {j : ι} (kept : j = i → manager.lease = (s.managers i).lease)
    (alive : e.Alive (s.managers j).lease) :
    ∃ k, (⟨(c.options j).nodeId, (s.managers j).lease⟩ : Entry) =
        ⟨(c.options k).nodeId, ((s.put i manager e).managers k).lease⟩ ∧
      e.Alive ((s.put i manager e).managers k).lease := by
  have same : ((s.put i manager e).managers j).lease = (s.managers j).lease := by
    by_cases own : j = i
    · subst own
      rw [put_managers_self, kept rfl]
    · rw [put_managers_ne own]
  exact ⟨j, by rw [same], by rwa [same]⟩

end Put

/-- A manager may keep or lower its flag, or raise it when the leader key is its own. -/
theorem Led.manager (led : Led c s idle) {i : ι} {manager : ClusterManager}
    (options : manager.options = (s.managers i).options)
    (lease : manager.lease = (s.managers i).lease)
    (right : manager.isLeader = true → (s.managers i).isLeader = true ∨
      (s.etcd.Alive (s.managers i).lease ∧
        s.etcd.kv.lookup c.leaderKey = some ⟨(c.options i).nodeId, (s.managers i).lease⟩)) :
    Led c (s.put i manager s.etcd) idle := by
  have before := led.each i
  have own : Member c s.etcd i (idle i) manager := by
    refine ⟨options.trans before.options, ?_, ?_, ?_, ?_, ?_⟩ <;> rw [lease]
    · exact before.known
    · exact before.renewed
    · exact before.lapsed
    · intro flag
      rcases right flag with flagged | ⟨alive, _⟩
      · exact before.flagged flagged
      · exact (led.settled.numbered _ alive).1.ne'
    · exact fun flag alive => (right flag).elim (before.leads · alive) And.right
  refine ⟨led.settled, each_put own fun j _ => led.each j, led.apart_put fun j other same => ?_,
    fun entry found => ?_⟩
  · by_contra held
    exact other (led.apart j i (same.trans lease) (same ▸ held))
  · obtain ⟨j, rfl, alive⟩ := led.leader entry found
    exact leader_put (fun _ => lease) alive

/-- The manager has a lease from now on. -/
theorem Led.lease (led : Led c s idle) {i : ι} {manager : ClusterManager} {lease : LeaseId}
    {next : LeaseId}
    (options : manager.options = (s.managers i).options) (held : manager.lease = lease)
    (positive : 0 < (c.options i).leaseTtlSeconds)
    -- either the manager renews its lease, or it has none and the lease is a new one
    (either : (manager = s.managers i ∧ s.etcd.Alive lease ∧ next = s.etcd.nextLease) ∨
      (¬ s.etcd.Alive (s.managers i).lease ∧ manager.isLeader = false ∧ lease = s.etcd.nextLease ∧
        next = s.etcd.nextLease + 1)) :
    Led c (s.put i manager { s.etcd with
      nextLease := next
      leases := s.etcd.leases.insert lease
        ⟨(c.options i).leaseTtlSeconds, s.etcd.now + (c.options i).leaseTtlSeconds⟩ })
      (update idle i 0) := by
  subst held
  have numbered : 0 < manager.lease ∧ manager.lease < next := by
    rcases either with ⟨_, alive, rfl⟩ | ⟨_, _, fresh, rfl⟩
    · exact led.settled.numbered _ alive
    · rw [fresh]
      exact ⟨led.settled.started, Nat.lt_succ_self _⟩
  have later : s.etcd.nextLease ≤ next := by
    rcases either with ⟨_, _, rfl⟩ | ⟨_, _, _, rfl⟩
    · exact le_rfl
    · exact Nat.le_succ _
  -- nobody else has the lease
  have others : ∀ j, j ≠ i → (s.managers j).lease ≠ manager.lease := by
    intro j other same
    rcases either with ⟨unchanged, alive, _⟩ | ⟨_, _, fresh, _⟩
    · refine other (led.apart j i (same.trans (by rw [unchanged])) ?_)
      rw [same]
      exact (led.settled.numbered _ alive).1.ne'
    · exact absurd (led.each j).known (by rw [same, fresh]; exact lt_irrefl _)
  refine ⟨led.settled.lease positive numbered later, each_put ?_ fun j other => ?_,
    led.apart_put fun j other same => absurd same (others j other), fun entry found => ?_⟩
  · refine ⟨options.trans (led.each i).options, numbered.2, fun found there => ?_,
      fun _ dead => absurd (alive_insert.2 (Or.inl rfl)) dead, fun _ => numbered.1.ne',
      fun flag _ => ?_⟩
    · cases (lookup_insert _).symm.trans there
      rw [update_self]
      exact ⟨rfl, add_zero _⟩
    · rcases either with ⟨rfl, alive, _⟩ | ⟨_, lowered, _⟩
      · exact (led.each i).leads flag alive
      · rw [lowered] at flag
        cases flag
  · have before := led.each j
    rw [update_of_ne other]
    exact ⟨before.options, before.known.trans_le later, fun found there => before.renewed found
        ((lookup_insert_of_ne _ (others j other)).symm.trans there),
      fun some_ dead => before.lapsed some_ fun alive => dead (alive_insert.2 (Or.inr alive)),
      before.flagged, fun flag alive => before.leads flag
        ((alive_insert.1 alive).resolve_left (others j other))⟩
  · obtain ⟨j, rfl, alive⟩ := led.leader entry found
    refine leader_put (fun own => ?_) (alive_insert.2 (Or.inr alive))
    rcases either with ⟨rfl, _⟩ | ⟨dead, _⟩
    · rfl
    · exact absurd (own ▸ alive) dead

/-- The manager gives its lease up, and the store forgets it. -/
theorem Led.leave (led : Led c s idle) {i : ι} {e : FakeEtcd} {idle' : ι → Nat}
    (settled : e.Settled) (clock : e.now = s.etcd.now) (next : e.nextLease = s.etcd.nextLease)
    (gone : ¬ e.Alive (s.managers i).lease)
    (kept : ∀ lease, lease ≠ (s.managers i).lease → e.leases.lookup lease = s.etcd.leases.lookup lease)
    (key : e.kv.lookup c.leaderKey =
      (s.etcd.kv.lookup c.leaderKey).filter fun entry => entry.lease != (s.managers i).lease)
    (same : ∀ j, j ≠ i → idle' j = idle j) :
    Led c (s.put i { s.managers i with lease := 0, isLeader := false } e) idle' := by
  have lookup : ∀ j, e.Alive (s.managers j).lease →
      e.leases.lookup (s.managers j).lease = s.etcd.leases.lookup (s.managers j).lease :=
    fun j alive => kept _ fun is => gone (is ▸ alive)
  refine ⟨settled, each_put ?_ fun j other => ?_, led.apart_put fun _ _ _ => rfl,
    fun entry found => ?_⟩
  · exact ⟨(led.each i).options, next ▸ led.settled.started, fun found there =>
        absurd (isSome_iff_exists.2 ⟨found, there⟩) settled.not_alive_zero,
      fun held => absurd rfl held, nofun, nofun⟩
  · have before := led.each j
    rw [same j other, put_etcd]
    refine ⟨before.options, next ▸ before.known, fun found there => ?_, fun held dead => ?_,
      before.flagged, fun flag alive => ?_⟩
    · rw [clock]
      refine before.renewed found ((lookup j ?_).symm.trans there)
      rw [FakeEtcd.Alive, there]
      rfl
    · refine before.lapsed held fun alive => dead ?_
      rw [FakeEtcd.Alive, kept _ fun is => other (led.apart j i is held)]
      exact alive
    · have known : s.etcd.Alive (s.managers j).lease := by
        rw [FakeEtcd.Alive, ← lookup j alive]
        exact alive
      rw [key, before.leads flag known]
      refine filter_some_pos ?_
      rw [bne_iff_ne]
      exact fun is => gone (is ▸ alive)
  · rw [put_etcd, key] at found
    obtain ⟨before, passes⟩ := filter_eq_some_iff.1 found
    obtain ⟨j, rfl, alive⟩ := led.leader entry before
    have other : (s.managers j).lease ≠ (s.managers i).lease := by simpa using passes
    refine leader_put (fun own => absurd (by rw [own]) other) ?_
    rw [FakeEtcd.Alive, kept _ other]
    exact alive

omit [DecidableEq ι] in
theorem Led.pass (led : Led c s idle) (seconds : Nat) :
    Led c { s with etcd := s.etcd.advanceTime seconds } fun i => idle i + seconds := by
  have settled := led.settled.advanceTime seconds
  have before : ∀ lease found, (s.etcd.advanceTime seconds).leases.lookup lease = some found →
      s.etcd.leases.lookup lease = some found := fun lease found there =>
    (filter_eq_some_iff.1 ((lookup_keep _ _ _).symm.trans there)).1
  have alive_before : ∀ lease, (s.etcd.advanceTime seconds).Alive lease → s.etcd.Alive lease := by
    intro lease alive
    obtain ⟨found, there⟩ := isSome_iff_exists.1 alive
    rw [FakeEtcd.Alive, before lease found there]
    rfl
  refine ⟨settled, fun i => { led.each i with
      renewed := fun found there => ?_, lapsed := fun held dead => ?_, leads := fun flag alive => ?_ },
    led.apart, fun entry found => ?_⟩
  · obtain ⟨ttl, time⟩ := (led.each i).renewed found (before _ _ there)
    refine ⟨ttl, ?_⟩
    show found.expiresAt + ((idle i + seconds : Nat) : Int) = s.etcd.now + seconds + _
    push_cast
    omega
  · by_cases alive : s.etcd.Alive (s.managers i).lease
    · obtain ⟨found, there⟩ := isSome_iff_exists.1 alive
      obtain ⟨_, time⟩ := (led.each i).renewed found there
      -- the lease was held, so this is the time it ran out
      have expired : found.expiresAt ≤ s.etcd.now + seconds := by
        by_contra early
        refine dead ?_
        rw [FakeEtcd.Alive, advanceTime, purgeExpired, lookup_keep]
        simpa [expired, there] using not_le.1 early
      push_cast
      omega
    · have := (led.each i).lapsed held alive
      push_cast
      omega
  · have known := (led.each i).leads flag (alive_before _ alive)
    show (s.etcd.advanceTime seconds).kv.lookup c.leaderKey = _
    rw [advanceTime, purgeExpired, lookup_keep, known]
    refine filter_some_pos ?_
    obtain ⟨found, there⟩ := isSome_iff_exists.1 alive
    obtain ⟨_, passes⟩ := filter_eq_some_iff.1 ((lookup_keep _ _ _).symm.trans there)
    exact passes
  · obtain ⟨known, _⟩ := filter_eq_some_iff.1 ((lookup_keep _ _ _).symm.trans found)
    obtain ⟨i, rfl, alive⟩ := led.leader entry known
    refine ⟨i, rfl, ((settled.leased _ _ found).resolve_left ?_)⟩
    exact (led.settled.numbered _ alive).1.ne'

/-! ## The events -/

omit [DecidableEq ι] in
/-- A manager without a lease is not flagged. -/
theorem Led.unflagged (led : Led c s idle) {i : ι} (none_ : (s.managers i).lease = 0) :
    (s.managers i).isLeader = false := by
  rcases flag : (s.managers i).isLeader with _ | _
  · rfl
  · exact absurd none_ ((led.each i).flagged flag)

/-- The lease of the manager is gone, and the manager knows it. -/
theorem Led.drop (led : Led c s idle) {i : ι} (dead : ¬ s.etcd.Alive (s.managers i).lease) :
    Led c (s.put i { s.managers i with lease := 0, isLeader := false } s.etcd)
      (update idle i 0) := by
  refine led.leave led.settled rfl rfl dead (fun _ _ => rfl) ?_ fun j other =>
    update_of_ne other ..
  rcases found : s.etcd.kv.lookup c.leaderKey with _ | entry
  · rfl
  · obtain ⟨j, rfl, alive⟩ := led.leader entry found
    refine (filter_some_pos ?_).symm
    rw [bne_iff_ne]
    exact fun same => dead (same ▸ alive)

/-- Either the lease was held and is renewed, or the manager has none. -/
theorem Led.act_dropLapsed (led : Led c s idle) (i : ι) :
    (s.etcd.Alive (s.managers i).lease ∧
      s.act i dropLapsed = (.ok (), { s with etcd := { s.etcd with
        leases := s.etcd.leases.insert (s.managers i).lease
          ⟨(c.options i).leaseTtlSeconds, s.etcd.now + (c.options i).leaseTtlSeconds⟩ } })) ∨
    (¬ s.etcd.Alive (s.managers i).lease ∧ s.act i dropLapsed =
      (.ok (), s.put i { s.managers i with lease := 0, isLeader := false } s.etcd)) := by
  rw [dropLapsed, act_current_bind]
  by_cases none_ : (s.managers i).lease = 0
  · refine Or.inr ⟨none_ ▸ led.settled.not_alive_zero, ?_⟩
    have same : ({ s.managers i with lease := 0, isLeader := false } : ClusterManager) = s.managers i := by
      rw [← none_, ← led.unflagged none_]
    rw [if_pos none_, act_pure, same, ClusterState.put, update_eq_self]
  rw [if_neg none_, act_bind, act_asked]
  simp only [exec, leaseKeepAlive, led.settled.purgeExpired]
  rcases found : s.etcd.leases.lookup (s.managers i).lease with _ | lease
  · refine Or.inr ⟨by simp [FakeEtcd.Alive, found], ?_⟩
    simp
  · refine Or.inl ⟨by simp [FakeEtcd.Alive, found], ?_⟩
    simp only [act_pure]
    rw [((led.each i).renewed lease found).1]

/-- A tick begins by renewing the lease, or by getting a new one if its time is positive. -/
theorem Led.act_ensureLease (led : Led c s idle) (i : ι) : ∃ result s',
    s.act i ensureLease = (result, s') ∧ Led c s' (update idle i 0) ∧ s'.etcd.kv = s.etcd.kv ∧
    (s'.managers i).publishedShardMap = (s.managers i).publishedShardMap ∧
    ((result = .ok () ∧ s'.etcd.Alive (s'.managers i).lease) ∨
      (result ≠ .ok () ∧ ¬ 0 < (c.options i).leaseTtlSeconds ∧ (s'.managers i).isLeader = false)) := by
  rw [ensureLease]
  rcases led.act_dropLapsed i with ⟨alive, renewed⟩ | ⟨dead, dropped⟩
  · obtain ⟨found, there⟩ := isSome_iff_exists.1 alive
    have positive : 0 < (c.options i).leaseTtlSeconds :=
      ((led.each i).renewed found there).1 ▸ led.settled.positive _ found there
    have some_ : (s.managers i).lease ≠ 0 := (led.settled.numbered _ alive).1.ne'
    have led' := led.lease rfl rfl positive (Or.inl ⟨rfl, alive, rfl⟩)
    rw [act_bind_ok _ _ renewed, act_current_bind, if_neg some_, act_pure]
    rw [ClusterState.put, update_eq_self] at led'
    exact ⟨_, _, rfl, led', rfl, rfl, .inl ⟨rfl, alive_insert.2 (Or.inl rfl)⟩⟩
  · have ttl : (s.managers i).options.leaseTtlSeconds = (c.options i).leaseTtlSeconds := by
      rw [(led.each i).options]
    rw [act_bind_ok _ _ dropped, act_current_bind, put_managers_self, if_pos rfl, act_bind, act_etcd]
    simp only [exec, leaseGrant, ttl]
    by_cases positive : (c.options i).leaseTtlSeconds ≤ 0
    · rw [if_pos positive]
      refine ⟨_, _, rfl, led.drop dead, rfl, ?_, .inr ⟨by simp, not_lt.2 positive, ?_⟩⟩ <;>
        rw [put_managers_self]
    · rw [if_neg positive]
      refine ⟨_, _, act_change _ _ _, ?_, rfl, ?_, .inl ⟨rfl, alive_insert.2 (Or.inl ?_)⟩⟩
      · have led' : Led c (s.put i { s.managers i with
            lease := s.etcd.nextLease, isLeader := false } _) _ :=
          led.lease rfl rfl (not_le.1 positive) (Or.inr ⟨dead, rfl, rfl, rfl⟩)
        simpa [ClusterState.put] using led'
      · simp only [put_managers_self]
      · rw [put_managers_self]

omit [DecidableEq ι] in
theorem Led.leaderKey (led : Led c s idle) (i : ι) :
    (s.managers i).options.leaderKey = c.leaderKey := by
  rw [(led.each i).options, c.shared]

omit [DecidableEq ι] in
/-- A free leader key goes to a manager with a lease. -/
theorem Led.claim (led : Led c s idle) (i : ι) (free : s.etcd.kv.lookup c.leaderKey = none)
    (alive : s.etcd.Alive (s.managers i).lease) :
    Led c { s with etcd := s.etcd.store c.leaderKey ⟨(c.options i).nodeId, (s.managers i).lease⟩ }
      idle where
  settled := led.settled.store (Or.inr alive)
  each j := { led.each j with
    leads := fun flag held => by cases free.symm.trans ((led.each j).leads flag held) }
  apart := led.apart
  leader entry found := by
    cases (lookup_insert _).symm.trans found
    exact ⟨i, rfl, alive⟩

/-- A contender keeps its lease and its map, and no key but the leader's changes; it leads if that
was free or its own. -/
theorem Led.act_contend (led : Led c s idle) {i : ι} (alive : s.etcd.Alive (s.managers i).lease) :
    ∃ s', s.act i contend = (.ok (), s') ∧ Led c s' idle ∧
      (s'.managers i).publishedShardMap = (s.managers i).publishedShardMap ∧
      (s'.managers i).lease = (s.managers i).lease ∧
      (∀ key, key ≠ c.leaderKey → s'.etcd.kv.lookup key = s.etcd.kv.lookup key) ∧
      ((∀ entry, s.etcd.kv.lookup c.leaderKey = some entry → entry.value = (c.options i).nodeId) →
        (s'.managers i).isLeader = true) := by
  rw [contend, act_current_bind, act_bind, act_etcd, led.leaderKey, led.settled.exec_get]
  rcases found : s.etcd.kv.lookup c.leaderKey with _ | entry
  · have claimed := led.claim i found alive
    have named : (s.managers i).options.nodeId = (c.options i).nodeId := by rw [(led.each i).options]
    simp only [map_none]
    rw [act_bind, act_etcd, named, led.settled.exec_createIfAbsent _ found (Or.inr alive)]
    refine ⟨_, act_change .., claimed.manager rfl rfl fun _ => Or.inr ⟨alive, ?_⟩, ?_⟩
    · exact lookup_insert _
    · rw [put_managers_self]
      exact ⟨rfl, rfl, fun key other => lookup_insert_of_ne _ other, fun _ => rfl⟩
  · refine ⟨_, act_change .., led.manager rfl rfl fun won => Or.inr ⟨alive, ?_⟩, ?_⟩
    · obtain ⟨j, rfl, _⟩ := led.leader entry found
      have named : (c.options j).nodeId = (c.options i).nodeId := by
        rw [← (led.each i).options]
        exact beq_iff_eq.1 won
      obtain rfl := c.distinct named
      exact found
    · rw [put_managers_self]
      refine ⟨rfl, rfl, fun _ _ => rfl, fun own => beq_iff_eq.2 ?_⟩
      rw [own entry rfl, (led.each i).options]

/-- The keys that only hold data are not the leader key. -/
structure Nodes.Apart (c : Nodes ι) : Prop where
  shardMap : ∀ i, (c.options i).shardMapKey ≠ c.leaderKey
  epoch : ∀ i, (c.options i).epochKey ≠ c.leaderKey

theorem Led.act_publishShardMap (apart : c.Apart) (led : Led c s idle) (i : ι) :
    ∃ s', s.act i publishShardMap = (.ok (), s') ∧ Led c s' idle ∧
      (s'.managers i).isLeader = (s.managers i).isLeader := by
  rw [publishShardMap, act_current_bind]
  split
  · have listed : ∃ nodes, s.act i members = (.ok nodes, s) := by
      rw [members, act_current_bind, act_bind, act_etcd,
        led.settled.exec_getPrefix]
      exact ⟨_, act_pure ..⟩
    obtain ⟨nodes, listed⟩ := listed
    rw [act_bind_ok _ _ listed]
    simp only
    split
    · exact ⟨s, act_pure .., led, rfl⟩
    · rw [act_bind, act_etcd, led.settled.exec_put _ _ (Or.inl rfl), (led.each i).options]
      refine ⟨_, act_change .., Led.manager ?_ rfl rfl Or.inl, ?_⟩
      · exact led.write _ (apart.shardMap i) (Or.inl rfl)
      · rw [put_managers_self]
  · exact ⟨s, act_pure .., led, rfl⟩

omit [DecidableEq ι] in
theorem Nodes.memberKey_ne (c : Nodes ι) (i : ι) : (c.options i).memberKey ≠ c.leaderKey := by
  rw [← c.shared i]
  exact Cluster.memberKey_ne _

/-- A tick fails to get a lease, and then its flag is down; or it registers the manager and goes on
to contend and to publish. -/
theorem Led.tick_registers (led : Led c s idle) (i : ι) :
    (¬ 0 < (c.options i).leaseTtlSeconds ∧ Led c (s.act i ClusterManager.tick).2 (update idle i 0) ∧
      (s.act i ClusterManager.tick).2.etcd.kv = s.etcd.kv ∧
      ((s.act i ClusterManager.tick).2.managers i).isLeader = false) ∨
    ∃ t, Led c t (update idle i 0) ∧ t.etcd.Alive (t.managers i).lease ∧
      (t.managers i).publishedShardMap = (s.managers i).publishedShardMap ∧
      t.etcd.kv = s.etcd.kv.insert (c.options i).memberKey
        ⟨(c.options i).nodeAddress, (t.managers i).lease⟩ ∧
      s.act i ClusterManager.tick = t.act i (contend >>= fun _ => publishShardMap) := by
  obtain ⟨result, t, leased, led', kv, published, granted⟩ := led.act_ensureLease i
  rw [ClusterManager.tick]
  rcases granted with ⟨rfl, alive⟩ | ⟨failed, negative, lowered⟩
  · refine .inr ⟨_, led'.write (c.options i).nodeAddress (c.memberKey_ne i) (.inr alive), alive,
      published, ?_, ?_⟩
    · rw [← kv]
      rfl
    · rw [act_bind_ok _ _ leased, act_current_bind, act_bind, act_etcd, (led'.each i).options,
        led'.settled.exec_put _ _ (.inr alive)]
  · rw [act_bind, leased]
    rcases result with status | _
    · exact .inl ⟨negative, led', kv, lowered⟩
    · exact absurd rfl failed

/-- A tick keeps all this, and a manager with a lease wins a free leader key. -/
theorem Led.tick (apart : c.Apart) (led : Led c s idle) (i : ι) :
    Led c (s.act i ClusterManager.tick).2 (update idle i 0) ∧
    (0 < (c.options i).leaseTtlSeconds → s.etcd.kv.lookup c.leaderKey = none →
      ((s.act i ClusterManager.tick).2.managers i).isLeader = true) := by
  rcases led.tick_registers i with ⟨negative, led', _⟩ | ⟨t, led', alive, _, kv, ticked⟩
  · exact ⟨led', fun positive => absurd positive negative⟩
  obtain ⟨u, contended, led₂, _, _, _, wins⟩ := led'.act_contend alive
  obtain ⟨v, published, led₃, same⟩ := led₂.act_publishShardMap apart i
  rw [ticked, act_bind_ok _ _ contended, published]
  refine ⟨led₃, fun _ free => same.trans (wins fun entry found => ?_)⟩
  rw [kv, lookup_insert_of_ne _ (c.memberKey_ne i).symm, free] at found
  cases found

/-- The epoch is advanced exactly when the flag is up. -/
theorem Led.act_advanceEpoch (led : Led c s idle) (i : ι) (version : Nat) :
    ((s.managers i).isLeader = true ∧ s.act i (advanceEpoch version) =
      (.ok (), { s with etcd := s.etcd.store (c.options i).epochKey ⟨dec version, 0⟩ })) ∨
    ((s.managers i).isLeader = false ∧ s.act i (advanceEpoch version) =
      (.error ⟨.failedPrecondition, bytes "only the leader advances the epoch version"⟩, s)) := by
  rw [advanceEpoch, act_current_bind]
  rcases flag : (s.managers i).isLeader with _ | _
  · refine Or.inr ⟨rfl, ?_⟩
    rw [if_neg (by simp), ClusterState.act, runOn_fail]
    simp [ClusterState.put]
  · refine Or.inl ⟨rfl, ?_⟩
    rw [if_pos rfl, act_etcd, led.settled.exec_put _ _ (Or.inl rfl), (led.each i).options]

theorem Led.mayAdvance_iff (led : Led c s idle) (i : ι) :
    MayAdvance s i ↔ (s.managers i).isLeader = true := by
  constructor
  · rintro ⟨version, ok⟩
    rcases led.act_advanceEpoch i version with ⟨flag, _⟩ | ⟨_, failed⟩
    · exact flag
    · rw [failed] at ok
      cases ok
  · intro flag
    rcases led.act_advanceEpoch i 0 with ⟨_, advanced⟩ | ⟨lowered, _⟩
    · exact ⟨0, by rw [advanced]⟩
    · rw [flag] at lowered
      cases lowered

theorem Led.stop (led : Led c s idle) (i : ι) : Led c (s.act i ClusterManager.stop).2 idle := by
  rw [ClusterManager.stop, act_current_bind]
  split
  · rw [act_pure]
    exact led
  refine led.leave (led.settled.leaseRevoke _) rfl rfl ?_ ?_ ?_ fun _ _ => rfl
  · rw [FakeEtcd.Alive, exec, leaseRevoke]
    simp
  · exact fun lease other => lookup_erase_ne other
  · exact lookup_keep _ _ _

theorem Led.step (apart : c.Apart) (led : Led c s idle) (event : Event ι) :
    Led c (s.step event) fun i => waited event i (idle i) := by
  cases event with
  | tick j =>
    have ticked := (led.tick apart j).1
    have same : update idle j 0 = fun i => waited (.tick j) i (idle i) := by
      funext i
      by_cases own : i = j
      · simp [waited, own]
      · simp [waited, own]
    rw [same] at ticked
    exact ticked
  | advanceEpoch i version =>
    show Led c (s.act i (advanceEpoch version)).2 idle
    rcases led.act_advanceEpoch i version with ⟨_, advanced⟩ | ⟨_, failed⟩
    · rw [advanced]
      exact led.write _ (apart.epoch i) (Or.inl rfl)
    · rw [failed]
      exact led
  | stop i => exact led.stop i
  | pass seconds => exact led.pass seconds

theorem led_run (apart : c.Apart) (events : List (Event ι)) :
    Led c (c.run events) (Cluster.idle events) := by
  induction events using reverseRecOn with
  | nil => exact led_initial c
  | append_singleton events event ih =>
    have stepped := ih.step apart event
    have later : Cluster.idle (events ++ [event]) = fun i => waited event i (Cluster.idle events i) := by
      funext i
      simp [Cluster.idle]
    rw [Nodes.run, foldl_append, later]
    exact stepped

omit [DecidableEq ι] in
/-- The flag of a manager that has ticked in time is right, -/
theorem Led.leads_of_prompt (led : Led c s idle) {i : ι} (flag : (s.managers i).isLeader = true)
    (prompt : (idle i : Int) < (c.options i).leaseTtlSeconds) : c.Leads s i := by
  have alive : s.etcd.Alive (s.managers i).lease := by
    by_contra dead
    exact absurd ((led.each i).lapsed ((led.each i).flagged flag) dead) (not_le.2 prompt)
  rw [Nodes.Leads, FakeEtcd.get, led.settled.purgeExpired, (led.each i).leads flag alive]
  rfl

omit [DecidableEq ι] in
/-- and only such a manager can be the leader. -/
theorem Led.prompt_of_leads (led : Led c s idle) {i : ι} (leads : c.Leads s i) :
    (idle i : Int) < (c.options i).leaseTtlSeconds := by
  rw [Nodes.Leads, FakeEtcd.get, led.settled.purgeExpired] at leads
  obtain ⟨entry, found, named⟩ := map_eq_some_iff.1 (Except.ok.inj leads)
  obtain ⟨j, rfl, alive⟩ := led.leader entry found
  obtain rfl := c.distinct named
  obtain ⟨lease, there⟩ := isSome_iff_exists.1 alive
  have time := ((led.each j).renewed lease there).2
  have later := led.settled.unexpired _ lease there
  omega

omit [DecidableEq ι] in
theorem Nodes.Leads.unique {i j : ι} (first : c.Leads s i) (second : c.Leads s j) : i = j :=
  c.distinct (some.inj (Except.ok.inj (first.symm.trans second)))

end Steps

/-- **Only the leader advances the epoch exactly while no flag has outlived its lease.**  At any
moment of any run, every manager whose `AdvanceEpoch` would return OK is the one the leader key
names, if and only if every manager that is flagged as the leader has ticked within the time of
its lease. -/
theorem only_leader_advances_iff (c : Nodes ι) (apart : c.Apart) (events : List (Event ι)) :
    OnlyLeaderAdvances c (c.run events) ↔ ∀ i, ((c.run events).managers i).isLeader = true →
      (idle events i : Int) < (c.options i).leaseTtlSeconds := by
  have led := led_run apart events
  constructor
  · exact fun only i flag => led.prompt_of_leads (only.leads i ((led.mayAdvance_iff i).2 flag))
  · intro prompt
    have leads : ∀ i, MayAdvance (c.run events) i → c.Leads (c.run events) i := by
      intro i may
      have flag := (led.mayAdvance_iff i).1 may
      exact led.leads_of_prompt flag (prompt i flag)
    exact ⟨leads, fun i j first second => (leads i first).unique (leads j second)⟩

/-- Two nodes with the default options. -/
def twoNodes : Nodes Bool where
  options second := { nodeId := bytes (if second then "b" else "a"), nodeAddress := bytes "h:1" }
  leaderKey := bytes "/opaquedb/leader"
  shared _ := rfl
  distinct := by decide

theorem twoNodes_apart : twoNodes.Apart where
  shardMap := by decide
  epoch := by decide

/-- A second before the lease runs out the first node is still the leader. -/
theorem only_leader_advances_twoNodes :
    OnlyLeaderAdvances twoNodes (twoNodes.run [.tick false, .pass 9]) := by
  refine (only_leader_advances_iff twoNodes twoNodes_apart _).2 fun i _ => ?_
  cases i <;> decide

/-- The first node became the leader and has not ticked for the ten seconds of its lease; the
second has taken over.  Both can advance the epoch. -/
theorem stale_leader_advances :
    let s := twoNodes.run [.tick false, .pass 10, .tick true]
    MayAdvance s false ∧ MayAdvance s true ∧ twoNodes.Leads s true ∧ ¬ twoNodes.Leads s false := by
  intro s
  have led₂ := led_run twoNodes_apart [Event.tick false, .pass 10]
  have led : Led twoNodes s _ := led_run twoNodes_apart [Event.tick false, .pass 10, .tick true]
  have first : (s.managers false).isLeader = true :=
    ((led_initial twoNodes).tick twoNodes_apart false).2 (by decide) rfl
  -- the leader key went with the lease of the first node, and the second has had none
  have free : (twoNodes.run [Event.tick false, .pass 10]).etcd.kv.lookup twoNodes.leaderKey = none := by
    rcases found : (twoNodes.run [Event.tick false, .pass 10]).etcd.kv.lookup twoNodes.leaderKey with
      _ | entry
    · rfl
    · obtain ⟨i, rfl, alive⟩ := led₂.leader entry found
      have leads : twoNodes.Leads (twoNodes.run [Event.tick false, .pass 10]) i := by
        rw [Nodes.Leads, FakeEtcd.get, led₂.settled.purgeExpired, found]
        rfl
      have late := led₂.prompt_of_leads leads
      cases i <;> exact absurd late (by decide)
  have second : (s.managers true).isLeader = true :=
    (led₂.tick twoNodes_apart true).2 (by decide) free
  have leads := led.leads_of_prompt second (by decide)
  refine ⟨(led.mayAdvance_iff false).2 first, (led.mayAdvance_iff true).2 second, leads, ?_⟩
  exact fun other => absurd (leads.unique other) (by decide)

end Runs

end OpaqueDb.Cluster
