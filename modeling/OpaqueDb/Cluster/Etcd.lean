/-
# Cluster.Etcd -- the key-value store of the cluster

`EtcdCall` is the narrow client interface, and `FakeEtcd` its in-memory store with a clock
of its own: a lease runs out when the clock reaches its time, and takes its keys with it.
Most calls drop what has run out before they look; `leaseGrant` and `leaseRevoke` do not.

A store is `Settled` when nothing is left to drop and every leased key has its lease.  Leases,
keys and the clock keep that (`Settled.lease`, `Settled.store`, `Settled.advanceTime`).
-/
import OpaqueDb.Core.Text
import OpaqueDb.Theory.Maps
import OpaqueDb.Theory.Programs

namespace OpaqueDb.Cluster

open OpaqueDb.Core Theory Finmap Option

set_option autoImplicit false

/-! ## The client interface -/

/-- Zero stands for no lease. -/
abbrev LeaseId := Nat

structure KeyValue where
  key : Bytes
  value : Bytes
  deriving DecidableEq

inductive EtcdCall where
  | leaseGrant (ttlSeconds : Int)
  | leaseKeepAlive (lease : LeaseId)
  | leaseRevoke (lease : LeaseId)
  | put (key value : Bytes) (lease : LeaseId)
  | get (key : Bytes)
  | getPrefix (start : Bytes)
  | createIfAbsent (key value : Bytes) (lease : LeaseId)

abbrev EtcdCall.Value : EtcdCall → Type
  | .leaseGrant _ => LeaseId
  | .get _ => Option Bytes
  | .getPrefix _ => List KeyValue
  | .createIfAbsent .. => Bool
  | _ => Unit

abbrev EtcdCall.Answer (op : EtcdCall) : Type :=
  StatusOr op.Value

abbrev EtcdIO := Prog EtcdCall EtcdCall.Answer

/-! ## The in-memory store -/

structure Lease where
  ttlSeconds : Int
  expiresAt : Int
  deriving DecidableEq

structure Entry where
  value : Bytes
  lease : LeaseId
  deriving DecidableEq

structure FakeEtcd where
  now : Int := 0
  nextLease : LeaseId := 1
  leases : Finmap fun _ : LeaseId => Lease := ∅
  kv : Finmap fun _ : Bytes => Entry := ∅

namespace FakeEtcd

variable (e : FakeEtcd)

/-- The lease is there and its time has come. -/
def expired (lease : LeaseId) : Bool :=
  (e.leases.lookup lease).any fun found => found.expiresAt ≤ e.now

def purgeExpired : FakeEtcd where
  now := e.now
  nextLease := e.nextLease
  leases := keep (fun lease _ => !e.expired lease) e.leases
  kv := keep (fun _ entry => !e.expired entry.lease) e.kv

def leaseExpired (lease : LeaseId) : Status :=
  ⟨.notFound, strCat ["lease ", dec lease, " expired"]⟩

def leaseGrant (ttlSeconds : Int) : StatusOr LeaseId × FakeEtcd :=
  if ttlSeconds ≤ 0 then (.error (invalidArgument ["lease ttl must be positive"]), e)
  else (.ok e.nextLease, { e with
    nextLease := e.nextLease + 1
    leases := e.leases.insert e.nextLease ⟨ttlSeconds, e.now + ttlSeconds⟩ })

def leaseKeepAlive (lease : LeaseId) : StatusOr Unit × FakeEtcd :=
  let e := e.purgeExpired
  match e.leases.lookup lease with
  | none => (.error (leaseExpired lease), e)
  | some found => (.ok (), { e with
      leases := e.leases.insert lease { found with expiresAt := e.now + found.ttlSeconds } })

def leaseRevoke (lease : LeaseId) : StatusOr Unit × FakeEtcd :=
  (.ok (), { e with
    leases := e.leases.erase lease
    kv := keep (fun _ entry => entry.lease != lease) e.kv })

/-- A lease a key may be written under. -/
def usable (lease : LeaseId) : Bool :=
  lease == 0 || (e.leases.lookup lease).isSome

variable (key : Bytes)

/-- `kv_[key] = entry`. -/
def store (entry : Entry) : FakeEtcd :=
  { e with kv := e.kv.insert key entry }

variable (value : Bytes)

def put (lease : LeaseId) : StatusOr Unit × FakeEtcd :=
  let e := e.purgeExpired
  if e.usable lease then (.ok (), e.store key ⟨value, lease⟩)
  else (.error (leaseExpired lease), e)

def get : StatusOr (Option Bytes) × FakeEtcd :=
  let e := e.purgeExpired
  (.ok ((e.kv.lookup key).map Entry.value), e)

variable (start : Bytes)

def getPrefix : StatusOr (List KeyValue) × FakeEtcd :=
  let e := e.purgeExpired
  (.ok (((listing e.kv).filter fun entry => start.isPrefixOf entry.1).map fun entry =>
    ⟨entry.1, entry.2.value⟩), e)

def createIfAbsent (lease : LeaseId) : StatusOr Bool × FakeEtcd :=
  let e := e.purgeExpired
  if (e.kv.lookup key).isSome then (.ok false, e)
  else if e.usable lease then (.ok true, e.store key ⟨value, lease⟩)
  else (.error (leaseExpired lease), e)

variable (seconds : Nat)

def advanceTime : FakeEtcd :=
  purgeExpired { e with now := e.now + seconds }

def exec (op : EtcdCall) (e : FakeEtcd) : op.Answer × FakeEtcd :=
  match op with
  | .leaseGrant ttlSeconds => e.leaseGrant ttlSeconds
  | .leaseKeepAlive lease => e.leaseKeepAlive lease
  | .leaseRevoke lease => e.leaseRevoke lease
  | .put key value lease => e.put key value lease
  | .get key => e.get key
  | .getPrefix start => e.getPrefix start
  | .createIfAbsent key value lease => e.createIfAbsent key value lease

/-! ## Settled stores -/

/-- The lease is held by somebody. -/
def Alive (lease : LeaseId) : Prop :=
  (e.leases.lookup lease).isSome

instance (lease : LeaseId) : Decidable (e.Alive lease) :=
  inferInstanceAs (Decidable ((e.leases.lookup lease).isSome = true))

structure Settled : Prop where
  /-- No lease has run out. -/
  unexpired : ∀ lease found, e.leases.lookup lease = some found → e.now < found.expiresAt
  /-- A lease is renewed by a positive time. -/
  positive : ∀ lease found, e.leases.lookup lease = some found → 0 < found.ttlSeconds
  /-- Leases are numbered from one. -/
  numbered : ∀ lease, e.Alive lease → 0 < lease ∧ lease < e.nextLease
  started : 0 < e.nextLease
  /-- A key goes with its lease. -/
  leased : ∀ key entry, e.kv.lookup key = some entry → entry.lease = 0 ∨ e.Alive entry.lease

variable {e}

theorem settled_empty : Settled {} where
  unexpired _ _ found := by cases found
  positive _ _ found := by cases found
  numbered _ alive := by cases alive
  started := Nat.one_pos
  leased _ _ found := by cases found

theorem Settled.not_expired (settled : e.Settled) (lease : LeaseId) : e.expired lease = false := by
  rw [expired]
  rcases known : e.leases.lookup lease with _ | found
  · rfl
  · simpa using settled.unexpired lease found known

/-- Nothing is dropped from a settled store. -/
theorem Settled.purgeExpired (settled : e.Settled) : e.purgeExpired = e := by
  have passes : ∀ lease, (!e.expired lease) = true := fun lease => by simp [settled.not_expired]
  rw [FakeEtcd.purgeExpired, keep_of_all fun lease _ _ => passes lease,
    keep_of_all fun _ entry _ => passes entry.lease]

theorem Settled.not_alive_zero (settled : e.Settled) : ¬ e.Alive 0 :=
  fun alive => absurd (settled.numbered 0 alive).1 (lt_irrefl 0)

theorem alive_insert {lease lease' : LeaseId} {found : Lease} {m : Finmap fun _ : LeaseId => Lease} :
    ((m.insert lease found).lookup lease').isSome ↔ lease' = lease ∨ (m.lookup lease').isSome := by
  rw [lookup_isSome, lookup_isSome, mem_insert]

/-- A new or a renewed lease. -/
theorem Settled.lease (settled : e.Settled) {lease : LeaseId} {ttl : Int} {next : LeaseId}
    (positive : 0 < ttl) (known : 0 < lease ∧ lease < next) (later : e.nextLease ≤ next) :
    Settled { e with nextLease := next, leases := e.leases.insert lease ⟨ttl, e.now + ttl⟩ } where
  unexpired other found there := by
    by_cases same : other = lease
    · subst same
      cases (lookup_insert _).symm.trans there
      exact Int.lt_add_of_pos_right _ positive
    · exact settled.unexpired other found ((lookup_insert_of_ne _ same).symm.trans there)
  positive other found there := by
    by_cases same : other = lease
    · subst same
      cases (lookup_insert _).symm.trans there
      exact positive
    · exact settled.positive other found ((lookup_insert_of_ne _ same).symm.trans there)
  numbered other alive := by
    rcases alive_insert.1 alive with rfl | alive
    · exact known
    · exact ⟨(settled.numbered other alive).1, (settled.numbered other alive).2.trans_le later⟩
  started := settled.started.trans_le later
  leased key entry there := (settled.leased key entry there).imp_right fun alive =>
    alive_insert.2 (Or.inr alive)

/-- A key written under a lease that is held, or under none. -/
theorem Settled.store (settled : e.Settled) {key value : Bytes} {lease : LeaseId}
    (usable : lease = 0 ∨ e.Alive lease) : (e.store key ⟨value, lease⟩).Settled where
  unexpired := settled.unexpired
  positive := settled.positive
  numbered := settled.numbered
  started := settled.started
  leased other entry there := by
    by_cases same : other = key
    · subst same
      cases (lookup_insert _).symm.trans there
      exact usable
    · exact settled.leased other entry ((lookup_insert_of_ne _ same).symm.trans there)

/-! ### The calls on a settled store -/

theorem usable_iff {lease : LeaseId} : e.usable lease = true ↔ lease = 0 ∨ e.Alive lease := by
  rw [usable, Bool.or_eq_true, beq_iff_eq, Alive]

variable (settled : e.Settled)
include settled

theorem Settled.exec_put {lease : LeaseId} (usable : lease = 0 ∨ e.Alive lease) :
    exec (.put key value lease) e = (.ok (), e.store key ⟨value, lease⟩) := by
  simp only [exec, put, settled.purgeExpired]
  rw [if_pos (usable_iff.2 usable)]

theorem Settled.exec_get : exec (.get key) e = (.ok ((e.kv.lookup key).map Entry.value), e) := by
  simp only [exec, get, settled.purgeExpired]

theorem Settled.exec_getPrefix : exec (.getPrefix start) e =
    (.ok (((listing e.kv).filter fun entry => start.isPrefixOf entry.1).map fun entry =>
      ⟨entry.1, entry.2.value⟩), e) := by
  simp [exec, getPrefix, settled.purgeExpired]

theorem Settled.exec_createIfAbsent {key : Bytes} {lease : LeaseId} (free : e.kv.lookup key = none)
    (usable : lease = 0 ∨ e.Alive lease) :
    exec (.createIfAbsent key value lease) e = (.ok true, e.store key ⟨value, lease⟩) := by
  simp only [exec, createIfAbsent, settled.purgeExpired, free]
  rw [if_neg (by simp), if_pos (usable_iff.2 usable)]

theorem Settled.leaseRevoke (lease : LeaseId) : (e.leaseRevoke lease).2.Settled := by
  have kept : ∀ other found, (e.leaseRevoke lease).2.leases.lookup other = some found →
      e.leases.lookup other = some found := by
    intro other found there
    by_cases same : other = lease
    · subst same
      cases (lookup_erase _ _).symm.trans there
    · exact (lookup_erase_ne same).symm.trans there
  refine ⟨fun other found there => settled.unexpired other found (kept other found there),
    fun other found there => settled.positive other found (kept other found there),
    fun other alive => ?_, settled.started, fun key entry there => ?_⟩
  · obtain ⟨found, there⟩ := isSome_iff_exists.1 alive
    exact settled.numbered other (isSome_iff_exists.2 ⟨found, kept other found there⟩)
  · obtain ⟨known, passed⟩ := filter_eq_some_iff.1 ((lookup_keep _ _ _).symm.trans there)
    refine (settled.leased key entry known).imp_right fun alive => ?_
    have other : entry.lease ≠ lease := by simpa using passed
    rw [Alive, FakeEtcd.leaseRevoke, lookup_erase_ne other]
    exact alive

theorem Settled.advanceTime : (e.advanceTime seconds).Settled := by
  have kept : ∀ lease found, (e.advanceTime seconds).leases.lookup lease = some found →
      e.leases.lookup lease = some found ∧ e.now + seconds < found.expiresAt := by
    intro lease found there
    obtain ⟨known, passed⟩ := filter_eq_some_iff.1 ((lookup_keep _ _ _).symm.trans there)
    simpa [expired, known] using passed
  refine ⟨fun lease found there => (kept lease found there).2,
    fun lease found there => settled.positive lease found (kept lease found there).1,
    fun lease alive => ?_, settled.started, fun key entry there => ?_⟩
  · obtain ⟨found, there⟩ := isSome_iff_exists.1 alive
    refine settled.numbered lease ?_
    rw [Alive, (kept lease found there).1]
    rfl
  · obtain ⟨known, passed⟩ := filter_eq_some_iff.1 ((lookup_keep _ _ _).symm.trans there)
    refine (settled.leased key entry known).imp_right fun alive => ?_
    rw [Alive, FakeEtcd.advanceTime, FakeEtcd.purgeExpired]
    obtain ⟨found, known⟩ := isSome_iff_exists.1 alive
    simpa [known] using passed

end FakeEtcd

end OpaqueDb.Cluster
