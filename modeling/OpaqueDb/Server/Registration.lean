/-
# Server.Registration -- what a failed registration leaves behind

`Register` claims the client id, stores the keys on this node and then forwards them to the
peers, one after the other.  A failure ends the call where it is, and nothing is taken back:
the claim stays when the keys do not load, and the keys stay where they have arrived when a
peer fails.

A peer is a node of its own that answers the forwarded stream (`Peer.receive`); the transport
may also lose the stream after any chunk, or the answer.  `failed_register_traceless_iff` says
for every state and every behaviour of the peers whether a failure would be noticed.
-/
import OpaqueDb.Server.Ownership

namespace OpaqueDb.Server.Registration

open OpaqueDb.Core Config Crypto Theory Auth Server.QueryService
open Server.EvalCache (KeyMaterial)
open Server.Ownership

set_option autoImplicit false

/-! ## The peers -/

structure Peer (ctx : CryptoContext) where
  around : Surroundings ctx Unit
  requirePeerCert : Bool
  node : Node

/-- What becomes of one forwarded stream: it is answered, or it is lost after some of its chunks have
arrived, in a write or with an error of the transport at the end. -/
inductive Delivery where
  | answered (context : ServerContext)
  | lost (context : ServerContext) (received : Option Nat) (message : Option Bytes)

/-- The peers by address, and what becomes of the next streams. -/
structure Peers (ctx : CryptoContext) where
  peer : Bytes → Peer ctx
  deliveries : List Delivery

variable {ctx : CryptoContext}

/-- The peer's answer to the chunks that arrive. -/
def Peer.receive (peer : Peer ctx) (context : ServerContext) (chunks : List KeyChunk) :
    StatusOr Unit × Peer ctx :=
  let (result, world) :=
    (ShardService.registerKeys peer.around peer.requirePeerCert context chunks).eval ⟨peer.node, ()⟩
  (result.map fun _ => (), { peer with node := world.node })

/-- A lost stream ends at the peer like a finished one. -/
def Peers.forward (address : Bytes) (chunks : List KeyChunk) (peers : Peers ctx) :
    Forwarded × Peers ctx :=
  match peers.deliveries with
  | [] => (.broken, peers)
  | .answered context :: rest =>
    let (status, peer) := (peers.peer address).receive context chunks
    (.finished status, ⟨Function.update peers.peer address peer, rest⟩)
  | .lost context received message :: rest =>
    let peer := match received with
      | none => peers.peer address
      | some n => ((peers.peer address).receive context (chunks.take n)).2
    (match message with
      | none => .broken
      | some message => .finished (.error ⟨.unavailable, message⟩),
      ⟨Function.update peers.peer address peer, rest⟩)

/-- The stored keys of every peer. -/
def Peers.keys (peers : Peers ctx) (address : Bytes) : Finmap fun _ : Bytes => KeyMaterial :=
  (peers.peer address).node.keyring

/-- Surroundings in which the peers answer for themselves. -/
def reaching (around : Surroundings ctx (Peers ctx)) : Surroundings ctx (Peers ctx) :=
  { around with forward := Peers.forward }

/-! ## What arrives -/

instance {P : Type} (around : Surroundings ctx P) (keys : KeyMaterial) :
    Decidable (TakesKeys around keys) :=
  inferInstanceAs (Decidable (_ ∧ _))

/-- What a peer stores of the chunks that reach it: it lets the caller in, the chunks make up the
keys of a client, and it takes them.  What it holds already does not matter. -/
def Peer.stores (peer : Peer ctx) (context : ServerContext) (chunks : List KeyChunk) :
    Option (Bytes × KeyMaterial) :=
  match ShardService.authorizePeer peer.requirePeerCert context,
    collectKeys (bytes "key upload") chunks with
  | .ok (), .ok found => if TakesKeys peer.around found.2 then some found else none
  | _, _ => none

/-- The peer with what it has stored. -/
def Peer.keep (peer : Peer ctx) : Option (Bytes × KeyMaterial) → Peer ctx
  | none => peer
  | some (clientId, keys) =>
    { peer with node := { peer.node with keyring := peer.node.keyring.insert clientId keys } }

theorem Peer.receive_eq (peer : Peer ctx) (context : ServerContext) (chunks : List KeyChunk) :
    (peer.receive context chunks).1.isOk = (peer.stores context chunks).isSome ∧
      (peer.receive context chunks).2 = peer.keep (peer.stores context chunks) := by
  rw [Peer.receive, ShardService.registerKeys, Peer.stores]
  rcases ShardService.authorizePeer peer.requirePeerCert context with status | _
  · exact ⟨rfl, rfl⟩
  rcases collected : collectKeys (bytes "key upload") chunks with status | ⟨clientId, keys⟩
  · exact ⟨rfl, rfl⟩
  by_cases takes : TakesKeys peer.around keys
  · have run : (registerClient peer.around clientId keys >>= fun _ => pure clientId).eval
      (⟨peer.node, ()⟩ : NodeWorld Unit) = _ :=
      Call.eval_bind_ok (registerClient_eval (collectKeys_named collected) takes _) _
    simp only [if_pos takes]
    exact ⟨congrArg (fun run => (run.1.map fun _ => ()).isOk) run,
      congrArg (fun run => { peer with node := run.2.node }) run⟩
  · obtain ⟨status, refused⟩ := registerClient_refuses (collectKeys_named collected) takes
      (⟨peer.node, ()⟩ : NodeWorld Unit)
    have run : (registerClient peer.around clientId keys >>= fun _ => pure clientId).eval
      (⟨peer.node, ()⟩ : NodeWorld Unit) = _ := Call.eval_bind_error refused _
    simp only [if_neg takes]
    exact ⟨congrArg (fun run => (run.1.map fun _ => ()).isOk) run,
      congrArg (fun run => { peer with node := run.2.node }) run⟩

/-- Whether a forwarded stream passes, and what it leaves at a peer that stores like this. -/
def Delivery.leaves (stores : ServerContext → List KeyChunk → Option (Bytes × KeyMaterial))
    (stream : List KeyChunk) : Delivery → Bool × Option (Bytes × KeyMaterial)
  | .answered context => ((stores context stream).isSome, stores context stream)
  | .lost context received _ => (false, received.bind fun n => stores context (stream.take n))

/-- Keys under a client, and the address they are stored at. -/
abbrev Placed : Type := Bytes × Bytes × KeyMaterial

def placedAt (address : Bytes) (kept : Option (Bytes × KeyMaterial)) : List Placed :=
  kept.toList.map (address, ·)

/-- Whether a stream reaches the end of a list of peers or fails on the way, and what is stored
until then. -/
def arrivals (peer : Bytes → Peer ctx) (stream : List KeyChunk) :
    List Bytes → List Delivery → Bool × List Placed
  | [], _ => (true, [])
  | _ :: _, [] => (false, [])
  | address :: rest, delivery :: later =>
    let (passed, kept) := delivery.leaves (peer address).stores stream
    if passed then
      let (all, others) := arrivals peer stream rest later
      (all, placedAt address kept ++ others)
    else (false, placedAt address kept)

/-- Keyrings with keys placed in one of them. -/
def place (keyrings : Bytes → Finmap fun _ : Bytes => KeyMaterial) :
    Placed → Bytes → Finmap fun _ : Bytes => KeyMaterial
  | (address, clientId, keys) =>
    Function.update keyrings address ((keyrings address).insert clientId keys)

/-- The peers hold what is placed: placing it one by one ends in the keyrings they have. -/
def Peers.Hold (peers : Peers ctx) (placed : List Placed) : Prop :=
  placed.foldl place peers.keys = peers.keys

section Forward

variable {delivery : Delivery} {later : List Delivery}

theorem forward_eq (peer : Bytes → Peer ctx) (address : Bytes) (stream : List KeyChunk) :
    ∃ forwarded, Peers.forward address stream ⟨peer, delivery :: later⟩ = (forwarded,
        ⟨Function.update peer address
          ((peer address).keep (delivery.leaves (peer address).stores stream).2), later⟩) ∧
      (forwarded = .finished (.ok ()) ↔ (delivery.leaves (peer address).stores stream).1 = true) := by
  let put : Peer ctx → Peers ctx := fun peer' => ⟨Function.update peer address peer', later⟩
  cases delivery with
  | answered context =>
    obtain ⟨passed, kept⟩ := (peer address).receive_eq context stream
    refine ⟨.finished ((peer address).receive context stream).1,
      congrArg (Forwarded.finished _, put ·) kept, ?_⟩
    show _ ↔ ((peer address).stores context stream).isSome = true
    rw [← passed]
    rcases ((peer address).receive context stream).1 with status | _ <;> simp [Except.isOk, Except.toBool]
  | lost context received message =>
    refine ⟨_, Prod.ext rfl ?_, by cases message <;> simp [Delivery.leaves, Peers.forward]⟩
    cases received with
    | none => rfl
    | some n => exact congrArg put ((peer address).receive_eq context (stream.take n)).2

/-- What is kept is placed at its address. -/
theorem keys_keep (peer : Bytes → Peer ctx) (address : Bytes) (kept : Option (Bytes × KeyMaterial))
    (deliveries : List Delivery) :
    (⟨Function.update peer address ((peer address).keep kept), later⟩ : Peers ctx).keys =
      (placedAt address kept).foldl place (⟨peer, deliveries⟩ : Peers ctx).keys := by
  funext other
  rcases kept with _ | ⟨clientId, keys⟩
  · simp [Peers.keys, Peer.keep, placedAt]
  by_cases here : other = address
  · subst here
    simp [Peers.keys, Peer.keep, placedAt, place]
  · simp [Peers.keys, placedAt, place, Function.update_of_ne here]

/-- What arrives does not depend on what is there. -/
theorem arrivals_keep (peer : Bytes → Peer ctx) (address : Bytes)
    (kept : Option (Bytes × KeyMaterial)) (stream : List KeyChunk) (addresses : List Bytes)
    (deliveries : List Delivery) :
    arrivals (Function.update peer address ((peer address).keep kept)) stream addresses deliveries =
      arrivals peer stream addresses deliveries := by
  have same : ∀ other, (Function.update peer address ((peer address).keep kept) other).stores =
      (peer other).stores := by
    intro other
    by_cases here : other = address
    · subst here
      rw [Function.update_self]
      rcases kept with _ | _ <;> rfl
    · rw [Function.update_of_ne here]
  induction addresses generalizing deliveries with
  | nil => rfl
  | cons first rest ih =>
    cases deliveries with
    | nil => rfl
    | cons delivery later => simp only [arrivals, same, ih]

end Forward

/-! ## The parts of the call -/

variable {peers' : Peers ctx}

section Parts

variable (around : Surroundings ctx (Peers ctx)) (node : Node)

theorem forwardTo_eval {address clientId : Bytes} {keys : KeyMaterial} {peers : Peers ctx}
    {forwarded : Forwarded}
    (sent : peers.forward address (keyStream clientId keys) = (forwarded, peers')) :
    ∃ result, (forwardTo (reaching around) address clientId keys).eval ⟨node, peers⟩ =
        (result, ⟨node, peers'⟩) ∧ (result = .ok () ↔ forwarded = .finished (.ok ())) := by
  rw [forwardTo, Call.eval_step, reaching]
  simp only [sent]
  rcases forwarded with _ | _ | _ <;> exact ⟨_, rfl, by simp⟩

/-- **The keys go along the peers as `arrivals` says**, and stay where they arrive. -/
theorem distribute_eval {clientId : Bytes} {keys : KeyMaterial} (addresses : List Bytes)
    (peers : Peers ctx) :
    ∃ result peers', (distribute (reaching around) clientId keys addresses).eval ⟨node, peers⟩ =
        (result, ⟨node, peers'⟩) ∧
      result.isOk = (arrivals peers.peer (keyStream clientId keys) addresses peers.deliveries).1 ∧
      peers'.keys = (arrivals peers.peer (keyStream clientId keys) addresses
        peers.deliveries).2.foldl place peers.keys := by
  induction addresses generalizing peers with
  | nil => exact ⟨.ok (), peers, rfl, rfl, rfl⟩
  | cons address rest ih =>
    rcases peers with ⟨peer, _ | ⟨delivery, later⟩⟩
    · have sent : Peers.forward address (keyStream clientId keys) ⟨peer, []⟩ = (.broken, ⟨peer, []⟩) :=
        rfl
      obtain ⟨status | _, run, passes⟩ := forwardTo_eval around node sent
      · exact ⟨.error status, _, Call.eval_bind_error run _, rfl, rfl⟩
      · cases passes.1 rfl
    obtain ⟨forwarded, sent, passes⟩ := @forward_eq ctx delivery later peer address
      (keyStream clientId keys)
    rcases left : delivery.leaves (peer address).stores (keyStream clientId keys) with ⟨passed, kept⟩
    rw [left] at sent passes
    have held := @keys_keep ctx later peer address kept (delivery :: later)
    obtain ⟨status | _, run, done⟩ := forwardTo_eval around node sent
    · obtain rfl : passed = false := Bool.eq_false_iff.2 fun ok => by cases done.2 (passes.2 ok)
      refine ⟨.error status, _, Call.eval_bind_error run _, ?_, ?_⟩
      · simp only [arrivals, left]
        rfl
      · simp only [held, arrivals, left, Bool.false_eq_true, if_false]
    · obtain rfl : passed = true := passes.1 (done.1 rfl)
      obtain ⟨result, peers', rest, all, found⟩ :=
        ih ⟨Function.update peer address ((peer address).keep kept), later⟩
      rw [arrivals_keep] at all found
      refine ⟨result, peers', (Call.eval_bind_ok run _).trans rest, ?_, ?_⟩
      · simp only [arrivals, left, if_true, all]
      · simp only [found, held, arrivals, left, if_true, List.foldl_append]

end Parts

/-! ## What stays of a failed call -/

/-- Owners and keys are as before. -/
structure Unmarked (before after : NodeWorld (Peers ctx)) : Prop where
  owners : after.node.clientOwner = before.node.clientOwner
  keys : after.node.keyring = before.node.keyring
  peers : after.peers.keys = before.peers.keys

section Traceless

variable (around : Surroundings ctx (Peers ctx)) (world : NodeWorld (Peers ctx))

/-- If the registration fails, nothing has changed. -/
def Traceless (context : ServerContext) (chunks : List KeyChunk) : Prop :=
  ∀ status after, (register (reaching around) context chunks).eval world =
    (.error status, after) → Unmarked world after

/-- What the forwarded keys of a client would come to at the peers. -/
def arriving (clientId : Bytes) (keys : KeyMaterial) : Bool × List Placed :=
  arrivals world.peers.peer (keyStream clientId keys) around.peers world.peers.deliveries

/-- The client is somebody else's; or its keys are taken here and by every peer; or it is the
principal's already, and the keys that would arrive before a failure are held already. -/
def Safe (principal : Principal) (clientId : Bytes) (keys : KeyMaterial) : Prop :=
  (∃ owner, world.node.clientOwner.lookup clientId = some owner ∧ owner ≠ principal.id) ∨
  (TakesKeys around keys ∧ (arriving around world clientId keys).1 = true) ∨
  (world.node.clientOwner.lookup clientId = some principal.id ∧ (TakesKeys around keys →
    world.node.keyring.lookup clientId = some keys ∧
      world.peers.Hold (arriving around world clientId keys).2))

variable {around world} {context : ServerContext} {chunks : List KeyChunk} {principal : Principal}
  {clientId : Bytes} {keys : KeyMaterial}

theorem claimed_unmarked :
    Unmarked world (claimed (counted around world context) principal clientId) ↔
      world.node.clientOwner.lookup clientId ≠ none := by
  have owners := claimed_owners (counted around world context) principal clientId
  constructor
  · exact fun unmarked => owners.1 unmarked.owners
  · intro known
    exact ⟨owners.2 known, claimed_keyring, congrArg Peers.keys claimed_peers⟩

theorem stored_unmarked :
    Unmarked world (stored (counted around world context) principal clientId keys peers') ↔
      world.node.clientOwner.lookup clientId ≠ none ∧
        world.node.keyring.lookup clientId = some keys ∧ peers'.keys = world.peers.keys := by
  have owners := claimed_owners (counted around world context) principal clientId
  constructor
  · intro unmarked
    refine ⟨owners.1 unmarked.owners, ?_, unmarked.peers⟩
    have same : world.node.keyring.insert clientId keys = world.node.keyring := unmarked.keys
    rw [← same, Finmap.lookup_insert]
  · rintro ⟨known, held, peers⟩
    refine ⟨owners.2 known, ?_, peers⟩
    refine Finmap.ext_lookup fun id => ?_
    by_cases here : id = clientId
    · rw [here, held]
      exact Finmap.lookup_insert _
    · exact Finmap.lookup_insert_of_ne _ here

theorem traceless_of_counted {status : Status}
    (run : (register (reaching around) context chunks).eval world =
      (.error status, counted around world context)) : Traceless around world context chunks := by
  intro status' after failed
  rw [run] at failed
  cases failed
  exact ⟨rfl, rfl, rfl⟩

section Admitted

variable (admitted : Admitted (reaching around) world context principal)
  (collected : collectKeys (bytes "register") chunks = .ok (clientId, keys))
include admitted collected

variable (mine : Claimable world principal clientId)
include mine

theorem register_spreads (takes : TakesKeys around keys) :
    ∃ result peers', (register (reaching around) context chunks).eval world =
        (result, stored (counted around world context) principal clientId keys peers') ∧
      result.isOk = (arriving around world clientId keys).1 ∧
      (peers'.keys = world.peers.keys ↔
        world.peers.Hold (arriving around world clientId keys).2) := by
  rw [register_stores admitted collected mine takes]
  obtain ⟨result, peers', run, done, found⟩ := distribute_eval around
    (stored (counted around world context) principal clientId keys world.peers).node
    around.peers world.peers
  have same : peers'.keys = world.peers.keys ↔
      world.peers.Hold (arriving around world clientId keys).2 := by
    rw [found]
    rfl
  cases result with
  | error status => exact ⟨.error status, peers', Call.eval_bind_error run _, done, same⟩
  | ok u => exact ⟨.ok clientId, peers', Call.eval_bind_ok run _, done, same⟩

/-- Once the client is claimed, a failure goes unnoticed only where nothing was new. -/
theorem traceless_claimable_iff : Traceless around world context chunks ↔
      (TakesKeys around keys ∧ (arriving around world clientId keys).1 = true) ∨
      (world.node.clientOwner.lookup clientId ≠ none ∧ (TakesKeys around keys →
        world.node.keyring.lookup clientId = some keys ∧
          world.peers.Hold (arriving around world clientId keys).2)) := by
  by_cases takes : TakesKeys around keys
  · obtain ⟨result, peers', run, all, same⟩ := register_spreads admitted collected mine takes
    cases result with
    | ok id =>
      refine ⟨fun _ => .inl ⟨takes, all.symm⟩, fun _ status after failed => ?_⟩
      rw [run] at failed
      cases failed
    | error status =>
      have outcome : Traceless around world context chunks ↔
          Unmarked world (stored (counted around world context) principal clientId keys peers') := by
        refine ⟨fun traceless => traceless status _ run, fun unmarked status' after failed => ?_⟩
        rw [run] at failed
        cases failed
        exact unmarked
      rw [outcome, stored_unmarked, same, ← all]
      constructor
      · rintro ⟨known, held⟩
        exact .inr ⟨known, fun _ => held⟩
      · rintro (⟨_, passed⟩ | ⟨known, held⟩)
        · cases passed
        · exact ⟨known, held takes⟩
  · obtain ⟨status, run⟩ : ∃ status, (register (reaching around) context chunks).eval
        world = (.error status, claimed (counted around world context) principal clientId) :=
      register_refuses admitted collected mine takes
    constructor
    · intro traceless
      exact .inr ⟨claimed_unmarked.1 (traceless status _ run), fun accepted => absurd accepted takes⟩
    · rintro (⟨accepted, _⟩ | ⟨known, _⟩)
      · exact absurd accepted takes
      · intro status' after failed
        rw [run] at failed
        cases failed
        exact claimed_unmarked.2 known

end Admitted

/-- **A failed registration leaves no trace** exactly if it fails before the claim, or the client
is the principal's already and has the keys already wherever they arrive, or if nothing fails. -/
theorem failed_register_traceless_iff :
    Traceless around world context chunks ↔ ∀ principal clientId keys,
      Admitted around world context principal →
      collectKeys (bytes "register") chunks = .ok (clientId, keys) →
      Safe around world principal clientId keys := by
  cases gate : (world.node.gate.check (extractAuthInputs context) .query around.now).1 with
  | error refusal =>
    refine iff_of_true (traceless_of_counted (register_refused gate)) ?_
    intro principal clientId keys admitted
    cases admitted.symm.trans gate
  | ok principal =>
    have admitted : Admitted (reaching around) world context principal := gate
    cases collected : collectKeys (bytes "register") chunks with
    | error malformed =>
      refine iff_of_true (traceless_of_counted (register_malformed admitted collected)) ?_
      intro principal clientId keys _ found
      cases found
    | ok found =>
      obtain ⟨clientId, keys⟩ := found
      have one : (∀ principal' clientId' keys', Admitted around world context principal' →
          Except.ok (clientId, keys) = (Except.ok (clientId', keys') : StatusOr _) →
          Safe around world principal' clientId' keys') ↔
          Safe around world principal clientId keys := by
        refine ⟨fun safe => safe _ _ _ gate rfl, ?_⟩
        rintro safe principal' clientId' keys' admitted' same
        cases admitted'.symm.trans gate
        cases same
        exact safe
      rw [one, Safe]
      by_cases mine : Claimable world principal clientId
      · have known : world.node.clientOwner.lookup clientId ≠ none ↔
            world.node.clientOwner.lookup clientId = some principal.id := by
          rw [Option.ne_none_iff_exists']
          refine ⟨?_, fun owned => ⟨_, owned⟩⟩
          rintro ⟨owner, owned⟩
          rw [owned, mine owner owned]
        rw [traceless_claimable_iff admitted collected mine, known]
        refine (or_iff_right ?_).symm
        rintro ⟨owner, owned, other⟩
        exact other (mine owner owned)
      · simp only [Claimable, not_forall] at mine
        obtain ⟨owner, owned, other⟩ := mine
        exact iff_of_true (traceless_of_counted (register_owned admitted collected owned other))
          (.inl ⟨owner, owned, other⟩)

end Traceless

/-! ## A claim that stays -/

def noPeers : Peers Backend.defaultContext where
  peer _ := ⟨aloneSurroundings Unit, false, bareNode⟩
  deliveries := []

/-- Keys without a public key are refused, and the client stays with the principal that sent them:
the other one, who could have registered it before, is turned away. -/
theorem refused_keys_keep_claim :
    let world : NodeWorld (Peers Backend.defaultContext) := ⟨bareNode, noPeers⟩
    let register := fun token chunks => register (reaching (aloneSurroundings _))
      (bearing token) chunks
    let failed := (register (bytes "s1") [⟨1, bytes "c", .relinKeys, [1]⟩]).eval world
    failed.1 = .error (invalidArgument ["bad public key"]) ∧
      failed.2.node.clientOwner.lookup (bytes "c") = some (bytes "alice") ∧
      ((register (bytes "s2") (sampleChunks 2)).eval failed.2).1 = .error otherPrincipal ∧
      ((register (bytes "s2") (sampleChunks 2)).eval world).1 = .ok (bytes "c") := by
  decide +kernel

end OpaqueDb.Server.Registration
