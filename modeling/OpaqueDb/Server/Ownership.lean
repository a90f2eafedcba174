/-
# Server.Ownership -- the principal a client id belongs to

The first registration of a client id makes its principal the owner.  The owners are kept in
memory only, while the keys are on disk: after a restart the id is free again, and whoever
registers it next replaces the keys.

* `register_cases`: the ways a registration can go, and what each leaves.
* `owner_kept`: as long as the process lives, an owner stays.
* `client_stays_iff`: a client id stays with its owner exactly in the runs without a restart.
-/
import OpaqueDb.Server.Services

namespace OpaqueDb.Server.Ownership

open OpaqueDb.Core Config Crypto Theory Auth Server.QueryService Theory.Call Finmap
open Server.EvalCache (KeyMaterial KeyLoader)

set_option autoImplicit false

variable {ctx : CryptoContext} {P : Type} {around : Surroundings ctx P} {world : NodeWorld P}

/-! ## Registration, step by step -/

/-- The keys load and the disk takes them. -/
def TakesKeys (around : Surroundings ctx P) (keys : KeyMaterial) : Prop :=
  around.loader.loadKeyMaterial keys = .ok () ∧ around.putFault = none

theorem registerClient_eval {clientId : Bytes} (named : clientId ≠ []) {keys : KeyMaterial}
    (takes : TakesKeys around keys) (world : NodeWorld P) :
    (registerClient around clientId keys).eval world = (.ok (), { world with node :=
      { world.node with keyring := world.node.keyring.insert clientId keys } }) := by
  have some_ : ¬ clientId.isEmpty = true := by simpa using named
  simp only [registerClient, takes.1, if_neg some_]
  show (putKeys _ clientId keys).eval world = _
  simp only [putKeys, takes.2, if_neg some_, eval_step]

theorem registerClient_refuses {clientId : Bytes} (named : clientId ≠ []) {keys : KeyMaterial}
    (refuses : ¬ TakesKeys around keys) (world : NodeWorld P) :
    ∃ status, (registerClient around clientId keys).eval world = (.error status, world) := by
  have some_ : ¬ clientId.isEmpty = true := by simpa using named
  simp only [registerClient, if_neg some_]
  rcases loaded : around.loader.loadKeyMaterial keys with status | ⟨⟩
  · exact ⟨status, rfl⟩
  · rcases fault : around.putFault with _ | status
    · exact absurd ⟨loaded, fault⟩ refuses
    · refine ⟨status, (eval_bind_ok rfl _).trans ?_⟩
      simp only [putKeys, if_neg some_, eval_step, fault]

/-- Every chunk of a stream names its client. -/
theorem collectKeys_named {what : Bytes} {chunks : List KeyChunk} {clientId : Bytes}
    {keys : KeyMaterial} (collected : collectKeys what chunks = .ok (clientId, keys)) :
    clientId ≠ [] := by
  have loop : ∀ (rest : List KeyChunk) (seen found : Option (Bytes × KeyMaterial)),
      (∀ p, seen = some p → p.1 ≠ []) → rest.foldlM (readChunk what) seen = .ok found →
      ∀ p, found = some p → p.1 ≠ [] := by
    intro rest
    induction rest with
    | nil =>
      intro seen found named done
      obtain rfl := pure_eq_ok.1 done
      exact named
    | cons chunk rest ih =>
      intro seen found named done
      obtain ⟨next, read, done⟩ := bind_eq_ok.1 done
      refine ih next found (fun p same => ?_) done
      subst same
      obtain ⟨_, _, read⟩ := bind_eq_ok.1 read
      split at read
      · cases read
      · rename_i some_
        simp only at read
        split at read
        · cases read
        · rename_i agree
          split at read
          · cases read
          · obtain rfl := Option.some.inj (pure_eq_ok.1 read)
            have same := not_not.1 agree
            rw [← same]
            simpa using some_
  obtain ⟨found, read, taken⟩ := bind_eq_ok.1 collected
  cases found with
  | none => cases taken
  | some p =>
    obtain rfl := pure_eq_ok.1 taken
    exact loop chunks none _ (by simp) read _ rfl

/-- The principal that the gate lets through. -/
def Admitted (around : Surroundings ctx P) (world : NodeWorld P) (context : ServerContext)
    (principal : Principal) : Prop :=
  (world.node.gate.check (extractAuthInputs context) .query around.now).1 = .ok principal

variable {context : ServerContext} {chunks : List KeyChunk} {principal : Principal}
  {clientId : Bytes} {keys : KeyMaterial}

/-- The world after the gate has counted the request. -/
def counted (around : Surroundings ctx P) (world : NodeWorld P) (context : ServerContext) :
    NodeWorld P :=
  { world with node := { world.node with
    gate := (world.node.gate.check (extractAuthInputs context) .query around.now).2 } }

variable {status : Status}

/-- A refused caller changes no more than the gate's counters. -/
theorem register_refused
    (refused : (world.node.gate.check (extractAuthInputs context) .query around.now).1 =
      .error status) : (register around context chunks).eval world =
      (.error status, counted around world context) := by
  have gate : (checkGate around context .query).eval world =
      (.error status, counted around world context) := by
    rw [← refused]
    rfl
  rw [register, eval_bind_error gate]

theorem register_admitted (admitted : Admitted around world context principal) :
    (register around context chunks).eval world = eval (do
      let (clientId, keys) ← lift (collectKeys (bytes "register") chunks)
      checkClientOwnership clientId principal.id true
      registerClient around clientId keys
      distribute around clientId keys around.peers
      return clientId) (counted around world context) := by
  have gate : (checkGate around context .query).eval world =
      (.ok principal, counted around world context) := by
    rw [← admitted]
    rfl
  rw [register, eval_bind_ok gate]

/-- Nobody else owns the client. -/
def Claimable (world : NodeWorld P) (principal : Principal) (clientId : Bytes) : Prop :=
  ∀ owner, world.node.clientOwner.lookup clientId = some owner → owner = principal.id

/-- The world with the claim. -/
def claimed (world : NodeWorld P) (principal : Principal) (clientId : Bytes) : NodeWorld P :=
  if world.node.clientOwner.lookup clientId = none then { world with node := { world.node with
    clientOwner := world.node.clientOwner.insert clientId principal.id } } else world

theorem claimed_owners (world : NodeWorld P) (principal : Principal) (clientId : Bytes) :
    (claimed world principal clientId).node.clientOwner = world.node.clientOwner ↔
      world.node.clientOwner.lookup clientId ≠ none := by
  rw [claimed]
  split
  · rename_i new
    refine ⟨fun same => ?_, fun old => absurd new old⟩
    have found := lookup_insert (a := clientId) (b := principal.id) world.node.clientOwner
    replace same : world.node.clientOwner.insert clientId principal.id = world.node.clientOwner := same
    rw [same, new] at found
    cases found
  · rename_i old
    exact ⟨fun _ => old, fun _ => rfl⟩

theorem claimed_keyring : (claimed world principal clientId).node.keyring = world.node.keyring := by
  rw [claimed]
  split <;> rfl

theorem claimed_peers : (claimed world principal clientId).peers = world.peers := by
  rw [claimed]
  split <;> rfl

/-- The world with the claim, the keys here, and what has arrived at the peers. -/
def stored (world : NodeWorld P) (principal : Principal) (clientId : Bytes)
    (keys : KeyMaterial) (peers : P) : NodeWorld P where
  node := { (claimed world principal clientId).node with
    keyring := world.node.keyring.insert clientId keys }
  peers

theorem register_malformed (admitted : Admitted around world context principal)
    (malformed : collectKeys (bytes "register") chunks = .error status) :
    (register around context chunks).eval world =
      (.error status, counted around world context) := by
  rw [register_admitted admitted, malformed]
  rfl

variable {owner : Bytes}

section Admitted

variable (admitted : Admitted around world context principal)
  (collected : collectKeys (bytes "register") chunks = .ok (clientId, keys))
include admitted collected

theorem register_owned (owned : world.node.clientOwner.lookup clientId = some owner)
    (other : owner ≠ principal.id) : (register around context chunks).eval world =
      (.error otherPrincipal, counted around world context) := by
  have check : (checkClientOwnership clientId principal.id true).eval
      (counted around world context) =
        (.error otherPrincipal, counted around world context) := by
    have found : (counted around world context).node.clientOwner.lookup clientId = some owner := owned
    simp [checkClientOwnership, found, if_neg other]
  rw [register_admitted admitted, collected]
  exact eval_bind_error check _

variable (mine : Claimable world principal clientId)
include mine

theorem register_claims : (register around context chunks).eval world = eval (do
      registerClient around clientId keys
      distribute around clientId keys around.peers
      return clientId) (claimed (counted around world context) principal clientId) := by
  have check : (checkClientOwnership clientId principal.id true).eval
      (counted around world context) =
        (.ok (), claimed (counted around world context) principal clientId) := by
    rcases owned : (counted around world context).node.clientOwner.lookup clientId with _ | owner
    · simp [checkClientOwnership, owned, claimed]
    · simp only [checkClientOwnership, eval_step, owned, claimed, mine owner owned]
      rfl
  rw [register_admitted admitted, collected]
  exact eval_bind_ok check _

/-- Keys that do not load, or that the disk does not take, leave the claim. -/
theorem register_refuses (refuses : ¬ TakesKeys around keys) :
    ∃ status, (register around context chunks).eval world =
      (.error status, claimed (counted around world context) principal clientId) := by
  rw [register_claims admitted collected mine]
  obtain ⟨status, run⟩ := registerClient_refuses (collectKeys_named collected) refuses
    (claimed (counted around world context) principal clientId)
  exact ⟨status, eval_bind_error run _⟩

/-- Keys that load are stored here before they go to the peers. -/
theorem register_stores (takes : TakesKeys around keys) :
    (register around context chunks).eval world = eval (do
      distribute around clientId keys around.peers
      return clientId) (stored (counted around world context) principal clientId keys world.peers) := by
  rw [register_claims admitted collected mine]
  have put := registerClient_eval (collectKeys_named collected) takes
    (claimed (counted around world context) principal clientId)
  rw [claimed_keyring, claimed_peers] at put
  exact eval_bind_ok put _

end Admitted

theorem claimable_or_owned (world : NodeWorld P) (principal : Principal) (clientId : Bytes) :
    Claimable world principal clientId ∨ ∃ owner,
      world.node.clientOwner.lookup clientId = some owner ∧ owner ≠ principal.id := by
  by_cases mine : Claimable world principal clientId
  · exact .inl mine
  · simp only [Claimable, not_forall] at mine
    obtain ⟨owner, owned, other⟩ := mine
    exact .inr ⟨owner, owned, other⟩

theorem claimed_lookup (mine : Claimable world principal clientId) :
    (claimed world principal clientId).node.clientOwner.lookup clientId = some principal.id := by
  rw [claimed]
  split
  · exact lookup_insert _
  · rename_i old
    obtain ⟨owner, owned⟩ := Option.ne_none_iff_exists'.1 old
    rw [owned, mine owner owned]

theorem lookup_claimed {id : Bytes} (owned : world.node.clientOwner.lookup id = some owner) :
    (claimed world principal clientId).node.clientOwner.lookup id = some owner := by
  rw [claimed]
  split
  · rename_i new
    refine (lookup_insert_of_ne _ ?_).trans owned
    rintro rfl
    rw [new] at owned
    cases owned
  · exact owned

/-- The peers' part of a registration does not touch the node. -/
theorem distribute_keeps (around : Surroundings ctx P) (clientId : Bytes) (keys : KeyMaterial)
    (addresses : List Bytes) :
    Call.Keeps NodeWorld.node (distribute around clientId keys addresses) := by
  induction addresses with
  | nil => exact .pure ()
  | cons address rest ih => exact .bind (fun _ => rfl) fun _ => ih

/-- What a call does that has claimed the client for the principal. -/
structure Claims (world : NodeWorld P) (principal : Principal) (clientId : Bytes)
    (outcome : StatusOr Bytes × NodeWorld P) : Prop where
  mine : Claimable world principal clientId
  answer : ∀ id, outcome.1 = .ok id → id = clientId
  owners : outcome.2.node.clientOwner = (claimed world principal clientId).node.clientOwner
  others : ∀ id, id ≠ clientId →
    outcome.2.node.keyring.lookup id = world.node.keyring.lookup id

theorem claimed_counted :
    (claimed (counted around world context) principal clientId).node.clientOwner =
      (claimed world principal clientId).node.clientOwner := by
  rw [claimed, claimed]
  have same : (counted around world context).node.clientOwner = world.node.clientOwner := rfl
  rw [same]
  split <;> rfl

/-- **The ways a registration goes**: it is turned away with nothing but the gate's counters
changed, or it claims the client. -/
theorem register_cases (around : Surroundings ctx P) (world : NodeWorld P) (context : ServerContext)
    (chunks : List KeyChunk) :
    (∃ status, (register around context chunks).eval world =
      (.error status, counted around world context)) ∨
    ∃ principal clientId, Admitted around world context principal ∧
      Claims world principal clientId ((register around context chunks).eval world) := by
  cases gate : (world.node.gate.check (extractAuthInputs context) .query around.now).1 with
  | error refusal => exact .inl ⟨refusal, register_refused gate⟩
  | ok principal =>
    cases collected : collectKeys (bytes "register") chunks with
    | error malformed => exact .inl ⟨malformed, register_malformed gate collected⟩
    | ok found =>
      obtain ⟨clientId, keys⟩ := found
      rcases claimable_or_owned world principal clientId with mine | ⟨owner, owned, other⟩
      · refine .inr ⟨principal, clientId, gate, ?_⟩
        by_cases takes : TakesKeys around keys
        · rw [register_stores gate collected mine takes]
          have kept := Call.Keeps.bind (distribute_keeps around clientId keys around.peers)
            (fun _ => .pure clientId)
          refine ⟨mine, fun id answer => ?_, ?_, fun id differs => ?_⟩
          · obtain ⟨_, _, _, returned⟩ := eval_bind_inv answer
            rw [returned] at answer
            cases answer
            rfl
          · rw [kept]
            exact claimed_counted
          · rw [kept]
            exact lookup_insert_of_ne _ differs
        · obtain ⟨status, run⟩ := register_refuses gate collected mine takes
          rw [run]
          exact ⟨mine, fun id answer => (by cases answer), claimed_counted, fun id _ => by
            rw [claimed_keyring]
            rfl⟩
      · exact .inl ⟨_, register_owned gate collected owned other⟩

/-! ## Execution, step by step -/

/-- What a registration is about. -/
def registry (world : NodeWorld P) :
    (Finmap fun _ : Bytes => Bytes) × Finmap fun _ : Bytes => KeyMaterial :=
  (world.node.clientOwner, world.node.keyring)

theorem checkGate_keeps (around : Surroundings ctx P) (context : ServerContext) (role : Role) :
    Call.Keeps registry (checkGate around context role) :=
  fun _ => rfl

theorem evaluateShardHere_keeps (around : Surroundings ctx P) (query : ShardQuery ctx) :
    Call.Keeps registry (evaluateShardHere around query) := by
  exact fun _ => rfl

theorem combinePartialsHere_keeps (around : Surroundings ctx P) (clientId : Bytes)
    (shards : List (List (Ciphertext ctx))) :
    Call.Keeps registry (combinePartialsHere around clientId shards) :=
  .bind .current fun _ => .lift _

theorem checkClientOwnership_keeps (clientId principalId : Bytes) :
    Call.Keeps (registry (P := P)) (checkClientOwnership clientId principalId false) := by
  intro world
  simp only [checkClientOwnership, eval_step]
  split <;> rfl

/-- A query leaves the owners and the keys as they are. -/
theorem execute_keeps (around : Surroundings ctx P) (context : ServerContext)
    (request : QueryService.QueryRequest ctx) :
    Call.Keeps registry (QueryService.execute around context request) := by
  refine .bind (checkGate_keeps around context .query) fun principal => .bind (.lift _) fun _ =>
    .bind (checkClientOwnership_keeps _ _) fun _ => ?_
  split
  · exact .bind (evaluateShardHere_keeps _ _) fun _ => combinePartialsHere_keeps _ _ _
  · exact .bind (evaluateShardHere_keeps _ _) fun _ => .bind .current fun _ => .bind (.lift _)
      fun _ => combinePartialsHere_keeps _ _ _

/-- A query is answered only to the client's owner, or if there is none. -/
theorem execute_claimable {request : QueryService.QueryRequest ctx}
    {result : List (List (Ciphertext ctx))}
    (done : ((QueryService.execute around context request).eval world).1 = .ok result) :
    ∃ principal, Admitted around world context principal ∧
      Claimable world principal request.clientId := by
  unfold QueryService.execute at done
  obtain ⟨principal, after, gate, rest⟩ := eval_bind_inv done
  rw [rest] at done
  obtain ⟨_, after', version, rest⟩ := eval_bind_inv done
  rw [rest] at done
  obtain ⟨_, _, check, _⟩ := eval_bind_inv done
  have counts : after' = counted around world context := by
    have same : after = after' := congrArg Prod.snd version
    have gated : _ = after := congrArg Prod.snd gate
    rw [← same, ← gated]
    rfl
  refine ⟨principal, congrArg Prod.fst gate, fun owner owned => ?_⟩
  have found : after'.node.clientOwner.lookup request.clientId = some owner := by
    rw [counts]
    exact owned
  simp only [checkClientOwnership, eval_step, found] at check
  by_contra other
  rw [if_neg other] at check
  cases check

/-! ## Runs of a node -/

inductive Event (ctx : CryptoContext) (P : Type) where
  | register (around : Surroundings ctx P) (context : ServerContext) (chunks : List KeyChunk)
  | execute (around : Surroundings ctx P) (context : ServerContext)
      (request : QueryService.QueryRequest ctx)
  | restart (gate : RequestGate)

/-- The world after the event. -/
def step (world : NodeWorld P) : Event ctx P → NodeWorld P
  | .register around context chunks => ((register around context chunks).eval world).2
  | .execute around context request => ((QueryService.execute around context request).eval world).2
  | .restart gate => { world with node := world.node.restart gate }

def run (world : NodeWorld P) (events : List (Event ctx P)) : NodeWorld P :=
  events.foldl step world

/-- The principal that calls. -/
def caller (world : NodeWorld P) : Event ctx P → Option Principal
  | .register _ context _ | .execute _ context _ =>
    (authorize world.node.gate.authenticator (extractAuthInputs context) .query).toOption
  | .restart _ => none

/-- The client of a call that returns OK. -/
def served (world : NodeWorld P) : Event ctx P → Option Bytes
  | .register around context chunks =>
    ((register around context chunks).eval world).1.toOption
  | .execute around context request =>
    ((QueryService.execute around context request).eval world).1.toOption.map
      fun _ => request.clientId
  | .restart _ => none

def Event.isRestart : Event ctx P → Bool
  | .restart _ => true
  | _ => false

/-- How often the process starts again. -/
def restarts (events : List (Event ctx P)) : Nat :=
  events.countP Event.isRestart

/-- After a registration of `c` for `p` that returned OK, no call of another principal for `c`
returns OK, and none changes the keys of `c`. -/
def Stays (world : NodeWorld P) (events : List (Event ctx P)) : Prop :=
  ∀ before around context chunks middle event later p q c,
    events = before ++ .register around context chunks :: (middle ++ event :: later) →
    caller (run world before) (.register around context chunks) = some p →
    served (run world before) (.register around context chunks) = some c →
    caller (run world (before ++ .register around context chunks :: middle)) event = some q →
    q.id ≠ p.id →
    served (run world (before ++ .register around context chunks :: middle)) event ≠ some c ∧
      (step (run world (before ++ .register around context chunks :: middle)) event).node.keyring.lookup
          c =
        (run world (before ++ .register around context chunks :: middle)).node.keyring.lookup c

/-! ## While the process lives -/

theorem ok_of_toOption {α : Type} {result : StatusOr α} {a : α} (is : result.toOption = some a) :
    result = .ok a := by
  cases result with
  | error status => cases is
  | ok b =>
    cases is
    rfl

theorem caller_of_admitted (admitted : Admitted around world context principal) :
    (authorize world.node.gate.authenticator (extractAuthInputs context) .query).toOption =
      some principal := by
  rw [RequestGate.authorize_of_check admitted]
  rfl

variable {c : Bytes}

/-- The registration that returned OK has made its principal the owner. -/
theorem owner_of_served {p : Principal}
    (calls : caller world (.register around context chunks) = some p)
    (returns : served world (.register around context chunks) = some c) :
    (step world (.register around context chunks)).node.clientOwner.lookup c = some p.id := by
  have done := ok_of_toOption returns
  rcases register_cases around world context chunks with ⟨status, run⟩ | ⟨principal, id, gate, claims⟩
  · rw [run] at done
    cases done
  · obtain rfl := claims.answer c done
    have same : p = principal := Option.some.inj (calls.symm.trans (caller_of_admitted gate))
    rw [step, claims.owners, same]
    exact claimed_lookup claims.mine

variable {event : Event ctx P}

/-- **An owner stays** as long as the process does not start again. -/
theorem owner_step (lives : event.isRestart = false)
    (owned : world.node.clientOwner.lookup c = some owner) :
    (step world event).node.clientOwner.lookup c = some owner := by
  cases event with
  | restart gate => cases lives
  | execute around context request =>
    have kept := congrArg Prod.fst (execute_keeps around context request world)
    exact (congrArg (lookup c) kept).trans owned
  | register around context chunks =>
    rw [step]
    rcases register_cases around world context chunks with ⟨status, run⟩ | ⟨p, id, _, claims⟩
    · rw [run]
      exact owned
    · rw [claims.owners]
      exact lookup_claimed owned

variable {events : List (Event ctx P)}

theorem owner_kept (lives : restarts events = 0)
    (owned : world.node.clientOwner.lookup c = some owner) :
    (run world events).node.clientOwner.lookup c = some owner := by
  induction events generalizing world with
  | nil => exact owned
  | cons event events ih =>
    rw [restarts, List.countP_cons] at lives
    have alive : event.isRestart = false := by
      by_contra restarted
      rw [Bool.not_eq_false] at restarted
      rw [if_pos restarted] at lives
      omega
    exact ih (by rw [restarts]; omega) (owner_step alive owned)

/-- A principal that is not the owner is not served, and leaves the keys alone. -/
theorem other_turned_away {q : Principal} (owned : world.node.clientOwner.lookup c = some owner)
    (calls : caller world event = some q) (other : q.id ≠ owner) : served world event ≠ some c ∧
      (step world event).node.keyring.lookup c = world.node.keyring.lookup c := by
  cases event with
  | restart gate => cases calls
  | execute around context request =>
    have kept := congrArg Prod.snd (execute_keeps around context request world)
    refine ⟨fun returns => ?_, congrArg (lookup c) kept⟩
    obtain ⟨result, done, rfl⟩ := Option.map_eq_some_iff.1 returns
    obtain ⟨p, gate, mine⟩ := execute_claimable (ok_of_toOption done)
    have same : q = p := Option.some.inj (calls.symm.trans (caller_of_admitted gate))
    exact other ((congrArg Principal.id same).trans (mine owner owned).symm)
  | register around context chunks =>
    rcases register_cases around world context chunks with ⟨status, run⟩ | ⟨p, id, gate, claims⟩
    · rw [served, step, run]
      exact ⟨by simp [Except.toOption], rfl⟩
    · have same : q = p := Option.some.inj (calls.symm.trans (caller_of_admitted gate))
      have differs : c ≠ id := by
        rintro rfl
        exact other ((congrArg Principal.id same).trans (claims.mine owner owned).symm)
      refine ⟨fun returns => ?_, claims.others c differs⟩
      exact differs (claims.answer c (ok_of_toOption returns))

/-- Without a restart every client stays with its owner. -/
theorem stays_of_alive (lives : restarts events = 0) : Stays world events := by
  intro before around context chunks middle event later p q c split calls returns calls' other
  have alive : restarts middle = 0 := by
    rw [split, restarts, List.countP_append, List.countP_cons, List.countP_append] at lives
    rw [restarts]
    omega
  have owned := owner_kept alive (owner_of_served calls returns)
  have there : run world (before ++ .register around context chunks :: middle) =
      run (step (run world before) (.register around context chunks)) middle := by
    rw [run, List.foldl_append]
    rfl
  rw [there] at calls' ⊢
  exact other_turned_away owned calls' other

/-! ## A restart -/

/-- Two principals with a token each. -/
def twoTokens : Authenticator :=
  .token [⟨bytes "s1", ⟨bytes "alice", .query⟩⟩, ⟨bytes "s2", ⟨bytes "bob", .query⟩⟩]

def bearing (token : Bytes) : ServerContext where
  authorization := some (kBearer ++ token)

/-- A repository that nothing was published to: there is no `CURRENT`. -/
def unpublished (place : Place Bytes) : Repository where
  epochs := []
  currentVersion := .error ⟨.notFound, strCat ["no such file '",
    place.names.flatMap (slash :: ·), "/CURRENT'"]⟩

/-- A node without tables. -/
def bareNode : Node where
  config := {}
  gate := .new twoTokens 10 20 0
  repositories := unpublished

/-- The same with a token of the operator's. -/
def operatorNode : Node :=
  { bareNode with gate := .new (.token [⟨bytes "s1", ⟨bytes "alice", .admin⟩⟩]) 10 20 0 }

/-- Serialized keys; the number stands for their bytes. -/
def sampleKeys (n : UInt8) : KeyMaterial :=
  ⟨[n], [n], [n]⟩

/-- A library that loads the first two of them and nothing else. -/
def twoKeysLoader : KeyLoader where
  loadKeyMaterial := load
  loadKeys _ := load
where
  load (keys : KeyMaterial) : StatusOr Unit :=
    if keys = sampleKeys 1 ∨ keys = sampleKeys 2 then .ok ()
    else .error (invalidArgument ["bad public key"])

/-- The keys, for the client `c`. -/
def sampleChunks (n : UInt8) : List KeyChunk :=
  [⟨1, bytes "c", .publicKey, [n]⟩, ⟨1, bytes "c", .relinKeys, [n]⟩, ⟨1, bytes "c", .galoisKeys, [n]⟩]

/-- A node on its own. -/
def aloneSurroundings (P : Type) : Surroundings Backend.defaultContext P where
  lib := strictLibrary
  loader := twoKeysLoader
  hardwareConcurrency := 1
  now := 0
  putFault := none
  peers := []
  epoch := 0
  forward _ _ peers := (.broken, peers)
  evaluate _ _ _ := .ok []

/-- The first principal registers `c`, the process starts again, and the second registers it. -/
def takenOver : List (Event Backend.defaultContext Unit) :=
  [.register (aloneSurroundings Unit) (bearing (bytes "s1")) (sampleChunks 1),
    .restart (.new twoTokens 10 20 0),
    .register (aloneSurroundings Unit) (bearing (bytes "s2")) (sampleChunks 2)]

theorem takenOver_outcome :
    let first := run ⟨bareNode, ()⟩ (takenOver.take 1)
    let there := run ⟨bareNode, ()⟩ (takenOver.take 2)
    restarts takenOver = 1 ∧
      takenOver.head?.bind (caller ⟨bareNode, ()⟩) = some ⟨bytes "alice", .query⟩ ∧
      takenOver.head?.bind (served ⟨bareNode, ()⟩) = some (bytes "c") ∧
      first.node.keyring.lookup (bytes "c") = some (sampleKeys 1) ∧
      takenOver.getLast?.bind (caller there) = some ⟨bytes "bob", .query⟩ ∧
      takenOver.getLast?.bind (served there) = some (bytes "c") ∧
      (run ⟨bareNode, ()⟩ takenOver).node.keyring.lookup (bytes "c") = some (sampleKeys 2) := by
  decide +kernel

theorem takenOver_moves : ¬ Stays ⟨bareNode, ()⟩ takenOver := by
  intro stays
  obtain ⟨_, calls, returns, _, calls', returns', _⟩ := takenOver_outcome
  exact (stays [] _ _ _ [_] _ [] _ _ _ rfl calls returns calls' (by decide)).1 returns'

/-- The client's keys are the second principal's. -/
theorem restart_forgets_owner :
    restarts takenOver = 1 ∧
      (run ⟨bareNode, ()⟩ (takenOver.take 1)).node.keyring.lookup (bytes "c") = some (sampleKeys 1) ∧
      (run ⟨bareNode, ()⟩ takenOver).node.keyring.lookup (bytes "c") = some (sampleKeys 2) ∧
      ¬ Stays ⟨bareNode, ()⟩ takenOver := by
  obtain ⟨once, _, _, before, _, _, after⟩ := takenOver_outcome
  exact ⟨once, before, after, takenOver_moves⟩

/-- **A client id stays with its owner exactly while the process lives.**  It does in all runs with
at most `k` restarts, of any node in any surroundings, if and only if `k` is zero. -/
theorem client_stays_iff (k : Nat) :
    (∀ (ctx : CryptoContext) (P : Type) (world : NodeWorld P) (events : List (Event ctx P)),
      restarts events ≤ k → Stays world events) ↔ k = 0 := by
  constructor
  · intro stays
    by_contra some_
    obtain ⟨once, _⟩ := takenOver_outcome
    exact takenOver_moves (stays _ _ _ _ (by omega))
  · rintro rfl ctx P world events none_
    exact stays_of_alive (Nat.le_zero.1 none_)

end OpaqueDb.Server.Ownership
