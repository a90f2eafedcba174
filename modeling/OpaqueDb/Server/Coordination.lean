/-
# Server.Coordination -- who a clustered node asks

A clustered node learns its peers and the global epoch from etcd, through a view that it keeps
for a second.  A failed read is no error: it makes a view without peers, and without peers a
node answers from its own rows alone, as if it stood on its own.

* `viewOf_others`: a read that succeeds finds every other member.
* `coordinate_combined`: a coordinated answer is made of every peer's partials.
* `no_partial_iff`: an answer is never partial exactly if no read of the members fails and no
  other member has registered this node's address.
-/
import OpaqueDb.Client.KeyAgreement
import OpaqueDb.Cluster.Manager
import OpaqueDb.Server.Ownership

namespace OpaqueDb.Server.Coordination

open OpaqueDb.Core Config Crypto Theory Auth Cluster List Theory.Call Server.QueryService
open Server.EvalCache (KeyMaterial KeyLoader)
open Server.Ownership

set_option autoImplicit false

/-! ## The view -/

structure ClusterView where
  peers : List Bytes := []
  epoch : Nat := 0
  deriving DecidableEq, Repr

/-- The last view and when it was asked for. -/
abbrev Cache := Option (ClusterView × Int)

/-- In milliseconds. -/
def kTtl : Int := 1000

/-- The members a cluster has: this node and at least one other. -/
structure Membership where
  self : NodeInfo
  members : List NodeInfo
  registered : self ∈ members
  once : members.Nodup
  several : 2 ≤ members.length

/-- A call for the view: its time, and how its reads of etcd would end.  `late` says that the view
which the call has found too old is replaced by another call's before it stores its own. -/
structure ViewCall where
  now : Int
  fault : Option Status := none
  epoch : StatusOr Nat
  late : Bool := false

namespace Membership

variable (c : Membership)

def others : List NodeInfo :=
  c.members.filter (· ≠ c.self)

/-- The members as etcd answers. -/
def read (call : ViewCall) : StatusOr (List NodeInfo) :=
  match call.fault with
  | none => .ok c.members
  | some status => .error status

/-- A fresh view; what cannot be read is left at its default. -/
def viewOf (call : ViewCall) : ClusterView where
  peers := match c.read call with
    | .ok nodes => (nodes.filter fun node => node.address ≠ c.self.address).map NodeInfo.address
    | .error _ => []
  epoch := match call.epoch with
    | .ok epoch => epoch
    | .error _ => 0

def clusterViewCached (cache : Cache) (call : ViewCall) : ClusterView × Cache :=
  match cache.filter fun entry => !call.late && decide (call.now - entry.2 < kTtl) with
  | some entry => (entry.1, cache)
  | none => (c.viewOf call, some (c.viewOf call, call.now))

def refreshed (cache : Cache) (calls : List ViewCall) : Cache :=
  calls.foldl (fun cache call => (c.clusterViewCached cache call).2) cache

end Membership

/-! ## Requests -/

/-- What a request meets, apart from the view. -/
structure Asked (ctx : CryptoContext) (P : Type) where
  around : Surroundings ctx P
  world : NodeWorld P
  context : ServerContext

/-- The surroundings with the peers and the epoch of the view. -/
def Asked.viewing {ctx : CryptoContext} {P : Type} (asked : Asked ctx P) (peers : List Bytes)
    (epoch : Nat) : Surroundings ctx P :=
  { asked.around with peers, epoch }

/-- A request, with its calls for the view and those of other requests between them; and other
requests' calls on their own. -/
inductive Event (ctx : CryptoContext) (P : Type) where
  | view (call : ViewCall)
  | execute (asked : Asked ctx P) (request : QueryService.QueryRequest ctx) (first : ViewCall)
      (between : List ViewCall) (second : ViewCall)
  | scan (asked : Asked ctx P) (request : QueryService.ScanRequest) (call : ViewCall)

variable {ctx : CryptoContext} {P : Type}

def Event.calls : Event ctx P → List ViewCall
  | .view call => [call]
  | .execute _ _ first between second => first :: (between ++ [second])
  | .scan _ _ call => [call]

/-- How many reads of the members fail. -/
def failures (events : List (Event ctx P)) : Nat :=
  (events.flatMap Event.calls).countP fun call => call.fault.isSome

namespace Membership

variable (c : Membership)

/-- The peers are asked for first, and the epoch only if there are any. -/
def executeAnswer (cache : Cache) (asked : Asked ctx P) (request : QueryService.QueryRequest ctx)
    (first : ViewCall) (between : List ViewCall) (second : ViewCall) :
    StatusOr (List (List (Ciphertext ctx))) × Cache :=
  let (view, cache) := c.clusterViewCached cache first
  let cache := c.refreshed cache between
  if view.peers.isEmpty then
    (((QueryService.execute (asked.viewing [] 0) asked.context request).eval asked.world).1, cache)
  else
    let (later, cache) := c.clusterViewCached cache second
    (((QueryService.execute (asked.viewing view.peers later.epoch) asked.context request).eval
      asked.world).1, cache)

def scanAnswer (cache : Cache) (asked : Asked ctx P) (request : QueryService.ScanRequest)
    (call : ViewCall) : StatusOr ScanResult × Cache :=
  let (view, cache) := c.clusterViewCached cache call
  (((QueryService.scan (asked.viewing view.peers view.epoch) asked.context request).eval
    asked.world).1, cache)

def after (cache : Cache) : Event ctx P → Cache
  | .view call => (c.clusterViewCached cache call).2
  | .execute asked request first between second =>
    (c.executeAnswer cache asked request first between second).2
  | .scan asked request call => (c.scanAnswer cache asked request call).2

/-- The result is combined from this node's partials and those of every other member. -/
def Combined (around : Surroundings ctx P) (world : NodeWorld P) (query : ShardQuery ctx)
    (result : List (List (Ciphertext ctx))) : Prop :=
  ∃ shard parts, evaluateShard (world.node.engine around) query.clientId query.database
      query.sqlTemplate query.encryptedParam query.backend query.epochVersion = .ok shard ∧
    (c.others.mapM fun member => around.evaluate world.peers member.address query) = .ok parts ∧
    combinePartials (world.node.engine around) query.clientId (shard.partials :: parts) = .ok result

/-- A query is answered from every member's shard, and a scan not at all. -/
def Whole (cache : Cache) : Event ctx P → Prop
  | .view _ => True
  | .execute asked request first between second =>
    ∀ result, (c.executeAnswer cache asked request first between second).1 = .ok result →
      ∃ epoch, c.Combined asked.around asked.world (request.pinned epoch) result
  | .scan asked request call => ∀ result, (c.scanAnswer cache asked request call).1 ≠ .ok result

/-- No request of the run gets a partial answer. -/
def NoPartial : Cache → List (Event ctx P) → Prop
  | _, [] => True
  | cache, event :: events => c.Whole cache event ∧ NoPartial (c.after cache event) events

end Membership

/-! ## What is asked of whom -/

variable {result : List (List (Ciphertext ctx))} {request : QueryService.QueryRequest ctx}

section Answers

variable {around : Surroundings ctx P} {world : NodeWorld P} {context : ServerContext}

/-- What an evaluation reads of the world. -/
def read (world : NodeWorld P) :
    P × Config × (Place Bytes → Repository) × Finmap fun _ : Bytes => KeyMaterial :=
  (world.peers, world.node.config, world.node.repositories, world.node.keyring)

theorem engine_of_read {world' : NodeWorld P} (same : read world' = read world) :
    world'.node.engine around = world.node.engine around ∧ world'.peers = world.peers := by
  simp only [read, Prod.mk.injEq] at same
  obtain ⟨peers, config, repositories, keyring⟩ := same
  simp [Node.engine, config, repositories, keyring, peers]

/-- The world with one evaluation more. -/
def evaluatedOnce (world : NodeWorld P) : NodeWorld P :=
  { world with node := { world.node with evaluations := world.node.evaluations + 1 } }

theorem evaluateShardHere_eval (around : Surroundings ctx P) (world : NodeWorld P)
    (query : ShardQuery ctx) :
    (evaluateShardHere around query).eval world =
      (evaluateShard (world.node.engine around) query.clientId query.database query.sqlTemplate
        query.encryptedParam query.backend query.epochVersion, evaluatedOnce world) := by
  rfl

variable {query : ShardQuery ctx}

/-- **A coordinated answer** is made of this node's partials and every peer's. -/
theorem coordinate_combined
    (done : ((QueryService.coordinate around query).eval world).1 = .ok result) :
    ∃ shard parts, evaluateShard (world.node.engine around) query.clientId query.database
        query.sqlTemplate query.encryptedParam query.backend query.epochVersion = .ok shard ∧
      (around.peers.mapM fun peer => around.evaluate world.peers peer query) = .ok parts ∧
      combinePartials (world.node.engine around) query.clientId (shard.partials :: parts) =
        .ok result := by
  unfold QueryService.coordinate at done
  obtain ⟨shard, world₁, here, rest⟩ := eval_bind_inv done
  rw [rest] at done
  obtain ⟨_, _, current, rest⟩ := eval_bind_inv done
  cases current
  rw [rest] at done
  obtain ⟨parts, world₂, asked, rest⟩ := eval_bind_inv done
  obtain rfl : evaluatedOnce world = world₁ := congrArg Prod.snd here
  obtain rfl : evaluatedOnce world = world₂ := congrArg Prod.snd asked
  rw [rest] at done
  exact ⟨shard, parts, congrArg Prod.fst here, congrArg Prod.fst asked, done⟩

theorem coordinate_eval {shard : ShardResult ctx} {parts : List (List (Ciphertext ctx))}
    (evaluated : evaluateShard (world.node.engine around) query.clientId query.database
      query.sqlTemplate query.encryptedParam query.backend query.epochVersion = .ok shard)
    (answered : (around.peers.mapM fun peer => around.evaluate world.peers peer query) = .ok parts)
    : ((QueryService.coordinate around query).eval world).1 =
      combinePartials (world.node.engine around) query.clientId (shard.partials :: parts) := by
  have here := (evaluateShardHere_eval around world query).trans
    (congrArg (·, evaluatedOnce world) evaluated)
  have there : (lift (around.peers.mapM fun peer => around.evaluate (evaluatedOnce world).peers
      peer query)).eval (evaluatedOnce world) = (.ok parts, evaluatedOnce world) :=
    congrArg (·, evaluatedOnce world) answered
  rw [QueryService.coordinate, eval_bind_ok here, eval_bind_ok (eval_current _), eval_bind_ok there]
  rfl

/-- A node with peers coordinates. -/
theorem execute_answer (some_ : around.peers ≠ [])
    (done : ((QueryService.execute around context request).eval world).1 = .ok result) :
    ∃ world', read world' = read world ∧
      ((QueryService.coordinate around (request.pinned around.epoch)).eval world').1 = .ok result := by
  unfold QueryService.execute at done
  obtain ⟨principal, world₁, gate, rest⟩ := eval_bind_inv done
  rw [rest] at done
  obtain ⟨_, world₂, version, rest⟩ := eval_bind_inv done
  rw [rest] at done
  obtain ⟨_, world₃, check, rest⟩ := eval_bind_inv done
  rw [rest, if_neg (by simpa using some_)] at done
  refine ⟨world₃, ?_, done⟩
  have gated : read world₁ = read world := (congrArg (fun outcome => read outcome.2) gate).symm
  have checked : read world₂ = read world₁ := (congrArg (fun outcome => read outcome.2) version).symm
  have owned : read world₃ = read world₂ := by
    have kept : read ((checkClientOwnership request.clientId principal.id false).eval
        world₂).2 = read world₂ := by
      simp only [checkClientOwnership, eval_step]
      split <;> rfl
    rw [check] at kept
    exact kept
  exact owned.trans (checked.trans gated)

/-- A node with peers does not scan. -/
theorem scan_refused {request : QueryService.ScanRequest} {result : ScanResult}
    (some_ : around.peers ≠ []) :
    ((QueryService.scan around context request).eval world).1 ≠ .ok result := by
  intro done
  unfold QueryService.scan at done
  obtain ⟨principal, world₁, gate, rest⟩ := eval_bind_inv done
  rw [rest] at done
  obtain ⟨_, world₂, version, rest⟩ := eval_bind_inv done
  rw [rest, if_neg (by simpa using some_)] at done
  cases done

end Answers

/-! ## While every read succeeds -/

variable {epoch : Nat}

namespace Membership

variable {c : Membership}

theorem others_ne_nil : c.others ≠ [] := by
  intro none_
  have all : ∀ member ∈ c.members, member = c.self := by
    intro member listed
    by_contra other
    have : member ∈ c.others := mem_filter.2 ⟨listed, by simpa using other⟩
    rw [none_] at this
    cases this
  have same := eq_replicate_iff.2 ⟨rfl, all⟩
  have once := c.once
  rw [same, nodup_replicate] at once
  have := c.several
  omega

/-- The other members are at other addresses. -/
def Apart (c : Membership) : Prop :=
  ∀ member ∈ c.members, member ≠ c.self → member.address ≠ c.self.address

variable {call : ViewCall}

/-- A read that succeeds finds every other member. -/
theorem viewOf_others (apart : c.Apart) (found : call.fault = none) :
    (c.viewOf call).peers = c.others.map NodeInfo.address := by
  have same : c.members.filter (fun node => decide (node.address ≠ c.self.address)) = c.others := by
    refine filter_congr fun node listed => ?_
    refine decide_eq_decide.2 ⟨fun differs same => differs (congrArg NodeInfo.address same), ?_⟩
    exact apart node listed
  simp only [viewOf, read, found, same]

/-- The cache holds a view with every other member. -/
def Complete (c : Membership) (cache : Cache) : Prop :=
  ∀ entry, cache = some entry → entry.1.peers = c.others.map NodeInfo.address

variable {cache : Cache}

theorem clusterViewCached_complete (apart : c.Apart) (complete : c.Complete cache)
    (found : call.fault = none) :
    (c.clusterViewCached cache call).1.peers = c.others.map NodeInfo.address ∧
      c.Complete (c.clusterViewCached cache call).2 := by
  unfold clusterViewCached
  split
  · rename_i entry fresh
    exact ⟨complete entry (Option.filter_eq_some_iff.1 fresh).1, complete⟩
  · refine ⟨viewOf_others apart found, fun entry same => ?_⟩
    cases same
    exact viewOf_others apart found

theorem refreshed_complete (apart : c.Apart) (complete : c.Complete cache) {calls : List ViewCall}
    (found : ∀ call ∈ calls, call.fault = none) : c.Complete (c.refreshed cache calls) := by
  induction calls generalizing cache with
  | nil => exact complete
  | cons call calls ih =>
    exact ih (clusterViewCached_complete apart complete (found call mem_cons_self)).2
      fun call' listed => found call' (mem_cons_of_mem call listed)

theorem execute_combined {asked : Asked ctx P}
    (done : ((QueryService.execute (asked.viewing (c.others.map NodeInfo.address) epoch)
      asked.context request).eval asked.world).1 = .ok result) :
    c.Combined asked.around asked.world (request.pinned epoch) result := by
  have several : (asked.viewing (c.others.map NodeInfo.address) epoch).peers ≠ [] := by
    rw [Asked.viewing, Ne, map_eq_nil_iff]
    exact others_ne_nil
  obtain ⟨world', same, coordinated⟩ := execute_answer several done
  obtain ⟨shard, parts, evaluated, answered, combined⟩ := coordinate_combined coordinated
  obtain ⟨engine, peers⟩ := engine_of_read same
  rw [engine] at evaluated combined
  rw [peers, Asked.viewing, mapM_map] at answered
  exact ⟨shard, parts, evaluated, answered, combined⟩

/-- One event: its answer is whole, and the cache stays complete. -/
theorem whole_step (apart : c.Apart) (complete : c.Complete cache) {event : Event ctx P}
    (found : ∀ call ∈ event.calls, call.fault = none) :
    c.Whole cache event ∧ c.Complete (c.after cache event) := by
  have several : c.others.map NodeInfo.address ≠ [] := by
    rw [Ne, map_eq_nil_iff]
    exact others_ne_nil
  cases event with
  | view call => exact ⟨trivial, (clusterViewCached_complete apart complete (found call (by simp [Event.calls]))).2⟩
  | scan asked request call =>
    obtain ⟨peers, complete'⟩ :=
      clusterViewCached_complete apart complete (found call (by simp [Event.calls]))
    refine ⟨fun result => scan_refused ?_, complete'⟩
    exact peers ▸ several
  | execute asked request first between second =>
    have found₁ := found first (by simp [Event.calls])
    have found₂ : ∀ call ∈ between, call.fault = none := fun call listed =>
      found call (by simp [Event.calls, listed])
    have found₃ := found second (by simp [Event.calls])
    obtain ⟨peers, complete₁⟩ := clusterViewCached_complete apart complete found₁
    have complete₂ := refreshed_complete apart complete₁ found₂
    obtain ⟨_, complete₃⟩ := clusterViewCached_complete apart complete₂ found₃
    have full : ¬ ((c.clusterViewCached cache first).1.peers.isEmpty = true) := by
      rw [peers]
      simpa using others_ne_nil
    constructor
    · intro result done
      simp only [executeAnswer, if_neg full] at done
      rw [peers] at done
      exact ⟨_, execute_combined done⟩
    · simp only [after, executeAnswer, if_neg full]
      exact complete₃

theorem noPartial_of_found (apart : c.Apart) (complete : c.Complete cache)
    {events : List (Event ctx P)} (found : failures events = 0) : c.NoPartial cache events := by
  induction events generalizing cache with
  | nil => trivial
  | cons event events ih =>
    rw [failures, flatMap_cons, countP_append] at found
    have here : ∀ call ∈ event.calls, call.fault = none := by
      intro call listed
      have none_ := countP_eq_zero.1 (Nat.eq_zero_of_add_eq_zero_right found) call listed
      simpa using none_
    obtain ⟨whole, complete'⟩ := whole_step apart complete here
    exact ⟨whole, ih complete' (Nat.eq_zero_of_add_eq_zero_left found)⟩

end Membership

/-! ## Answers of a node that misses a member -/

/-- A client of the node asks for rows of an empty table. -/
def tableNode : Node where
  config := {}
  gate := .new twoTokens 10 20 0
  keyring := (∅ : Finmap fun _ : Bytes => KeyMaterial).insert (bytes "c") (sampleKeys 1)
  repositories _ := Client.emptyTable

def rowsRequest : QueryService.QueryRequest Backend.defaultContext where
  wireVersion := kWireVersion
  clientId := bytes "c"
  sqlTemplate := bytes "SELECT a FROM t WHERE c = :v"
  encryptedParam := [fun _ => 0]
  backend := []
  database := []

/-- Only the listed peers answer, each with an empty shard. -/
def answering (peers : List Bytes) : Surroundings Backend.defaultContext Unit :=
  { aloneSurroundings Unit with evaluate := fun _ address _ =>
      if address ∈ peers then .ok [] else .error ⟨.unavailable, bytes "failed to connect"⟩ }

def asking (peers : List Bytes) : Asked Backend.defaultContext Unit :=
  ⟨answering peers, ⟨tableNode, ()⟩, bearing (bytes "s1")⟩

theorem combine_empty (parts : List (List (Ciphertext Backend.defaultContext)))
    (none_ : ∀ part ∈ parts, part = []) : Backend.combine parts = .ok [] := by
  have width : parts.foldl (fun width shard => max width shard.length) 0 = 0 := by
    induction parts with
    | nil => rfl
    | cons part parts ih =>
      obtain ⟨rfl, rest⟩ := forall_mem_cons.1 none_
      exact ih rest
  have agree : parts.find? (fun shard => !shard.isEmpty && shard.length != 0) = none := by
    rw [find?_eq_none]
    intro part listed
    rw [none_ part listed]
    decide
  simp only [Backend.combine, width, agree]
  rfl

theorem execute_admitted {around : Surroundings ctx P} {world : NodeWorld P}
    {context : ServerContext} {principal : Principal}
    (admitted : Admitted around world context principal)
    (version : request.wireVersion = kWireVersion)
    (mine : Claimable world principal request.clientId) :
    (QueryService.execute around context request).eval world =
      (if around.peers.isEmpty then QueryService.executeHere around (request.pinned 0)
        else QueryService.coordinate around (request.pinned around.epoch)).eval
          (counted around world context) := by
  have gate : (checkGate around context .query).eval world =
      (.ok principal, counted around world context) := by
    rw [← admitted]
    rfl
  have versioned : checkWireVersion request.wireVersion = .ok () := by
    rw [checkWireVersion, if_pos version]
  have owned : (checkClientOwnership request.clientId principal.id false).eval
      (counted around world context) = (.ok (), counted around world context) := by
    rcases known : (counted around world context).node.clientOwner.lookup request.clientId with
      _ | owner
    · simp only [checkClientOwnership, eval_step, known]
      rfl
    · simp [checkClientOwnership, known, mine owner known]
  rw [QueryService.execute, eval_bind_ok gate, versioned]
  exact (eval_bind_ok rfl _).trans (eval_bind_ok owned _)

/-- The node answers, whoever else is registered. -/
theorem execute_asking (peers : List Bytes) :
    ((QueryService.execute ((asking peers).viewing peers 0) (asking peers).context rowsRequest).eval
      (asking peers).world).1 = .ok [] := by
  have gate : Admitted ((asking peers).viewing peers 0) (asking peers).world (asking peers).context
      ⟨bytes "alice", .query⟩ := by
    show (tableNode.gate.check (extractAuthInputs (bearing (bytes "s1"))) .query 0).1 = _
    decide +kernel
  have mine : Claimable (asking peers).world ⟨bytes "alice", .query⟩ rowsRequest.clientId := by
    intro owner owned
    cases owned
  rw [execute_admitted gate rfl mine]
  have evaluated : evaluateShard ((counted ((asking peers).viewing peers 0) (asking peers).world
      (asking peers).context).node.engine ((asking peers).viewing peers 0)) rowsRequest.clientId
      rowsRequest.database rowsRequest.sqlTemplate rowsRequest.encryptedParam rowsRequest.backend 0 =
        .ok ⟨bytes "reference", []⟩ := rfl
  split
  · rw [QueryService.executeHere]
    rfl
  · have answered : (((asking peers).viewing peers 0).peers.mapM fun peer =>
        ((asking peers).viewing peers 0).evaluate () peer (rowsRequest.pinned 0)) =
          .ok (peers.map fun _ => []) := by
      refine mapM_eq_ok fun peer listed => ?_
      exact if_pos listed
    refine (coordinate_eval evaluated answered).trans ?_
    rw [combinePartials, combine_empty ([] :: peers.map fun _ => []) (by simp)]
    rfl

namespace Membership

variable {c : Membership}

/-- A member that is not asked is not in the answer. -/
theorem not_combined {peers : List Bytes} {member : NodeInfo} (other : member ∈ c.others)
    (unasked : member.address ∉ peers) {result} :
    ¬ c.Combined (asking peers).around (asking peers).world (rowsRequest.pinned epoch) result := by
  rintro ⟨shard, parts, _, answered, _⟩
  obtain ⟨part, here⟩ := Call.Records.ok_of_mapM answered other
  have refused : (asking peers).around.evaluate () member.address (rowsRequest.pinned epoch) =
      .error ⟨.unavailable, bytes "failed to connect"⟩ := if_neg unasked
  cases refused.symm.trans here

/-- The query with these reads, at the start. -/
def firstQuery (c : Membership) (fault : Option Status) : Event Backend.defaultContext Unit :=
  .execute (asking (c.viewOf ⟨0, fault, .ok 0, false⟩).peers) rowsRequest ⟨0, fault, .ok 0, false⟩ []
    ⟨0, none, .ok 0, false⟩

theorem firstQuery_answer (fault : Option Status) :
    (c.executeAnswer none (asking (c.viewOf ⟨0, fault, .ok 0, false⟩).peers) rowsRequest
      ⟨0, fault, .ok 0, false⟩ [] ⟨0, none, .ok 0, false⟩).1 = .ok [] := by
  have answer := execute_asking (c.viewOf ⟨0, fault, .ok 0, false⟩).peers
  have fresh : c.clusterViewCached none ⟨0, fault, .ok 0, false⟩ =
      (c.viewOf ⟨0, fault, .ok 0, false⟩, some (c.viewOf ⟨0, fault, .ok 0, false⟩, 0)) := rfl
  have kept : c.clusterViewCached (some (c.viewOf ⟨0, fault, .ok 0, false⟩, 0)) ⟨0, none, .ok 0, false⟩ =
      (c.viewOf ⟨0, fault, .ok 0, false⟩, some (c.viewOf ⟨0, fault, .ok 0, false⟩, 0)) := rfl
  simp only [executeAnswer, fresh]
  by_cases alone : (c.viewOf ⟨0, fault, .ok 0, false⟩).peers.isEmpty = true
  · rw [List.isEmpty_iff] at alone
    rw [alone] at answer ⊢
    exact answer
  · rw [if_neg alone]
    exact answer

/-- **No partial answers** are given in any run with at most `k` failed reads of the members, if
and only if there is no failed read and the other members are at other addresses. -/
theorem no_partial_iff (c : Membership) (k : Nat) :
    (∀ (ctx : CryptoContext) (P : Type) (events : List (Event ctx P)), failures events ≤ k →
      c.NoPartial none events) ↔ k = 0 ∧ c.Apart := by
  constructor
  · intro whole
    have asked : ∀ fault : Option Status, (if fault.isSome then 1 else 0) ≤ k →
        ∀ member ∈ c.others, member.address ∈ (c.viewOf ⟨0, fault, .ok 0, false⟩).peers := by
      intro fault few member other
      by_contra unasked
      have counted : failures [c.firstQuery fault] ≤ k := by
        have single : failures [c.firstQuery fault] = if fault.isSome then 1 else 0 := by
          cases fault <;> rfl
        rw [single]
        exact few
      have first := (whole _ _ [c.firstQuery fault] counted).1
      obtain ⟨epoch, combined⟩ := first [] (firstQuery_answer fault)
      exact not_combined other unasked combined
    obtain ⟨member, other⟩ := exists_mem_of_ne_nil _ (others_ne_nil (c := c))
    refine ⟨?_, fun member listed differs same => ?_⟩
    · by_contra some_
      have one : 1 ≤ k := Nat.one_le_iff_ne_zero.2 some_
      cases asked (some ⟨.unavailable, []⟩) one member other
    · have peer := asked none (Nat.zero_le k) member
        (mem_filter.2 ⟨listed, by simpa using differs⟩)
      obtain ⟨node, reached, named⟩ := mem_map.1 peer
      have apart := (mem_filter.1 reached).2
      rw [named, same] at apart
      simp at apart
  · rintro ⟨rfl, apart⟩ ctx P events none_
    exact noPartial_of_found apart (fun entry same => by cases same) (Nat.le_zero.1 none_)

end Membership

/-- Two nodes, of which the second is down. -/
def twoMembers : Membership where
  self := ⟨bytes "a", bytes "10.0.0.1:7000"⟩
  members := [⟨bytes "a", bytes "10.0.0.1:7000"⟩, ⟨bytes "b", bytes "10.0.0.2:7000"⟩]
  registered := by decide
  once := by decide
  several := by decide

/-- A node with one row of the table. -/
def oneRowNode : Node :=
  { tableNode with repositories := fun _ => ⟨[Client.sampleEpoch 16 [(1, 97, 98)]], .ok 1⟩ }

/-- After one failed read the node answers a query and a scan from its own rows. -/
theorem failed_read_answers_alone :
    let failing : ViewCall := ⟨0, some ⟨.unavailable, bytes "etcd is down"⟩, .ok 0, false⟩
    (twoMembers.executeAnswer none (asking []) rowsRequest failing [] ⟨0, none, .ok 0, false⟩).1 =
        .ok [] ∧
      (∀ epoch result, ¬ twoMembers.Combined (asking []).around (asking []).world
        (rowsRequest.pinned epoch) result) ∧
      (twoMembers.scanAnswer none ⟨answering [], ⟨oneRowNode, ()⟩, bearing (bytes "s1")⟩
        ⟨kWireVersion, [], bytes "t", 10⟩ failing).1 = .ok ⟨1, [Client.sampleRecord 97 98]⟩ := by
  have other : (⟨bytes "b", bytes "10.0.0.2:7000"⟩ : NodeInfo) ∈ twoMembers.others := by decide
  refine ⟨twoMembers.firstQuery_answer (some ⟨.unavailable, bytes "etcd is down"⟩),
    fun epoch result => Membership.not_combined other (by decide), ?_⟩
  decide +kernel

end OpaqueDb.Server.Coordination
