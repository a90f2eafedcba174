/-
# Server.EvalCache -- registered keys and the contexts built from them

`RegisterClient` drops the client's cached contexts and then stores its new keys;
`EvalContextFor` looks into the cache, reads the stored keys, builds a context and puts it
into the cache.  Each lock section and each access to the keyring is one step, and the
steps of concurrent calls may come in any order.

A context built from the old keys can be put into the cache after it was emptied, and every
later call gets it (`stale_context`).  `reregistered_iff` says when that cannot happen.
-/
import OpaqueDb.Core.Text
import OpaqueDb.Theory.Interleaving
import OpaqueDb.Theory.Maps

namespace OpaqueDb.Server.EvalCache

open OpaqueDb.Core Theory Theory.World Finmap

set_option autoImplicit false

/-! ## The shared state -/

structure KeyMaterial where
  publicKey : Bytes
  relinKeys : Bytes
  galoisKeys : Bytes
  deriving DecidableEq

/-- What the crypto layer makes of key bytes: whether they load at all, and whether a backend
can build a context from them. -/
structure KeyLoader where
  loadKeyMaterial : KeyMaterial → StatusOr Unit
  loadKeys : Bytes → KeyMaterial → StatusOr Unit

/-- A context, with the backend and the keys it was built from. -/
structure EvalContext where
  backend : Bytes
  keys : KeyMaterial
  deriving DecidableEq

structure Shared where
  evalCache : Finmap fun _ : Bytes => EvalContext := ∅
  keyring : Finmap fun _ : Bytes => KeyMaterial := ∅

inductive SharedOp where
  | find (key : Bytes)
  | fill (key : Bytes) (context : EvalContext)
  | evict (start : Bytes)
  | get (clientId : Bytes)
  | put (clientId : Bytes) (keys : KeyMaterial)

abbrev SharedOp.Answer : SharedOp → Type
  | .find _ => Option EvalContext
  | .get _ => StatusOr KeyMaterial
  | .put .. => StatusOr Unit
  | _ => Unit

def notRegistered (clientId : Bytes) : Bytes :=
  strCat ["client '", clientId, "' has not registered keys"]

def Shared.exec (op : SharedOp) (s : Shared) : op.Answer × Shared :=
  match op with
  | .find key => (s.evalCache.lookup key, s)
  | .fill key context => ((), { s with evalCache := s.evalCache.insert key context })
  | .evict start => ((), { s with evalCache := keep (fun key _ => !start.isPrefixOf key) s.evalCache })
  | .get clientId =>
    (match s.keyring.lookup clientId with
      | none => .error ⟨.notFound, notRegistered clientId⟩
      | some keys => .ok keys, s)
  | .put clientId keys =>
    if clientId.isEmpty then (.error (invalidArgument ["client id is empty"]), s)
    else (.ok (), { s with keyring := s.keyring.insert clientId keys })

/-! ## The calls -/

inductive EngineCall where
  | registerClient (keys : KeyMaterial)
  | evalContextFor (backendName : Bytes)

inductive EngineReply where
  | registered
  | context (context : EvalContext)
  deriving DecidableEq

abbrev EngineIO := Prog SharedOp SharedOp.Answer (StatusOr EngineReply)

section Calls

variable (loader : KeyLoader) (clientId : Bytes)

/-- The cache key of a client and a backend. -/
def cacheKey (backendName : Bytes) : Bytes :=
  clientId ++ 0 :: backendName

def store (keys : KeyMaterial) : EngineIO :=
  .call (.put clientId keys) fun status => .done (status.map fun _ => .registered)

/-- The keys must load before they are stored; the cached contexts go first. -/
def registerClient (keys : KeyMaterial) : EngineIO :=
  if clientId.isEmpty then .done (.error (invalidArgument ["client id is empty"]))
  else
    match loader.loadKeyMaterial keys with
    | .error status => .done (.error status)
    | .ok () => .call (.evict (clientId ++ [0])) fun _ => store clientId keys

def fillCache (context : EvalContext) : EngineIO :=
  .call (.fill (cacheKey clientId context.backend) context) fun _ => .done (.ok (.context context))

/-- Whatever the keyring's error was, the client has to register. -/
def buildContext (backendName : Bytes) (keys : StatusOr KeyMaterial) : EngineIO :=
  match keys with
  | .error _ => .done (.error ⟨.unauthenticated, notRegistered clientId⟩)
  | .ok keys =>
    match loader.loadKeys backendName keys with
    | .error status => .done (.error status)
    | .ok () => fillCache clientId ⟨backendName, keys⟩

def readKeys (backendName : Bytes) : EngineIO :=
  .call (.get clientId) (buildContext loader clientId backendName)

def useCached (backendName : Bytes) (found : Option EvalContext) : EngineIO :=
  match found with
  | some context => .done (.ok (.context context))
  | none => readKeys loader clientId backendName

def evalContextFor (backendName : Bytes) : EngineIO :=
  .call (.find (cacheKey clientId backendName)) (useCached loader clientId backendName)

def EngineCall.body : EngineCall → EngineIO
  | .registerClient keys => EvalCache.registerClient loader clientId keys
  | .evalContextFor backendName => EvalCache.evalContextFor loader clientId backendName

end Calls

def EngineCall.registers : EngineCall → Bool
  | .registerClient _ => true
  | .evalContextFor _ => false

/-! ## Interleavings -/

abbrev Calls (ι : Type) := World SharedOp SharedOp.Answer (StatusOr EngineReply) Shared ι

section Interleaved

variable {ι : Type} [DecidableEq ι] (loader : KeyLoader) (clientId : Bytes) (calls : ι → EngineCall)

/-- The steps of the calls of one client in some order; no call holds a lock between its steps. -/
abbrev Interleaved : Calls ι → Calls ι → Prop :=
  World.Moves Shared.exec (fun i => (calls i).body loader clientId) fun _ => false

/-- One registration among the calls: it starts while no other is under way, it returns OK, and
no other starts before it has. -/
structure Reregistered (r : ι) (keys : KeyMaterial) (w₁ w₂ : Calls ι) : Prop where
  call : calls r = .registerClient keys
  before : ∃ keyring, Interleaved loader clientId calls (initial ⟨∅, keyring⟩) w₁
  waiting : w₁.phase r = .waiting
  alone : ∀ i p, (calls i).registers = true → w₁.phase i ≠ .running p
  during : Interleaved loader clientId calls w₁ w₂
  quiet : ∀ i, i ≠ r → (calls i).registers = true → w₂.phase i = w₁.phase i
  returned : w₂.phase r = .returned (.ok .registered)

/-- The calls go on, and no registration starts. -/
structure GoesOn (w w' : Calls ι) : Prop where
  moves : Interleaved loader clientId calls w w'
  quiet : ∀ i, (calls i).registers = true → w'.phase i = w.phase i

end Interleaved

/-! ## The stages of a call -/

section Stages

variable {ι : Type} [DecidableEq ι] {loader : KeyLoader} {clientId : Bytes} {calls : ι → EngineCall}

variable (loader clientId) in
/-- What a call may have left to do. -/
inductive Stage : EngineCall → EngineIO → Prop
  | finished (call : EngineCall) (result : StatusOr EngineReply) : Stage call (.done result)
  | evicting (keys : KeyMaterial) : Stage (.registerClient keys)
      (.call (.evict (clientId ++ [0])) fun _ => store clientId keys)
  | storing (keys : KeyMaterial) : Stage (.registerClient keys) (store clientId keys)
  | finding (backendName : Bytes) : Stage (.evalContextFor backendName)
      (evalContextFor loader clientId backendName)
  | reading (backendName : Bytes) : Stage (.evalContextFor backendName)
      (readKeys loader clientId backendName)
  | filling {backendName : Bytes} {keys : KeyMaterial}
      (loads : loader.loadKeys backendName keys = .ok ()) :
      Stage (.evalContextFor backendName) (fillCache clientId ⟨backendName, keys⟩)

theorem stage_body (call : EngineCall) : Stage loader clientId call (call.body loader clientId) := by
  cases call with
  | registerClient keys =>
    show Stage loader clientId _ (registerClient loader clientId keys)
    unfold registerClient
    split
    · exact .finished _ _
    · split
      · exact .finished _ _
      · exact .evicting keys
  | evalContextFor backendName => exact .finding backendName

theorem stage_buildContext (backendName : Bytes) (keys : StatusOr KeyMaterial) :
    Stage loader clientId (.evalContextFor backendName)
      (buildContext loader clientId backendName keys) := by
  unfold buildContext
  split
  · exact .finished _ _
  · split
    · exact .finished _ _
    · rename_i loads
      exact .filling loads

variable {call : EngineCall}

theorem Stage.next {op : SharedOp} {next : op.Answer → EngineIO}
    (stage : Stage loader clientId call (.call op next)) (answer : op.Answer) :
    Stage loader clientId call (next answer) := by
  cases stage with
  | evicting keys => exact .storing keys
  | storing keys => exact .finished _ _
  | finding backendName =>
    rcases answer with _ | context
    · exact .reading backendName
    · exact .finished _ _
  | reading backendName => exact stage_buildContext backendName answer
  | filling => exact .finished _ _

/-- Every running call is at one of its stages. -/
theorem staged {w : Calls ι} {keyring : Finmap fun _ : Bytes => KeyMaterial}
    (moves : Interleaved loader clientId calls (initial ⟨∅, keyring⟩) w) {i : ι} {p : EngineIO}
    (running : w.phase i = .running p) : Stage loader clientId (calls i) p :=
  World.Moves.running (fun i => stage_body (calls i)) (fun _ _ _ stage => stage.next) moves running

/-! ## The steps of a lookup -/

variable {b b' : Bytes} {context : EvalContext} {op : SharedOp} {next : op.Answer → EngineIO}
  {keys : KeyMaterial} {s : Shared}

theorem cacheKey_inj (same : cacheKey clientId b = cacheKey clientId b') : b = b' :=
  (List.cons.inj (List.append_cancel_left same)).2

theorem fillCache_inj {context' : EvalContext}
    (same : fillCache clientId context = fillCache clientId context') : context = context' := by
  injection same with op _
  injection op

/-- A lookup leaves the keyring alone. -/
theorem Stage.keyring (stage : Stage loader clientId (.evalContextFor b) (.call op next))
    (s : Shared) : (Shared.exec op s).2.keyring = s.keyring := by
  cases stage <;> rfl

/-- A lookup writes its own cache entry only, and only by its last step. -/
theorem Stage.cache (stage : Stage loader clientId (.evalContextFor b') (.call op next))
    (s : Shared) : (Shared.exec op s).2.evalCache.lookup (cacheKey clientId b) =
        s.evalCache.lookup (cacheKey clientId b) ∨
      ∃ keys, b' = b ∧ .call op next = fillCache clientId ⟨b, keys⟩ ∧
        (Shared.exec op s).2.evalCache.lookup (cacheKey clientId b) = some ⟨b, keys⟩ := by
  cases stage with
  | finding => exact Or.inl rfl
  | reading => exact Or.inl rfl
  | @filling _ keys _ =>
    by_cases same : b' = b
    · subst same
      exact Or.inr ⟨keys, rfl, rfl, lookup_insert _⟩
    · exact Or.inl (lookup_insert_of_ne _ fun key => same (cacheKey_inj key).symm)

/-- What the next stage is filling was read from the keyring in this step. -/
theorem Stage.filling_next (stage : Stage loader clientId (.evalContextFor b') (.call op next))
    (fills : next (Shared.exec op s).1 = fillCache clientId ⟨b, keys⟩) :
    s.keyring.lookup clientId = some keys := by
  cases stage with
  | finding =>
    rcases found : s.evalCache.lookup (cacheKey clientId b') with _ | context
    · simp only [Shared.exec, found] at fills
      injection fills with op _
      cases op
    · simp only [Shared.exec, found] at fills
      cases fills
  | reading =>
    rcases found : s.keyring.lookup clientId with _ | stored
    · simp only [Shared.exec, found] at fills
      cases fills
    · simp only [Shared.exec, found, buildContext] at fills
      split at fills
      · cases fills
      · exact congrArg some (EvalContext.mk.inj (fillCache_inj fills)).2
  | filling => cases fills

/-! ## After the registration -/

variable (loader clientId calls) in
/-- The keys are stored, and nothing else can reach the cache entry of the backend. -/
structure Fresh (backendName : Bytes) (keys : KeyMaterial) (w : Calls ι) : Prop where
  stored : w.state.keyring.lookup clientId = some keys
  cached : ∀ context, w.state.evalCache.lookup (cacheKey clientId backendName) = some context →
    context = ⟨backendName, keys⟩
  pending : ∀ i other, w.phase i = .running (fillCache clientId ⟨backendName, other⟩) → other = keys
  staged : ∀ i p, w.phase i = .running p → Stage loader clientId (calls i) p
  idle : ∀ i p, (calls i).registers = true → w.phase i ≠ .running p

theorem EngineCall.lookup_of_not_registers (lookup : call.registers ≠ true) :
    ∃ b, call = .evalContextFor b := by
  cases call with
  | registerClient keys => exact absurd rfl lookup
  | evalContextFor b => exact ⟨b, rfl⟩

/-- While no registration starts, lookups keep the entry fresh. -/
theorem Fresh.move {b : Bytes} {keys : KeyMaterial} {w w' : Calls ι}
    (fresh : Fresh loader clientId calls b keys w)
    (move : World.Move Shared.exec (fun i => (calls i).body loader clientId) (fun _ => false) w w')
    (quiet : ∀ i, (calls i).registers = true → w'.phase i = w.phase i) :
    Fresh loader clientId calls b keys w' := by
  cases move with
  | @start i waiting _ =>
    obtain ⟨b', call⟩ : ∃ b', calls i = .evalContextFor b' := by
      refine EngineCall.lookup_of_not_registers fun registers => ?_
      cases ((put_phase_self ..).symm.trans (quiet i registers)).trans waiting
    refine ⟨fresh.stored, fresh.cached, fun j other running => ?_, fun j p running => ?_,
      fun j p registers running => ?_⟩
    · rcases running_put running with ⟨rfl, same⟩ | ⟨_, before⟩
      · rw [call] at same
        injection same with body
        injection body with op _
        cases op
      · exact fresh.pending j other before
    · rcases running_put running with ⟨rfl, same⟩ | ⟨_, before⟩
      · cases same
        exact stage_body (calls j)
      · exact fresh.staged j p before
    · exact fresh.idle j p registers ((quiet j registers).symm.trans running)
  | @step i op next running =>
    have stage := fresh.staged i _ running
    obtain ⟨b', call⟩ := EngineCall.lookup_of_not_registers
      fun registers => fresh.idle i _ registers running
    rw [call] at stage
    refine ⟨(congrArg _ (stage.keyring _)).trans fresh.stored, fun context found => ?_,
      fun j other now => ?_, fun j p now => ?_, fun j p registers now => ?_⟩
    · rcases stage.cache (b := b) w.state with same | ⟨keys', rfl, filling, written⟩
      · exact fresh.cached context (same.symm.trans found)
      · cases fresh.pending i keys' (running.trans (congrArg _ filling))
        exact (Option.some.inj (written.symm.trans found)).symm
    · rcases running_put now with ⟨rfl, same⟩ | ⟨_, before⟩
      · injection same with now
        exact Option.some.inj ((stage.filling_next now).symm.trans fresh.stored)
      · exact fresh.pending j other before
    · rcases running_put now with ⟨rfl, same⟩ | ⟨_, before⟩
      · cases same
        rw [call]
        exact stage.next _
      · exact fresh.staged j p before
    · exact fresh.idle j p registers ((quiet j registers).symm.trans now)
  | @finish i r running =>
    have still : ∀ j p, (w.put i (.returned r) w.state w.holder).phase j = .running p →
        w.phase j = .running p := by
      intro j p now
      rcases running_put now with ⟨_, same⟩ | ⟨_, before⟩
      · cases same
      · exact before
    exact ⟨fresh.stored, fresh.cached, fun j other now => fresh.pending j other (still j _ now),
      fun j p now => fresh.staged j p (still j p now),
      fun j p registers now => fresh.idle j p registers (still j p now)⟩

/-- What a lookup that started after the registration can have come to. -/
inductive OnItsWay (loader : KeyLoader) (clientId b : Bytes) (keys : KeyMaterial) :
    Phase SharedOp SharedOp.Answer (StatusOr EngineReply) → Prop
  | waiting : OnItsWay loader clientId b keys .waiting
  | finding : OnItsWay loader clientId b keys (.running (evalContextFor loader clientId b))
  | reading : OnItsWay loader clientId b keys (.running (readKeys loader clientId b))
  | filling : OnItsWay loader clientId b keys (.running (fillCache clientId ⟨b, keys⟩))
  | finished : OnItsWay loader clientId b keys (.running (.done (.ok (.context ⟨b, keys⟩))))
  | returned : OnItsWay loader clientId b keys (.returned (.ok (.context ⟨b, keys⟩)))

variable {w : Calls ι}

theorem OnItsWay.move {w' : Calls ι} {c : ι} (call : calls c = .evalContextFor b)
    (loads : loader.loadKeys b keys = .ok ()) (fresh : Fresh loader clientId calls b keys w)
    (way : OnItsWay loader clientId b keys (w.phase c))
    (move : World.Move Shared.exec (fun i => (calls i).body loader clientId) (fun _ => false) w w')
    : OnItsWay loader clientId b keys (w'.phase c) := by
  cases move.turn c with
  | still same => exact same ▸ way
  | start _ now =>
    rw [now, call]
    exact .finding
  | step running now _ =>
    rw [running] at way
    rw [now]
    cases way with
    | finding =>
      rcases found : w.state.evalCache.lookup (cacheKey clientId b) with _ | context
      · simp only [Shared.exec, found]
        exact .reading
      · simp only [Shared.exec, found, fresh.cached context found]
        exact .finished
    | reading =>
      simp only [Shared.exec, fresh.stored, buildContext, loads]
      exact .filling
    | filling => exact .finished
  | finish running now =>
    rw [running] at way
    rw [now]
    cases way with
    | finished => exact .returned

/-- Every cached context was built, by its own backend. -/
theorem cached_loads {keyring : Finmap fun _ : Bytes => KeyMaterial}
    (moves : Interleaved loader clientId calls (initial ⟨∅, keyring⟩) w)
    (found : w.state.evalCache.lookup (cacheKey clientId b) = some context) :
    context.backend = b ∧ loader.loadKeys b context.keys = .ok () := by
  induction moves with
  | refl => cases found
  | @tail u u' before move ih =>
    cases move with
    | start _ _ => exact ih found
    | finish _ => exact ih found
    | @step i op next running =>
      have stage := staged before running
      generalize calls i = call at stage
      cases stage with
      | evicting keys =>
        exact ih (Option.filter_eq_some_iff.1 ((lookup_keep _ _ _).symm.trans found)).1
      | storing keys =>
        refine ih (Eq.trans ?_ found)
        simp only [Shared.exec]
        split <;> rfl
      | finding => exact ih found
      | reading => exact ih found
      | @filling b' keys loads =>
        by_cases same : b = b'
        · subst same
          cases (lookup_insert _).symm.trans found
          exact ⟨rfl, loads⟩
        · exact ih ((lookup_insert_of_ne _ fun key => same (cacheKey_inj key)).symm.trans
            found)

theorem registerClient_ne (keys : KeyMaterial) :
    registerClient loader clientId keys ≠ .done (.ok .registered) := by
  unfold registerClient
  split
  · exact nofun
  · split <;> exact nofun

/-- The registration has stored its keys. -/
theorem Reregistered.stored {r : ι} {w₁ w₂ : Calls ι}
    (run : Reregistered loader clientId calls r keys w₁ w₂) :
    w₂.state.keyring.lookup clientId = some keys := by
  obtain ⟨keyring, before⟩ := run.before
  have kept := World.Moves.quiet (fun i => i ≠ r ∧ (calls i).registers = true)
    (fun u => Interleaved loader clientId calls (initial ⟨∅, keyring⟩) u ∧
      ((u.phase r = .running (.done (.ok .registered)) ∨ u.phase r = .returned (.ok .registered)) →
        u.state.keyring.lookup clientId = some keys)) run.during
    (fun i p other => run.alone i p other.2) (fun i other => run.quiet i other.1 other.2)
    ⟨before, fun done => ?_⟩ fun u u' known move _ idle => ⟨known.1.tail move, ?_⟩
  · exact kept.2 (Or.inr run.returned)
  · rw [run.waiting] at done
    rcases done with done | done <;> cases done
  -- only the registration itself can store keys
  cases move with
  | @start i waiting _ =>
    by_cases same : r = i
    · subst same
      rw [put_phase_self, run.call]
      rintro (done | done)
      · injection done with done
        exact absurd done (registerClient_ne keys)
      · cases done
    · rw [put_phase_ne same]
      exact known.2
  | @step i op next running =>
    by_cases same : r = i
    · subst same
      have stage := staged known.1 running
      rw [run.call] at stage
      rw [put_phase_self]
      cases stage with
      | evicting => rintro (done | done) <;> cases done
      | storing =>
        simp only [Shared.exec]
        split
        · rintro (done | done) <;> cases done
        · exact fun _ => lookup_insert _
    · obtain ⟨b, lookup⟩ := EngineCall.lookup_of_not_registers
        fun registers => idle i _ ⟨Ne.symm same, registers⟩ running
      have stage := staged known.1 running
      rw [lookup] at stage
      rw [put_phase_ne same, put_state, stage.keyring]
      exact known.2
  | @finish i result running =>
    by_cases same : r = i
    · subst same
      rw [put_phase_self]
      rintro (done | done)
      · cases done
      · cases done
        exact known.2 (Or.inl running)
    · rw [put_phase_ne same]
      exact known.2

theorem Reregistered.idle {r : ι} {w₁ w₂ : Calls ι}
    (run : Reregistered loader clientId calls r keys w₁ w₂) (i : ι) (p : EngineIO)
    (registers : (calls i).registers = true) : w₂.phase i ≠ .running p := by
  by_cases same : i = r
  · rw [same, run.returned]
    exact nofun
  · rw [run.quiet i same registers]
    exact run.alone i p registers

/-! ## A lookup that is left alone -/

/-- What a lookup returns when nothing happens in between. -/
def lookedUp (loader : KeyLoader) (clientId b : Bytes) (s : Shared) : StatusOr EngineReply :=
  (Prog.run Shared.exec (evalContextFor loader clientId b) s).1

theorem lookedUp_cached (found : s.evalCache.lookup (cacheKey clientId b) = some context) :
    lookedUp loader clientId b s = .ok (.context context) := by
  simp [lookedUp, evalContextFor, Shared.exec, found, useCached]

theorem lookedUp_stored (absent : s.evalCache.lookup (cacheKey clientId b) = none)
    (stored : s.keyring.lookup clientId = some keys) : lookedUp loader clientId b s =
      (loader.loadKeys b keys).map fun _ => .context ⟨b, keys⟩ := by
  simp only [lookedUp, evalContextFor, readKeys, Prog.run_call, Shared.exec, absent, useCached, stored,
    buildContext]
  rcases loader.loadKeys b keys with status | _ <;> rfl

theorem goesOn_lookup {c : ι} (call : calls c = .evalContextFor b) (waiting : w.phase c = .waiting)
    : ∃ w', GoesOn loader clientId calls w w' ∧
      w'.phase c = .returned (lookedUp loader clientId b w.state) := by
  have moves : Interleaved loader clientId calls w _ := moves_call waiting nofun
  refine ⟨_, ⟨moves, fun i registers => put_phase_ne ?_⟩, ?_⟩
  · rintro rfl
    rw [call] at registers
    cases registers
  · rw [put_phase_self, call]
    rfl

/-- A lookup that has read its keys puts its context into the cache. -/
theorem goesOn_fill {i : ι} (lookup : (calls i).registers ≠ true)
    (running : w.phase i = .running (fillCache clientId ⟨b, keys⟩)) :
    ∃ w', GoesOn loader clientId calls w w' ∧ (∀ j, j ≠ i → w'.phase j = w.phase j) ∧
      w'.state.evalCache.lookup (cacheKey clientId b) = some ⟨b, keys⟩ := by
  refine ⟨_, ⟨.single (.step running), fun j registers => put_phase_ne ?_⟩,
    fun j other => put_phase_ne other, lookup_insert _⟩
  rintro rfl
  exact lookup registers

theorem GoesOn.trans {w' w'' : Calls ι} (first : GoesOn loader clientId calls w w')
    (second : GoesOn loader clientId calls w' w'') : GoesOn loader clientId calls w w'' :=
  ⟨first.moves.trans second.moves, fun i registers =>
    (second.quiet i registers).trans (first.quiet i registers)⟩

end Stages

/-- **When a new registration takes effect.**  Let a registration return OK with no other one
beside or after it.  A lookup that starts afterwards returns a context built from the new keys, in
every interleaving, if and only if a context can be built from them, no context of other keys has
come into the cache again, and no lookup under way is still going to put one there. -/
theorem reregistered_iff {ι : Type} [DecidableEq ι] (loader : KeyLoader) (clientId : Bytes)
    (calls : ι → EngineCall) {r c : ι} {keys : KeyMaterial} {b : Bytes} {w₁ w₂ : Calls ι}
    (run : Reregistered loader clientId calls r keys w₁ w₂)
    (call : calls c = .evalContextFor b) (later : w₂.phase c = .waiting) :
    (∀ w₃ result, GoesOn loader clientId calls w₂ w₃ → w₃.phase c = .returned result →
      result = .ok (.context ⟨b, keys⟩)) ↔
    loader.loadKeys b keys = .ok () ∧
    (∀ context, w₂.state.evalCache.lookup (cacheKey clientId b) = some context →
      context.keys = keys) ∧
    ∀ i other, w₂.phase i = .running (fillCache clientId ⟨b, other⟩) → other = keys := by
  obtain ⟨keyring, before⟩ := run.before
  have whole := before.trans run.during
  constructor
  · intro always
    obtain ⟨w₃, goesOn, returned⟩ := goesOn_lookup call later
    have result := always w₃ _ goesOn returned
    refine ⟨?_, fun context found => ?_, fun i other filling => ?_⟩
    · rcases found : w₂.state.evalCache.lookup (cacheKey clientId b) with _ | context
      · rw [lookedUp_stored found run.stored] at result
        rcases loads : loader.loadKeys b keys with status | _
        · rw [loads] at result
          cases result
        · rfl
      · rw [lookedUp_cached found] at result
        cases result
        exact (cached_loads whole found).2
    · rw [lookedUp_cached found] at result
      cases result
      rfl
    · -- let that lookup fill the cache first
      obtain ⟨w', filled, others, cached⟩ := goesOn_fill
        (fun registers => run.idle i _ registers filling) filling
      have other_ : c ≠ i := by
        rintro rfl
        cases later.symm.trans filling
      obtain ⟨w'', goesOn', returned'⟩ := goesOn_lookup call ((others c other_).trans later)
      have result' := always w'' _ (filled.trans goesOn') returned'
      rw [lookedUp_cached cached] at result'
      cases result'
      rfl
  · rintro ⟨loads, cached, pending⟩ w₃ result goesOn returned
    have fresh : Fresh loader clientId calls b keys w₂ := by
      refine ⟨run.stored, fun context found => ?_, pending, fun i p => staged whole, run.idle⟩
      obtain ⟨backend, _⟩ := cached_loads whole found
      rw [← backend, ← cached context found]
    have way := World.Moves.quiet (fun i => (calls i).registers = true)
      (fun w => Fresh loader clientId calls b keys w ∧ OnItsWay loader clientId b keys (w.phase c))
      goesOn.moves fresh.idle goesOn.quiet ⟨fresh, later ▸ .waiting⟩
      fun _ _ known move quiet _ => ⟨known.1.move move quiet, known.2.move call loads known.1 move⟩
    rw [returned] at way
    cases way.2
    rfl

/-- A loader that takes any keys. -/
def anyKeys : KeyLoader :=
  ⟨fun _ => .ok (), fun _ _ => .ok ()⟩

def keysOf (name : String) : KeyMaterial :=
  ⟨bytes name, bytes "relin", bytes "galois"⟩

/-- A registration that is the only one runs to its end and drops the contexts of its client. -/
theorem registers_alone {ι : Type} [DecidableEq ι] {calls : ι → EngineCall} {r : ι} {w : Calls ι}
    {keys : KeyMaterial} (call : calls r = .registerClient keys)
    (before : ∃ keyring, Interleaved anyKeys (bytes "c") calls (initial ⟨∅, keyring⟩) w)
    (waiting : w.phase r = .waiting) (only : ∀ i, i ≠ r → (calls i).registers ≠ true) :
    ∃ w₂, Reregistered anyKeys (bytes "c") calls r keys w w₂ ∧
      (∀ i, i ≠ r → w₂.phase i = w.phase i) ∧
      w₂.state.evalCache = keep (fun key _ => !(bytes "c" ++ [0]).isPrefixOf key) w.state.evalCache := by
  have during : Interleaved anyKeys (bytes "c") calls w _ := moves_call waiting nofun
  rw [call] at during
  refine ⟨_, ⟨call, before, waiting, fun i p registers running => ?_, during,
    fun i other _ => put_phase_ne other, put_phase_self ..⟩, fun i other => put_phase_ne other, rfl⟩
  by_cases own : i = r
  · cases waiting.symm.trans (own ▸ running)
  · exact only i own registers

/-- With nobody else about, a registration takes effect over a cached context of the old keys. -/
theorem reregistered_alone :
    let calls : Fin 3 → EngineCall := fun i =>
      if i = 1 then .registerClient (keysOf "new") else .evalContextFor (bytes "reference")
    ∃ w₁ w₂, w₁.state.evalCache.lookup (cacheKey (bytes "c") (bytes "reference")) =
        some ⟨bytes "reference", keysOf "old"⟩ ∧
      Reregistered anyKeys (bytes "c") calls 1 (keysOf "new") w₁ w₂ ∧ w₂.phase 2 = .waiting ∧
      ∀ w₃ result, GoesOn anyKeys (bytes "c") calls w₂ w₃ → w₃.phase 2 = .returned result →
        result = .ok (.context ⟨bytes "reference", keysOf "new"⟩) := by
  intro calls
  let old : Shared := { keyring := singleton (bytes "c") (keysOf "old") }
  let context : EvalContext := ⟨bytes "reference", keysOf "old"⟩
  let cached : Shared := ⟨insert (cacheKey (bytes "c") context.backend) context ∅, old.keyring⟩
  let w₁ : Calls (Fin 3) := (initial old).put 0 (.returned (.ok (.context context))) cached none
  have before : Interleaved anyKeys (bytes "c") calls (initial old) w₁ := moves_call (i := 0) rfl nofun
  obtain ⟨w₂, run, still, left⟩ : ∃ w₂, Reregistered anyKeys (bytes "c") calls 1 (keysOf "new") w₁ w₂ ∧
      _ ∧ _ := registers_alone rfl ⟨_, before⟩ rfl (by decide)
  have waiting : w₂.phase 2 = .waiting := still 2 (by decide)
  refine ⟨w₁, w₂, lookup_insert _, run, waiting,
    (reregistered_iff anyKeys (bytes "c") calls run rfl waiting).2 ⟨rfl, ?_, ?_⟩⟩
  · intro context found
    rw [left, lookup_keep] at found
    exact absurd (Option.filter_eq_some_iff.1 found).2 (by decide)
  · intro i other filling
    by_cases own : i = 1
    · subst own
      cases run.returned.symm.trans filling
    · have idle : w₁.phase i = _ := (still i own).symm.trans filling
      by_cases first : i = 0
      · subst first
        cases idle
      · cases (put_phase_ne first).symm.trans idle

/-- A lookup reads the old keys, a registration drops the cached contexts and stores the new
keys, the lookup puts its context into the cache: the next lookup gets the old keys' context. -/
theorem stale_context :
    let calls : Fin 3 → EngineCall := fun i =>
      if i = 1 then .registerClient (keysOf "new") else .evalContextFor (bytes "reference")
    ∃ w₁ w₂ w₃, Reregistered anyKeys (bytes "c") calls 1 (keysOf "new") w₁ w₂ ∧
      w₂.phase 2 = .waiting ∧ GoesOn anyKeys (bytes "c") calls w₂ w₃ ∧
      w₃.phase 2 = .returned (.ok (.context ⟨bytes "reference", keysOf "old"⟩)) := by
  intro calls
  let old : Shared := { keyring := singleton (bytes "c") (keysOf "old") }
  let w₀ : Calls (Fin 3) := initial old
  let reads : Calls (Fin 3) :=
    w₀.put 0 (.running (fillCache (bytes "c") ⟨bytes "reference", keysOf "old"⟩)) old none
  have quiet : ∀ i, i ≠ 1 → (calls i).registers ≠ true := by decide
  have before : Interleaved anyKeys (bytes "c") calls w₀ reads := by
    have finds : Interleaved anyKeys (bytes "c") calls w₀ _ :=
      moves_first (i := 0) rfl (fun _ => rfl) rfl
    have found : Interleaved anyKeys (bytes "c") calls _ _ :=
      finds.tail (.step (put_phase_self ..))
    simp only [put_put] at found
    exact found
  obtain ⟨w₂, run, still, _⟩ : ∃ w₂, Reregistered anyKeys (bytes "c") calls 1 (keysOf "new") reads w₂ ∧
      _ ∧ _ := registers_alone rfl ⟨_, before⟩ rfl quiet
  have filling : w₂.phase 0 = .running (fillCache (bytes "c") ⟨bytes "reference", keysOf "old"⟩) :=
    still 0 (by decide)
  obtain ⟨w', fills, others, cached⟩ : ∃ w', GoesOn anyKeys (bytes "c") calls w₂ w' ∧ _ ∧ _ :=
    goesOn_fill (quiet 0 (by decide)) filling
  have waiting : w₂.phase 2 = .waiting := still 2 (by decide)
  obtain ⟨w₃, goesOn, result⟩ : ∃ w₃, GoesOn anyKeys (bytes "c") calls w' w₃ ∧ w₃.phase 2 = _ :=
    goesOn_lookup rfl ((others 2 (by decide)).trans waiting)
  rw [lookedUp_cached cached] at result
  exact ⟨reads, w₂, w₃, run, waiting, fills.trans goesOn, result⟩

end OpaqueDb.Server.EvalCache
