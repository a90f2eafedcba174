/-
# Server.Fairness -- one principal does not use up the others' requests

Each principal has a token bucket, and one bucket of 64 times its size and rate stands behind
them all.  Counted from full, a bucket is a level that leaks away: an admitted request adds
one to its principal's level and to the common one, and the common one leaks at least as fast
as those of 64 principals together.  So it never holds more than they do (`Covers`), and a
principal that has a token left is admitted (`not_starved`).  What the others ask for then makes
no difference to it (`admission_is_own`).
-/
import OpaqueDb.Server.RequestGate
import OpaqueDb.Theory.LeakyBuckets
import Mathlib.Algebra.BigOperators.Group.Finset.Piecewise

namespace OpaqueDb.Server

open OpaqueDb.Core Auth Theory List Server.RateLimiter Server.RequestGate

set_option autoImplicit false

/-! ## Buckets as levels -/

namespace RateLimiter

variable (limiter : RateLimiter)

/-- The tokens in the bucket at a time. -/
def held (now : Rat) : Rat :=
  min limiter.burst (limiter.tokens + (now - limiter.last) * limiter.rate)

/-- What is missing to a full bucket. -/
def level (now : Rat) : Rat :=
  limiter.burst - limiter.held now

variable {limiter}

variable (now : Rat)

theorem level_eq : limiter.level now =
    max 0 (limiter.burst - (limiter.tokens + (now - limiter.last) * limiter.rate)) := by
  rw [level, held]
  rcases le_total limiter.burst (limiter.tokens + (now - limiter.last) * limiter.rate) with
    full | short
  · rw [min_eq_left full, max_eq_left (by linarith), sub_self]
  · rw [min_eq_right short, max_eq_right (by linarith)]

theorem level_nonneg : 0 ≤ limiter.level now := by
  rw [level_eq]
  exact le_max_left _ _

/-- A bucket's level leaks at its rate. -/
theorem level_later (flows : 0 ≤ limiter.rate) {now later : Rat} (after : now ≤ later) :
    limiter.level later = leak limiter.rate (later - now) (limiter.level now) := by
  have lost : 0 ≤ (later - now) * limiter.rate := mul_nonneg (sub_nonneg.2 after) flows
  rw [leak, level_eq, level_eq]
  rcases le_total 0 (limiter.burst - (limiter.tokens + (now - limiter.last) * limiter.rate)) with
    some_ | none_
  · rw [max_eq_right some_]
    congr 1
    linarith
  · rw [max_eq_left none_, max_eq_left (by linarith), max_eq_left (by linarith)]

theorem level_new (tokensPerSecond burst now : Rat) :
    (new tokensPerSecond burst now).level now = 0 := by
  rw [level_eq]
  simp [new]

/-- The bucket after a request. -/
theorem tryAcquire_eq : limiter.tryAcquire now =
    if limiter.held now < 1 then (false, ⟨limiter.rate, limiter.burst, limiter.held now, now⟩)
    else (true, ⟨limiter.rate, limiter.burst, limiter.held now - 1, now⟩) := by
  rfl

theorem tryAcquire_rate : (limiter.tryAcquire now).2.rate = limiter.rate := by
  rw [tryAcquire_eq]
  split_ifs <;> rfl

theorem tryAcquire_burst : (limiter.tryAcquire now).2.burst = limiter.burst := by
  rw [tryAcquire_eq]
  split_ifs <;> rfl

theorem tryAcquire_eq_false : (limiter.tryAcquire now).1 = false ↔ limiter.held now < 1 := by
  rw [tryAcquire_eq]
  split_ifs with empty <;> simp [empty]

theorem level_refilled {rate burst tokens : Rat} (fits : tokens ≤ burst) (now : Rat) :
    (mk rate burst tokens now).level now = burst - tokens := by
  rw [level, held, sub_self, zero_mul, add_zero, min_eq_right fits]

/-- An admitted request adds one to the level. -/
theorem tryAcquire_level : (limiter.tryAcquire now).2.level now =
    limiter.level now + if (limiter.tryAcquire now).1 then 1 else 0 := by
  have full : limiter.held now ≤ limiter.burst := min_le_left _ _
  rw [tryAcquire_eq]
  by_cases empty : limiter.held now < 1
  · simp only [if_pos empty, level_refilled full, Bool.false_eq_true, if_false, add_zero]
    rfl
  · have less : limiter.held now - 1 ≤ limiter.burst := by linarith
    simp only [if_neg empty, level_refilled less, if_true]
    rw [level]
    ring

end RateLimiter

/-! ## The common bucket covers the principals' -/

namespace RequestGate

/-- What is missing in a principal's bucket; nothing before its first request. -/
def levelOf (gate : RequestGate) (principalId : Bytes) (now : Rat) : Rat :=
  (gate.limiterOf principalId now).level now

/-- The buckets have the gate's rate and burst, and the common one misses no more than those of
the principals together. -/
structure Covers (rate burst : Rat) (principals : Finset Bytes) (gate : RequestGate) (now : Rat) :
    Prop where
  gateRate : gate.rate = rate
  gateBurst : gate.burst = burst
  own : ∀ principalId limiter, gate.limiters.lookup principalId = some limiter →
    limiter.rate = rate ∧ limiter.burst = burst
  globalRate : gate.global.rate = kGlobalBurstMultiple * rate
  globalBurst : gate.global.burst = kGlobalBurstMultiple * burst
  bounded : ∀ principalId, gate.levelOf principalId now ≤ burst
  covered : gate.global.level now ≤ ∑ principalId ∈ principals, gate.levelOf principalId now

section Covers

variable {rate burst : Rat} {principals : Finset Bytes} {gate : RequestGate} {now : Rat}

theorem covers_new (authenticator : Authenticator) (tokensPerSecond burst : Nat) (now : Rat) :
    Covers tokensPerSecond burst principals (.new authenticator tokensPerSecond burst now) now := by
  have full : ∀ principalId,
      (new authenticator tokensPerSecond burst now).levelOf principalId now = 0 := by
    intro principalId
    exact level_new _ _ now
  refine ⟨rfl, rfl, ?_, mul_comm _ _, mul_comm _ _, ?_, ?_⟩
  · intro principalId limiter known
    cases known
  · intro principalId
    rw [full]
    exact Nat.cast_nonneg burst
  · rw [Finset.sum_congr rfl fun principalId _ => full principalId, Finset.sum_const_zero]
    exact (level_new _ _ now).le

section

variable (covers : Covers rate burst principals gate now)
include covers

theorem Covers.limiterOf (principalId : Bytes) (time : Rat) :
    (gate.limiterOf principalId time).rate = rate ∧
      (gate.limiterOf principalId time).burst = burst := by
  rw [RequestGate.limiterOf]
  rcases known : gate.limiters.lookup principalId with _ | limiter
  · exact ⟨covers.gateRate, covers.gateBurst⟩
  · exact covers.own principalId limiter known

/-- Every principal's level leaks at the common rate. -/
theorem Covers.levelOf_later (flows : 0 ≤ rate) {later : Rat} (after : now ≤ later)
    (principalId : Bytes) :
    gate.levelOf principalId later = leak rate (later - now) (gate.levelOf principalId now) := by
  rw [levelOf, levelOf, RequestGate.limiterOf, RequestGate.limiterOf]
  rcases known : gate.limiters.lookup principalId with _ | limiter
  · rw [Option.getD_none, Option.getD_none, level_new, level_new, leak, max_eq_left]
    have lost := mul_nonneg (sub_nonneg.2 after) flows
    linarith
  · obtain ⟨same, _⟩ := covers.own principalId limiter known
    rw [Option.getD_some, Option.getD_some, level_later (same ▸ flows) after, same]

/-- Time passes. -/
theorem Covers.later (flows : 0 ≤ rate) (few : principals.card ≤ 64) {later : Rat}
    (after : now ≤ later) : Covers rate burst principals gate later := by
  have since : 0 ≤ later - now := sub_nonneg.2 after
  refine ⟨covers.gateRate, covers.gateBurst, covers.own, covers.globalRate, covers.globalBurst, ?_, ?_⟩
  · intro principalId
    rw [covers.levelOf_later flows after]
    exact (leak_le flows since (level_nonneg now)).trans (covers.bounded principalId)
  · have common : 0 ≤ gate.global.rate := by
      rw [covers.globalRate]
      exact mul_nonneg (by decide) flows
    rw [level_later common after, covers.globalRate,
      Finset.sum_congr rfl fun principalId _ => covers.levelOf_later flows after principalId]
    exact (leak_mono covers.covered).trans (leak_sum_le few flows since _)

end

/-- The principal's bucket when it has been asked. -/
def asked (gate : RequestGate) (principalId : Bytes) (now : Rat) : Bool × RateLimiter :=
  (gate.limiterOf principalId now).tryAcquire now

variable (principalId : Bytes)

theorem admits_eq : gate.admits principalId now =
    if (gate.asked principalId now).1 then ((gate.global.tryAcquire now).1,
      { gate with
        limiters := gate.limiters.insert principalId (gate.asked principalId now).2,
        global := (gate.global.tryAcquire now).2 })
    else (false, { gate with
      limiters := gate.limiters.insert principalId (gate.asked principalId now).2 }) := by
  rfl

theorem admits_limiters : (gate.admits principalId now).2.limiters =
    gate.limiters.insert principalId (gate.asked principalId now).2 := by
  rw [admits_eq]
  split_ifs <;> rfl

theorem admits_rate : (gate.admits principalId now).2.rate = gate.rate := by
  rw [admits_eq]
  split_ifs <;> rfl

theorem admits_burst : (gate.admits principalId now).2.burst = gate.burst := by
  rw [admits_eq]
  split_ifs <;> rfl

/-- The common bucket is asked only after the principal's own one has admitted the request. -/
theorem admits_global : (gate.admits principalId now).2.global =
    if (gate.asked principalId now).1 then (gate.global.tryAcquire now).2
    else gate.global := by
  rw [admits_eq]
  split_ifs <;> rfl

theorem admits_levelOf (other : Bytes) :
    (gate.admits principalId now).2.levelOf other now = gate.levelOf other now +
      if other = principalId ∧ (gate.asked principalId now).1 then 1 else 0 := by
  rw [levelOf, RequestGate.limiterOf, admits_limiters, admits_rate, admits_burst]
  by_cases same : other = principalId
  · subst same
    rw [Finmap.lookup_insert, Option.getD_some, asked, tryAcquire_level, levelOf]
    simp
  · rw [Finmap.lookup_insert_of_ne _ same, if_neg fun both => same both.1, add_zero]
    rfl

variable (covers : Covers rate burst principals gate now)
include covers

/-- A request. -/
theorem Covers.admits {principalId : Bytes} (among : principalId ∈ principals) :
    Covers rate burst principals (gate.admits principalId now).2 now := by
  obtain ⟨sameRate, sameBurst⟩ := covers.limiterOf principalId now
  refine ⟨?_, ?_, ?_, ?_, ?_, ?_, ?_⟩
  · rw [admits_rate, covers.gateRate]
  · rw [admits_burst, covers.gateBurst]
  · intro other limiter known
    rw [admits_limiters] at known
    by_cases same : other = principalId
    · subst same
      rw [Finmap.lookup_insert] at known
      cases known
      rw [asked, tryAcquire_rate, tryAcquire_burst]
      exact ⟨sameRate, sameBurst⟩
    · rw [Finmap.lookup_insert_of_ne _ same] at known
      exact covers.own other limiter known
  · rw [admits_global]
    split_ifs
    · rw [tryAcquire_rate, covers.globalRate]
    · exact covers.globalRate
  · rw [admits_global]
    split_ifs
    · rw [tryAcquire_burst, covers.globalBurst]
    · exact covers.globalBurst
  · intro other
    rw [admits_levelOf]
    split_ifs with spent
    · -- a bucket that gives a token held one
      obtain ⟨rfl, admitted⟩ := spent
      have some_ : ¬ (gate.limiterOf other now).held now < 1 := by
        rw [← tryAcquire_eq_false]
        exact ne_true_of_eq_false.mt (not_not.2 admitted)
      rw [levelOf, level]
      linarith
    · rw [add_zero]
      exact covers.bounded other
  · rw [Finset.sum_congr rfl fun other _ => admits_levelOf principalId other,
      Finset.sum_add_distrib, admits_global]
    by_cases admitted : (gate.asked principalId now).1 = true
    · have one : (∑ other ∈ principals, if other = principalId ∧
          (gate.asked principalId now).1 = true then (1 : Rat) else 0) = 1 := by
        simp only [admitted, and_true]
        rw [Finset.sum_ite_eq', if_pos among]
      rw [if_pos admitted, tryAcquire_level]
      have covered := covers.covered
      split_ifs <;> linarith
    · have none_ : (∑ other ∈ principals, if other = principalId ∧
          (gate.asked principalId now).1 = true then (1 : Rat) else 0) = 0 := by
        simp [admitted]
      rw [if_neg admitted, none_, add_zero]
      exact covers.covered

/-- With a token of its own left, a principal finds one in the common bucket. -/
theorem Covers.admitted (few : principals.card ≤ 64) {principalId : Bytes}
    (among : principalId ∈ principals) (some_ : 1 ≤ (gate.limiterOf principalId now).held now) :
    (gate.admits principalId now).1 = true := by
  obtain ⟨_, sameBurst⟩ := covers.limiterOf principalId now
  have own : (gate.asked principalId now).1 = true := by
    rw [← Bool.not_eq_false, asked, tryAcquire_eq_false]
    exact not_lt.2 some_
  have positive : 0 ≤ burst := (level_nonneg now).trans (covers.bounded principalId)
  have mine : gate.levelOf principalId now ≤ burst - 1 := by
    rw [levelOf, level]
    linarith
  have others : ∑ other ∈ principals.erase principalId, gate.levelOf other now ≤ 63 * burst := by
    have each := Finset.sum_le_card_nsmul (principals.erase principalId)
      (fun other => gate.levelOf other now) burst fun other _ => covers.bounded other
    have fewer : (principals.erase principalId).card ≤ 63 := by
      rw [Finset.card_erase_of_mem among]
      omega
    exact each.trans (mul_le_mul_of_nonneg_right (by exact_mod_cast fewer) positive)
  have total := Finset.add_sum_erase principals (fun other => gate.levelOf other now) among
  have common : ¬ gate.global.held now < 1 := by
    have covered := covers.covered
    rw [level, covers.globalBurst, kGlobalBurstMultiple] at covered
    linarith
  rw [admits_eq, if_pos own, ← Bool.not_eq_false, tryAcquire_eq_false]
  exact common

/-- So the principal's own bucket decides. -/
theorem Covers.admits_fst (few : principals.card ≤ 64) {principalId : Bytes}
    (among : principalId ∈ principals) :
    (gate.admits principalId now).1 = (gate.asked principalId now).1 := by
  rcases own : (gate.asked principalId now).1 with _ | _
  · rw [admits_eq, own]
    rfl
  · refine covers.admitted few among (not_lt.1 fun empty => ?_)
    rw [asked, (tryAcquire_eq_false _).2 empty] at own
    cases own

end Covers

/-! ## Any sequence of requests -/

/-- The gate after requests of these principals at these times. -/
def run (gate : RequestGate) (calls : List (Bytes × Rat)) : RequestGate :=
  calls.foldl (fun gate call => (gate.admits call.1 call.2).2) gate

theorem Covers.run {rate burst : Rat} {principals : Finset Bytes} {gate : RequestGate} {start : Rat}
    (covers : Covers rate burst principals gate start) (flows : 0 ≤ rate)
    (few : principals.card ≤ 64) {calls : List (Bytes × Rat)}
    (among : ∀ call ∈ calls, call.1 ∈ principals) {now : Rat}
    (clock : (start :: (calls.map Prod.snd ++ [now])).Pairwise (· ≤ ·)) :
    Covers rate burst principals (gate.run calls) now := by
  induction calls generalizing gate start with
  | nil => exact covers.later flows few (rel_of_pairwise_cons clock (mem_singleton_self _))
  | cons call calls ih =>
    have after : start ≤ call.2 := rel_of_pairwise_cons clock mem_cons_self
    have admitted := (covers.later flows few after).admits (among call mem_cons_self)
    exact ih admitted (fun other member => among other (mem_cons_of_mem _ member))
      (pairwise_cons.1 clock).2

/-- **Only an empty bucket of its own keeps a principal out.**  Whatever at most 64 principals
have asked for, at any times of a clock that does not run back, a request is refused exactly when
its principal's own bucket holds less than one token. -/
theorem not_starved (authenticator : Authenticator) (tokensPerSecond burst : Nat) (start : Rat)
    (calls : List (Bytes × Rat)) (principalId : Bytes) (now : Rat)
    (clock : (start :: (calls.map Prod.snd ++ [now])).Pairwise (· ≤ ·))
    (few : (principalId :: calls.map Prod.fst).toFinset.card ≤ 64) :
    (((new authenticator tokensPerSecond burst start).run calls).admits
        principalId now).1 = false ↔
      (((new authenticator tokensPerSecond burst start).run calls).limiterOf
        principalId now).held now < 1 := by
  have among : ∀ call ∈ calls, call.1 ∈ (principalId :: calls.map Prod.fst).toFinset := by
    intro call member
    exact mem_toFinset.2 (mem_cons_of_mem _ (mem_map_of_mem member))
  have covers := (covers_new authenticator tokensPerSecond burst start).run
    (Nat.cast_nonneg tokensPerSecond) few among clock
  constructor
  · intro refused
    by_contra some_
    rw [covers.admitted few (mem_toFinset.2 mem_cons_self) (not_lt.1 some_)] at refused
    cases refused
  · intro empty
    rw [← tryAcquire_eq_false] at empty
    rw [admits_eq, asked, empty]
    rfl

/-- With one token a second, the request half a second after the first one is refused for the
principal's own bucket, and that of another principal is not. -/
theorem own_bucket_refuses :
    (((new .none 1 1 0).run [(bytes "a", 0)]).admits (bytes "a") (1 / 2)).1 = false ∧
    ¬ (((new .none 1 1 0).run [(bytes "a", 0)]).admits (bytes "b") (1 / 2)).1 =
      false := by
  constructor
  · rw [not_starved .none 1 1 0 [(bytes "a", 0)] (bytes "a") (1 / 2) (by decide +kernel)
      (by decide +kernel)]
    decide +kernel
  · rw [not_starved .none 1 1 0 [(bytes "a", 0)] (bytes "b") (1 / 2) (by decide +kernel)
      (by decide +kernel)]
    decide +kernel

/-! ## What the others ask for -/

/-- A principal's bucket is what its own requests have left of it. -/
theorem run_limiterOf {gate gate' : RequestGate} (principalId : Bytes) (rate : gate.rate = gate'.rate)
    (burst : gate.burst = gate'.burst)
    (own : gate.limiters.lookup principalId = gate'.limiters.lookup principalId)
    (calls : List (Bytes × Rat)) (now : Rat) : (gate.run calls).limiterOf principalId now =
      (gate'.run (calls.filter (·.1 = principalId))).limiterOf principalId now := by
  induction calls generalizing gate gate' with
  | nil => simp only [run, filter_nil, foldl_nil, limiterOf, rate, burst, own]
  | cons call calls ih =>
    by_cases same : call.1 = principalId
    · rw [filter_cons_of_pos (by simpa using same)]
      refine ih ?_ ?_ ?_
      · rw [admits_rate, admits_rate, rate]
      · rw [admits_burst, admits_burst, burst]
      · rw [admits_limiters, admits_limiters, same, Finmap.lookup_insert, Finmap.lookup_insert, asked,
          asked, limiterOf, limiterOf, rate, burst, own]
    · rw [filter_cons_of_neg (by simpa using same)]
      refine ih ((admits_rate _).trans rate) ((admits_burst _).trans burst) ?_
      rw [admits_limiters, Finmap.lookup_insert_of_ne _ (Ne.symm same), own]

/-- **A principal is admitted as if it were alone.**  Whatever at most 64 principals have asked for,
at any times of a clock that does not run back, a request is admitted exactly if it were without
the requests of the others. -/
theorem admission_is_own (authenticator : Authenticator) (tokensPerSecond burst : Nat) (start : Rat)
    (calls : List (Bytes × Rat)) (principalId : Bytes) (now : Rat)
    (clock : (start :: (calls.map Prod.snd ++ [now])).Pairwise (· ≤ ·))
    (few : (principalId :: calls.map Prod.fst).toFinset.card ≤ 64) :
    (((new authenticator tokensPerSecond burst start).run calls).admits principalId now).1 =
      (((new authenticator tokensPerSecond burst start).run
        (calls.filter (·.1 = principalId))).admits principalId now).1 := by
  have among : principalId ∈ (principalId :: calls.map Prod.fst).toFinset :=
    mem_toFinset.2 mem_cons_self
  have covers := fun (part : List (Bytes × Rat)) (inside : part.Sublist calls) =>
    (covers_new authenticator tokensPerSecond burst start).run (Nat.cast_nonneg tokensPerSecond) few
      (fun call member => mem_toFinset.2 (mem_cons_of_mem _ (mem_map_of_mem (inside.subset member))))
      (clock.sublist (((inside.map _).append_right _).cons_cons _))
  rw [(covers calls (.refl _)).admits_fst few among, (covers _ filter_sublist).admits_fst few among,
    asked, asked, run_limiterOf principalId rfl rfl rfl]

/-- With one token a second, what `b` asks for does not keep `a` out half a second later. -/
theorem admission_is_own_two :
    (((new .none 1 1 0).run [(bytes "b", 0), (bytes "b", 0)]).admits (bytes "a") (1 / 2)).1 =
      (((new .none 1 1 0).run []).admits (bytes "a") (1 / 2)).1 :=
  admission_is_own .none 1 1 0 [(bytes "b", 0), (bytes "b", 0)] (bytes "a") (1 / 2) (by decide +kernel)
    (by decide +kernel)

end RequestGate

end OpaqueDb.Server
