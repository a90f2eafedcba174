/-
# Server.RequestGate -- admission of a request

Every request of a client passes the gate: the authenticator names the principal, the
principal's token bucket and the bucket of all principals together admit it.  A caller that
is not authorized does not reach the buckets.
-/
import OpaqueDb.Auth.Authenticators
import Mathlib.Data.Finmap

namespace OpaqueDb.Server

open OpaqueDb.Core Auth

set_option autoImplicit false

/-! ## What the transport knows of a caller -/

/-- The `authorization` header of a request and the identities its certificate was verified for. -/
structure ServerContext where
  authorization : Option Bytes := none
  peerIdentity : List Bytes := []
  deriving DecidableEq, Repr

def kBearer : Bytes := bytes "Bearer "

def extractAuthInputs (context : ServerContext) : AuthInputs where
  bearerToken := context.authorization.bind fun value =>
    if value.length > kBearer.length ∧ value.take kBearer.length = kBearer then
      some (value.drop kBearer.length) else none
  peerIdentity := context.peerIdentity.head?

/-! ## Token buckets -/

/-- A token bucket; the source's floating-point numbers are exact here. -/
structure RateLimiter where
  rate : Rat
  burst : Rat
  tokens : Rat
  last : Rat

namespace RateLimiter

def new (tokensPerSecond burst now : Rat) : RateLimiter :=
  ⟨tokensPerSecond, burst, burst, now⟩

/-- One request, after the refill for the time that has passed. -/
def tryAcquire (limiter : RateLimiter) (now : Rat) : Bool × RateLimiter :=
  let tokens := min limiter.burst (limiter.tokens + (now - limiter.last) * limiter.rate)
  if tokens < 1 then (false, { limiter with tokens, last := now })
  else (true, { limiter with tokens := tokens - 1, last := now })

end RateLimiter

/-! ## The gate -/

structure RequestGate where
  authenticator : Authenticator
  rate : Rat
  burst : Rat
  limiters : Finmap fun _ : Bytes => RateLimiter := ∅
  global : RateLimiter

def kGlobalBurstMultiple : Rat := 64

def rateLimitExceeded : Status :=
  ⟨.resourceExhausted, bytes "rate limit exceeded"⟩

namespace RequestGate

def new (authenticator : Authenticator) (tokensPerSecond burst : Nat) (now : Rat) : RequestGate where
  authenticator
  rate := tokensPerSecond
  burst := burst
  global := .new (tokensPerSecond * kGlobalBurstMultiple) (burst * kGlobalBurstMultiple) now

/-- The principal's bucket, made at its first request. -/
def limiterOf (gate : RequestGate) (principalId : Bytes) (now : Rat) : RateLimiter :=
  (gate.limiters.lookup principalId).getD (.new gate.rate gate.burst now)

/-- The principal's bucket first, then the one of all; both must admit. -/
def admits (gate : RequestGate) (principalId : Bytes) (now : Rat) : Bool × RequestGate :=
  let (admitted, limiter) := (gate.limiterOf principalId now).tryAcquire now
  let gate := { gate with limiters := gate.limiters.insert principalId limiter }
  if admitted then
    let (admitted, global) := gate.global.tryAcquire now
    (admitted, { gate with global })
  else (false, gate)

def check (gate : RequestGate) (inputs : AuthInputs) (required : Role) (now : Rat) :
    StatusOr Principal × RequestGate :=
  match authorize gate.authenticator inputs required with
  | .error status => (.error status, gate)
  | .ok principal =>
    let (admitted, gate) := gate.admits principal.id now
    (if admitted then .ok principal else .error rateLimitExceeded, gate)

variable {gate : RequestGate} {inputs : AuthInputs} {required : Role} {now : Rat}

/-- A caller that is not authorized leaves the gate as it was. -/
theorem check_of_error {status : Status}
    (refused : authorize gate.authenticator inputs required = .error status) :
    gate.check inputs required now = (.error status, gate) := by
  simp only [check, refused]

theorem authorize_of_check {principal : Principal}
    (passed : (gate.check inputs required now).1 = .ok principal) :
    authorize gate.authenticator inputs required = .ok principal := by
  rcases known : authorize gate.authenticator inputs required with status | found
  · rw [check_of_error known] at passed
    cases passed
  · simp only [check, known] at passed
    split at passed
    · exact passed
    · cases passed

end RequestGate

end OpaqueDb.Server
