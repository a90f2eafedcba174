/-
# Auth.Authenticators -- who a caller is

A caller presents a bearer token, a certificate the transport has verified, both or
neither.  The configured authenticator makes a principal of it: the token authenticator
compares the token with every entry of its file, the certificate authenticator takes the
verified identity, and the open one takes everybody.  `authorize` then asks for the role.
-/
import OpaqueDb.Config.Validate

namespace OpaqueDb.Auth

open OpaqueDb.Core Config List

set_option autoImplicit false

inductive Role where
  | query
  | admin
  deriving DecidableEq, Repr

def parseRole (text : Bytes) : StatusOr Role :=
  if text = bytes "query" then .ok .query
  else if text = bytes "admin" then .ok .admin
  else .error (invalidArgument ["unknown role '", text, "'"])

structure Principal where
  id : Bytes
  role : Role
  deriving DecidableEq, Repr

/-- What a caller presented. -/
structure AuthInputs where
  bearerToken : Option Bytes := none
  peerIdentity : Option Bytes := none
  deriving DecidableEq, Repr

/-! ## Tokens -/

/-- Every byte is compared, whatever the ones before it were. -/
def constantTimeEquals (a b : Bytes) : Bool :=
  a.length == b.length && (a.zip b).foldl (fun diff pair => diff ||| (pair.1 ^^^ pair.2)) 0 == 0

structure Entry where
  id : Bytes
  role : Role
  token : Bytes
  deriving DecidableEq, Repr

structure Known where
  token : Bytes
  principal : Principal
  deriving DecidableEq, Repr

def known (entry : Entry) : StatusOr Known :=
  if entry.id.isEmpty || entry.token.isEmpty then
    .error (invalidArgument ["token entry has empty id or token"])
  else .ok ⟨entry.token, ⟨entry.id, entry.role⟩⟩

def fromEntries (entries : List Entry) : StatusOr (List Known) :=
  entries.mapM known

/-- The fields of a line, between spaces and tabs. -/
def tokenFields (line : Bytes) : List Bytes :=
  strSplitSkipEmpty 32 (line.map fun c => if c = 9 then 32 else c)

def tokenLine (lineNo : Nat) (line : Bytes) : StatusOr (Option Entry) :=
  let trimmed := stripAsciiWhitespace line
  if trimmed.isEmpty || trimmed.head? == some 35 then .ok none
  else
    match tokenFields trimmed with
    | [id, role, token] =>
      match parseRole role with
      | .ok role => .ok (some ⟨id, role, token⟩)
      | .error status => .error (invalidArgument
          ["token file line ", dec lineNo, ": ", status.message])
    | _ => .error (invalidArgument
        ["token file line ", dec lineNo, ": expected 'id role token'"])

def tokenLines : Nat → List Bytes → StatusOr (List Entry)
  | _, [] => .ok []
  | lineNo, line :: rest => do
    let entry ← tokenLine lineNo line
    let entries ← tokenLines (lineNo + 1) rest
    return entry.toList ++ entries

/-- The tokens of a file; `lines` are its lines, if it can be opened. -/
def fromFile (path : Bytes) (lines : Option (List Bytes)) : StatusOr (List Known) :=
  match lines with
  | none => .error ⟨.notFound, strCat ["cannot open token file '", path, "'"]⟩
  | some lines => do
    let entries ← tokenLines 1 lines
    fromEntries entries

/-! ## The authenticators -/

inductive Authenticator where
  | token (tokens : List Known)
  | mtls (adminIdentities : List Bytes)
  | none
  deriving DecidableEq, Repr

/-- The principal of the last entry with this token. -/
def findToken (tokens : List Known) (token : Bytes) : Option Principal :=
  tokens.foldl (fun found entry =>
    if constantTimeEquals token entry.token then some entry.principal else found) .none

variable (authenticator : Authenticator) (inputs : AuthInputs)

def authenticate : StatusOr Principal :=
  match authenticator with
  | .token tokens =>
    match inputs.bearerToken.filter fun token => !token.isEmpty with
    | .none => .error ⟨.unauthenticated, bytes "no bearer token presented"⟩
    | some token =>
      match findToken tokens token with
      | .none => .error ⟨.unauthenticated, bytes "token not recognized"⟩
      | some principal => .ok principal
  | .mtls adminIdentities =>
    match inputs.peerIdentity.filter fun identity => !identity.isEmpty with
    | .none => .error ⟨.unauthenticated, bytes "no verified client certificate identity"⟩
    | some identity => .ok ⟨identity, if adminIdentities.contains identity then .admin else .query⟩
  | .none => .ok ⟨bytes "anonymous", .query⟩

def makeAuthenticator (config : AuthConfig) (tokenLines : Option (List Bytes)) :
    StatusOr Authenticator :=
  match config.mode with
  | .token => do
    let tokens ← fromFile config.tokenFile tokenLines
    return .token tokens
  | .mtls => .ok (.mtls config.adminIdentities)
  | .none =>
    if config.enableInsecure then .ok .none
    else .error ⟨.failedPrecondition, bytes "auth mode none requires enable_insecure = true"⟩

def authorize (required : Role) : StatusOr Principal := do
  let principal ← authenticate authenticator inputs
  if required = .admin ∧ principal.role ≠ .admin then
    .error ⟨.permissionDenied, bytes "this operation requires the Admin role"⟩
  else return principal

/-! ## What a token proves -/

theorem constantTimeEquals_iff {a b : Bytes} : constantTimeEquals a b = true ↔ a = b := by
  have loop : ∀ (pairs : List (UInt8 × UInt8)) (diff : UInt8),
      pairs.foldl (fun diff pair => diff ||| (pair.1 ^^^ pair.2)) diff = 0 ↔
        diff = 0 ∧ ∀ pair ∈ pairs, pair.1 = pair.2 := by
    intro pairs
    induction pairs with
    | nil => simp
    | cons pair pairs ih =>
      intro diff
      rw [foldl_cons, ih, forall_mem_cons, UInt8.or_eq_zero_iff, UInt8.xor_eq_zero_iff, and_assoc]
  rw [constantTimeEquals, Bool.and_eq_true, beq_iff_eq, beq_iff_eq, loop]
  constructor
  · rintro ⟨length, _, same⟩
    refine ext_getElem length fun i inside inside' => ?_
    exact same (a[i], b[i]) (mem_iff_getElem.2
      ⟨i, by rw [length_zip]; omega, getElem_zip⟩)
  · rintro rfl
    refine ⟨rfl, rfl, fun pair listed => ?_⟩
    obtain ⟨i, inside, rfl⟩ := getElem_of_mem listed
    rw [getElem_zip]

/-- Only a listed token is recognized. -/
theorem findToken_mem {tokens : List Known} {token : Bytes} {principal : Principal}
    (found : findToken tokens token = some principal) :
    ∃ entry ∈ tokens, entry.token = token ∧ entry.principal = principal := by
  have loop : ∀ (rest : List Known) (start : Option Principal),
      rest.foldl (fun found entry =>
        if constantTimeEquals token entry.token then some entry.principal else found) start =
          some principal →
      start = some principal ∨ ∃ entry ∈ rest, entry.token = token ∧ entry.principal = principal := by
    intro rest
    induction rest with
    | nil => exact fun _ => Or.inl
    | cons entry rest ih =>
      intro start found
      rcases ih _ found with here | ⟨other, listed, known⟩
      · dsimp only at here
        split at here
        · rename_i same
          cases here
          exact Or.inr ⟨entry, mem_cons_self, (constantTimeEquals_iff.1 same).symm, rfl⟩
        · exact Or.inl here
      · exact Or.inr ⟨other, mem_cons_of_mem _ listed, known⟩
  rcases loop tokens none found with impossible | known
  · cases impossible
  · exact known

end OpaqueDb.Auth
