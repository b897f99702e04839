import Mathlib.Data.List.Basic

/- internal/auth/revocation.go and the back-channel logout endpoint of internal/auth/oidc.go.
   Each operation holds the revoker's lock for its whole length and reads the clock inside. -/
namespace Revocation

structure MemoryRevoker where
  revoked : String → Option Int
  jtis : String → Option Int

def newMemoryRevoker : MemoryRevoker := ⟨fun _ => none, fun _ => none⟩

def MemoryRevoker.revoke (r : MemoryRevoker) (sid : String) (expiry : Int) : MemoryRevoker :=
  { r with revoked := fun s => if s = sid then some expiry else r.revoked s }

def MemoryRevoker.isRevoked (r : MemoryRevoker) (now : Int) (sid : String) : Bool := if sid = "" then false
  else match r.revoked sid with
    | none => false
    | some expiry => decide (now < expiry)

def MemoryRevoker.seenJTI (r : MemoryRevoker) (jti : String) (expiry : Int) : Bool × MemoryRevoker :=
  if jti = "" then (false, r)
  else match r.jtis jti with
    | some _ => (true, r)
    | none => (false, { r with jtis := fun j => if j = jti then some expiry else r.jtis j })

/-- What the ticker keeps of an entry: it goes only once the clock is past its expiry. -/
def keep (now : Int) (entry : Option Int) : Option Int := match entry with
  | none => none
  | some expiry => if expiry < now then none else some expiry

def MemoryRevoker.gc (r : MemoryRevoker) (now : Int) : MemoryRevoker :=
  ⟨fun sid => keep now (r.revoked sid), fun jti => keep now (r.jtis jti)⟩

/-- The claims of a verified logout_token. `events` holds the keys of the events object, `none`
    where the claim is missing or not an object; a claim that is missing or not a string is
    empty; `expiry` is `none` where the token has none. -/
structure LogoutToken where
  events : Option (List String)
  hasNonce : Bool
  sid : String
  subject : String
  jti : String
  expiry : Option Int

inductive Verified where
  | invalid
  | badClaims
  | claims (token : LogoutToken)

/-- A request to the endpoint; `form` is the logout_token parameter of its body, `none` where
   the body does not parse. -/
structure LogoutRequest where
  method : String
  form : Option String

structure Response where
  status : Nat
  body : String
  deriving DecidableEq, Repr

def backchannelLogoutEventURI : String := "http://schemas.openid.net/event/backchannel-logout"

/-- The checks before the token's identifiers are used. -/
def validateLogout (verify : String → Verified) (req : LogoutRequest) : Except Response LogoutToken :=
  if req.method ≠ "POST" then .error ⟨405, "POST required"⟩
  else match req.form with
  | none => .error ⟨400, "invalid request body"⟩
  | some rawToken =>
    if rawToken = "" then .error ⟨400, "missing logout_token parameter"⟩
    else match verify rawToken with
    | .invalid => .error ⟨400, "invalid logout_token"⟩
    | .badClaims => .error ⟨400, "invalid logout_token claims"⟩
    | .claims token =>
      match token.events with
      | none => .error ⟨400, "missing events claim"⟩
      | some events =>
        if ¬ events.contains backchannelLogoutEventURI then
          .error ⟨400, "missing backchannel-logout event"⟩
        else if token.hasNonce then .error ⟨400, "logout_token must not contain nonce"⟩
        else if token.sid = "" ∧ token.subject = "" then
          .error ⟨400, "logout_token must contain sid or sub"⟩
        else .ok token

/-- `revoked` is the session the call passed to Revoke, if it got that far. -/
structure LogoutOutcome where
  response : Response
  revoker : Option MemoryRevoker
  revoked : Option String

def processLogout (ttl now : Int) (r : MemoryRevoker) (token : LogoutToken) : LogoutOutcome :=
  match r.seenJTI token.jti (token.expiry.getD (now + ttl)) with
  | (true, r) => ⟨⟨200, ""⟩, some r, none⟩
  | (false, r) =>
    if token.sid ≠ "" then ⟨⟨200, ""⟩, some (r.revoke token.sid (now + ttl)), some token.sid⟩
    else ⟨⟨501, "sub-only revocation not supported; sid claim required"⟩, some r, none⟩

def handleBackchannelLogout (ttl now : Int) (revoker : Option MemoryRevoker)
    (verify : String → Verified) (req : LogoutRequest) : LogoutOutcome :=
  match revoker with
  | none => ⟨⟨501, "backchannel logout not configured"⟩, none, none⟩
  | some r =>
    match validateLogout verify req with
    | .error response => ⟨response, some r, none⟩
    | .ok token => processLogout ttl now r token

section Revoker
variable {r : MemoryRevoker} {now : Int} {sid : String}

@[simp] theorem revoke_same (expiry : Int) : (r.revoke sid expiry).revoked sid = some expiry := by
  simp [MemoryRevoker.revoke]

theorem revoke_other {s : String} (other : s ≠ sid) (expiry : Int) :
    (r.revoke sid expiry).revoked s = r.revoked s := by
  simp [MemoryRevoker.revoke, other]

@[simp] theorem seen_revoked (jti : String) (expiry : Int) :
    (r.seenJTI jti expiry).2.revoked = r.revoked := by
  unfold MemoryRevoker.seenJTI
  split
  · rfl
  · split <;> rfl

theorem keep_live {entry : Option Int} {x : Int} (present : entry = some x) :
    keep now entry = some x ∨ x ≤ now := by
  by_cases past : x < now
  · exact Or.inr (by omega)
  · exact Or.inl (by simp [keep, present, past])

theorem is_revoked_of_entry {x : Int} (named : sid ≠ "") (entry : r.revoked sid = some x)
    (before : now < x) : r.isRevoked now sid = true := by
  simp [MemoryRevoker.isRevoked, named, entry, before]

theorem not_revoked_after {x : Int} (entry : r.revoked sid = some x) (after : x ≤ now) :
    r.isRevoked now sid = false := by
  have late : ¬ now < x := by omega
  simp [MemoryRevoker.isRevoked, entry, late]

end Revoker

/-- A call leaves the sessions already revoked as they are, but for the one it revokes. -/
theorem process_revoked (ttl now : Int) (r : MemoryRevoker) (token : LogoutToken) :
    ∃ r', (processLogout ttl now r token).revoker = some r' ∧
      (((processLogout ttl now r token).revoked = none ∧ r'.revoked = r.revoked) ∨
        ((processLogout ttl now r token).revoked = some token.sid ∧ token.sid ≠ "" ∧
          r'.revoked = (r.revoke token.sid (now + ttl)).revoked)) := by
  have kept := seen_revoked (r := r) token.jti (token.expiry.getD (now + ttl))
  unfold processLogout
  split
  · rename_i r' seen
    rw [seen] at kept
    exact ⟨r', rfl, Or.inl ⟨rfl, kept⟩⟩
  · rename_i r' fresh
    have kept : r'.revoked = r.revoked := by rw [fresh] at kept; exact kept
    by_cases named : token.sid ≠ ""
    · rw [if_pos named]
      exact ⟨_, rfl, Or.inr ⟨rfl, named, by simp [MemoryRevoker.revoke, kept]⟩⟩
    · rw [if_neg named]
      exact ⟨r', rfl, Or.inl ⟨rfl, kept⟩⟩

theorem handle_revoked (ttl now : Int) (r : MemoryRevoker) (verify : String → Verified)
    (req : LogoutRequest) :
    ∃ r', (handleBackchannelLogout ttl now (some r) verify req).revoker = some r' ∧
      (((handleBackchannelLogout ttl now (some r) verify req).revoked = none ∧ r'.revoked = r.revoked) ∨
        ∃ sid, (handleBackchannelLogout ttl now (some r) verify req).revoked = some sid ∧
          sid ≠ "" ∧ r'.revoked = (r.revoke sid (now + ttl)).revoked) := by
  simp only [handleBackchannelLogout]
  cases validateLogout verify req with
  | error response => exact ⟨r, rfl, Or.inl ⟨rfl, rfl⟩⟩
  | ok token =>
    obtain ⟨r', stored, quiet | ⟨revoked, named, entries⟩⟩ := process_revoked ttl now r token
    · exact ⟨r', stored, Or.inl quiet⟩
    · exact ⟨r', stored, Or.inr ⟨token.sid, revoked, named, entries⟩⟩

end Revocation
