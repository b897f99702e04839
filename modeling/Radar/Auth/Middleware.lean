import Radar.Auth.Cookie
import Radar.Auth.Revocation

/- internal/auth/middleware.go: what the middleware does with one request. -/
namespace AuthMiddleware
open Permissions GoText SessionCookie Revocation

structure Config where
  mode : String
  secret : String
  cookieTTL : Int
  userHeader : String
  groupsHeader : String
  backchannelLogout : Bool

def Config.defaults (cfg : Config) : Config := { cfg with
    cookieTTL := if cfg.cookieTTL = 0 then 4 * 3600 * second else cfg.cookieTTL
    userHeader := if cfg.userHeader = "" then "X-Forwarded-User" else cfg.userHeader
    groupsHeader := if cfg.groupsHeader = "" then "X-Forwarded-Groups" else cfg.groupsHeader }

structure Request where
  path : String
  cookie : Option String
  tls : Bool
  header : String → String

/-- The middleware passes the request on, with a user or without one, or answers 401 itself. -/
inductive Outcome where
  | next (user : Option User) (setCookie : Option Cookie)
  | unauthorized (message authMode : String) (setCookie : Option Cookie)

def isExemptPath (cloudMode : Bool) (path : String) : Bool :=
  if cloudMode then path == "/api/health" || hasPrefix path "/auth/"
  else if ["/api/health", "/auth/"].any (hasPrefix path) then true
  else !hasPrefix path "/api/" && !hasPrefix path "/mcp" && !hasPrefix path "/debug/"

def isSoftAuthPath (path : String) : Bool := path == "/api/auth/me"

def secureCookie (cfg : Config) (r : Request) : Bool :=
  cfg.mode == "oidc" || r.tls || r.header "X-Forwarded-Proto" == "https"

def headerGroups (value : String) : List String := if value = "" then []
  else ((split ',' value).map trimSpace).filter fun part => part != ""

/-- A session is re-issued past its half-life, or when it outlasts the configured TTL. -/
def slides (cfg : Config) (now : Int) (session : Session) : Bool :=
  decide (session.expiresAt - now < cfg.cookieTTL.tdiv 2) ||
    decide (cfg.cookieTTL < session.expiresAt - now)

/-- The identifier a re-issued cookie carries: the session's own, or a new one for a cookie from
   before sessions had identifiers. -/
def reissueSID (session : Session) (newSID : SessionID) : SessionID :=
  if named : session.sid ≠ "" then ⟨session.sid, named⟩ else newSID

section Authenticate
variable (codec : Codec) (cfg : Config)

def reissue (secure : Bool) (now : Int) (newSID : SessionID) (session : Session) : Cookie :=
  createSessionCookie codec session.user (reissueSID session newSID) session.idToken cfg.secret
    cfg.cookieTTL secure now

/-- What a session that is not revoked gets. -/
def admitSession (secure : Bool) (now : Int) (newSID : SessionID) (session : Session) : Outcome :=
  .next (some session.user)
    (if slides cfg now session then some (reissue codec cfg secure now newSID session) else none)

def sessionRevoked (revoker : Option MemoryRevoker) (now : Int) (session : Session) : Bool :=
  match revoker with
  | none => false
  | some r => r.isRevoked now session.sid

def rejectRevoked : Outcome := .unauthorized "session revoked" cfg.mode (some clearSessionCookie)

/-- The rest of the middleware, for a request without a valid session cookie. -/
def withoutSession (now : Int) (newSID : SessionID) (r : Request) : Outcome :=
  let username := r.header cfg.userHeader
  if cfg.mode = "proxy" ∧ username ≠ "" then
    let user : User := ⟨username, headerGroups (r.header cfg.groupsHeader)⟩
    .next (some user) (some (createSessionCookie codec user newSID "" cfg.secret cfg.cookieTTL
      (secureCookie cfg r) now))
  else if isSoftAuthPath r.path then .next none none
  else .unauthorized "authentication required" cfg.mode none

def authenticate (cloudMode : Bool) (revoker : Option MemoryRevoker) (now : Int)
    (newSID : SessionID) (r : Request) : Outcome :=
  if isExemptPath cloudMode r.path then .next none none
  else match parseSessionCookie codec r.cookie cfg.secret now with
  | none => withoutSession codec cfg now newSID r
  | some session =>
    if sessionRevoked revoker now session then rejectRevoked cfg
    else admitSession codec cfg (secureCookie cfg r) now newSID session

theorem reissue_payload (secure : Bool) (now : Int) (newSID : SessionID) (session : Session) :
    ∃ p, payloadOf codec (reissue codec cfg secure now newSID session).value = some p ∧
      p.sid = (reissueSID session newSID).text ∧ p.expiresAt = unix (now + cfg.cookieTTL) :=
  payload_of_create codec session.user _ session.idToken cfg.secret cfg.cookieTTL secure now

end Authenticate

theorem reissue_keeps_sid {session : Session} (named : session.sid ≠ "") (newSID : SessionID) :
    (reissueSID session newSID).text = session.sid := by
  simp [reissueSID, named]

end AuthMiddleware
