import Radar.Base.Runs
import Radar.Auth.Middleware

/- Runs of the server's sessions: logins, requests in the middleware's separate steps, back-channel
   logouts and the revoker's garbage collection, in any order and at any times. -/
namespace SessionRun
open Permissions SessionCookie Revocation AuthMiddleware

inductive Event where
  | loggedIn (sid : String)
  | revoked (sid : String)
  | minted (sid : String)
  | authenticated (sid : String)

/-- A history is newest first. -/
def RevokedIn (sid : String) : List Event → Prop
  | [] => False
  | .loggedIn s :: older => s ≠ sid ∧ RevokedIn sid older
  | .revoked s :: older => s = sid ∨ RevokedIn sid older
  | .minted _ :: older => RevokedIn sid older
  | .authenticated _ :: older => RevokedIn sid older

/-- Between a session's revocation and its next login it is neither authenticated nor given a
    new cookie. -/
def Final : List Event → Prop
  | [] => True
  | .loggedIn _ :: older => Final older
  | .revoked _ :: older => Final older
  | .minted sid :: older => ¬ RevokedIn sid older ∧ Final older
  | .authenticated sid :: older => ¬ RevokedIn sid older ∧ Final older

inductive Phase where
  | parsed (session : Session)
  | passed (session : Session)
  | done (outcome : Outcome)

structure InFlight where
  request : Request
  phase : Phase

/-- `issued` holds the value of every cookie ever set; `log` is history. -/
structure State where
  now : Int
  revoker : MemoryRevoker
  issued : List String
  log : List Event
  requests : Nat → Option InFlight

inductive Action where
  | login (user : User) (sid : SessionID) (idToken : String)
  | present (id : Nat) (r : Request) (newSID : SessionID)
  | check (id : Nat)
  | serve (id : Nat) (newSID : SessionID)
  | logout (verify : String → Verified) (req : LogoutRequest)
  | gc
  | tick (elapsed : Nat)

def initial (now : Int) : State := ⟨now, newMemoryRevoker, [], [], fun _ => none⟩

def State.move (s : State) (id : Nat) (r : Request) (phase : Phase) : State :=
  { s with requests := fun i => if i = id then some ⟨r, phase⟩ else s.requests i }

def State.record (s : State) (setCookie : Option Cookie) (events : List Event) : State :=
  { s with issued := (setCookie.map Cookie.value).toList ++ s.issued, log := events ++ s.log }

def setCookie : Outcome → Option Cookie
  | .next _ cookie => cookie
  | .unauthorized _ _ cookie => cookie

section Step
variable (codec : Codec) (cfg : Config) (cloudMode : Bool) {r : Request}

/-- Only this process signs cookies: a value it never set does not parse. -/
def signed (s : State) (r : Request) : Bool := match r.cookie with
  | none => true
  | some value => s.issued.contains value || (parseSessionCookie codec (some value) cfg.secret s.now).isNone

/-- The callback of a completed login; OIDC cookies are always secure. -/
def loginStep (s : State) (user : User) (sid : SessionID) (idToken : String) : State :=
  s.record (some (createSessionCookie codec user sid idToken cfg.secret cfg.cookieTTL true s.now))
    [.loggedIn sid.text]

/-- A cookie set without a session is a reverse proxy's login under the new identifier. -/
def presentStep (s : State) (id : Nat) (r : Request) (newSID : SessionID) : State :=
  if isExemptPath cloudMode r.path then s.move id r (.done (.next none none))
  else match parseSessionCookie codec r.cookie cfg.secret s.now with
  | some session => s.move id r (.parsed session)
  | none =>
    let outcome := withoutSession codec cfg s.now newSID r
    (s.move id r (.done outcome)).record (setCookie outcome)
      (if (setCookie outcome).isSome then [.loggedIn newSID.text] else [])

def checkStep (s : State) (id : Nat) (r : Request) (session : Session) : State :=
  if s.revoker.isRevoked s.now session.sid then
    (s.move id r (.done (rejectRevoked cfg))).record (some clearSessionCookie) []
  else s.move id r (.passed session)

def serveStep (s : State) (id : Nat) (r : Request) (session : Session) (newSID : SessionID) : State :=
  let outcome := admitSession codec cfg (secureCookie cfg r) s.now newSID session
  (s.move id r (.done outcome)).record (setCookie outcome)
    (.authenticated session.sid ::
      if slides cfg s.now session then [.minted (reissueSID session newSID).text] else [])

def logoutStep (s : State) (verify : String → Verified) (req : LogoutRequest) : State :=
  let outcome := handleBackchannelLogout cfg.cookieTTL s.now (some s.revoker) verify req
  { s with
    revoker := outcome.revoker.getD s.revoker
    log := (outcome.revoked.map Event.revoked).toList ++ s.log }

def step (s : State) : Action → Option State
  | .login user sid idToken => some (loginStep codec cfg s user sid idToken)
  | .present id r newSID =>
    if (s.requests id).isNone && signed codec cfg s r then
      some (presentStep codec cfg cloudMode s id r newSID)
    else none
  | .check id =>
    match s.requests id with
    | some ⟨r, .parsed session⟩ => some (checkStep cfg s id r session)
    | _ => none
  | .serve id newSID =>
    match s.requests id with
    | some ⟨r, .passed session⟩ => some (serveStep codec cfg s id r session newSID)
    | _ => none
  | .logout verify req => some (logoutStep cfg s verify req)
  | .gc => some { s with revoker := s.revoker.gc s.now }
  | .tick elapsed => some { s with now := s.now + elapsed }

/-- Uninterrupted, the steps of a request give it the middleware's answer. -/
theorem uninterrupted_steps {s : State} {id : Nat} (newSID : SessionID)
    (free : s.requests id = none) (ours : signed codec cfg s r = true) :
    ∃ path, (path = [.present id r newSID] ∨ path = [.present id r newSID, .check id] ∨
        path = [.present id r newSID, .check id, .serve id newSID]) ∧
      ∃ t, Runs.exec (step codec cfg cloudMode) s path = some t ∧ t.requests id =
        some ⟨r, .done (authenticate codec cfg cloudMode (some s.revoker) s.now newSID r)⟩ := by
  by_cases exempt : isExemptPath cloudMode r.path = true
  · refine ⟨_, Or.inl rfl, ?_⟩
    simp [Runs.exec, step, free, ours, presentStep, exempt, State.move, authenticate]
  · cases parsed : parseSessionCookie codec r.cookie cfg.secret s.now with
    | none =>
      refine ⟨_, Or.inl rfl, ?_⟩
      simp [Runs.exec, step, free, ours, presentStep, exempt, parsed, State.move, State.record,
        authenticate]
    | some session =>
      by_cases revoked : s.revoker.isRevoked s.now session.sid = true
      · refine ⟨_, Or.inr (Or.inl rfl), ?_⟩
        simp [Runs.exec, step, free, ours, presentStep, exempt, parsed, State.move, State.record,
          checkStep, revoked, authenticate, sessionRevoked]
      · refine ⟨_, Or.inr (Or.inr rfl), ?_⟩
        simp [Runs.exec, step, free, ours, presentStep, exempt, parsed, State.move, State.record,
          checkStep, revoked, serveStep, authenticate, sessionRevoked]

/-- A session's cookies all expire in an earlier second than its revocation, which is in force
   until it ends, and no request for the session is between its check and its answer. -/
def Outlived (s : State) (sid : String) (x : Int) : Prop :=
  (∀ value ∈ s.issued, ∀ p, payloadOf codec value = some p → p.sid = sid → p.expiresAt < unix x) ∧
  ∀ id f session, s.requests id = some f → f.phase = .passed session → session.sid ≠ sid

/-- The steps that keep revocation final. A logout that revokes a session comes when the session's
   cookies are outlived; a check that is reached only after its cookie's expiry, in the middle
   of a request, still finds the revocation in force. -/
def Timely (s : State) : Action → Prop
  | .logout verify req => ∀ sid,
    (handleBackchannelLogout cfg.cookieTTL s.now (some s.revoker) verify req).revoked = some sid →
      Outlived codec s sid (s.now + cfg.cookieTTL)
  | .check id => ∀ f session, s.requests id = some f → f.phase = .parsed session →
    session.expiresAt < unix s.now * second → RevokedIn session.sid s.log →
      s.revoker.isRevoked s.now session.sid = true
  | _ => True

/-- Sessions in flight come from cookies that were set. -/
def Issued (s : State) (session : Session) : Prop :=
  session.sid ≠ "" ∧ ∃ value ∈ s.issued, ∃ p, payloadOf codec value = some p ∧
    p.sid = session.sid ∧ session.expiresAt = p.expiresAt * second

structure Honest (s : State) : Prop where
  named : ∀ value ∈ s.issued, ∀ p, payloadOf codec value = some p → p.sid ≠ ""
  parsed : ∀ id f session, s.requests id = some f →
    f.phase = .parsed session ∨ f.phase = .passed session → Issued codec s session
  outlived : ∀ sid, RevokedIn sid s.log → ∃ x, Outlived codec s sid x ∧
    (s.revoker.revoked sid = some x ∨ x ≤ s.now)
  final : Final s.log

theorem honest_initial (now : Int) : Honest codec (initial now) := by
  constructor
  · intro value member
    simp [initial] at member
  · intro id f session present
    simp [initial] at present
  · intro sid revoked
    exact revoked.elim
  · trivial

section Kept
variable {codec}
variable {s : State} {session : Session}

/-- A request that moves to a phase with no passed session frees its session. -/
theorem outlived_move {sid : String} {x : Int} (outlived : Outlived codec s sid x) (id : Nat)
    (r : Request) {phase : Phase}
    (other : ∀ session, phase = .passed session → session.sid ≠ sid) :
    Outlived codec (s.move id r phase) sid x := by
  refine ⟨outlived.1, ?_⟩
  intro i f session present passed
  by_cases same : i = id
  · simp only [State.move, same, if_true, Option.some.injEq] at present
    subst present
    exact other session passed
  · simp only [State.move, same, if_false] at present
    exact outlived.2 i f session present passed

theorem honest_move (honest : Honest codec s) (id : Nat) (r : Request) {phase : Phase}
    (issued : ∀ session, phase = .parsed session ∨ phase = .passed session → Issued codec s session)
    (live : ∀ session, phase = .passed session → ¬ RevokedIn session.sid s.log) :
    Honest codec (s.move id r phase) := by
  constructor
  · exact honest.named
  · intro i f session present held
    by_cases same : i = id
    · simp only [State.move, same, if_true, Option.some.injEq] at present
      subst present
      exact issued session held
    · simp only [State.move, same, if_false] at present
      exact honest.parsed i f session present held
  · intro sid revoked
    obtain ⟨x, outlived, force⟩ := honest.outlived sid revoked
    refine ⟨x, outlived_move outlived id r ?_, force⟩
    intro session passed same
    exact live session passed (same ▸ revoked)
  · exact honest.final

/-- The payload of a cookie just set, or of one set before. -/
theorem recorded_payload {cookie : Option Cookie} {events : List Event} {value : String}
    (member : value ∈ (s.record cookie events).issued) :
    (∃ c, cookie = some c ∧ c.value = value) ∨ value ∈ s.issued := by
  cases cookie with
  | none => exact Or.inr (by simpa [State.record] using member)
  | some c =>
    simp only [State.record, Option.map_some, Option.toList_some, List.cons_append,
      List.nil_append, List.mem_cons] at member
    rcases member with same | old
    · exact Or.inl ⟨c, rfl, same.symm⟩
    · exact Or.inr old

/-- Setting a cookie and noting events keeps the invariant when what is set is named and belongs
   to no session that stays revoked. -/
theorem honest_record (honest : Honest codec s) {cookie : Option Cookie} {events : List Event}
    (named : ∀ c p, cookie = some c → payloadOf codec c.value = some p → p.sid ≠ "")
    (stays : ∀ sid, RevokedIn sid (events ++ s.log) → RevokedIn sid s.log ∧
      ∀ c p, cookie = some c → payloadOf codec c.value = some p → p.sid ≠ sid)
    (final : Final (events ++ s.log)) : Honest codec (s.record cookie events) := by
  constructor
  · intro value member p carried
    rcases recorded_payload member with ⟨c, set, same⟩ | old
    · exact named c p set (same ▸ carried)
    · exact honest.named value old p carried
  · intro id f session present held
    obtain ⟨has, value, member, rest⟩ := honest.parsed id f session present held
    exact ⟨has, value, List.mem_append_right _ member, rest⟩
  · intro sid revoked
    obtain ⟨before, others⟩ := stays sid revoked
    obtain ⟨x, outlived, force⟩ := honest.outlived sid before
    refine ⟨x, ⟨?_, outlived.2⟩, force⟩
    intro value member p carried same
    rcases recorded_payload member with ⟨c, set, equal⟩ | old
    · exact absurd same (others c p set (equal ▸ carried))
    · exact outlived.1 value old p carried same
  · exact final

theorem honest_login (honest : Honest codec s) (user : User) (sid : SessionID)
    (idToken : String) : Honest codec (loginStep codec cfg s user sid idToken) := by
  obtain ⟨q, carried, qsid, _⟩ :=
    payload_of_create codec user sid idToken cfg.secret cfg.cookieTTL true s.now
  have payload : ∀ c p,
      some (createSessionCookie codec user sid idToken cfg.secret cfg.cookieTTL true s.now) =
        some c → payloadOf codec c.value = some p → p.sid = sid.text := by
    intro c p set held
    cases set
    rw [carried] at held
    cases held
    exact qsid
  apply honest_record honest
  · intro c p set held
    rw [payload c p set held]
    exact sid.nonempty
  · intro other revoked
    refine ⟨revoked.2, ?_⟩
    intro c p set held
    rw [payload c p set held]
    exact revoked.1
  · exact honest.final

/-- A header login is a login under a new identifier; every other answer sets nothing. -/
theorem without_session_payload {now : Int} {newSID : SessionID} {c : Cookie} {p : CookiePayload}
    (set : setCookie (withoutSession codec cfg now newSID r) = some c)
    (carried : payloadOf codec c.value = some p) : p.sid = newSID.text := by
  unfold withoutSession at set
  dsimp only at set
  split at set
  · simp only [setCookie, Option.some.injEq] at set
    subst set
    obtain ⟨q, held, qsid, _⟩ := payload_of_create codec
      ⟨r.header cfg.userHeader, headerGroups (r.header cfg.groupsHeader)⟩ newSID "" cfg.secret
      cfg.cookieTTL (secureCookie cfg r) now
    rw [held] at carried
    cases carried
    exact qsid
  · split at set <;> simp [setCookie] at set

theorem honest_present (honest : Honest codec s) (id : Nat) (newSID : SessionID)
    (ours : signed codec cfg s r = true) :
    Honest codec (presentStep codec cfg cloudMode s id r newSID) := by
  unfold presentStep
  split
  · exact honest_move honest id r (by simp) (by simp)
  · split
    · rename_i session parsed
      apply honest_move honest id r
      · intro held phase
        simp only [Phase.parsed.injEq, reduceCtorEq, or_false] at phase
        subst phase
        cases cookie : r.cookie with
        | none => simp [cookie, parseSessionCookie] at parsed
        | some value =>
          rw [cookie] at parsed
          have member : value ∈ s.issued := by simpa [signed, cookie, parsed] using ours
          obtain ⟨p, carried, sid, expires, _⟩ := parse_some codec parsed
          refine ⟨?_, value, member, p, carried, sid.symm, expires⟩
          rw [sid]
          exact honest.named value member p carried
      · simp
    · have moved : Honest codec
          (s.move id r (.done (withoutSession codec cfg s.now newSID r))) :=
        honest_move honest id r (by simp) (by simp)
      apply honest_record moved
      · intro c p set carried
        rw [without_session_payload cfg set carried]
        exact newSID.nonempty
      · intro sid revoked
        cases set : setCookie (withoutSession codec cfg s.now newSID r) with
        | none => exact ⟨by simpa [set, State.move] using revoked, by simp⟩
        | some c =>
          simp only [set, Option.isSome_some, if_true, List.cons_append, List.nil_append,
            RevokedIn] at revoked
          refine ⟨revoked.2, ?_⟩
          intro c' p same carried
          rw [← set] at same
          rw [without_session_payload cfg same carried]
          exact revoked.1
      · split
        · exact moved.final
        · exact moved.final

/-- A cookie of a revoked session that still parses finds the revocation in force. -/
theorem outlived_in_force (honest : Honest codec s)
    (issued : Issued codec s session) (revoked : RevokedIn session.sid s.log)
    (live : unix s.now * second ≤ session.expiresAt) :
    s.revoker.isRevoked s.now session.sid = true := by
  obtain ⟨named, value, member, p, carried, sid, expires⟩ := issued
  obtain ⟨x, outlived, force⟩ := honest.outlived session.sid revoked
  have earlier : p.expiresAt < unix x := outlived.1 value member p carried sid
  have unexpired : unix s.now ≤ p.expiresAt := by
    simp only [expires, second] at live
    omega
  have before : s.now < x := by
    by_contra late
    have := unix_mono (s := x) (t := s.now) (by omega)
    omega
  rcases force with entry | past
  · exact is_revoked_of_entry named entry before
  · omega

theorem honest_check (honest : Honest codec s) {id : Nat}
    (present : s.requests id = some ⟨r, .parsed session⟩)
    (timely : Timely codec cfg s (.check id)) : Honest codec (checkStep cfg s id r session) := by
  have issued : Issued codec s session := honest.parsed id _ session present (Or.inl rfl)
  unfold checkStep
  split
  · apply honest_record (honest_move honest id r (by simp) (by simp))
    · intro c p set carried
      cases set
      simp [payload_of_clear] at carried
    · intro sid revoked
      refine ⟨revoked, ?_⟩
      intro c p set carried
      cases set
      simp [payload_of_clear] at carried
    · exact honest.final
  · rename_i unrevoked
    apply honest_move honest id r
    · intro held phase
      simp only [reduceCtorEq, Phase.passed.injEq, false_or] at phase
      exact phase ▸ issued
    · intro held phase revoked
      simp only [Phase.passed.injEq] at phase
      subst phase
      by_cases live : unix s.now * second ≤ session.expiresAt
      · exact unrevoked (outlived_in_force honest issued revoked live)
      · exact unrevoked (timely _ session present rfl (by omega) revoked)

theorem honest_serve (honest : Honest codec s) {id : Nat}
    (newSID : SessionID) (present : s.requests id = some ⟨r, .passed session⟩) :
    Honest codec (serveStep codec cfg s id r session newSID) := by
  have issued : Issued codec s session := honest.parsed id _ session present (Or.inr rfl)
  have live : ¬ RevokedIn session.sid s.log := by
    intro revoked
    obtain ⟨x, outlived, _⟩ := honest.outlived session.sid revoked
    exact outlived.2 id _ session present rfl rfl
  have own : (reissueSID session newSID).text = session.sid := reissue_keeps_sid issued.1 newSID
  have payload : ∀ c p,
      setCookie (admitSession codec cfg (secureCookie cfg r) s.now newSID session) = some c →
        payloadOf codec c.value = some p → p.sid = session.sid := by
    intro c p set carried
    simp only [setCookie, admitSession] at set
    split at set
    · cases set
      obtain ⟨q, held, qsid, _⟩ := reissue_payload codec cfg (secureCookie cfg r) s.now newSID session
      rw [held] at carried
      cases carried
      exact qsid.trans own
    · contradiction
  unfold serveStep
  apply honest_record (honest_move honest id r (by simp) (by simp))
  · intro c p set carried
    rw [payload c p set carried]
    exact issued.1
  · intro sid revoked
    have before : RevokedIn sid s.log := by
      split at revoked
      · exact revoked
      · exact revoked
    refine ⟨before, ?_⟩
    intro c p set carried same
    rw [payload c p set carried] at same
    exact live (same ▸ before)
  · split
    · exact ⟨live, own ▸ live, honest.final⟩
    · exact ⟨live, honest.final⟩

theorem honest_logout (honest : Honest codec s) {verify : String → Verified}
    {req : LogoutRequest} (timely : Timely codec cfg s (.logout verify req)) :
    Honest codec (logoutStep cfg s verify req) := by
  obtain ⟨r, stored, quiet | ⟨sid, revoked, _, entries⟩⟩ :=
    handle_revoked cfg.cookieTTL s.now s.revoker verify req
  · constructor
    · exact honest.named
    · exact honest.parsed
    · intro other before
      simp only [logoutStep, quiet.1, Option.map_none, Option.toList_none, List.nil_append] at before
      obtain ⟨x, outlived, force⟩ := honest.outlived other before
      refine ⟨x, outlived, ?_⟩
      simpa [logoutStep, stored, quiet.2] using force
    · simpa [logoutStep, quiet.1] using honest.final
  · constructor
    · exact honest.named
    · exact honest.parsed
    · intro other before
      by_cases same : other = sid
      · subst same
        refine ⟨s.now + cfg.cookieTTL, timely other revoked, Or.inl ?_⟩
        simp [logoutStep, stored, entries]
      · simp only [logoutStep, revoked, Option.map_some, Option.toList_some, List.cons_append,
          List.nil_append, RevokedIn, Ne.symm same, false_or] at before
        obtain ⟨x, outlived, force⟩ := honest.outlived other before
        refine ⟨x, outlived, ?_⟩
        simpa [logoutStep, stored, entries, revoke_other same] using force
    · simpa [logoutStep, revoked, Final] using honest.final

theorem honest_gc (honest : Honest codec s) : Honest codec { s with revoker := s.revoker.gc s.now } := by
  refine ⟨honest.named, honest.parsed, ?_, honest.final⟩
  intro sid revoked
  obtain ⟨x, outlived, entry | past⟩ := honest.outlived sid revoked
  · exact ⟨x, outlived, keep_live entry⟩
  · exact ⟨x, outlived, Or.inr past⟩

theorem honest_tick (honest : Honest codec s) (elapsed : Nat) :
    Honest codec { s with now := s.now + elapsed } := by
  refine ⟨honest.named, honest.parsed, ?_, honest.final⟩
  intro sid revoked
  obtain ⟨x, outlived, entry | past⟩ := honest.outlived sid revoked
  · exact ⟨x, outlived, Or.inl entry⟩
  · exact ⟨x, outlived, Or.inr (by simp only; omega)⟩

theorem honest_step {t : State} {a : Action} (honest : Honest codec s)
    (timely : Timely codec cfg s a) (taken : step codec cfg cloudMode s a = some t) :
    Honest codec t := by
  cases a with
  | login user sid idToken =>
    cases taken
    exact honest_login cfg honest user sid idToken
  | present id r newSID =>
    simp only [step] at taken
    split at taken
    · rename_i free
      cases taken
      simp only [Bool.and_eq_true] at free
      exact honest_present cfg cloudMode honest id newSID free.2
    · contradiction
  | check id =>
    simp only [step] at taken
    split at taken
    · rename_i r session present
      cases taken
      exact honest_check cfg honest present timely
    · contradiction
  | serve id newSID =>
    simp only [step] at taken
    split at taken
    · rename_i r session present
      cases taken
      exact honest_serve cfg honest newSID present
    · contradiction
  | logout verify req =>
    cases taken
    exact honest_logout cfg honest timely
  | gc =>
    cases taken
    exact honest_gc honest
  | tick elapsed =>
    cases taken
    exact honest_tick honest elapsed

end Kept

/-- Revocation is final in every run whose steps are timely. -/
theorem revocation_final (now : Int) {labels : List Action} {s : State}
    (timely : Runs.Guarded (step codec cfg cloudMode) (Timely codec cfg) (initial now) labels)
    (run : Runs.exec (step codec cfg cloudMode) (initial now) labels = some s) : Final s.log :=
  (Runs.guarded_invariant
    (fun _ _ _ honest met taken => honest_step cfg cloudMode honest met taken)
    (honest_initial codec now) timely run).final

end Step

def alice : User := ⟨"alice", []⟩

def aliceSID : SessionID := ⟨"s1", by decide⟩

def page (value : String) : Request := ⟨"/api/topology", some value, true, fun _ => ""⟩

def aliceLogout : LogoutToken := ⟨some [backchannelLogoutEventURI], false, "s1", "alice", "", none⟩

def logoutPost : LogoutRequest := ⟨"POST", some "token"⟩

section Alice
variable (codec : Codec) (cfg : Config)

def aliceCookie (now : Int) : String :=
  buildCookieValue codec ⟨"alice", [], unix (now + cfg.cookieTTL), "", "s1"⟩ cfg.secret

theorem alice_cookie (now : Int) :
    (createSessionCookie codec alice aliceSID "" cfg.secret cfg.cookieTTL true now).value =
      aliceCookie codec cfg now := by
  simp [createSessionCookie, aliceCookie, alice, aliceSID]

theorem handle_alice (ttl now : Int) (r : MemoryRevoker) :
    handleBackchannelLogout ttl now (some r) (fun _ => .claims aliceLogout) logoutPost =
      ⟨⟨200, ""⟩, some (r.revoke "s1" (now + ttl)), some "s1"⟩ := by
  simp [handleBackchannelLogout, validateLogout, logoutPost, aliceLogout, processLogout,
    MemoryRevoker.seenJTI]

end Alice

def shortConfig : Config := ⟨"oidc", "key", 10 * second, "", "", true⟩

/-- A logout one second after the login. -/
theorem visitor_answered : ∃ path s, Runs.exec (step plainCodec shortConfig false) (initial 0) path = some s ∧
    s.requests 0 = some ⟨⟨"/api/topology", none, true, fun _ => ""⟩, .done (authenticate plainCodec shortConfig false
      (some newMemoryRevoker) 0 aliceSID ⟨"/api/topology", none, true, fun _ => ""⟩)⟩ :=
  let ⟨path, _, s, run, answer⟩ := uninterrupted_steps plainCodec shortConfig false aliceSID rfl rfl
  ⟨path, s, run, answer⟩

def promptLogout : List Action := [.login alice aliceSID "", .tick 1000000000,
    .logout (fun _ => .claims aliceLogout) logoutPost,
    .present 0 (page (aliceCookie plainCodec shortConfig 0)) aliceSID, .check 0]

theorem prompt_logout_final : ∃ s,
    Runs.exec (step plainCodec shortConfig false) (initial 0) promptLogout = some s ∧
      RevokedIn "s1" s.log ∧ Final s.log := by
  have exempt : isExemptPath false "/api/topology" = false := by decide
  have parsed : parseSessionCookie plainCodec (some (aliceCookie plainCodec shortConfig 0))
      shortConfig.secret 1000000000 = some ⟨⟨"alice", []⟩, "s1", "", 10 * second⟩ :=
    parse_build plainCodec ⟨"alice", [], 10, "", "s1"⟩ "key" (by decide)
  have carried : payloadOf plainCodec (aliceCookie plainCodec shortConfig 0) =
      some ⟨"alice", [], 10, "", "s1"⟩ := payload_of_build plainCodec _ _
  have timely : Runs.Guarded (step plainCodec shortConfig false)
      (Timely plainCodec shortConfig) (initial 0) promptLogout := by
    refine ⟨trivial, fun t login => ?_⟩
    cases login
    refine ⟨trivial, fun t tick => ?_⟩
    cases tick
    refine ⟨?_, fun t logout => ?_⟩
    · intro sid revoked
      constructor
      · intro value member p held _
        simp [loginStep, State.record, initial, alice_cookie] at member
        rw [member, carried] at held
        cases held
        decide
      · intro id f session present
        simp [loginStep, State.record, initial] at present
    cases logout
    refine ⟨trivial, fun t present => ?_⟩
    simp [step, loginStep, alice_cookie, State.record, initial, logoutStep, handle_alice,
      presentStep, page, exempt, parsed, signed, State.move] at present
    subst present
    refine ⟨?_, fun t _ => trivial⟩
    intro f session present held expired
    simp at present
    subst present
    cases held
    exact absurd expired (by decide)
  have run : ∃ s, Runs.exec (step plainCodec shortConfig false) (initial 0) promptLogout =
      some s ∧ RevokedIn "s1" s.log := by
    simp [promptLogout, Runs.exec, step, loginStep, alice_cookie, State.record, initial, logoutStep,
      handle_alice, presentStep, page, exempt, parsed, signed, State.move]
    unfold checkStep
    split <;> exact Or.inl rfl
  obtain ⟨s, run, revoked⟩ := run
  exact ⟨s, run, revoked, revocation_final plainCodec shortConfig false 0 timely run⟩

section SameSecond
variable (codec : Codec) (cfg : Config) (cloudMode : Bool)

/-- A login, a logout `elapsed` later, and a request when the revocation has just ended. -/
def lateRequest (now : Int) (elapsed : Nat) : List Action :=
  [.login alice aliceSID "", .tick elapsed, .logout (fun _ => .claims aliceLogout) logoutPost,
    .tick cfg.cookieTTL.toNat, .present 0 (page (aliceCookie codec cfg now)) aliceSID, .check 0,
    .serve 0 aliceSID]

/-- Where the logout falls in the second of the login, the cookie outlives the revocation. -/
theorem same_second_logout_breaks (now : Int) (elapsed : Nat) (positive : 0 ≤ cfg.cookieTTL)
    (same : unix (now + elapsed + cfg.cookieTTL) = unix (now + cfg.cookieTTL)) :
    ∃ s, Runs.exec (step codec cfg cloudMode) (initial now) (lateRequest codec cfg now elapsed) =
      some s ∧ ¬ Final s.log := by
  have exempt : isExemptPath cloudMode "/api/topology" = false := by
    cases cloudMode <;> decide
  have ttl : (cfg.cookieTTL.toNat : Int) = cfg.cookieTTL := Int.toNat_of_nonneg positive
  have parsed : parseSessionCookie codec (some (aliceCookie codec cfg now)) cfg.secret
      (now + elapsed + cfg.cookieTTL) =
      some ⟨⟨"alice", []⟩, "s1", "", unix (now + cfg.cookieTTL) * second⟩ :=
    parse_build codec ⟨"alice", [], unix (now + cfg.cookieTTL), "", "s1"⟩ cfg.secret
      (Int.le_of_eq same)
  have forgotten : ((newMemoryRevoker.revoke "s1" (now + elapsed + cfg.cookieTTL)).isRevoked
      (now + elapsed + cfg.cookieTTL) "s1") = false :=
    not_revoked_after (revoke_same _) (by omega)
  simp [Runs.exec, lateRequest, step, loginStep, alice_cookie, State.record, initial, logoutStep,
    handle_alice, ttl, presentStep, page, exempt, parsed, signed, checkStep, forgotten, serveStep,
    State.move, Final]
  intro unrevoked
  split at unrevoked <;> simp [RevokedIn] at unrevoked

end SameSecond

theorem same_second_logout_undone : ¬ ∀ labels s,
    Runs.exec (step plainCodec shortConfig false) (initial 0) labels = some s → Final s.log := by
  intro claimed
  obtain ⟨s, run, broken⟩ := same_second_logout_breaks plainCodec shortConfig false 0 500000000
    (by decide) (by decide)
  exact broken (claimed _ s run)

end SessionRun
