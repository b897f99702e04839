import Radar.Base.Runs
import Radar.Auth.Revocation

/- Runs of the back-channel logout endpoint: what its answers say of the sessions revoked. -/
namespace LogoutRun
open Revocation Runs

/-- The two lists are history: the sessions passed to Revoke, and those that a token which passed the
    checks has named. -/
structure State where
  revoker : MemoryRevoker
  revoked : List String
  named : List String

inductive Action where
  | logout (now : Int) (verify : String → Verified) (req : LogoutRequest)
  | gc (now : Int)

def initial : State := ⟨newMemoryRevoker, [], []⟩

/-- The session a request's token names; a token without a sid names none. -/
def namedBy (verify : String → Verified) (req : LogoutRequest) : List String :=
  match validateLogout verify req with
  | .error _ => []
  | .ok token => if token.sid = "" then [] else [token.sid]

section Run
variable (ttl : Int) {verify : String → Verified} {token : LogoutToken} {req : LogoutRequest}
variable {r : MemoryRevoker}

def step (s : State) : Action → Option State
  | .logout now verify req =>
    let answer := handleBackchannelLogout ttl now (some s.revoker) verify req
    answer.revoker.map fun r => ⟨r, answer.revoked.toList ++ s.revoked, namedBy verify req ++ s.named⟩
  | .gc now => some { s with revoker := s.revoker.gc now }

/-- 200 means that the session the token names has been revoked, now or before; every other answer
    leaves the revoker as it was. -/
def Truthful (s : State) : Action → State → Prop
  | .logout now verify req, t =>
    let answer := handleBackchannelLogout ttl now (some s.revoker) verify req
    (answer.response.status = 200 → ∃ sid ∈ namedBy verify req, sid ∈ t.revoked) ∧
      (answer.response.status ≠ 200 → t.revoker = s.revoker)
  | .gc _, _ => True

/-- A token with an identifier of its own names a session, and where that identifier is still held, a
    session that has been named before. -/
def Accountable (s : State) (token : LogoutToken) : Prop :=
  token.jti ≠ "" → token.sid ≠ "" ∧ (s.revoker.jtis token.jti ≠ none → token.sid ∈ s.named)

def Sound (s : State) : Action → Prop
  | .logout _ verify req => ∀ token, validateLogout verify req = .ok token → Accountable s token
  | .gc _ => True

/-- Whatever has been named has been revoked. -/
def Settled (s : State) : Prop := ∀ sid, sid ∈ s.named ↔ sid ∈ s.revoked

theorem seen_held {jti : String} (named : jti ≠ "") (held : r.jtis jti ≠ none)
    (expiry : Int) : r.seenJTI jti expiry = (true, r) := by
  unfold MemoryRevoker.seenJTI
  rw [if_neg named]
  cases entry : r.jtis jti with
  | none => exact absurd entry held
  | some x => rfl

theorem seen_fresh {jti : String} (fresh : jti ≠ "" → r.jtis jti = none)
    (expiry : Int) : (r.seenJTI jti expiry).1 = false ∧ ((r.seenJTI jti expiry).2 = r ↔ jti = "") := by
  unfold MemoryRevoker.seenJTI
  by_cases named : jti = ""
  · rw [if_pos named]
    exact ⟨rfl, iff_of_true rfl named⟩
  · rw [if_neg named, fresh named]
    refine ⟨rfl, iff_of_false ?_ named⟩
    intro same
    have entry := congrArg (fun r => MemoryRevoker.jtis r jti) same
    simp [fresh named] at entry

theorem process_held (now : Int) (named : token.jti ≠ "") (held : r.jtis token.jti ≠ none) :
    processLogout ttl now r token = ⟨⟨200, ""⟩, some r, none⟩ := by
  unfold processLogout
  rw [seen_held named held]

/-- A token whose identifier is not held revokes the session it names; without a session it is refused,
    and yet its identifier is kept. -/
theorem process_fresh (now : Int) (fresh : token.jti ≠ "" → r.jtis token.jti = none) :
    ∃ r', (r' = r ↔ token.jti = "") ∧ processLogout ttl now r token =
      if token.sid ≠ "" then ⟨⟨200, ""⟩, some (r'.revoke token.sid (now + ttl)), some token.sid⟩
      else ⟨⟨501, "sub-only revocation not supported; sid claim required"⟩, some r', none⟩ := by
  obtain ⟨unseen, kept⟩ := seen_fresh fresh (token.expiry.getD (now + ttl))
  cases seen : r.seenJTI token.jti (token.expiry.getD (now + ttl)) with
  | mk hit r' =>
    rw [seen] at unseen kept
    obtain rfl : hit = false := unseen
    refine ⟨r', kept, ?_⟩
    unfold processLogout
    rw [seen]

/-- An invalid request is refused with an error, and nothing comes of it. -/
theorem validate_refuses {response : Response}
    (refused : validateLogout verify req = .error response) : response.status ≠ 200 := by
  unfold validateLogout at refused
  grind

theorem held_or_fresh (r : MemoryRevoker) (jti : String) :
    (jti ≠ "" ∧ r.jtis jti ≠ none) ∨ (jti ≠ "" → r.jtis jti = none) := by
  by_cases held : jti ≠ "" ∧ r.jtis jti ≠ none
  · exact Or.inl held
  · refine Or.inr fun named => ?_
    by_contra entry
    exact held ⟨named, entry⟩

/-- One answer, seen from the token that passed the checks. -/
theorem accountable_iff {s : State} (now : Int) (token : LogoutToken) (settled : Settled s) :
    Accountable s token ↔ ((processLogout ttl now s.revoker token).response.status = 200 → token.sid ≠ "" ∧
        token.sid ∈ (processLogout ttl now s.revoker token).revoked.toList ++ s.revoked) ∧
      ((processLogout ttl now s.revoker token).response.status ≠ 200 →
        (processLogout ttl now s.revoker token).revoker = some s.revoker) := by
  rcases held_or_fresh s.revoker token.jti with ⟨named, held⟩ | fresh
  · rw [process_held ttl now named held]
    constructor
    · intro account
      obtain ⟨session, earlier⟩ := account named
      exact ⟨fun _ => ⟨session, (settled _).mp (earlier held)⟩, fun other => absurd rfl other⟩
    · rintro ⟨honest, _⟩ _
      obtain ⟨session, earlier⟩ := honest rfl
      exact ⟨session, fun _ => (settled _).mpr earlier⟩
  · obtain ⟨r', kept, answered⟩ := process_fresh ttl now fresh
    rw [answered]
    by_cases session : token.sid = ""
    · rw [if_neg (by simp [session])]
      constructor
      · intro account
        have anonymous : token.jti = "" := by
          by_contra named
          exact (account named).1 session
        exact ⟨fun other => absurd other (by simp), fun _ => congrArg some (kept.mpr anonymous)⟩
      · rintro ⟨_, unchanged⟩ named
        have same := Option.some.inj (unchanged (by simp))
        exact absurd (kept.mp same) named
    · rw [if_pos session]
      constructor
      · intro _
        exact ⟨fun _ => ⟨session, List.mem_append_left _ (List.mem_singleton_self _)⟩,
          fun other => absurd rfl other⟩
      · intro _ named
        exact ⟨session, fun held => absurd (fresh named) held⟩

theorem handle_valid (now : Int) (r : MemoryRevoker) (valid : validateLogout verify req = .ok token) :
    handleBackchannelLogout ttl now (some r) verify req = processLogout ttl now r token := by
  simp only [handleBackchannelLogout, valid]

theorem handle_refused (now : Int) (r : MemoryRevoker)
    {response : Response} (refused : validateLogout verify req = .error response) :
    handleBackchannelLogout ttl now (some r) verify req = ⟨response, some r, none⟩ := by
  simp only [handleBackchannelLogout, refused]

theorem named_valid (valid : validateLogout verify req = .ok token) (sid : String) :
    sid ∈ namedBy verify req ↔ token.sid ≠ "" ∧ sid = token.sid := by
  simp only [namedBy, valid]
  split
  next anonymous => simp [anonymous]
  next named => simp [named]

theorem process_stored (now : Int) (r : MemoryRevoker) (token : LogoutToken) :
    ∃ r', (processLogout ttl now r token).revoker = some r' :=
  (process_revoked ttl now r token).imp fun _ stored => stored.1

theorem sound_iff_truthful {s : State} (a : Action) (settled : Settled s) :
    Sound s a ↔ ∀ t, step ttl s a = some t → Truthful ttl s a t := by
  cases a with
  | gc now => exact iff_of_true trivial fun _ _ => trivial
  | logout now verify req =>
    cases checked : validateLogout verify req with
    | error response =>
      have refused := handle_refused ttl now s.revoker checked
      refine iff_of_true (fun token valid => ?_) fun t moved => ?_
      · rw [checked] at valid
        exact absurd valid (by simp)
      · simp only [step, refused, Option.map_some, Option.some.injEq] at moved
        subst moved
        simp only [Truthful, refused]
        exact ⟨fun accepted => absurd accepted (validate_refuses checked), fun _ => trivial⟩
    | ok token =>
      have answered := handle_valid ttl now s.revoker checked
      obtain ⟨r', stored⟩ := process_stored ttl now s.revoker token
      have account := accountable_iff ttl now token settled
      have sound : Sound s (.logout now verify req) ↔ Accountable s token := by
        constructor
        · intro all
          exact all token checked
        · intro account other valid
          rw [checked] at valid
          obtain rfl := Except.ok.inj valid
          exact account
      rw [sound, account]
      simp only [step, Truthful, answered, stored, Option.map_some, Option.some.injEq,
        forall_eq', named_valid checked]
      refine and_congr (forall_congr' fun _ => ?_) Iff.rfl
      constructor
      · rintro ⟨session, recorded⟩
        exact ⟨token.sid, ⟨session, rfl⟩, recorded⟩
      · rintro ⟨sid, ⟨session, rfl⟩, recorded⟩
        exact ⟨session, recorded⟩

theorem settled_step {s t : State} {a : Action} (settled : Settled s) (sound : Sound s a)
    (moved : step ttl s a = some t) : Settled t := by
  cases a with
  | gc now =>
    simp only [step, Option.some.injEq] at moved
    subst moved
    exact settled
  | logout now verify req =>
    cases checked : validateLogout verify req with
    | error response =>
      simp only [step, handle_refused ttl now s.revoker checked, Option.map_some,
        Option.some.injEq] at moved
      subst moved
      simp only [Settled, namedBy, checked, Option.toList_none, List.nil_append]
      exact settled
    | ok token =>
      obtain ⟨r', stored⟩ := process_stored ttl now s.revoker token
      simp only [step, handle_valid ttl now s.revoker checked, stored, Option.map_some,
        Option.some.injEq] at moved
      subst moved
      intro sid
      simp only [List.mem_append, named_valid checked, settled sid]
      have account := sound token checked
      rcases held_or_fresh s.revoker token.jti with ⟨named, held⟩ | fresh
      · rw [process_held ttl now named held]
        have earlier := (settled _).mp ((account named).2 held)
        constructor
        · rintro (⟨_, rfl⟩ | before)
          · exact Or.inr earlier
          · exact Or.inr before
        · rintro (none_ | before)
          · exact absurd none_ (by simp)
          · exact Or.inr before
      · obtain ⟨r', kept, answered⟩ := process_fresh ttl now fresh
        rw [answered]
        by_cases session : token.sid = ""
        · rw [if_neg (by simp [session])]
          simp [session]
        · rw [if_pos session]
          simp [session]

/-- In every run the endpoint's answers are true exactly as long as each token accounts for its
    identifier. -/
theorem logout_truthful (labels : List Action) : Throughout (step ttl) (Truthful ttl) initial labels ↔
      Guarded (step ttl) Sound initial labels := by
  refine @throughout_iff_guarded _ _ _ _ Settled _ ?_ ?_ _ ?_ _
  · intro s a t settled sound moved
    exact settled_step ttl settled sound moved
  · intro s a settled
    exact sound_iff_truthful ttl a settled
  · intro sid
    exact Iff.rfl

end Run

/-- A token that names its subject only, with an identifier of its own. -/
def subjectLogout : LogoutToken := ⟨some [backchannelLogoutEventURI], false, "", "alice", "j1", none⟩

def deliver (now : Int) (revoker : Option MemoryRevoker) : LogoutOutcome :=
  handleBackchannelLogout 3600 now revoker (fun _ => .claims subjectLogout) ⟨"POST", some "token"⟩

def subjectPost (now : Int) : Action := .logout now (fun _ => .claims subjectLogout) ⟨"POST", some "token"⟩

/-- The first delivery is refused and the second of the same token accepted, with nothing revoked. -/
theorem retried_subject_logout_untruthful : ((deliver 0 (some newMemoryRevoker)).response.status = 501 ∧
      (deliver 60 (deliver 0 (some newMemoryRevoker)).revoker).response.status = 200 ∧
      (deliver 60 (deliver 0 (some newMemoryRevoker)).revoker).revoked = none) ∧
    ¬ Throughout (step 3600) (Truthful 3600) initial [subjectPost 0, subjectPost 60] := by
  refine ⟨⟨rfl, rfl, rfl⟩, fun throughout => ?_⟩
  have sound := (sound_iff_truthful 3600 (subjectPost 0) fun _ => Iff.rfl).mpr fun t first =>
    (throughout t first).1
  exact (sound subjectLogout rfl (by decide)).1 rfl

end LogoutRun
