import Radar.Base.Runs
import Radar.Server.NamespaceScope

/- Requests of `getUserNamespaces` in their separate steps, interleaved with context switches.
   A switch is the swap of client and context name and, at some later time or never,
   `Invalidate`: a switch that fails its connectivity test leaves the cache as it is. -/
namespace ContextSwitch
open Permissions NamespaceScope

/-- A call of DiscoverNamespaces: the context whose API server it asked, the answers that server
   gave, the groups it named and the order in which the reviews came back. -/
structure Discovery where
  context : String
  server : Client
  groups : List String
  arrivals : List String

def Discovery.result (d : Discovery) (username : String) : Except String (Option (List String)) :=
  discoverNamespaces d.server username d.groups d.arrivals

inductive Phase where
  | arrived
  | missed
  | connected (context : String)
  | discovered (d : Discovery) (allowed : Option (List String))
  | resolved (perms : UserPermissions)
  | answered (result : Option (List String))

structure Request where
  user : User
  requested : Option (List String)
  phase : Phase

/-- `clientOf` is the context the current client talks to, `none` before the first connection.
   `origin` is history: the discovery whose result was last stored for a user. -/
structure State where
  now : Int
  contextName : String
  clientOf : Option String
  pc : PermissionCache
  origin : String → Option Discovery
  requests : Nat → Option Request

variable {s : State} {allowed : Option (List String)}

inductive Action where
  | arrive (id : Nat) (user : User) (requested : Option (List String))
  | get (id : Nat)
  | readClient (id : Nat)
  | discover (id : Nat) (server : Client) (arrivals : List String)
  | set (id : Nat)
  | filter (id : Nat)
  | swap (contextName : String)
  | invalidate
  | tick (elapsed : Nat)

def State.move (s : State) (id : Nat) (r : Request) (phase : Phase) : State :=
  { s with requests := fun i => if i = id then some { r with phase := phase } else s.requests i }

def getStep (s : State) (id : Nat) (r : Request) : State :=
  match s.pc.get s.now s.contextName r.user.username with
  | some perms => s.move id r (.resolved perms)
  | none => s.move id r .missed

def readClientStep (s : State) (id : Nat) (r : Request) : State := match s.clientOf with
  | none => s.move id r (.answered (some []))
  | some context => s.move id r (.connected context)

def discoverStep (s : State) (id : Nat) (r : Request) (d : Discovery) : State :=
  match d.result r.user.username with
  | .error _ => s.move id r (.answered (some []))
  | .ok allowed => s.move id r (.discovered d allowed)

def setStep (s : State) (id : Nat) (r : Request) (d : Discovery)
    (allowed : Option (List String)) : State :=
  let perms := s.pc.stamp s.now s.contextName ⟨allowed, 0, ""⟩
  { s.move id r (.resolved perms) with
    pc := s.pc.set s.now s.contextName r.user.username ⟨allowed, 0, ""⟩
    origin := fun u => if u = r.user.username then some d else s.origin u }

def step (s : State) : Action → Option State
  | .arrive id user requested =>
    if (s.requests id).isSome then none
    else some (s.move id ⟨user, requested, .arrived⟩ .arrived)
  | .get id =>
    match s.requests id with
    | some r => match r.phase with
      | .arrived => some (getStep s id r)
      | _ => none
    | none => none
  | .readClient id =>
    match s.requests id with
    | some r => match r.phase with
      | .missed => some (readClientStep s id r)
      | _ => none
    | none => none
  | .discover id server arrivals =>
    match s.requests id with
    | some r => match r.phase with
      | .connected context =>
        some (discoverStep s id r ⟨context, server, r.user.groups, arrivals⟩)
      | _ => none
    | none => none
  | .set id =>
    match s.requests id with
    | some r => match r.phase with
      | .discovered d allowed => some (setStep s id r d allowed)
      | _ => none
    | none => none
  | .filter id =>
    match s.requests id with
    | some r => match r.phase with
      | .resolved perms => some (s.move id r
          (.answered (filterNamespacesForUser r.requested (some r.user) (some perms))))
      | _ => none
    | none => none
  | .swap contextName => some { s with contextName := contextName, clientOf := some contextName }
  | .invalidate => some { s with pc := s.pc.invalidate }
  | .tick elapsed => some { s with now := s.now + elapsed }

def initial (now : Int) (contextName : String) (clientOf : Option String) : State where
  now := now
  contextName := contextName
  clientOf := clientOf
  pc := newPermissionCache
  origin := fun _ => none
  requests := fun _ => none

/-- Whatever `Get` returns under the current context was discovered from its API server. -/
def Safe (s : State) : Prop := ∀ username perms, s.pc.get s.now s.contextName username = some perms →
    ∃ d, s.origin username = some d ∧ d.context = s.contextName ∧
      d.result username = .ok perms.allowedNamespaces

/-- `Set` stores what was discovered from the server of the context current at the `Set`. -/
def SetsOwnContext (s : State) : Action → Prop
  | .set id => ∀ r d allowed, s.requests id = some r → r.phase = .discovered d allowed →
      d.context = s.contextName
  | _ => True

/-- What a request carries after its discovery is what its server's answers give. -/
def RequestsHonest (s : State) : Prop :=
  ∀ id r d allowed, s.requests id = some r → r.phase = .discovered d allowed →
    d.result r.user.username = .ok allowed

def CacheHonest (s : State) : Prop := ∀ username perms, s.pc.cache username = some perms →
    ∃ d, s.origin username = some d ∧ d.context = perms.contextName ∧
      d.result username = .ok perms.allowedNamespaces

structure Honest (s : State) : Prop where
  lasting : 0 ≤ s.pc.ttl
  requests : RequestsHonest s
  cache : CacheHonest s

theorem honest_initial (now : Int) (contextName : String) (clientOf : Option String) :
    Honest (initial now contextName clientOf) := by
  constructor
  · simp [initial, newPermissionCache]
  · intro id r d allowed present
    simp [initial] at present
  · intro username perms present
    simp [initial, newPermissionCache] at present

theorem honest_safe (honest : Honest s) : Safe s := by
  intro username perms hit
  obtain ⟨stored, _, stamped⟩ := get_some hit
  obtain ⟨d, from_, context, result⟩ := honest.cache username perms stored
  exact ⟨d, from_, context.trans stamped, result⟩

/-- A move to a phase that carries no discovery keeps both halves of the invariant. -/
theorem honest_move (honest : Honest s) (id : Nat) (r : Request) (phase : Phase)
    (undiscovered : ∀ d allowed, phase = .discovered d allowed →
      d.result r.user.username = .ok allowed) : Honest (s.move id r phase) := by
  constructor
  · exact honest.lasting
  · intro i r' d allowed present discovered
    by_cases same : i = id
    · simp only [State.move, same, if_true, Option.some.injEq] at present
      subst present
      exact undiscovered d allowed discovered
    · simp only [State.move, same, if_false] at present
      exact honest.requests i r' d allowed present discovered
  · exact honest.cache

theorem honest_get (honest : Honest s) (id : Nat) (r : Request) : Honest (getStep s id r) := by
  unfold getStep
  split
  · exact honest_move honest id r _ (by simp)
  · exact honest_move honest id r _ (by simp)

theorem honest_read_client (honest : Honest s) (id : Nat) (r : Request) :
    Honest (readClientStep s id r) := by
  unfold readClientStep
  split
  · exact honest_move honest id r _ (by simp)
  · exact honest_move honest id r _ (by simp)

theorem honest_discover (honest : Honest s) (id : Nat) (r : Request)
    (d : Discovery) : Honest (discoverStep s id r d) := by
  unfold discoverStep
  split
  · exact honest_move honest id r _ (by simp)
  · rename_i allowed found
    apply honest_move honest id r
    intro d' allowed' same
    simp only [Phase.discovered.injEq] at same
    obtain ⟨rfl, rfl⟩ := same
    exact found

theorem honest_set (honest : Honest s) {id : Nat} {r : Request} {d : Discovery}
    (found : d.result r.user.username = .ok allowed)
    (own : d.context = s.contextName) : Honest (setStep s id r d allowed) := by
  constructor
  · exact honest.lasting
  · exact (honest_move honest id r _ (by simp)).requests
  · intro username perms stored
    by_cases same : username = r.user.username
    · subst same
      simp only [setStep, set_same, Option.some.injEq] at stored
      subst stored
      exact ⟨d, by simp [setStep], own, found⟩
    · obtain ⟨d', from_, context, result⟩ := honest.cache username perms (set_other same stored)
      exact ⟨d', by simp [setStep, same, from_], context, result⟩

theorem honest_step {s t : State} {a : Action} (honest : Honest s) (own : SetsOwnContext s a)
    (taken : step s a = some t) : Honest t := by
  cases a with
  | arrive id user requested =>
    simp only [step] at taken
    split at taken
    · contradiction
    · cases taken
      exact honest_move honest id _ _ (by simp)
  | get id =>
    simp only [step] at taken
    split at taken <;> try contradiction
    split at taken <;> try contradiction
    cases taken
    exact honest_get honest id _
  | readClient id =>
    simp only [step] at taken
    split at taken <;> try contradiction
    split at taken <;> try contradiction
    cases taken
    exact honest_read_client honest id _
  | discover id server arrivals =>
    simp only [step] at taken
    split at taken <;> try contradiction
    split at taken <;> try contradiction
    cases taken
    exact honest_discover honest id _ _
  | set id =>
    simp only [step] at taken
    split at taken <;> try contradiction
    rename_i r present
    split at taken <;> try contradiction
    rename_i d allowed discovered
    cases taken
    exact honest_set honest (honest.requests id r d allowed present discovered)
      (own r d allowed present discovered)
  | filter id =>
    simp only [step] at taken
    split at taken <;> try contradiction
    split at taken <;> try contradiction
    cases taken
    exact honest_move honest id _ _ (by simp)
  | swap contextName =>
    cases taken
    exact ⟨honest.lasting, honest.requests, honest.cache⟩
  | invalidate =>
    cases taken
    refine ⟨honest.lasting, honest.requests, ?_⟩
    intro username perms stored
    simp [PermissionCache.invalidate] at stored
  | tick elapsed =>
    cases taken
    exact ⟨honest.lasting, honest.requests, honest.cache⟩

/-- The cluster a lookup sees when nothing else happens between its steps. -/
def clusterOf (s : State) (server : Client) (arrivals : List String) : Cluster where
  now := s.now
  contextName := s.contextName
  client := s.clientOf.map fun _ => server
  listed := []
  accessible := []
  arrivalOrder := fun _ => arrivals
  saved := fun _ => []

/-- The steps a request goes through when its user is cached, and when the discovery succeeds. -/
def cachedPath (id : Nat) : List Action := [.get id, .filter id]

def discoveryPath (id : Nat) (server : Client) (arrivals : List String) : List Action :=
  [.get id, .readClient id, .discover id server arrivals, .set id, .filter id]

/-- Uninterrupted, the steps answer and store as the one function does. -/
theorem uninterrupted_request {id : Nat} {r : Request}
    (present : s.requests id = some r) (arrived : r.phase = .arrived) (server : Client)
    (arrivals : List String) (connected : s.clientOf.isSome)
    (found : discoverNamespaces server r.user.username r.user.groups arrivals = .ok allowed) :
    ∃ path, (path = cachedPath id ∨ path = discoveryPath id server arrivals) ∧
      ∃ t, Runs.exec step s path = some t ∧
      (∃ r', t.requests id = some r' ∧ r'.phase = .answered
        (getUserNamespaces ⟨some s.pc, fun _ => none⟩ (clusterOf s server arrivals)
          (some r.user) r.requested).1) ∧
      some t.pc = (getUserNamespaces ⟨some s.pc, fun _ => none⟩ (clusterOf s server arrivals)
          (some r.user) r.requested).2.permCache := by
  obtain ⟨context, client⟩ := Option.isSome_iff_exists.mp connected
  cases hit : s.pc.get s.now s.contextName r.user.username with
  | some perms =>
    refine ⟨cachedPath id, Or.inl rfl, ?_⟩
    simp [cachedPath, Runs.exec, step, present, arrived, getStep, hit, State.move,
      getUserNamespaces, clusterOf]
  | none =>
    refine ⟨discoveryPath id server arrivals, Or.inr rfl, ?_⟩
    simp [discoveryPath, Runs.exec, step, present, arrived, getStep, hit, State.move,
      readClientStep, client, discoverStep, Discovery.result, found, setStep,
      getUserNamespaces, clusterOf, set_stamp]

/-- Right after a `Set` under another context than the one asked, `Get` returns the entry and the
   entry is another cluster's. -/
theorem foreign_set_unsafe {r : Request} {d : Discovery} (id : Nat)
    (allowed : Option (List String)) (foreign : d.context ≠ s.contextName)
    (lasting : 0 ≤ s.pc.ttl) : ¬ Safe (setStep s id r d allowed) := by
  intro safe
  have hit : (setStep s id r d allowed).pc.get s.now s.contextName r.user.username = _ :=
    get_after_set ⟨allowed, 0, ""⟩ lasting
  obtain ⟨d', from_, context, _⟩ := safe r.user.username _ hit
  simp only [setStep, if_true, Option.some.injEq] at from_
  subst from_
  exact foreign context

theorem safe_steps_set_own_context (s : State) (a : Action) (honest : Honest s)
    (safe : ∀ t, step s a = some t → Safe t) : SetsOwnContext s a := by
  cases a with
  | set id =>
    intro r d allowed present discovered
    by_contra foreign
    exact foreign_set_unsafe id allowed foreign honest.lasting
      (safe (setStep s id r d allowed) (by simp only [step, present, discovered]))
  | _ => trivial

/-- Any number of requests, swaps and invalidations, in any order: `Get` is safe in every state
   on the way if and only if each `Set` stores what was discovered from the context it is
   stamped with. -/
theorem cross_cluster_safe_iff (now : Int) (contextName : String) (clientOf : Option String)
    (labels : List Action) :
    Runs.Along step Safe (initial now contextName clientOf) labels ↔
      Runs.Guarded step SetsOwnContext (initial now contextName clientOf) labels :=
  Runs.along_iff_guarded (fun _ _ _ honest own taken => honest_step honest own taken)
    (fun _ honest => honest_safe honest) safe_steps_set_own_context
    (honest_initial now contextName clientOf) labels

def bob : User := ⟨"bob", []⟩

/-- The reviews of "blue" let bob list everything. -/
theorem bob_answered : ∃ path t r, Runs.exec step (initial 0 "blue" (some "blue"))
      (.arrive 0 bob (some ["shop"]) :: path) = some t ∧ t.requests 0 = some r ∧ r.phase = .answered (some ["shop"]) :=
  let ⟨path, _, t, run, ⟨r, here, answer⟩, _⟩ := uninterrupted_request (r := ⟨bob, some ["shop"], .arrived⟩)
    rfl rfl (fun _ => .ok true) [] rfl rfl
  ⟨path, t, r, run, here, answer⟩

/-- A request that asks the API server of "blue", whose reviews let bob list everything, and
   stores the answer after the switch to "green". -/
def straddlingSwitch : List Action :=
  [.arrive 0 bob none, .get 0, .readClient 0, .discover 0 (fun _ => .ok true) [], .swap "green", .set 0]

theorem straddling_switch_unsafe :
    ¬ ∀ labels s, Runs.exec step (initial 0 "blue" (some "blue")) labels = some s → Safe s := by
  intro claimed
  have along : ∀ s, Runs.exec step (initial 0 "blue" (some "blue")) straddlingSwitch = some s →
      Safe s := claimed straddlingSwitch
  have safe := along _ rfl
  obtain ⟨d, from_, context, _⟩ := safe "bob" ⟨none, 120000000000, "green"⟩ rfl
  cases from_
  exact absurd context (by decide)

end ContextSwitch
