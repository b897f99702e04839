import Mathlib.Data.List.Basic

/- pkg/auth/permissions.go. A nil slice is `none` and stands for every namespace, a non-nil
   slice is `some`. Instants and durations are integer nanoseconds. The current context name,
   which the code reads through a provider function, is an argument. -/
namespace Permissions

structure User where
  username : String
  groups : List String
  deriving DecidableEq, Repr

structure UserPermissions where
  allowedNamespaces : Option (List String)
  expiresAt : Int
  contextName : String
  deriving DecidableEq, Repr

structure SubjectAccessReview where
  user : String
  groups : List String
  namespace_ : String
  group : String
  resource : String
  verb : String
  deriving DecidableEq, Repr

/-- The API server behind a client, as the answers it gives to reviews. -/
abbrev Client := SubjectAccessReview → Except String Bool

def subjectCanI (client : Client) (username : String) (groups : List String)
    (ns group resource verb : String) : Except String Bool :=
  client ⟨username, groups, ns, group, resource, verb⟩

/-- One goroutine of the per-namespace fan-out. -/
def reviewNamespace (client : Client) (username : String) (groups : List String)
    (ns : String) : Except String Bool :=
  match subjectCanI client username groups ns "" "pods" "list" with
  | .error err => .error err
  | .ok true => .ok true
  | .ok false => subjectCanI client username groups ns "apps" "deployments" "list"

structure Received where
  allowedNS : List String
  firstErr : Option String

def receive (seen : Received) (r : String × Except String Bool) : Received := match r.2 with
  | .error err => { seen with firstErr := seen.firstErr.or (some err) }
  | .ok true => { seen with allowedNS := seen.allowedNS ++ [r.1] }
  | .ok false => seen

/-- `arrivals` is the order in which the goroutines' answers come back on the channel, some
   ordering of the candidate namespaces. -/
def discoverNamespaces (client : Client) (username : String) (groups : List String)
    (arrivals : List String) : Except String (Option (List String)) :=
  match subjectCanI client username groups "" "" "pods" "list" with
  | .error err => .error err
  | .ok true => .ok none
  | .ok false =>
    let results := arrivals.map fun ns => (ns, reviewNamespace client username groups ns)
    let seen := results.foldl receive ⟨[], none⟩
    match seen.firstErr with
    | some err => .error err
    | none => .ok (some seen.allowedNS)

def filterNamespacesForUser (requested : Option (List String)) (user : Option User)
    (perms : Option UserPermissions) : Option (List String) :=
  match user, perms with
  | none, _ => requested
  | some _, none => some []
  | some _, some perms =>
    match perms.allowedNamespaces with
    | none => requested
    | some allowed =>
      if (requested.getD []).length = 0 then some allowed
      else some ((requested.getD []).filter fun ns => allowed.contains ns)

structure PermissionCache where
  cache : String → Option UserPermissions
  ttl : Int

def newPermissionCache : PermissionCache := ⟨fun _ => none, 2 * 60 * 1000000000⟩

def PermissionCache.get (pc : PermissionCache) (now : Int) (current : String)
    (username : String) : Option UserPermissions :=
  match pc.cache username with
  | none => none
  | some perms =>
    if perms.expiresAt < now then none
    else if perms.contextName ≠ current then none
    else some perms

/-- The entry as it is stored: restamped with the expiry and the context current at this call. -/
def PermissionCache.stamp (pc : PermissionCache) (now : Int) (current : String)
    (perms : UserPermissions) : UserPermissions :=
  { perms with expiresAt := now + pc.ttl, contextName := current }

def PermissionCache.set (pc : PermissionCache) (now : Int) (current : String)
    (username : String) (perms : UserPermissions) : PermissionCache :=
  { pc with cache := fun u => if u = username then some (pc.stamp now current perms)
      else match pc.cache u with
        | none => none
        | some p => if p.expiresAt < now then none else some p }

def PermissionCache.invalidate (pc : PermissionCache) : PermissionCache :=
  { pc with cache := fun _ => none }

section Discovery
variable {client : Client} {username : String} {groups : List String}

theorem receive_allowed (results : List (String × Except String Bool)) (seen : Received)
    {ns : String} (listed : ns ∈ (results.foldl receive seen).allowedNS) :
    ns ∈ seen.allowedNS ∨ (ns, .ok true) ∈ results := by
  induction results generalizing seen with
  | nil => exact Or.inl listed
  | cons r rest ih =>
    rcases ih (receive seen r) listed with kept | later
    · obtain ⟨name, answer⟩ := r
      cases answer with
      | error err => exact Or.inl kept
      | ok allowed =>
        cases allowed with
        | false => exact Or.inl kept
        | true =>
          rcases List.mem_append.mp kept with old | new
          · exact Or.inl old
          · rw [List.mem_singleton.mp new]
            exact Or.inr (List.mem_cons_self)
    · exact Or.inr (List.mem_cons_of_mem r later)

/-- A discovered list holds candidates only, each of which the server allowed. -/
theorem discovered_allowed {arrivals allowed : List String}
    (found : discoverNamespaces client username groups arrivals = .ok (some allowed))
    {ns : String} (listed : ns ∈ allowed) :
    ns ∈ arrivals ∧ reviewNamespace client username groups ns = .ok true := by
  unfold discoverNamespaces at found
  split at found
  · contradiction
  · simp at found
  · dsimp only at found
    split at found
    · contradiction
    · simp only [Except.ok.injEq, Option.some.injEq] at found
      subst found
      rcases receive_allowed _ _ listed with impossible | answered
      · simp at impossible
      · obtain ⟨name, candidate, same⟩ := List.mem_map.mp answered
        simp only [Prod.mk.injEq] at same
        obtain ⟨rfl, review⟩ := same
        exact ⟨candidate, review⟩

end Discovery

section Cache
variable {pc : PermissionCache} {now : Int} {current username : String}

theorem get_some {perms : UserPermissions} (hit : pc.get now current username = some perms) :
    pc.cache username = some perms ∧ now ≤ perms.expiresAt ∧ perms.contextName = current := by
  unfold PermissionCache.get at hit
  split at hit
  · contradiction
  · split at hit
    · contradiction
    · split at hit
      · contradiction
      · simp only [Option.some.injEq] at hit
        subst hit
        exact ⟨by assumption, by omega, by simp_all⟩

theorem set_same (perms : UserPermissions) :
    (pc.set now current username perms).cache username = some (pc.stamp now current perms) := by
  simp [PermissionCache.set]

theorem set_other {perms p : UserPermissions} {u : String} (other : u ≠ username)
    (kept : (pc.set now current username perms).cache u = some p) : pc.cache u = some p := by
  simp only [PermissionCache.set, other, if_false] at kept
  split at kept
  · contradiction
  · split at kept
    · contradiction
    · simp_all

theorem set_stamp (perms : UserPermissions) : pc.set now current username (pc.stamp now current perms) =
      pc.set now current username perms := rfl

theorem get_after_set (perms : UserPermissions) (positive : 0 ≤ pc.ttl) :
    (pc.set now current username perms).get now current username = some (pc.stamp now current perms) := by
  have unexpired : ¬ now + pc.ttl < now := by omega
  unfold PermissionCache.get
  rw [set_same]
  simp [PermissionCache.stamp, unexpired]

end Cache

end Permissions
