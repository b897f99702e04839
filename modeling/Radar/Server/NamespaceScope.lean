import Radar.Auth.Permissions
import Radar.Base.GoText
import Radar.Topology.Types

/- internal/server/server.go and namespace_scope.go: from the query of a request and the user's
   saved pick to the namespace list that reads are filtered by. -/
namespace NamespaceScope
open Permissions GoText
variable {allowed : List String} {perms : Option UserPermissions} {result : Option (List String)}

/-- url.Values: the values given for a key, in order. -/
abbrev Values := String → List String

def Values.get (query : Values) (key : String) : String := (query key).headD ""

def dedupeStrings (values : List String) : List String :=
  values.foldl (fun out v => if out.contains v then out else out ++ [v]) []

def parseNamespaces (query : Values) : Option (List String) := if query.get "namespaces" ≠ "" then
    let parts := (split ',' (query.get "namespaces")).map trimSpace
    some (dedupeStrings (parts.filter fun p => p ≠ ""))
  else if query.get "namespace" ≠ "" then some [query.get "namespace"]
  else none

structure Server where
  permCache : Option PermissionCache
  nsPreferences : String → Option (List String)

/-- What the k8s and settings packages report while one permission lookup runs: the clock, the
   context, the client, the namespaces of the informer cache and of the fallback listing, the
   order in which the reviews come back, and the picks saved on disk by context. -/
structure Cluster where
  now : Int
  contextName : String
  client : Option Client
  listed : List String
  accessible : List String
  arrivalOrder : List String → List String
  saved : String → List String

def candidateNamespaces (k : Cluster) : List String :=
  if k.listed.length = 0 ∧ 0 < k.accessible.length then k.accessible else k.listed

def getUserNamespaces (s : Server) (k : Cluster) (user : Option User)
    (requested : Option (List String)) : Option (List String) × Server :=
  match user, s.permCache with
  | none, _ => (requested, s)
  | some _, none => (requested, s)
  | some user, some pc =>
    match pc.get k.now k.contextName user.username with
    | some perms => (filterNamespacesForUser requested (some user) (some perms), s)
    | none =>
      match k.client with
      | none => (some [], s)
      | some client =>
        match discoverNamespaces client user.username user.groups
            (k.arrivalOrder (candidateNamespaces k)) with
        | .error _ => (some [], s)
        | .ok allowed =>
          let perms := pc.stamp k.now k.contextName ⟨allowed, 0, ""⟩
          (filterNamespacesForUser requested (some user) (some perms),
            { s with permCache := some (pc.set k.now k.contextName user.username perms) })

def nsPreferenceKey (username contextName : String) : String := username ++ "\x00" ++ contextName

def getActiveNamespaceForUser (s : Server) (k : Cluster) (user : Option User) : Option (List String) :=
  if k.contextName = "" then none
  else s.nsPreferences (nsPreferenceKey ((user.map User.username).getD "") k.contextName)

def setActiveNamespaceForUser (s : Server) (k : Cluster) (user : Option User)
    (namespaces : List String) : Server :=
  if k.contextName = "" then s
  else
    let key := nsPreferenceKey ((user.map User.username).getD "") k.contextName
    { s with nsPreferences := fun i =>
        if i = key then (if namespaces.length = 0 then none else some namespaces)
        else s.nsPreferences i }

def loadSavedNamespacePreference (s : Server) (k : Cluster) (user : Option User) : Server := match user with
  | some _ => s
  | none =>
    let key := nsPreferenceKey "" k.contextName
    if k.contextName = "" then s
    else if (s.nsPreferences key).isSome then s
    else if (k.saved k.contextName).length = 0 then s
    else { s with nsPreferences := fun i =>
        if i = key then some (k.saved k.contextName) else s.nsPreferences i }

def noNamespaceAccess (namespaces : Option (List String)) : Bool := namespaces = some []

/-- The list the first lookup filters, and whether it came from the user's saved pick. -/
def requestedNamespaces (s : Server) (k : Cluster) (user : Option User) (query : Values) :
    Option (List String) × Bool :=
  match parseNamespaces query with
  | some explicit => (some explicit, false)
  | none =>
    let picks := (getActiveNamespaceForUser s k user).getD []
    if 0 < picks.length then (some picks, true) else (none, false)

/-- `k'` is the cluster as the second lookup finds it, after a stale pick has been dropped. -/
def parseNamespacesForUser (s : Server) (k k' : Cluster) (user : Option User) (query : Values) :
    Option (List String) × Server :=
  let s := if (parseNamespaces query).isNone then loadSavedNamespacePreference s k user else s
  let (namespaces, pickFallback) := requestedNamespaces s k user query
  let (filtered, s) := getUserNamespaces s k user namespaces
  if pickFallback && noNamespaceAccess filtered then
    getUserNamespaces (setActiveNamespaceForUser s k user []) k' user none
  else (filtered, s)

/-- The permissions a lookup ends up with: the cached entry, the one discovered and stored just
   now, or none when they cannot be established. -/
def resolvedPerms (s : Server) (k : Cluster) (user : User) : Option UserPermissions :=
  s.permCache.bind fun pc => (pc.get k.now k.contextName user.username).or
      (k.client.bind fun client => match discoverNamespaces client user.username user.groups
            (k.arrivalOrder (candidateNamespaces k)) with
        | .error _ => none
        | .ok allowed => some (pc.stamp k.now k.contextName ⟨allowed, 0, ""⟩))

theorem user_namespaces_eq (s : Server) (k : Cluster) (user : User)
    (requested : Option (List String)) (enabled : s.permCache.isSome) :
    (getUserNamespaces s k (some user) requested).1 =
      filterNamespacesForUser requested (some user) (resolvedPerms s k user) := by
  obtain ⟨pc, cached⟩ := Option.isSome_iff_exists.mp enabled
  simp only [getUserNamespaces, resolvedPerms, cached, Option.bind_some]
  cases hit : pc.get k.now k.contextName user.username with
  | some perms => rfl
  | none =>
    cases reach : k.client with
    | none => rfl
    | some client =>
      simp only [Option.none_or, Option.bind_some]
      cases discoverNamespaces client user.username user.groups
        (k.arrivalOrder (candidateNamespaces k)) with
      | error err => rfl
      | ok allowed => rfl

theorem user_namespaces_enabled (s : Server) (k : Cluster) (user : Option User)
    (requested : Option (List String)) (enabled : s.permCache.isSome) :
    (getUserNamespaces s k user requested).2.permCache.isSome := by
  obtain ⟨pc, cached⟩ := Option.isSome_iff_exists.mp enabled
  unfold getUserNamespaces
  split <;> try exact enabled
  split <;> try exact enabled
  split <;> try exact enabled
  split <;> first | exact enabled | rfl

/-- Permissions that grant no more than the namespaces in `allowed`. `nil` permissions grant
   nothing; a `nil` namespace list, which grants everything, is not among them. -/
def RestrictedTo (allowed : List String) : Option UserPermissions → Prop
  | none => True
  | some perms => ∃ listed, perms.allowedNamespaces = some listed ∧ ∀ ns ∈ listed, ns ∈ allowed

/-- A list that is non-nil and names only namespaces in `allowed`. -/
def ScopedTo (allowed : List String) (result : Option (List String)) : Prop :=
  ∃ listed, result = some listed ∧ ∀ ns ∈ listed, ns ∈ allowed

theorem filter_scoped
    (restricted : RestrictedTo allowed perms) (requested : Option (List String)) (user : User) :
    ScopedTo allowed (filterNamespacesForUser requested (some user) perms) := by
  cases perms with
  | none => exact ⟨[], rfl, by simp⟩
  | some perms =>
    obtain ⟨listed, granted, inside⟩ := restricted
    by_cases unrequested : (requested.getD []).length = 0
    · refine ⟨listed, ?_, inside⟩
      simp only [filterNamespacesForUser, granted, unrequested, if_true]
    · refine ⟨(requested.getD []).filter fun ns => listed.contains ns, ?_, ?_⟩
      · simp only [filterNamespacesForUser, granted, unrequested, if_false]
      · intro ns kept
        have granted : ns ∈ listed := by simpa using (List.mem_filter.mp kept).2
        exact inside ns granted

theorem scoped_non_nil (limited : ScopedTo allowed result) : result ≠ none := by
  obtain ⟨listed, same, _⟩ := limited
  simp [same]

theorem scoped_matches
    (limited : ScopedTo allowed result) (opts : Topology.BuildOptions) (ns : String)
    (admitted : (opts.withNamespaces result).matchesNamespaceFilter ns = true) :
    ns ∈ allowed := by
  obtain ⟨listed, same, inside⟩ := limited
  subst same
  exact inside ns ((Topology.matches_listed listed ns).mp admitted)

/-- The permissions found by the second lookup of a request, which follows a dropped pick. -/
def secondPerms (s : Server) (k k' : Cluster) (user : User) (query : Values) : Option UserPermissions :=
  resolvedPerms (getUserNamespaces s k (some user)
    (requestedNamespaces s k (some user) query).1).2 k' user

theorem set_active_perms (s : Server) (k k' : Cluster) (user : User) (picks : List String) :
    resolvedPerms (setActiveNamespaceForUser s k (some user) picks) k' user = resolvedPerms s k' user := by
  unfold setActiveNamespaceForUser
  split <;> rfl

theorem set_active_enabled (s : Server) (k : Cluster) (user : Option User) (picks : List String)
    (enabled : s.permCache.isSome) :
    (setActiveNamespaceForUser s k user picks).permCache.isSome := by
  unfold setActiveNamespaceForUser
  split <;> exact enabled

/-- Both ways out of `parseNamespacesForUser` end in a lookup: with the requested list and the
   first permissions, or with no list and the second. -/
theorem parse_is_lookup (s : Server) (k k' : Cluster) (user : User) (query : Values)
    (enabled : s.permCache.isSome) :
    (∃ requested, (parseNamespacesForUser s k k' (some user) query).1 =
      filterNamespacesForUser requested (some user) (resolvedPerms s k user)) ∨
    (parseNamespacesForUser s k k' (some user) query).1 =
      filterNamespacesForUser none (some user) (secondPerms s k k' user query) := by
  have unloaded : (if (parseNamespaces query).isNone
      then loadSavedNamespacePreference s k (some user) else s) = s := by
    split <;> rfl
  simp only [parseNamespacesForUser, unloaded]
  split
  · right
    have stillEnabled := user_namespaces_enabled s k (some user)
      (requestedNamespaces s k (some user) query).1 enabled
    rw [user_namespaces_eq _ _ _ _ (set_active_enabled _ k (some user) [] stillEnabled), set_active_perms]
    rfl
  · left
    exact ⟨(requestedNamespaces s k (some user) query).1, user_namespaces_eq s k user _ enabled⟩

theorem parse_scoped (s : Server) (k k' : Cluster) (user : User)
    (query : Values) (enabled : s.permCache.isSome)
    (first : RestrictedTo allowed (resolvedPerms s k user))
    (second : RestrictedTo allowed (secondPerms s k k' user query)) :
    ScopedTo allowed (parseNamespacesForUser s k k' (some user) query).1 := by
  rcases parse_is_lookup s k k' user query enabled with ⟨requested, same⟩ | same
  · rw [same]
    exact filter_scoped first requested user
  · rw [same]
    exact filter_scoped second none user

/-- A request for namespaces the user may not read gets the empty list, not the nil one. -/
theorem disjoint_request_empty {allowed requested : List String}
    (restricted : RestrictedTo allowed perms) (asked : requested ≠ [])
    (disjoint : ∀ ns ∈ requested, ns ∉ allowed) (user : User) :
    filterNamespacesForUser (some requested) (some user) perms = some [] := by
  cases perms with
  | none => rfl
  | some perms =>
    obtain ⟨listed, granted, inside⟩ := restricted
    have unempty : ¬ (requested.length = 0) := fun none => asked (List.length_eq_zero_iff.mp none)
    simp only [filterNamespacesForUser, granted, Option.getD_some, unempty, if_false,
      Option.some.injEq, List.filter_eq_nil_iff, List.contains_iff_mem]
    intro ns member listedNs
    exact disjoint ns member (inside ns listedNs)

/-- No candidate is empty, so no discovered name is: the reviews only pick among candidates. -/
theorem discovered_names_nonempty {client : Client} {username : String} {groups : List String}
    {arrivals listed : List String} (named : "" ∉ arrivals)
    (found : discoverNamespaces client username groups arrivals = .ok (some listed)) :
    "" ∉ listed := by
  intro member
  exact named (discovered_allowed found member).1

/-- A list a restricted user's read is filtered by is never nil and admits granted names only. -/
theorem restricted_user_isolated (allowed : List String) (user : User) :
    (∀ requested perms, RestrictedTo allowed perms →
      filterNamespacesForUser requested (some user) perms ≠ none ∧
      ∀ (opts : Topology.BuildOptions) (ns : String), (opts.withNamespaces
          (filterNamespacesForUser requested (some user) perms)).matchesNamespaceFilter ns = true →
          ns ∈ allowed) ∧
    (∀ s k k' query, s.permCache.isSome → RestrictedTo allowed (resolvedPerms s k user) →
      RestrictedTo allowed (secondPerms s k k' user query) →
      (parseNamespacesForUser s k k' (some user) query).1 ≠ none ∧
      ∀ (opts : Topology.BuildOptions) (ns : String), (opts.withNamespaces
          (parseNamespacesForUser s k k' (some user) query).1).matchesNamespaceFilter ns = true →
          ns ∈ allowed) ∧
    (∀ requested perms, RestrictedTo allowed perms → requested ≠ [] →
      (∀ ns ∈ requested, ns ∉ allowed) → ∀ (opts : Topology.BuildOptions) (ns : String),
        (opts.withNamespaces
          (filterNamespacesForUser (some requested) (some user) perms)).matchesNamespaceFilter ns =
          false) ∧
    (∀ client groups arrivals listed, "" ∉ arrivals →
      discoverNamespaces client user.username groups arrivals = .ok (some listed) →
      "" ∉ listed) := by
  refine ⟨?_, ?_, ?_, ?_⟩
  · intro requested perms restricted
    have limited := filter_scoped restricted requested user
    exact ⟨scoped_non_nil limited, scoped_matches limited⟩
  · intro s k k' query enabled first second
    have limited := parse_scoped s k k' user query enabled first second
    exact ⟨scoped_non_nil limited, scoped_matches limited⟩
  · intro requested perms restricted asked disjoint opts ns
    rw [disjoint_request_empty restricted asked disjoint user]
    exact Topology.matches_nothing ns
  · intro client groups arrivals listed named found
    exact discovered_names_nonempty named found

def alice : User := ⟨"alice", []⟩

def alicePerms (listed : List String) : UserPermissions := ⟨some listed, 100, "prod"⟩

/-- A server whose cache holds `alicePerms` and whose saved pick for alice went stale. -/
def aliceServer : Server where
  permCache := some ⟨fun _ => some (alicePerms ["dev"]), 120⟩
  nsPreferences := fun _ => some ["gone"]

def aliceCluster : Cluster where
  now := 0
  contextName := "prod"
  client := none
  listed := []
  accessible := []
  arrivalOrder := id
  saved := fun _ => []

theorem alice_isolated :
    (parseNamespacesForUser aliceServer aliceCluster aliceCluster (some alice) fun _ => []).1 =
      some ["dev"] ∧
    (parseNamespacesForUser aliceServer aliceCluster aliceCluster (some alice) fun _ => []).1 ≠
      none ∧
    filterNamespacesForUser none (some alice) (some (alicePerms ["dev"])) ≠ none ∧
    (Topology.defaultBuildOptions.withNamespaces (filterNamespacesForUser (some ["prod"])
      (some alice) (some (alicePerms ["dev"])))).matchesNamespaceFilter "prod" = false := by
  have restricted : RestrictedTo ["dev"] (some (alicePerms ["dev"])) := ⟨["dev"], rfl, by simp⟩
  have isolated := restricted_user_isolated ["dev"] alice
  refine ⟨rfl, ?_, ?_, ?_⟩
  · exact (isolated.2.1 aliceServer aliceCluster aliceCluster (fun _ => []) rfl restricted
      restricted).1
  · exact (isolated.1 none (some (alicePerms ["dev"])) restricted).1
  · exact isolated.2.2.1 ["prod"] (some (alicePerms ["dev"])) restricted (by decide) (by decide)
      Topology.defaultBuildOptions "prod"

/-- An allowed set may hold the empty name, and then the filter admits it. -/
theorem empty_name_admitted :
    ¬ ∀ (perms : UserPermissions) (listed : List String), perms.allowedNamespaces = some listed →
      ∀ ns, Topology.matchesNamespace
        (filterNamespacesForUser none (some alice) (some perms)) ns = true →
        ns ≠ "" ∧ ns ∈ listed := by
  intro claimed
  exact (claimed (alicePerms [""]) [""] rfl "" (by decide)).1 rfl

end NamespaceScope
