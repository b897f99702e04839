import Radar.Applications.IdentityGuard

/- internal/server/applications_identity.go: the claims that carry the declared identities of Argo
   Applications to the clusters they deploy to. -/
namespace ArgoClaims
open AppIdentity Applications GoText NodeRef

section Model

structure WorkloadRef where
  kind : String
  namespace_ : String
  name : String
  deriving DecidableEq

/-- What is read of an Application. A field that is missing or no text is empty, and a resource that
is no object is none. -/
structure Application where
  namespace_ : String
  name : String
  destServer : String
  destName : String
  destNamespace : String
  resources : List (Option WorkloadRef)
  deriving DecidableEq

structure ArgoClaim where
  identity : Identity
  destServer : String
  destName : String
  destNamespace : String
  workloads : List WorkloadRef
  deriving DecidableEq

def argoWorkloadKinds : List String :=
  ["Deployment", "StatefulSet", "DaemonSet", "ReplicaSet", "CronJob", "Job", "Rollout"]

def argoManagedWorkloads (item : Application) : List WorkloadRef :=
  item.resources.filterMap fun r => r.filter fun w => w.kind ∈ argoWorkloadKinds ∧ w.name ≠ ""

def managedWorkloadVisible (workloads : List WorkloadRef) (allowed : List String) : Bool :=
  workloads.any fun w => w.namespace_ ∈ allowed

def nsKey (item : Application) : String :=
  if item.namespace_ = "" then item.name else item.namespace_ ++ "/" ++ item.name

def pathIdentity (casing : Casing) (path : String) : Option Identity :=
  let (stem, env) := pathStemEnv casing path
  if stem = "" then none
  else
    some ⟨stem, env, .high, "Argo CD source path " ++ stem ++ " (env overlay " ++ env ++ ")", true,
      .argoPath, ""⟩

def fanIdentity (fan : AppSetFanout) : Identity :=
  ⟨fan.stem, fan.env, .high, "ApplicationSet fan-out " ++ quoted fan.stem ++ " (env " ++ fan.env ++ ")",
    true, .argoAppSet, ""⟩

/-- The source path comes before the fan-out, and both are looked up by the whole key only. -/
def declaredIdentity (casing : Casing) (feeds : Feeds) (item : Application) : Option Identity :=
  ((feeds.argoSourcePaths (nsKey item)).bind (pathIdentity casing)).orElse fun _ =>
    (feeds.appSetByKey (nsKey item)).map fanIdentity

def claimOf (casing : Casing) (feeds : Feeds) (namespaces : Option (List String))
    (item : Application) : Option ArgoClaim :=
  (declaredIdentity casing feeds item).bind fun id => let workloads := argoManagedWorkloads item
    if namespaces.any fun allowed => ¬ managedWorkloadVisible workloads allowed then none
    else some ⟨id, item.destServer, item.destName, item.destNamespace, workloads⟩

/-- No namespaces at all stand for the access to every one. -/
def collectArgoClaims (casing : Casing) (feeds : Feeds) (items : List Application)
    (namespaces : Option (List String)) : List ArgoClaim :=
  if namespaces = some [] then [] else items.filterMap (claimOf casing feeds namespaces)

end Model

section Scope
variable {casing : Casing} {feeds : Feeds} {allowed : List String}

/-- The Application without the resources of other namespaces. -/
def Application.within (allowed : List String) (item : Application) : Application :=
  { item with resources := item.resources.filter fun r => r.all fun w => w.namespace_ ∈ allowed }

def ArgoClaim.within (allowed : List String) (claim : ArgoClaim) : ArgoClaim :=
  { claim with workloads := claim.workloads.filter fun w => w.namespace_ ∈ allowed }

/-- Two lists of Applications that differ in the resources of other namespaces only. -/
structure TwoLists (allowed : List String) where
  items : List Application
  others : List Application
  alike : items.map (Application.within allowed) = others.map (Application.within allowed)

def Confined (casing : Casing) (feeds : Feeds) (allowed : List String) (lists : TwoLists allowed) : Prop :=
  (∀ claim ∈ collectArgoClaims casing feeds lists.items (some allowed),
    ∀ w ∈ claim.workloads, w.namespace_ ∈ allowed) ∧
  collectArgoClaims casing feeds lists.items (some allowed) =
    collectArgoClaims casing feeds lists.others (some allowed)

theorem visible_within (workloads : List WorkloadRef) :
    managedWorkloadVisible (workloads.filter fun w => w.namespace_ ∈ allowed) allowed =
      managedWorkloadVisible workloads allowed := by
  induction workloads with
  | nil => rfl
  | cons w rest ih =>
    simp only [managedWorkloadVisible] at ih ⊢
    by_cases inside : w.namespace_ ∈ allowed
    · simp [inside]
    · simp [inside, ih]

theorem managed_within (item : Application) : argoManagedWorkloads (item.within allowed) =
      (argoManagedWorkloads item).filter fun w => w.namespace_ ∈ allowed := by
  simp only [argoManagedWorkloads, Application.within]
  rw [List.filterMap_filter, List.filter_filterMap]
  apply congrArg (List.filterMap · item.resources)
  funext r
  cases r with
  | none => rfl
  | some w =>
    by_cases inside : w.namespace_ ∈ allowed
    · by_cases held : w.kind ∈ argoWorkloadKinds ∧ w.name ≠ ""
      · simp [Option.filter, inside, held]
      · simp [Option.filter, inside, held]
    · by_cases held : w.kind ∈ argoWorkloadKinds ∧ w.name ≠ ""
      · simp [Option.filter, inside, held]
      · simp [Option.filter, inside, held]

/-- A claim shows of its Application what is in scope, beside the rest. -/
theorem claim_within (item : Application) :
    (claimOf casing feeds (some allowed) item).map (ArgoClaim.within allowed) =
      claimOf casing feeds (some allowed) (item.within allowed) := by
  have declared : declaredIdentity casing feeds (item.within allowed) =
      declaredIdentity casing feeds item := rfl
  simp only [claimOf, declared, managed_within, Option.any_some, visible_within]
  cases declaredIdentity casing feeds item with
  | none => rfl
  | some id =>
    by_cases seen : managedWorkloadVisible (argoManagedWorkloads item) allowed
    · simp [seen, ArgoClaim.within, Application.within]
    · simp [seen]

theorem collected_within (items : List Application) :
    (collectArgoClaims casing feeds items (some allowed)).map (ArgoClaim.within allowed) =
      collectArgoClaims casing feeds (items.map (Application.within allowed)) (some allowed) := by
  unfold collectArgoClaims
  split
  · rfl
  · rw [List.map_filterMap, List.filterMap_map]
    exact congrArg (items.filterMap ·) (funext claim_within)

/-- Every claim shows a workload in scope, and no claim depends on the resources out of scope but for
the workloads that it lists from there. -/
theorem claims_scoped (casing : Casing) (feeds : Feeds) (allowed : List String)
    (lists : TwoLists allowed) :
    (∀ claim ∈ collectArgoClaims casing feeds lists.items (some allowed),
      ∃ w ∈ claim.workloads, w.namespace_ ∈ allowed) ∧
    (collectArgoClaims casing feeds lists.items (some allowed)).map (ArgoClaim.within allowed) =
      (collectArgoClaims casing feeds lists.others (some allowed)).map (ArgoClaim.within allowed) := by
  constructor
  · intro claim member
    unfold collectArgoClaims at member
    split at member
    · exact absurd member List.not_mem_nil
    · obtain ⟨item, _, made⟩ := List.mem_filterMap.mp member
      obtain ⟨id, _, claimed⟩ := Option.bind_eq_some_iff.mp made
      by_cases seen : managedWorkloadVisible (argoManagedWorkloads item) allowed
      · simp only [Option.any_some, seen, not_true_eq_false, decide_false, Bool.false_eq_true,
          if_false, Option.some.injEq] at claimed
        obtain rfl := claimed
        simpa [managedWorkloadVisible] using seen
      · simp [seen] at claimed
  · rw [collected_within, collected_within, lists.alike]

/-- An Application with a workload in each of two namespaces, and the same with a second one out of
scope. -/
def spanning : TwoLists ["team-a"] where
  items := [⟨"argocd", "billing", "", "prod", "", [some ⟨"Deployment", "team-a", "api"⟩,
    some ⟨"Deployment", "team-b", "ledger"⟩]⟩]
  others := [⟨"argocd", "billing", "", "prod", "", [some ⟨"Deployment", "team-a", "api"⟩]⟩]
  alike := by decide

def spanningFeeds : Feeds where
  argoSourcePaths _ := none
  appSetByKey key := if key = "argocd/billing" then some ⟨"billing", "prod"⟩ else none
  nsEnvLabels _ := ""
  fluxPaths _ := none

theorem spanning_claim_unconfined :
    ¬ Confined Neighborhood.asciiCasing spanningFeeds ["team-a"] spanning := by
  intro confined
  exact absurd confined.2 (by decide)

end Scope

section CoLocated

/-- The feeds of the Applications, whose fan-outs each name an environment. -/
structure ArgoFeeds extends Feeds where
  fan_env : ∀ key fan, appSetByKey key = some fan → fan.env ≠ ""

/-- What other clusters fold by. -/
def crossKey (id : Identity) : String := if id.pathKey = "" then id.key else id.pathKey

def RowOf (item : Application) (info : RowInfo) : Prop :=
  (info.tier = 3 ∨ info.tier = 4) ∧ namespaceFromKey info.key = item.namespace_ ∧
    appNameFromKey info.key = item.name

def Agree (info : RowInfo) (row claim : Identity) : Prop :=
  row.source = claim.source ∧ (info.labelEnv = "" → row.env = claim.env) ∧ crossKey row = crossKey claim

def ClaimsAgree (casing : Casing) (feeds : Feeds) (rows : List Row) (items : List Application)
    (namespaces : Option (List String)) : Prop :=
  ∀ info ∈ rowInfos casing feeds rows, ∀ id,
    (resolveAppIdentities casing feeds rows)[info.row]? = some (some id) →
    (id.source = .argoPath ∨ id.source = .argoAppSet) →
    ∀ item ∈ items, RowOf item info → ∀ claim, claimOf casing feeds namespaces item = some claim →
      Agree info id claim.identity

/-- The row is a member of a group, for its declared path. -/
def PathMember (cands : List Candidate) (row : Nat) : Prop :=
  ∃ c members shared, formGroup (byStem cands c.stem) = some (members, shared) ∧ c ∈ members ∧
    c.row = row ∧ c.declared ≠ none

/-- The Application has a path that names an environment, under its own key. -/
def OwnPath (casing : Casing) (feeds : Feeds) (item : Application) : Prop :=
  ((feeds.argoSourcePaths (nsKey item)).bind (pathIdentity casing)).isSome

/-- A row that counts by its path counts by its Application's own, written as the canonical
environment, and a row that does not, of a fan-out, has no such path. -/
structure SameOrigin (casing : Casing) (feeds : Feeds) (rows : List Row) (item : Application)
    (info : RowInfo) : Prop where
  path : PathMember (candidates casing feeds rows) info.row → OwnPath casing feeds item ∧
    (info.labelEnv = "" → ∀ d, info.declared = some d → canonicalEnvToken casing d.env = d.env)
  fan : ¬ PathMember (candidates casing feeds rows) info.row → (fanout feeds info).isSome →
    ¬ OwnPath casing feeds item

variable {casing : Casing} {feeds : Feeds} {rows : List Row} {info : RowInfo} {item : Application}
variable {qualifies : String → Bool}

theorem candidate_env {c : Candidate} {d : Declared}
    (made : candidate casing qualifies info = some c) (declared : c.declared = some d) :
    info.declared = some d ∧ (info.labelEnv = "" → c.env = canonicalEnvToken casing d.env) := by
  have read : ∃ token, c.declared = info.declared ∧ c.env = candidateEnv casing info token := by
    unfold candidate at made
    split at made
    · obtain rfl := Option.some.inj made
      exact ⟨_, rfl, rfl⟩
    · split at made
      · obtain ⟨rd, _, rfl⟩ := Option.map_eq_some_iff.mp made
        exact absurd declared (by simp)
      · obtain rfl := Option.some.inj made
        exact ⟨_, rfl, rfl⟩
  obtain ⟨token, same, env⟩ := read
  rw [same] at declared
  refine ⟨declared, fun unlabelled => ?_⟩
  simp [env, candidateEnv, unlabelled, declared]

theorem lookup_member {id : Identity} : (grouped (candidates casing feeds rows)).lookup info.row = some id ↔
      ∃ c members shared,
        formGroup (byStem (candidates casing feeds rows) c.stem) = some (members, shared) ∧
          c ∈ members ∧ c.row = info.row ∧ memberIdentity c.stem shared c = some id := by
  rw [lookup_grouped fun a one b other => candidates_alone one other, mem_grouped]
  constructor
  · rintro ⟨stem, members, shared, formed, c, held, atRow, made⟩
    obtain ⟨_, rfl⟩ := mem_by_stem.mp (form_group_inside formed held)
    exact ⟨c, members, shared, formed, held, atRow, made⟩
  · rintro ⟨c, members, shared, formed, held, atRow, made⟩
    exact ⟨c.stem, members, shared, formed, c, held, atRow, made⟩

/-- What the groups give to a row of an Application that counts by its path. -/
theorem path_member_identity (member : info ∈ rowInfos casing feeds rows)
    (tier : info.tier = 3 ∨ info.tier = 4) :
    PathMember (candidates casing feeds rows) info.row → ∃ id d,
      (grouped (candidates casing feeds rows)).lookup info.row = some id ∧ info.declared = some d ∧
        id.source = .argoPath ∧ id.confidence = .high ∧ id.pathKey = d.stem ∧
        (info.labelEnv = "" → id.env = canonicalEnvToken casing d.env) := by
  rintro ⟨c, members, shared, formed, held, atRow, known⟩
  obtain ⟨d, declared⟩ := Option.ne_none_iff_exists'.mp known
  obtain ⟨other, otherHeld, made⟩ :=
    List.mem_filterMap.mp (mem_by_stem.mp (form_group_inside formed held)).1
  obtain rfl := row_infos_alone otherHeld member ((candidate_of_info made).1.symm.trans atRow)
  obtain ⟨infoDeclared, env⟩ := candidate_env made declared
  have source : d.source = .argoPath := by
    obtain ⟨row, at_⟩ := List.getElem?_of_mem member
    rw [rowInfos, List.getElem?_mapIdx] at at_
    obtain ⟨r, _, rfl⟩ := Option.map_eq_some_iff.mp at_
    simp only [rowInfo] at tier infoDeclared
    rw [if_pos tier] at infoDeclared
    exact declared_path_source infoDeclared
  have tagged : memberIdentity c.stem shared c = some ⟨c.stem, c.env, .high,
      "Argo CD source path " ++ d.stem ++ " (env overlay " ++ c.env ++ ")", true, d.source,
      d.stem⟩ := by
    simp [memberIdentity, declared, source]
  exact ⟨_, d, lookup_member.mpr ⟨c, members, shared, formed, held, atRow, tagged⟩, infoDeclared,
    source, rfl, rfl, env⟩

theorem other_member_identity (apart : ¬ PathMember (candidates casing feeds rows) info.row)
    {id : Identity} (given : (grouped (candidates casing feeds rows)).lookup info.row = some id) :
    id.Heuristic := by
  obtain ⟨c, members, shared, formed, held, atRow, made⟩ := lookup_member.mp given
  have undeclared : c.declared = none := by
    by_contra declared
    exact apart ⟨c, members, shared, formed, held, atRow, declared⟩
  rcases member_identity_undeclared c.stem shared undeclared with
    ⟨id', tagged, heuristic, _⟩ | ⟨untagged, _⟩
  · rwa [Option.some.inj (made.symm.trans tagged)]
  · exact absurd (made.symm.trans untagged) (by simp)

theorem resolved_row (member : info ∈ rowInfos casing feeds rows) :
    ∃ qualifies, (resolveAppIdentities casing feeds rows)[info.row]? =
      some (explicitTier casing qualifies info (appSetTier casing qualifies feeds info
        (labelTier casing qualifies info
          ((grouped (candidates casing feeds rows)).lookup info.row)))) := by
  refine ⟨qualified casing (clusterNamespaces casing rows) (rowInfos casing feeds rows), ?_⟩
  unfold resolveAppIdentities
  rw [List.getElem?_map, mem_row_infos.mpr ⟨member, rfl⟩]
  rfl

/-- A row with the annotation of its application is not left with a declared origin. -/
theorem explicit_source {cur : Option Identity} {id : Identity}
    (tagged : explicitTier casing qualifies info cur = some id)
    (origin : id.source = .argoPath ∨ id.source = .argoAppSet) :
    info.appAnno = "" ∧ cur = some id := by
  unfold explicitTier at tagged
  split at tagged
  next plain => exact ⟨plain, tagged⟩
  · obtain rfl := Option.some.inj tagged
    exact absurd origin (by simp)

theorem path_tiers {id : Identity} (plain : info.appAnno = "")
    (source : id.source = .argoPath) (high : id.confidence = .high) :
    explicitTier casing qualifies info
      (appSetTier casing qualifies feeds info (labelTier casing qualifies info (some id))) = some id := by
  simp [explicitTier, appSetTier, labelTier, plain, source, high]

/-- The later tiers leave a row that does not count by its path to its fan-out. -/
theorem fan_tiers {cur : Option Identity} (plain : info.appAnno = "")
    (heuristic : ∀ id, cur = some id → id.Heuristic) :
    (∀ fan, fanout feeds info = some fan → fan.env ≠ "" →
      explicitTier casing qualifies info (appSetTier casing qualifies feeds info
        (labelTier casing qualifies info cur)) = some (fanIdentity fan)) ∧
    (fanout feeds info = none → ∀ id, explicitTier casing qualifies info
        (appSetTier casing qualifies feeds info (labelTier casing qualifies info cur)) = some id →
      ¬ (id.source = .argoPath ∨ id.source = .argoAppSet)) := by
  have below : ∀ id, labelTier casing qualifies info cur = some id →
      ¬ (id.source = .argoPath ∨ id.source = .argoAppSet ∨ id.source = .explicit) := by
    intro id tagged
    unfold labelTier at tagged
    split at tagged
    · rcases heuristic id tagged with stem | space
      · simp [stem]
      · simp [space]
    · split at tagged
      · rcases heuristic id tagged with stem | space
        · simp [stem]
        · simp [space]
      · obtain rfl := Option.some.inj tagged
        simp
  constructor
  · intro fan found named
    cases labelled : labelTier casing qualifies info cur with
    | none => simp [explicitTier, appSetTier, plain, found, named, fanIdentity]
    | some id =>
      have apart := below id labelled
      simp only [not_or] at apart
      simp [explicitTier, appSetTier, plain, found, named, fanIdentity, apart.1, apart.2.2]
  · intro alone id tagged
    cases labelled : labelTier casing qualifies info cur with
    | none => simp [explicitTier, appSetTier, plain, alone, labelled] at tagged
    | some given =>
      have apart := below given labelled
      simp only [not_or] at apart
      simp only [explicitTier, appSetTier, plain, alone, labelled, if_true, ite_self,
        Option.some.injEq] at tagged
      obtain rfl := tagged
      exact fun origin => origin.elim apart.1 apart.2.1

theorem own_keys (row : RowOf item info) :
    argoSourcePathKeys info.key = nsKey item :: (argoSourcePathKeys info.key).tail := by
  obtain ⟨_, space, name⟩ := row
  unfold argoSourcePathKeys nsKey
  simp only [space, name]
  split
  · rfl
  · rfl

/-- The path under the Application's own key is the row's declared one. -/
theorem own_path_declared (member : info ∈ rowInfos casing feeds rows) (row : RowOf item info)
    {id : Identity}
    (own : (feeds.argoSourcePaths (nsKey item)).bind (pathIdentity casing) = some id) :
    id.source = .argoPath ∧ id.pathKey = "" ∧ id.key ≠ "" ∧
      info.declared = some ⟨id.key, id.env, .argoPath⟩ := by
  obtain ⟨path, known, parsed⟩ := Option.bind_eq_some_iff.mp own
  obtain ⟨at_, held⟩ := List.getElem?_of_mem member
  rw [rowInfos, List.getElem?_mapIdx] at held
  obtain ⟨r, _, rfl⟩ := Option.map_eq_some_iff.mp held
  have keys := own_keys row
  simp only [rowInfo] at keys
  have tier : r.tier = 3 ∨ r.tier = 4 := row.1
  cases read : pathStemEnv casing path with
  | mk stem env =>
    simp only [pathIdentity, read] at parsed
    split at parsed
    · exact absurd parsed (by simp)
    next named =>
      obtain rfl := Option.some.inj parsed
      simp only [rowInfo]
      rw [if_pos tier, declaredPath, keys, List.findSome?_cons, known]
      simp [read, named]

theorem own_fan (row : RowOf item info) {fan : AppSetFanout}
    (known : feeds.appSetByKey (nsKey item) = some fan) : fanout feeds info = some fan := by
  rw [fanout, if_pos row.1, own_keys row, List.findSome?_cons, known]

/-- A claim's identity comes from the own path, or else from the own fan-out. -/
theorem claim_origin {namespaces : Option (List String)} {claim : ArgoClaim}
    (made : claimOf casing feeds namespaces item = some claim) :
    (feeds.argoSourcePaths (nsKey item)).bind (pathIdentity casing) = some claim.identity ∨
      (¬ OwnPath casing feeds item ∧
        ∃ fan, feeds.appSetByKey (nsKey item) = some fan ∧ claim.identity = fanIdentity fan) := by
  obtain ⟨id, declared, rest⟩ := Option.bind_eq_some_iff.mp made
  dsimp only at rest
  split at rest
  · exact absurd rest (by simp)
  · obtain rfl := Option.some.inj rest
    unfold declaredIdentity at declared
    cases own : (feeds.argoSourcePaths (nsKey item)).bind (pathIdentity casing) with
    | some given =>
      rw [own] at declared
      exact Or.inl declared
    | none =>
      rw [own] at declared
      obtain ⟨fan, known, rfl⟩ := Option.map_eq_some_iff.mp declared
      exact Or.inr ⟨by simp [OwnPath, own], fan, known, rfl⟩

/-- Claims and rows of one Application agree exactly where the rows count by what the claims are made
from. -/
theorem claims_agree_iff (casing : Casing) (feeds : ArgoFeeds) (rows : List Row)
    (items : List Application) (namespaces : Option (List String)) :
    ClaimsAgree casing feeds.toFeeds rows items namespaces ↔
      ∀ info ∈ rowInfos casing feeds.toFeeds rows, info.appAnno = "" → ∀ item ∈ items,
        RowOf item info → (claimOf casing feeds.toFeeds namespaces item).isSome →
          SameOrigin casing feeds.toFeeds rows item info := by
  constructor
  · intro agree info member plain item listed row emitted
    obtain ⟨claim, made⟩ := Option.isSome_iff_exists.mp emitted
    obtain ⟨qualifies, resolved⟩ := @resolved_row casing feeds.toFeeds rows info member
    constructor
    · intro counts
      obtain ⟨id, d, given, declared, source, high, keyed, env⟩ := path_member_identity member row.1 counts
      rw [given, path_tiers plain source high] at resolved
      have same := agree info member id resolved (Or.inl source) item listed row claim made
      rcases claim_origin made with own | ⟨_, fan, _, fanned⟩
      · obtain ⟨_, _, _, named⟩ := own_path_declared member row own
        refine ⟨by simp [OwnPath, own], fun unlabelled other otherDeclared => ?_⟩
        obtain rfl := Option.some.inj (declared.symm.trans otherDeclared)
        obtain rfl := Option.some.inj (declared.symm.trans named)
        exact (env unlabelled).symm.trans (same.2.1 unlabelled)
      · exact absurd (source.symm.trans same.1) (by simp [fanned, fanIdentity])
    · intro apart fanned own
      obtain ⟨fan, found⟩ := Option.isSome_iff_exists.mp fanned
      have named : fan.env ≠ "" := by
        rw [fanout, if_pos row.1] at found
        obtain ⟨key, _, known⟩ := List.exists_of_findSome?_eq_some found
        exact feeds.fan_env key fan known
      rw [(fan_tiers plain fun id => other_member_identity apart).1 fan found named] at resolved
      have same := agree info member _ resolved (Or.inr rfl) item listed row claim made
      rcases claim_origin made with own | ⟨alone, _⟩
      · exact absurd (same.1.trans (own_path_declared member row own).1) (by simp [fanIdentity])
      · exact alone own
  · intro origins info member id resolved origin item listed row claim made
    obtain ⟨qualifies, tiers⟩ := @resolved_row casing feeds.toFeeds rows info member
    have tagged := Option.some.inj (tiers.symm.trans resolved)
    obtain ⟨plain, _⟩ := explicit_source tagged origin
    have same := origins info member plain item listed row (by simp [made])
    by_cases counts : PathMember (candidates casing feeds.toFeeds rows) info.row
    · obtain ⟨given, d, found, declared, source, high, keyed, env⟩ :=
        path_member_identity member row.1 counts
      rw [found, path_tiers plain source high] at tagged
      obtain rfl := Option.some.inj tagged
      obtain ⟨own, canonical⟩ := same.path counts
      rcases claim_origin made with path | ⟨alone, _⟩
      · obtain ⟨claimSource, unkeyed, stem, named⟩ := own_path_declared member row path
        obtain rfl := Option.some.inj (declared.symm.trans named)
        refine ⟨source.trans claimSource.symm, fun unlabelled => ?_, ?_⟩
        · exact (env unlabelled).trans (canonical unlabelled _ declared)
        · simp [crossKey, keyed, unkeyed, stem]
      · exact absurd own alone
    · have heuristic := fun id => @other_member_identity casing feeds.toFeeds rows info counts id
      cases found : fanout feeds.toFeeds info with
      | none => exact absurd origin ((fan_tiers plain heuristic).2 found id tagged)
      | some fan =>
        rcases claim_origin made with path | ⟨_, claimFan, known, claimed⟩
        · exact absurd (by simp [OwnPath, path]) (same.fan counts (by simp [found]))
        · obtain rfl := Option.some.inj (found.symm.trans (own_fan row known))
          rw [(fan_tiers plain heuristic).1 fan found (feeds.fan_env _ fan known)] at tagged
          rw [← Option.some.inj tagged, claimed]
          exact ⟨rfl, fun _ => rfl, rfl⟩

/-- An Application of a set that has an environment's path of its own, in a cluster where it is the
only instance. -/
def lonelyFeeds : Feeds where
  argoSourcePaths key :=
    if key = "argocd/billing-prod" ∨ key = "billing-prod" then some "apps/billing/overlays/prod"
    else none
  appSetByKey key :=
    if key = "argocd/billing-prod" ∨ key = "billing-prod" then some ⟨"billing", "prod"⟩ else none
  nsEnvLabels _ := ""
  fluxPaths _ := none

def lonelyRow : Row := ⟨"argocd/Application/billing-prod", "billing-prod", "billing", ["billing"], 3,
    [⟨"repo.dev/team-a/billing:1", "", "", ""⟩]⟩

def lonelyItem : Application :=
  ⟨"argocd", "billing-prod", "", "prod", "", [some ⟨"Deployment", "billing", "billing"⟩]⟩

theorem lonely_instance_disagrees :
    ¬ ClaimsAgree Neighborhood.asciiCasing lonelyFeeds [lonelyRow] [lonelyItem] none := by
  intro agree
  have resolved : (resolveAppIdentities Neighborhood.asciiCasing lonelyFeeds [lonelyRow])[0]? =
      some (some (fanIdentity ⟨"billing", "prod"⟩)) := by
    decide +kernel
  have row : RowOf lonelyItem (rowInfo Neighborhood.asciiCasing lonelyFeeds 0 lonelyRow) := by
    unfold RowOf
    decide +kernel
  obtain ⟨claim, made, source⟩ : ∃ claim,
      claimOf Neighborhood.asciiCasing lonelyFeeds none lonelyItem = some claim ∧
        claim.identity.source = .argoPath := by
    refine ⟨_, rfl, ?_⟩
    decide +kernel
  have same := agree _ (List.mem_singleton_self _) _ resolved (Or.inr rfl) lonelyItem
    (List.mem_singleton_self _) row claim made
  exact absurd (same.1.trans source) (by decide)

end CoLocated

end ArgoClaims
