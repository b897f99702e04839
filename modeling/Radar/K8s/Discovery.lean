import Mathlib.Data.Prod.Lex
import Radar.Base.GoText
import Radar.Base.Selection
import Radar.Base.WriteMap

/- pkg/k8score/discovery.go: the API resources of a cluster, and the lookups over them. What a
   refresh lists is given; its age, partial failures and statistics are left out. -/
namespace Discovery
open GoText WriteMap List

structure APIResource where
  group : String
  version : String
  kind : String
  name : String
  namespaced : Bool
  isCRD : Bool
  verbs : List String
  deriving DecidableEq

variable {res : APIResource} {resources : List APIResource}

structure GroupVersionResource where
  group : String
  version : String
  resource : String
  deriving DecidableEq

structure ResourceDiscovery where
  resources : List APIResource
  resourceMap : List (String × APIResource)
  gvrMap : List (String × GroupVersionResource)

section Versions

def coreAPIGroups : List String :=
  ["", "apps", "batch", "autoscaling", "networking.k8s.io", "policy", "rbac.authorization.k8s.io",
    "storage.k8s.io", "admissionregistration.k8s.io", "apiextensions.k8s.io",
    "certificates.k8s.io", "coordination.k8s.io", "discovery.k8s.io", "events.k8s.io",
    "flowcontrol.apiserver.k8s.io", "node.k8s.io", "scheduling.k8s.io"]

def versionStability (version : String) : Nat := if contains version "alpha" then 1
  else if contains version "beta" then 2
  else 3

/-- strconv.Atoi of digits, its error ignored: a number that does not fit becomes the largest. -/
def atoi (digits : List Char) : Nat := min ((decimalValue digits).getD 0) 0x7fffffffffffffff

/-- The three groups of ^v(\d+)(?:(alpha|beta)(\d+))?$. -/
def matchVersion (version : String) : Option (List Char × List Char × List Char) :=
  match version.toList with
  | 'v' :: rest =>
    let major := rest.takeWhile Char.isDigit
    let tail := rest.dropWhile Char.isDigit
    let stage := tail.takeWhile fun c => !c.isDigit
    let number := tail.dropWhile fun c => !c.isDigit
    if major = [] then none
    else if tail = [] then some (major, [], [])
    else if (stage = "alpha".toList ∨ stage = "beta".toList) ∧ number ≠ [] ∧ number.all Char.isDigit then
      some (major, stage, number)
    else none
  | _ => none

def parseVersion (version : String) : Nat × Nat := match matchVersion version with
  | none => (0, 0)
  | some (major, _, number) => (atoi major, if number ≠ [] then atoi number else 0)

def isMoreStableVersion (newVersion oldVersion : String) : Bool :=
  if versionStability newVersion ≠ versionStability oldVersion then
    versionStability newVersion > versionStability oldVersion
  else if (parseVersion newVersion).1 ≠ (parseVersion oldVersion).1 then
    (parseVersion newVersion).1 > (parseVersion oldVersion).1
  else (parseVersion newVersion).2 > (parseVersion oldVersion).2

end Versions

section Refresh
variable (l : Lowering)

/-- A resource as the server lists it under a group and version. -/
structure Listed where
  group : String
  version : String
  kind : String
  name : String
  namespaced : Bool
  verbs : List String

def gvrOf (r : APIResource) : GroupVersionResource := ⟨r.group, r.version, r.name⟩

/-- Whether a resource takes an entry of the maps from the one that has it. -/
def takesOver (resource existing : APIResource) : Bool := (!resource.isCRD && existing.isCRD) ||
    (resource.isCRD == existing.isCRD && existing.group == resource.group &&
      isMoreStableVersion resource.version existing.version)

def storeAt (d : ResourceDiscovery) (key : String) (resource : APIResource) : ResourceDiscovery := { d with
    resourceMap := set d.resourceMap (key, resource)
    gvrMap := set d.gvrMap (key, gvrOf resource) }

def indexKey (d : ResourceDiscovery) (key : String) (resource : APIResource) : ResourceDiscovery :=
  match d.resourceMap.lookup key with
  | none => storeAt d key resource
  | some existing => if takesOver resource existing then storeAt d key resource else d

def indexResource (d : ResourceDiscovery) (resource : APIResource) : ResourceDiscovery :=
  indexKey (indexKey d (l.toLower resource.kind) resource) (l.toLower resource.name) resource

def sameGVR (a b : APIResource) : Bool := a.group == b.group && a.version == b.version && a.name == b.name

def addResource (d : ResourceDiscovery) (resource : APIResource) : ResourceDiscovery :=
  match d.resources.findIdx? fun existing => sameGVR existing resource with
  | some i => indexResource l { d with resources := d.resources.set i resource } resource
  | none => indexResource l { d with resources := d.resources ++ [resource] } resource

def toResource (a : Listed) : APIResource :=
  ⟨a.group, a.version, a.kind, a.name, a.namespaced, !coreAPIGroups.contains a.group, a.verbs⟩

/-- Subresources have a slash in their names. -/
def refresh (apis : List Listed) : ResourceDiscovery :=
  apis.foldl (fun d a => if '/' ∈ a.name.toList then d else addResource l d (toResource a)) ⟨[], [], []⟩

end Refresh

section Lookups
variable (l : Lowering)

structure SeenEntry where
  index : Nat
  version : String

def resourceKey (res : APIResource) : String := res.name ++ "/" ++ res.group

def keepMostStable (s : List (String × SeenEntry) × List APIResource) (res : APIResource) :
    List (String × SeenEntry) × List APIResource :=
  match s.1.lookup (resourceKey res) with
  | none => (set s.1 (resourceKey res, ⟨s.2.length, res.version⟩), s.2 ++ [res])
  | some existing =>
    if isMoreStableVersion res.version existing.version then
      (set s.1 (resourceKey res, ⟨existing.index, res.version⟩), s.2.set existing.index res)
    else s

def getAPIResources (d : ResourceDiscovery) : List APIResource :=
  (d.resources.foldl keepMostStable ([], [])).2

def getGVR (d : ResourceDiscovery) (kindOrName : String) : Option GroupVersionResource :=
  d.gvrMap.lookup (l.toLower kindOrName)

def named (kindOrName : String) (res : APIResource) : Bool :=
  l.toLower res.kind == l.toLower kindOrName || l.toLower res.name == l.toLower kindOrName

def keepBest (kindOrName group : String) (best : Option APIResource) (res : APIResource) :
    Option APIResource :=
  if named l kindOrName res && res.group == group then
    match best with
    | none => some res
    | some held => if isMoreStableVersion res.version held.version then some res else best
  else best

def getGVRWithGroup (d : ResourceDiscovery) (kindOrName group : String) : Option GroupVersionResource :=
  if group = "" then getGVR l d kindOrName
  else (d.resources.foldl (keepBest l kindOrName group) none).map gvrOf

def getResource (d : ResourceDiscovery) (kindOrName : String) : Option APIResource :=
  d.resourceMap.lookup (l.toLower kindOrName)

def getResourceWithGroup (d : ResourceDiscovery) (kindOrName group : String) : Option APIResource :=
  if group = "" then getResource l d kindOrName
  else d.resources.find? fun res => named l kindOrName res && res.group == group

end Lookups

section Spec
variable (l : Lowering)

/-- What the cluster serves: each group, version and name once. -/
structure Served where
  apis : List Listed
  distinct : (apis.map fun a => (a.group, a.version, a.name)).Nodup

def discovered (apis : List Listed) : List APIResource :=
  (apis.filter fun a => '/' ∉ a.name.toList).map toResource

/-- The three lookups give one version for a group and a kind or name. -/
structure Resolves (d : ResourceDiscovery) (kindOrName group version : String) : Prop where
  gvr : ∃ gvr, getGVRWithGroup l d kindOrName group = some gvr ∧ gvr.version = version
  resource : ∃ res, getResourceWithGroup l d kindOrName group = some res ∧ res.version = version
  listed : ∃ res ∈ getAPIResources d, res.group = group ∧ named l kindOrName res = true
  all : ∀ res ∈ getAPIResources d, res.group = group → named l kindOrName res = true → res.version = version

/-- A group's resource is resolved to one version in every order of the list. -/
def AgreeInAnyOrder (served : Served) (kindOrName group : String) : Prop :=
  (∃ res ∈ discovered served.apis, res.group = group ∧ named l kindOrName res = true) →
    ∃ version, ∀ served' : Served, served'.apis.Perm served.apis →
      Resolves l (refresh l served'.apis) kindOrName group version

/-- No version of the same name and group is more stable. -/
def BestOfName (resources : List APIResource) (res : APIResource) : Prop :=
  ∀ other ∈ resources, other.name = res.name → other.group = res.group →
    isMoreStableVersion other.version res.version = false

/-- Without a group: what may be found first and is not taken over, and what the listing keeps. -/
def Contender (resources : List APIResource) (kindOrName : String) (res : APIResource) : Prop :=
  named l kindOrName res = true ∧
    ((res.isCRD = false ∧ ∀ other ∈ resources, named l kindOrName other = true →
        other.group = res.group → isMoreStableVersion other.version res.version = false) ∨
      (res.group = "" ∧ BestOfName resources res))

/-- Some match is listed under a version that matches too: the kind may differ among versions. -/
def Listable (resources : List APIResource) (kindOrName group : String) : Prop :=
  ∃ a ∈ resources, (a.group = group ∧ named l kindOrName a = true) ∧
    ∀ b ∈ resources, b.name = a.name → b.group = group → BestOfName resources b →
      named l kindOrName b = true

/-- The versions that the lookups may pick are one. -/
def OneVersion (resources : List APIResource) (kindOrName group : String) : Prop := if group = "" then
    ∀ a ∈ resources, ∀ b ∈ resources, Contender l resources kindOrName a →
      Contender l resources kindOrName b → a.version = b.version
  else ∀ a ∈ resources, ∀ b ∈ resources, a.group = group → b.group = group →
    named l kindOrName a = true → named l kindOrName b = true → a.version = b.version

/-- The condition for a group's resource, if there is one. -/
def Unambiguous (resources : List APIResource) (kindOrName group : String) : Prop :=
  (∃ res ∈ resources, res.group = group ∧ named l kindOrName res = true) →
    Listable l resources kindOrName group ∧ OneVersion l resources kindOrName group

end Spec

section Stability

/-- More stable versions come first. -/
def rank (version : String) : Int ×ₗ Int ×ₗ Int := toLex (-(versionStability version : Int),
    toLex (-((parseVersion version).1 : Int), -((parseVersion version).2 : Int)))

theorem stable_ranks : Selection.Ranks isMoreStableVersion rank := by
  intro x y
  simp only [isMoreStableVersion, rank, Prod.Lex.toLex_lt_toLex]
  split
  · rename_i tiers
    simp only [decide_eq_true_eq]
    omega
  · rename_i tiers
    split
    · rename_i majors
      simp only [decide_eq_true_eq]
      omega
    · rename_i majors
      simp only [decide_eq_true_eq]
      omega

theorem stable_irrefl (version : String) : isMoreStableVersion version version = false :=
  (Selection.ranks_not stable_ranks version version).mpr (le_refl _)

end Stability

section Indexing
variable {l : Lowering} {d : ResourceDiscovery}

/-- Under which keys the maps hold a resource. -/
def keyed (l : Lowering) (key : String) (res : APIResource) : Bool :=
  l.toLower res.kind == key || l.toLower res.name == key

/-- The entry of a key after a resource came. -/
def placed (existing : Option APIResource) (resource : APIResource) : APIResource :=
  existing.elim resource fun held => if takesOver resource held then resource else held

theorem takesOver_self (resource : APIResource) : takesOver resource resource = false := by
  simp [takesOver, stable_irrefl]

theorem placed_again (existing : Option APIResource) (resource : APIResource) :
    placed (some (placed existing resource)) resource = placed existing resource := by
  cases existing with
  | none => simp [placed, takesOver_self]
  | some held =>
    by_cases takes : takesOver resource held = true
    · simp [placed, takes, takesOver_self]
    · simp [placed, takes]

/-- The two maps go together. -/
def Paired (d : ResourceDiscovery) : Prop :=
  ∀ key, d.gvrMap.lookup key = (d.resourceMap.lookup key).map gvrOf

theorem indexKey_maps (paired : Paired d) (key : String) (resource : APIResource) :
    Paired (indexKey d key resource) ∧ (indexKey d key resource).resources = d.resources ∧
      ∀ other, (indexKey d key resource).resourceMap.lookup other =
        if other = key then some (placed (d.resourceMap.lookup key) resource)
        else d.resourceMap.lookup other := by
  have stored : Paired (storeAt d key resource) := by
    intro other
    rw [storeAt, lookup_set, lookup_set]
    split
    · rfl
    · exact paired other
  cases held : d.resourceMap.lookup key with
  | none =>
    have shape : indexKey d key resource = storeAt d key resource := by rw [indexKey, held]
    rw [shape]
    exact ⟨stored, rfl, fun other => lookup_set _ _ _⟩
  | some existing =>
    by_cases takes : takesOver resource existing = true
    · have shape : indexKey d key resource = storeAt d key resource := by
        rw [indexKey, held]
        exact if_pos takes
      have new : placed (some existing) resource = resource := by simp [placed, takes]
      rw [shape, new]
      exact ⟨stored, rfl, fun other => lookup_set _ _ _⟩
    · have shape : indexKey d key resource = d := by
        rw [indexKey, held]
        exact if_neg takes
      have old : placed (some existing) resource = existing := by simp [placed, takes]
      rw [shape, old]
      refine ⟨paired, rfl, fun other => ?_⟩
      split
      · rename_i same
        rw [same, held]
      · rfl

theorem indexResource_maps (paired : Paired d) (resource : APIResource) :
    Paired (indexResource l d resource) ∧ (indexResource l d resource).resources = d.resources ∧
      ∀ key, (indexResource l d resource).resourceMap.lookup key =
        if keyed l key resource then some (placed (d.resourceMap.lookup key) resource)
        else d.resourceMap.lookup key := by
  obtain ⟨paired', resources, kind⟩ := indexKey_maps paired (l.toLower resource.kind) resource
  obtain ⟨paired'', resources', name⟩ := indexKey_maps paired' (l.toLower resource.name) resource
  refine ⟨paired'', resources'.trans resources, fun key => ?_⟩
  rw [indexResource, name, kind, kind, keyed]
  by_cases byKind : key = l.toLower resource.kind <;>
    by_cases byName : key = l.toLower resource.name
  · simp [← byKind, ← byName, placed_again]
  · simp [← byKind, byName]
  · have apart : l.toLower resource.name ≠ l.toLower resource.kind := fun same => byKind (byName.trans same)
    simp [byName, apart]
  · have kind' : ¬ l.toLower resource.kind = key := fun same => byKind same.symm
    have name' : ¬ l.toLower resource.name = key := fun same => byName same.symm
    simp [byKind, byName, kind', name']

/-- What has come so far, and the winner of each key. -/
structure Indexed (l : Lowering) (resources : List APIResource) (d : ResourceDiscovery) : Prop where
  list : d.resources = resources
  paired : Paired d
  entry : ∀ key, d.resourceMap.lookup key = Selection.winner takesOver id (resources.filter (keyed l key))

theorem addResource_indexed (indexed : Indexed l resources d)
    {resource : APIResource} (fresh : ∀ other ∈ resources, sameGVR other resource = false) :
    Indexed l (resources ++ [resource]) (addResource l d resource) := by
  have none : (d.resources.findIdx? fun existing => sameGVR existing resource) = none := by
    rw [findIdx?_eq_none_iff, indexed.list]
    exact fresh
  have paired : Paired { d with resources := d.resources ++ [resource] } := indexed.paired
  obtain ⟨paired', resources', entry⟩ := @indexResource_maps l _ paired resource
  rw [addResource, none]
  constructor
  · rw [resources', indexed.list]
  · exact paired'
  · intro key
    rw [entry, filter_append]
    cases here : keyed l key resource with
    | true =>
      rw [filter_cons_of_pos here, filter_nil, Selection.winner_concat, ← indexed.entry]
      rfl
    | false =>
      rw [filter_cons_of_neg (by simp [here]), filter_nil, append_nil, ← indexed.entry]
      rfl

theorem refresh_eq (apis : List Listed) :
    refresh l apis = (discovered apis).foldl (addResource l) ⟨[], [], []⟩ := by
  unfold refresh discovered
  generalize (⟨[], [], []⟩ : ResourceDiscovery) = d
  induction apis generalizing d with
  | nil => rfl
  | cons a rest ih =>
    rw [foldl_cons, ih]
    by_cases slash : '/' ∈ a.name.toList <;> simp [slash]

theorem indexed_all (distinct : resources.Pairwise fun a b => sameGVR a b = false) :
    Indexed l resources (resources.foldl (addResource l) ⟨[], [], []⟩) := by
  induction resources using reverseRecOn with
  | nil => exact ⟨rfl, fun _ => rfl, fun _ => rfl⟩
  | append_singleton resources resource ih =>
    rw [pairwise_append] at distinct
    rw [foldl_append]
    exact addResource_indexed (ih distinct.1) fun other member =>
      distinct.2.2 other member resource (mem_singleton_self resource)

theorem discovered_distinct (served : Served) :
    (discovered served.apis).Pairwise fun a b => sameGVR a b = false := by
  have apart := pairwise_map.mp served.distinct
  rw [discovered, pairwise_map]
  apply (apart.filter _).imp
  intro a b differ
  simp only [sameGVR, toResource, Bool.and_eq_false_iff, beq_eq_false_iff_ne]
  by_contra same
  simp only [not_or, not_not] at same
  exact differ (by rw [same.1.1, same.1.2, same.2])

theorem refreshed (l : Lowering) (served : Served) :
    Indexed l (discovered served.apis) (refresh l served.apis) := by
  rw [refresh_eq]
  exact indexed_all (discovered_distinct served)

end Indexing

section Listing
variable {s : List (String × SeenEntry) × List APIResource} {processed : List APIResource}
variable {held : APIResource} {existing : SeenEntry}

def stabler (a b : APIResource) : Bool := isMoreStableVersion a.version b.version

theorem stabler_ranks : Selection.Ranks stabler fun res => rank res.version :=
  fun a b => stable_ranks a.version b.version

/-- The loop's map and result, of the resources so far. -/
structure Kept (processed : List APIResource) (s : List (String × SeenEntry) × List APIResource) :
    Prop where
  entry : ∀ key e, s.1.lookup key = some e → ∃ res, s.2[e.index]? = some res ∧
    e.version = res.version ∧ resourceKey res = key ∧
    Selection.winner stabler id (processed.filter fun r => resourceKey r = key) = some res
  absent : ∀ key, s.1.lookup key = none → ∀ res ∈ processed, resourceKey res ≠ key
  back : ∀ i res, s.2[i]? = some res → s.1.lookup (resourceKey res) = some ⟨i, res.version⟩

theorem filter_concat_other {key : String}
    (other : key ≠ resourceKey res) : ((processed ++ [res]).filter fun r => resourceKey r = key) =
      processed.filter fun r => resourceKey r = key := by
  have apart : ¬ resourceKey res = key := fun same => other same.symm
  simp [filter_append, apart]

theorem absent_concat (kept : Kept processed s) {key : String} (other : key ≠ resourceKey res)
    (missing : s.1.lookup key = none) : ∀ r ∈ processed ++ [res], resourceKey r ≠ key := by
  intro r member
  cases mem_append.mp member with
  | inl old => exact kept.absent key missing r old
  | inr last =>
    rw [mem_singleton.mp last]
    exact fun same => other same.symm

theorem kept_new (kept : Kept processed s) (new : s.1.lookup (resourceKey res) = none) :
    Kept (processed ++ [res])
      (set s.1 (resourceKey res, ⟨s.2.length, res.version⟩), s.2 ++ [res]) := by
  constructor
  · intro key e found
    rw [lookup_set] at found
    split at found
    · rename_i same
      cases found
      have none : (processed.filter fun r => resourceKey r = key) = [] := by
        rw [filter_eq_nil_iff]
        intro r member
        simpa [same] using kept.absent _ new r member
      refine ⟨res, by simp, rfl, same.symm, ?_⟩
      rw [List.filter_append, none]
      simp [same, Selection.winner, Selection.select]
    · rename_i other
      obtain ⟨r, at_, version, named_, won⟩ := kept.entry key e found
      refine ⟨r, ?_, version, named_, ?_⟩
      · obtain ⟨inside, _⟩ := List.getElem?_eq_some_iff.mp at_
        rw [getElem?_append_left inside]
        exact at_
      · rw [filter_concat_other other]
        exact won
  · intro key missing
    rw [lookup_set] at missing
    split at missing
    · cases missing
    · rename_i other
      exact absent_concat kept other missing
  · intro i r at_
    rw [lookup_set]
    by_cases inside : i < s.2.length
    · rw [getElem?_append_left inside] at at_
      have old := kept.back i r at_
      have other : resourceKey r ≠ resourceKey res := by
        intro same
        rw [same, new] at old
        cases old
      rw [if_neg other]
      exact old
    · rw [List.getElem?_append_right (by omega)] at at_
      obtain ⟨position, here⟩ := List.getElem?_eq_some_iff.mp at_
      simp only [length_singleton] at position
      have last : r = res := by
        rw [← here]
        simp
      have index : i = s.2.length := by omega
      rw [last, index, if_pos rfl]

theorem winner_next (won : Selection.winner stabler id
      (processed.filter fun r => resourceKey r = resourceKey res) = some held) :
    Selection.winner stabler id ((processed ++ [res]).filter fun r => resourceKey r = resourceKey res) =
      some (if stabler res held then res else held) := by
  have one : ([res].filter fun r => resourceKey r = resourceKey res) = [res] := by simp
  rw [List.filter_append, one, Selection.winner_concat, won]
  rfl

/-- A version more stable than the one held takes its place. -/
theorem kept_replaced (kept : Kept processed s)
    (seen : s.1.lookup (resourceKey res) = some existing) (at_ : s.2[existing.index]? = some held)
    (takes : stabler res held = true) :
    Kept (processed ++ [res])
      (set s.1 (resourceKey res, ⟨existing.index, res.version⟩), s.2.set existing.index res) := by
  obtain ⟨r, there, _, named_, won⟩ := kept.entry _ existing seen
  rw [at_] at there
  cases there
  obtain ⟨inside, _⟩ := List.getElem?_eq_some_iff.mp at_
  have next := winner_next won
  rw [if_pos takes] at next
  constructor
  · intro key e found
    rw [lookup_set] at found
    split at found
    · rename_i same
      cases found
      exact ⟨res, by simp [inside], rfl, same.symm, same ▸ next⟩
    · rename_i other
      obtain ⟨r, at_', version', named', won'⟩ := kept.entry key e found
      have apart : existing.index ≠ e.index := by
        intro same
        rw [← same, at_] at at_'
        cases at_'
        exact other (named'.symm.trans named_)
      refine ⟨r, ?_, version', named', ?_⟩
      · rw [getElem?_set_ne apart]
        exact at_'
      · rw [filter_concat_other other]
        exact won'
  · intro key missing
    rw [lookup_set] at missing
    split at missing
    · cases missing
    · rename_i other
      exact absent_concat kept other missing
  · intro i r at_'
    rw [lookup_set]
    by_cases here : existing.index = i
    · rw [← here, getElem?_set_self inside] at at_'
      cases at_'
      rw [if_pos rfl, here]
    · rw [getElem?_set_ne here] at at_'
      have old := kept.back i r at_'
      have other : resourceKey r ≠ resourceKey res := by
        intro same
        rw [same, seen] at old
        cases old
        exact here rfl
      rw [if_neg other]
      exact old

theorem kept_refused (kept : Kept processed s)
    (seen : s.1.lookup (resourceKey res) = some existing) (at_ : s.2[existing.index]? = some held)
    (refused : ¬ stabler res held = true) : Kept (processed ++ [res]) s := by
  obtain ⟨r, there, version, named_, won⟩ := kept.entry _ existing seen
  rw [at_] at there
  cases there
  have next := winner_next won
  rw [if_neg refused] at next
  constructor
  · intro key e found
    by_cases same : key = resourceKey res
    · subst same
      rw [seen] at found
      cases found
      exact ⟨held, at_, version, named_, next⟩
    · rw [filter_concat_other same]
      exact kept.entry key e found
  · intro key missing
    have other : key ≠ resourceKey res := by
      intro same
      rw [same, seen] at missing
      cases missing
    exact absent_concat kept other missing
  · exact kept.back

theorem kept_again (kept : Kept processed s) (seen : s.1.lookup (resourceKey res) = some existing) :
    Kept (processed ++ [res])
      (if isMoreStableVersion res.version existing.version then
        (set s.1 (resourceKey res, ⟨existing.index, res.version⟩), s.2.set existing.index res)
      else s) := by
  obtain ⟨held, at_, version, _, _⟩ := kept.entry _ existing seen
  rw [version]
  split
  · rename_i takes
    exact kept_replaced kept seen at_ takes
  · rename_i refused
    exact kept_refused kept seen at_ refused

theorem kept_all (resources : List APIResource) :
    Kept resources (resources.foldl keepMostStable ([], [])) := by
  induction resources using reverseRecOn with
  | nil =>
    constructor
    · intro key e impossible
      cases impossible
    · intro key _ res impossible
      cases impossible
    · intro i res impossible
      cases impossible
  | append_singleton resources res ih =>
    rw [foldl_append, foldl_cons, foldl_nil, keepMostStable]
    split
    · rename_i new
      exact kept_new ih new
    · rename_i existing seen
      exact kept_again ih seen

/-- The listing keeps one resource of each name and group, the first most stable one. -/
theorem getAPIResources_kept {d : ResourceDiscovery} (member : res ∈ getAPIResources d) :
    Selection.winner stabler id (d.resources.filter fun r => resourceKey r = resourceKey res) =
      some res := by
  have kept := kept_all d.resources
  obtain ⟨i, inside, here⟩ := getElem_of_mem member
  have at_ : (d.resources.foldl keepMostStable ([], [])).2[i]? = some res :=
    List.getElem?_eq_some_iff.mpr ⟨inside, here⟩
  obtain ⟨r, at_', _, _, won⟩ := kept.entry _ _ (kept.back i res at_)
  rw [at_] at at_'
  cases at_'
  exact won

theorem getAPIResources_covers {d : ResourceDiscovery}
    (member : res ∈ d.resources) : ∃ r ∈ getAPIResources d, resourceKey r = resourceKey res := by
  have kept := kept_all d.resources
  cases seen : (d.resources.foldl keepMostStable ([], [])).1.lookup (resourceKey res) with
  | none => exact absurd rfl (kept.absent _ seen res member)
  | some e =>
    obtain ⟨r, at_, _, same, _⟩ := kept.entry _ e seen
    exact ⟨r, mem_of_getElem? at_, same⟩

end Listing

section Grouped
variable {l : Lowering} {d : ResourceDiscovery} {kindOrName group : String}

def inGroup (l : Lowering) (kindOrName group : String) (res : APIResource) : Bool :=
  named l kindOrName res && res.group == group

theorem inGroup_iff : inGroup l kindOrName group res = true ↔
    named l kindOrName res = true ∧ res.group = group := by
  simp [inGroup]

theorem keepBest_eq (best : Option APIResource) (res : APIResource) : keepBest l kindOrName group best res =
      if inGroup l kindOrName group res then
        some (best.elim res fun held => if stabler res held then res else held)
      else best := by
  unfold keepBest inGroup stabler
  split
  · cases best with
    | none => rfl
    | some held =>
      simp only [Option.elim_some]
      split <;> rfl
  · rfl

/-- With a group the best loop gives the first most stable match. -/
theorem getGVRWithGroup_eq (some_ : group ≠ "") : getGVRWithGroup l d kindOrName group =
    (Selection.winner stabler id (d.resources.filter (inGroup l kindOrName group))).map gvrOf := by
  rw [getGVRWithGroup, if_neg some_]
  apply congrArg
  induction d.resources using reverseRecOn with
  | nil => rfl
  | append_singleton resources res ih =>
    rw [foldl_append, ih, filter_append, foldl_cons, foldl_nil, keepBest_eq]
    split
    · rename_i here
      rw [filter_cons_of_pos here, filter_nil, Selection.winner_concat]
    · rename_i out
      rw [filter_cons_of_neg out, filter_nil, append_nil]

theorem getResourceWithGroup_eq (some_ : group ≠ "") : getResourceWithGroup l d kindOrName group =
    d.resources.find? (inGroup l kindOrName group) := by
  rw [getResourceWithGroup, if_neg some_]
  rfl

end Grouped

section Orders
variable {l : Lowering} {kindOrName group : String} {served : Served}

theorem served_perm {apis : List Listed} (perm : apis.Perm served.apis) :
    (apis.map fun a => (a.group, a.version, a.name)).Nodup :=
  (perm.map _).nodup_iff.mpr served.distinct

theorem discovered_perm {apis apis' : List Listed} (perm : apis'.Perm apis) :
    (discovered apis').Perm (discovered apis) := (perm.filter _).map _

theorem discovered_append (apis apis' : List Listed) :
    discovered (apis ++ apis') = discovered apis ++ discovered apis' := by
  simp [discovered]

/-- The resources of a kind may come first, in their own order. -/
theorem served_split (served : Served) (keep : APIResource → Bool) : ∃ served' : Served,
    served'.apis.Perm served.apis ∧ discovered served'.apis = (discovered served.apis).filter keep ++
        (discovered served.apis).filter fun res => !keep res := by
  have perm := filter_append_perm (fun a => keep (toResource a)) served.apis
  have part : ∀ keep : APIResource → Bool, discovered (served.apis.filter fun a => keep (toResource a)) =
        (discovered served.apis).filter keep := by
    intro keep
    simp only [discovered, filter_map, filter_filter, Function.comp_def]
    apply congrArg
    apply filter_congr
    intro a _
    exact Bool.and_comm _ _
  refine ⟨⟨_, served_perm perm⟩, perm, ?_⟩
  rw [discovered_append, part keep]
  exact congrArg _ (part fun res => !keep res)

/-- Any resource may come first. -/
theorem served_front (member : res ∈ discovered served.apis) :
    ∃ served' : Served, ∃ rest, served'.apis.Perm served.apis ∧ discovered served'.apis = res :: rest := by
  obtain ⟨a, inside, rfl⟩ := mem_map.mp member
  obtain ⟨listed, plain⟩ := mem_filter.mp inside
  obtain ⟨rest, perm⟩ := Selection.exists_front listed
  refine ⟨⟨a :: rest, served_perm perm⟩, discovered rest, perm, ?_⟩
  have first : discovered [a] = [toResource a] := by
    have kept : '/' ∉ a.name.toList := by simpa using plain
    simp [discovered, kept]
  exact (discovered_append [a] rest).trans (congrArg (· ++ discovered rest) first)

theorem resourceKey_inj {a b : APIResource} (member : a ∈ discovered served.apis)
    (member' : b ∈ discovered served.apis) (same : resourceKey a = resourceKey b) :
    a.name = b.name ∧ a.group = b.group := by
  have plain : ∀ c ∈ discovered served.apis, '/' ∉ c.name.toList := by
    intro c inside
    obtain ⟨x, listed, rfl⟩ := mem_map.mp inside
    simpa [toResource] using (mem_filter.mp listed).2
  exact slash_inj (plain a member) (plain b member') same

theorem crd_of_group {a b : APIResource} (member : a ∈ discovered served.apis)
    (member' : b ∈ discovered served.apis) (same : a.group = b.group) : a.isCRD = b.isCRD := by
  obtain ⟨x, _, rfl⟩ := mem_map.mp member
  obtain ⟨y, _, rfl⟩ := mem_map.mp member'
  simp only [toResource] at same ⊢
  rw [same]

theorem core_not_crd {a : APIResource} (member : a ∈ discovered served.apis)
    (core : a.group = "") : a.isCRD = false := by
  obtain ⟨x, _, rfl⟩ := mem_map.mp member
  simp only [toResource] at core ⊢
  rw [core]
  decide

theorem best_perm {resources resources' : List APIResource} (perm : resources'.Perm resources)
    (res : APIResource) : BestOfName resources' res ↔ BestOfName resources res := by
  simp only [BestOfName, perm.mem_iff]

/-- The listing's resource is one of those served, and the most stable of its name and group. -/
theorem listed_spec (listed : res ∈ getAPIResources (refresh l served.apis)) :
    res ∈ discovered served.apis ∧ BestOfName (discovered served.apis) res := by
  have won := getAPIResources_kept listed
  rw [(refreshed l served).list] at won
  have member := (mem_filter.mp (Selection.winner_mem won)).1
  refine ⟨member, fun other inside name group => ?_⟩
  have same : resourceKey other = resourceKey res := by rw [resourceKey, resourceKey, name, group]
  have inside' : other ∈ (discovered served.apis).filter fun r => resourceKey r = resourceKey res :=
    mem_filter.mpr ⟨inside, decide_eq_true same⟩
  cases split : (discovered served.apis).filter fun r => resourceKey r = resourceKey res with
  | nil =>
    rw [split] at inside'
    cases inside'
  | cons first rest =>
    rw [split] at inside' won
    cases won
    exact Selection.select_best stabler_ranks first rest other inside'

theorem listed_covers (member : res ∈ discovered served.apis) :
    ∃ r ∈ getAPIResources (refresh l served.apis), r.name = res.name ∧ r.group = res.group := by
  obtain ⟨r, listed, same⟩ := @getAPIResources_covers res (refresh l served.apis)
    (by rw [(refreshed l served).list]; exact member)
  exact ⟨r, listed, resourceKey_inj (listed_spec listed).1 member same⟩

/-- The most stable resource of a name that comes first is listed. -/
theorem first_listed {first rest : List APIResource}
    (order : discovered served.apis = first ++ rest) {a r : APIResource} (member : a ∈ first)
    (best : ∀ b ∈ first, BestOfName (discovered served.apis) b)
    (listed : r ∈ getAPIResources (refresh l served.apis)) (name : r.name = a.name)
    (group_ : r.group = a.group) : r ∈ first := by
  have won := getAPIResources_kept listed
  have same : resourceKey a = resourceKey r := by rw [resourceKey, resourceKey, name, group_]
  rw [(refreshed l served).list, order, filter_append] at won
  cases split : first.filter fun x => resourceKey x = resourceKey r with
  | nil =>
    have inside : a ∈ first.filter fun x => resourceKey x = resourceKey r :=
      mem_filter.mpr ⟨member, decide_eq_true same⟩
    rw [split] at inside
    cases inside
  | cons top others =>
    have among : top ∈ first.filter fun x => resourceKey x = resourceKey r := by
      rw [split]
      exact mem_cons_self
    obtain ⟨inside, key⟩ := mem_filter.mp among
    have served_ : ∀ x, x ∈ first ++ rest → x ∈ discovered served.apis := fun x both => order ▸ both
    have unbeaten : Selection.Best stabler
        (others ++ rest.filter fun x => resourceKey x = resourceKey r) top := by
      intro x later
      have x_in : x ∈ first ++ rest ∧ resourceKey x = resourceKey r := by
        cases mem_append.mp later with
        | inl early =>
          have x_among : x ∈ first.filter fun x => resourceKey x = resourceKey r := by
            rw [split]
            exact mem_cons_of_mem _ early
          obtain ⟨x_in, x_key⟩ := mem_filter.mp x_among
          exact ⟨mem_append_left _ x_in, of_decide_eq_true x_key⟩
        | inr late =>
          obtain ⟨x_in, x_key⟩ := mem_filter.mp late
          exact ⟨mem_append_right _ x_in, of_decide_eq_true x_key⟩
      have top_in := served_ top (mem_append_left _ inside)
      obtain ⟨x_name, x_group⟩ := resourceKey_inj (served_ x x_in.1) top_in
        (x_in.2.trans (of_decide_eq_true key).symm)
      exact best top inside x (served_ x x_in.1) x_name x_group
    rw [split, cons_append, Selection.winner, Selection.select_held unbeaten] at won
    cases won
    exact inside

end Orders

section Exact
variable {l : Lowering} {kindOrName group : String} {served : Served}

/-- A match is listed in every order exactly when some match cannot lose its place to another kind. -/
theorem listable_iff : (∀ served' : Served, served'.apis.Perm served.apis →
      ∃ res ∈ getAPIResources (refresh l served'.apis), res.group = group ∧ named l kindOrName res = true) ↔
    Listable l (discovered served.apis) kindOrName group := by
  classical
  constructor
  · intro listed
    by_contra unlistable
    -- put first what is kept under a name and does not match
    obtain ⟨served', perm, order⟩ := served_split served fun res =>
      decide (BestOfName (discovered served.apis) res ∧ named l kindOrName res = false)
    obtain ⟨r, inside, group_, matches_⟩ := listed served' perm
    have same := discovered_perm perm
    have r_in := same.mem_iff.mp (listed_spec inside).1
    have rival : ∃ b ∈ discovered served.apis, b.name = r.name ∧ b.group = group ∧
        BestOfName (discovered served.apis) b ∧ named l kindOrName b = false := by
      by_contra none
      apply unlistable
      refine ⟨r, r_in, ⟨group_, matches_⟩, fun b member name group' best => ?_⟩
      by_contra other
      exact none ⟨b, member, name, group', best, by simpa using other⟩
    obtain ⟨b, member, name, group', best, other⟩ := rival
    have early : b ∈ (discovered served.apis).filter fun res =>
        decide (BestOfName (discovered served.apis) res ∧ named l kindOrName res = false) :=
      mem_filter.mpr ⟨member, by simpa using And.intro best other⟩
    have all : ∀ c ∈ (discovered served.apis).filter fun res =>
        decide (BestOfName (discovered served.apis) res ∧ named l kindOrName res = false),
        BestOfName (discovered served'.apis) c := fun c among =>
      (best_perm same c).mpr (of_decide_eq_true (mem_filter.mp among).2).1
    have among := first_listed order early all inside name.symm (group_.trans group'.symm)
    have mismatch := (of_decide_eq_true (mem_filter.mp among).2).2
    rw [matches_] at mismatch
    cases mismatch
  · rintro ⟨a, member, ⟨group_, matches_⟩, kept⟩ served' perm
    have same := discovered_perm perm
    obtain ⟨r, inside, name, group'⟩ := @listed_covers a l served' (same.mem_iff.mpr member)
    obtain ⟨r_in, best⟩ := listed_spec inside
    refine ⟨r, inside, group'.trans group_, ?_⟩
    exact kept r (same.mem_iff.mp r_in) name (group'.trans group_) ((best_perm same r).mp best)

theorem grouped_versions (some_ : group ≠ "") {version : String}
    (resolves : ∀ served' : Served, served'.apis.Perm served.apis →
      Resolves l (refresh l served'.apis) kindOrName group version) :
    OneVersion l (discovered served.apis) kindOrName group := by
  have first : ∀ c ∈ discovered served.apis, c.group = group → named l kindOrName c = true →
      c.version = version := by
    intro c present grouped matched
    obtain ⟨served', rest, perm, front⟩ := served_front present
    obtain ⟨res, found, same⟩ := (resolves served' perm).resource
    have hit : inGroup l kindOrName group c = true := inGroup_iff.mpr ⟨matched, grouped⟩
    rw [getResourceWithGroup_eq some_, (refreshed l served').list, front,
      find?_cons_of_pos hit] at found
    cases found
    exact same
  rw [OneVersion, if_neg some_]
  intro a member b member' inside inside' matches_ matches'
  exact (first a member inside matches_).trans (first b member' inside' matches').symm

theorem grouped_resolves (some_ : group ≠ "")
    (one : OneVersion l (discovered served.apis) kindOrName group)
    (listable : Listable l (discovered served.apis) kindOrName group)
    (member : res ∈ discovered served.apis) (inside : res.group = group)
    (matches_ : named l kindOrName res = true) {served' : Served}
    (perm : served'.apis.Perm served.apis) :
    Resolves l (refresh l served'.apis) kindOrName group res.version := by
  rw [OneVersion, if_neg some_] at one
  have same : ∀ c ∈ discovered served'.apis, inGroup l kindOrName group c = true →
      c.version = res.version := by
    intro c present hit
    obtain ⟨matched, grouped⟩ := inGroup_iff.mp hit
    exact one c ((discovered_perm perm).mem_iff.mp present) res member grouped inside matched matches_
  have present := (discovered_perm perm).mem_iff.mpr member
  have hit : inGroup l kindOrName group res = true := inGroup_iff.mpr ⟨matches_, inside⟩
  have list := (refreshed l served').list
  constructor
  · obtain ⟨best, won⟩ := @Selection.winner_some _ stabler _ _ (mem_filter.mpr ⟨present, hit⟩)
    obtain ⟨among, hit'⟩ := mem_filter.mp (Selection.winner_mem won)
    refine ⟨gvrOf best, ?_, same best among hit'⟩
    rw [getGVRWithGroup_eq some_, list, won]
    rfl
  · cases found : (discovered served'.apis).find? (inGroup l kindOrName group) with
    | none => exact absurd hit (find?_eq_none.mp found res present)
    | some first =>
      refine ⟨first, ?_, same first (mem_of_find?_eq_some found) (find?_some found)⟩
      rw [getResourceWithGroup_eq some_, list, found]
  · exact listable_iff.mpr listable served' perm
  · intro r listed grouped matched
    exact same r (listed_spec listed).1 (inGroup_iff.mpr ⟨matched, grouped⟩)

/-- What the maps' entry of a key is: a built-in resource if one has the key, and the most stable
    of its group. -/
theorem entry_spec (flags : ∀ a ∈ resources, ∀ b ∈ resources, a.group = b.group → a.isCRD = b.isCRD)
    {e : APIResource} (won : Selection.winner takesOver id resources = some e) :
    (e.isCRD = true → ∀ a ∈ resources, a.isCRD = true) ∧
      ∀ a ∈ resources, a.group = e.group → stabler a e = false := by
  induction resources using reverseRecOn generalizing e with
  | nil => cases won
  | append_singleton resources x ih =>
    have flags' : ∀ a ∈ resources, ∀ b ∈ resources, a.group = b.group → a.isCRD = b.isCRD :=
      fun a member b member' =>
        flags a (mem_append_left _ member) b (mem_append_left _ member')
    have last : x ∈ resources ++ [x] := by simp
    have cases_ : ∀ a ∈ resources ++ [x], a ∈ resources ∨ a = x := by
      intro a member
      simpa using member
    rw [Selection.winner_concat, Option.some.injEq] at won
    cases held : Selection.winner takesOver id resources with
    | none =>
      have empty : resources = [] := by
        cases resources with
        | nil => rfl
        | cons first rest => cases held
      rw [held, Option.elim_none] at won
      subst won
      subst empty
      refine ⟨fun crd a member => ?_, fun a member _ => ?_⟩
      · rw [mem_singleton.mp member]
        exact crd
      · rw [mem_singleton.mp member]
        exact stable_irrefl _
    | some h =>
      obtain ⟨crds, best⟩ := ih flags' held
      have h_in := mem_append_left [x] (Selection.winner_mem held)
      rw [held, Option.elim_some] at won
      by_cases takes : takesOver x h = true
      · rw [if_pos takes] at won
        subst won
        simp only [takesOver, Bool.or_eq_true, Bool.and_eq_true, beq_iff_eq, Bool.not_eq_true'] at takes
        cases takes with
        | inl builtin =>
          refine ⟨fun crd => absurd (crd.symm.trans builtin.1) (by simp), fun a member group' => ?_⟩
          cases cases_ a member with
          | inl old =>
            have crd := crds builtin.2 a old
            have flag := flags a member x last group'
            rw [crd, builtin.1] at flag
            cases flag
          | inr new => exact new ▸ stable_irrefl _
        | inr stable =>
          refine ⟨fun crd a member => ?_, fun a member group' => ?_⟩
          · cases cases_ a member with
            | inl old => exact crds (stable.1.1.symm.trans crd) a old
            | inr new => exact new ▸ crd
          · cases cases_ a member with
            | inl old =>
              have below := best a old (group'.trans stable.1.2.symm)
              have rises := (stable_ranks x.version h.version).mp stable.2
              have low := (Selection.ranks_not stabler_ranks a h).mp below
              exact (Selection.ranks_not stabler_ranks a x).mpr (le_trans rises.le low)
            | inr new => exact new ▸ stable_irrefl _
      · rw [if_neg takes] at won
        subst won
        simp only [takesOver, Bool.or_eq_true, Bool.and_eq_true, beq_iff_eq, Bool.not_eq_true',
          not_or, not_and] at takes
        refine ⟨fun crd a member => ?_, fun a member group' => ?_⟩
        · cases cases_ a member with
          | inl old => exact crds crd a old
          | inr new =>
            rw [new]
            cases flag : x.isCRD with
            | true => rfl
            | false => exact absurd crd (takes.1 flag)
        · cases cases_ a member with
          | inl old => exact best a old group'
          | inr new =>
            subst new
            have refused := takes.2 ⟨flags a last h h_in group', group'.symm⟩
            simpa [stabler] using refused

theorem entry_eq (l : Lowering) (served : Served) (kindOrName : String) :
    (refresh l served.apis).resourceMap.lookup (l.toLower kindOrName) =
      Selection.winner takesOver id ((discovered served.apis).filter (named l kindOrName)) :=
  (refreshed l served).entry _

/-- The lookups without a group find a contender of the core group's rivals. -/
theorem entry_contender {res e : APIResource} (member : res ∈ discovered served.apis)
    (core : res.group = "") (matches_ : named l kindOrName res = true)
    (won : Selection.winner takesOver id ((discovered served.apis).filter (named l kindOrName)) =
      some e) : e ∈ discovered served.apis ∧ Contender l (discovered served.apis) kindOrName e := by
  have flags : ∀ a ∈ (discovered served.apis).filter (named l kindOrName),
      ∀ b ∈ (discovered served.apis).filter (named l kindOrName), a.group = b.group →
        a.isCRD = b.isCRD := fun a inside b inside' =>
    crd_of_group (mem_filter.mp inside).1 (mem_filter.mp inside').1
  obtain ⟨crds, best⟩ := entry_spec flags won
  obtain ⟨inside, matched⟩ := mem_filter.mp (Selection.winner_mem won)
  have builtin : e.isCRD = false := by
    cases flag : e.isCRD with
    | false => rfl
    | true =>
      have crd := crds flag res (mem_filter.mpr ⟨member, matches_⟩)
      rw [core_not_crd member core] at crd
      cases crd
  refine ⟨inside, matched, .inl ⟨builtin, fun other present matched' group' => ?_⟩⟩
  exact best other (mem_filter.mpr ⟨present, matched'⟩) group'

theorem core_versions {version : String}
    (resolves : ∀ served' : Served, served'.apis.Perm served.apis →
      Resolves l (refresh l served'.apis) kindOrName "" version) :
    OneVersion l (discovered served.apis) kindOrName "" := by
  have each : ∀ c ∈ discovered served.apis, Contender l (discovered served.apis) kindOrName c →
      c.version = version := by
    rintro c present ⟨matched, rival⟩
    obtain ⟨served', rest, perm, front⟩ := served_front present
    have same := discovered_perm perm
    have inside : ∀ x ∈ rest, x ∈ discovered served.apis := fun x later =>
      same.mem_iff.mp (front ▸ mem_cons_of_mem c later)
    obtain ⟨builtin, best⟩ | ⟨core, best⟩ := rival
    · obtain ⟨r, found, version_⟩ := (resolves served' perm).resource
      have unbeaten : Selection.Best takesOver (rest.filter (named l kindOrName)) c := by
        intro y later
        obtain ⟨late, matched'⟩ := mem_filter.mp later
        simp only [takesOver, builtin, Bool.and_false, Bool.false_or, Bool.and_eq_false_iff]
        by_cases group' : c.group = y.group
        · exact .inr (best y (inside y late) matched' group'.symm)
        · exact .inl (.inr (beq_eq_false_iff_ne.mpr group'))
      rw [getResourceWithGroup, if_pos rfl, getResource, entry_eq, front,
        filter_cons_of_pos matched, Selection.winner, Selection.select_held unbeaten] at found
      cases found
      exact version_
    · obtain ⟨r, listed, name, group'⟩ := @listed_covers c l served' (front ▸ mem_cons_self)
      have only : r ∈ [c] := by
        apply @first_listed l served' [c] rest front c r (mem_singleton_self c) _ listed name group'
        intro b single
        rw [mem_singleton.mp single]
        exact (best_perm same c).mpr best
      have equal := mem_singleton.mp only
      subst equal
      exact (resolves served' perm).all r listed core matched
  rw [OneVersion, if_pos rfl]
  intro a member b member' rival rival'
  exact (each a member rival).trans (each b member' rival').symm

theorem core_resolves (one : OneVersion l (discovered served.apis) kindOrName "")
    (listable : Listable l (discovered served.apis) kindOrName "")
    (member : res ∈ discovered served.apis) (core : res.group = "")
    (matches_ : named l kindOrName res = true) : ∃ version, ∀ served' : Served,
      served'.apis.Perm served.apis → Resolves l (refresh l served'.apis) kindOrName "" version := by
  rw [OneVersion, if_pos rfl] at one
  have here := mem_filter.mpr ⟨member, matches_⟩
  obtain ⟨chosen, chose⟩ := @Selection.winner_some _ takesOver _ _ here
  obtain ⟨chosen_in, chosen_rival⟩ := entry_contender member core matches_ chose
  refine ⟨chosen.version, fun served' perm => ?_⟩
  have same := discovered_perm perm
  have present := same.mem_iff.mpr member
  have carried : ∀ c ∈ discovered served'.apis, Contender l (discovered served'.apis) kindOrName c →
      c.version = chosen.version := by
    rintro c present' ⟨matched, rival⟩
    apply one c (same.mem_iff.mp present') chosen chosen_in _ chosen_rival
    refine ⟨matched, ?_⟩
    cases rival with
    | inl builtin =>
      exact .inl ⟨builtin.1, fun other inside => builtin.2 other (same.mem_iff.mpr inside)⟩
    | inr listed => exact .inr ⟨listed.1, (best_perm same c).mp listed.2⟩
  have there := mem_filter.mpr ⟨present, matches_⟩
  obtain ⟨e, won⟩ := @Selection.winner_some _ takesOver _ _ there
  obtain ⟨e_in, rival⟩ := entry_contender present core matches_ won
  have version := carried e e_in rival
  constructor
  · refine ⟨gvrOf e, ?_, version⟩
    rw [getGVRWithGroup, if_pos rfl, getGVR, (refreshed l served').paired, entry_eq, won]
    rfl
  · refine ⟨e, ?_, version⟩
    rw [getResourceWithGroup, if_pos rfl, getResource, entry_eq, won]
  · exact listable_iff.mpr listable served' perm
  · intro r listed group' matched
    obtain ⟨inside, best⟩ := listed_spec listed
    exact carried r inside ⟨matched, .inr ⟨group', best⟩⟩

/-- The lookups agree in every order exactly where only one version can be picked. -/
theorem lookups_agree_iff (l : Lowering) (served : Served) (kindOrName group : String) :
    AgreeInAnyOrder l served kindOrName group ↔
      Unambiguous l (discovered served.apis) kindOrName group := by
  constructor
  · intro agree present
    obtain ⟨version, resolves⟩ := agree present
    refine ⟨listable_iff.mp fun served' perm => (resolves served' perm).listed, ?_⟩
    by_cases core : group = ""
    · subst core
      exact core_versions resolves
    · exact grouped_versions core resolves
  · intro unambiguous present
    obtain ⟨listable, one⟩ := unambiguous present
    obtain ⟨res, member, inside, matches_⟩ := present
    by_cases core : group = ""
    · subst core
      exact core_resolves one listable member inside matches_
    · exact ⟨res.version, fun served' perm =>
        grouped_resolves core one listable member inside matches_ perm⟩

end Exact

section Example

def gateway (version : String) : Listed where
  group := "gateway.networking.k8s.io"
  version := version
  kind := "Gateway"
  name := "gateways"
  namespaced := true
  verbs := ["list", "watch"]

theorem gateways_distinct : ([gateway "v1beta1", gateway "v1"].map fun a =>
    (a.group, a.version, a.name)).Nodup := by decide

def gateways : Served := ⟨[gateway "v1beta1", gateway "v1"], gateways_distinct⟩

/-- With the beta version listed first the resource found is not the one informers watch. -/
theorem gateway_versions_differ :
    (getGVRWithGroup asciiLowering (refresh asciiLowering gateways.apis) "Gateway"
        "gateway.networking.k8s.io").map GroupVersionResource.version = some "v1" ∧
      (getResourceWithGroup asciiLowering (refresh asciiLowering gateways.apis) "Gateway"
        "gateway.networking.k8s.io").map APIResource.version = some "v1beta1" ∧
      ¬ AgreeInAnyOrder asciiLowering gateways "Gateway" "gateway.networking.k8s.io" := by
  have gvr : (getGVRWithGroup asciiLowering (refresh asciiLowering gateways.apis) "Gateway"
      "gateway.networking.k8s.io").map GroupVersionResource.version = some "v1" := by decide
  have resource : (getResourceWithGroup asciiLowering (refresh asciiLowering gateways.apis) "Gateway"
      "gateway.networking.k8s.io").map APIResource.version = some "v1beta1" := by decide
  refine ⟨gvr, resource, fun agree => ?_⟩
  obtain ⟨version, resolves⟩ := agree (by decide)
  obtain ⟨⟨found, hit, same⟩, ⟨found', hit', same'⟩, _⟩ := resolves gateways (List.Perm.refl _)
  rw [hit, Option.map_some, same] at gvr
  rw [hit', Option.map_some, same', gvr] at resource
  exact absurd resource (by decide)

end Example

end Discovery
