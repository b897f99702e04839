import Mathlib.Data.List.Pairwise
import Radar.Base.GoText
import Radar.Base.KeyedFold
import Radar.Base.LabelSelector
import Radar.Topology.Types

/- pkg/topology/pod_grouping.go: pods in groups of one app or owner, and the nodes that stand for
   them in the graph. -/
namespace PodGrouping
open Topology GoText KeyedFold List

structure OwnerReference where
  kind : String
  name : String
  controller : Option Bool

/-- `data` is what the pod's node shows of it besides its namespace and its node. Kubernetes lets no
slash into namespaces, names and label values. -/
structure Pod where
  namespace_ : String
  name : String
  labels : List (String × String)
  ownerReferences : List OwnerReference
  phase : String
  nodeName : String
  data : List (String × DataValue)
  namespace_slashless : '/' ∉ namespace_.toList
  name_slashless : '/' ∉ name.toList
  labels_slashless : ∀ label ∈ labels, '/' ∉ label.2.toList
  owners_slashless : ∀ ref ∈ ownerReferences, '/' ∉ ref.kind.toList ∧ '/' ∉ ref.name.toList

variable {pods : List Pod}

structure Service where
  namespace_ : String
  name : String
  selector : List (String × String)
  slashless : '/' ∉ namespace_.toList

structure PodGroup where
  key : String
  groupKind : String
  groupName : String
  namespace_ : String
  pods : List Pod
  serviceIDs : List String
  healthy : Nat
  degraded : Nat
  unhealthy : Nat

variable {g : PodGroup} {p q : Pod}

/-- A nil map of services is none. -/
structure PodGroupingOptions where
  namespaces : Option (List String)
  serviceMatching : Bool
  servicesByNS : Option (String → List (String × Service))
  serviceIDs : String → Option String

def PodGroupingOptions.matchesNamespaceFilter (opts : PodGroupingOptions) (ns : String) : Bool :=
  matchesNamespace opts.namespaces ns

/-- The value of a label, empty where the label is absent. -/
def label (labels : List (String × String)) (key : String) : String := (labels.lookup key).getD ""

/-- An absent label passes for one with an empty value. -/
def matchesSelector (labels selector : List (String × String)) : Bool :=
  if selector.length = 0 then false else selector.all fun pair => label labels pair.1 == pair.2

def getPodStatus (phase : String) : HealthStatus := if phase = "Running" ∨ phase = "Succeeded" then .healthy
  else if phase = "Pending" then .degraded
  else if phase = "Failed" ∨ phase = "CrashLoopBackOff" then .unhealthy
  else .unknown

/-- Kind and name of the group a pod belongs to. -/
def groupOf (pod : Pod) : String × String := if label pod.labels "app.kubernetes.io/name" ≠ "" then
    ("app", label pod.labels "app.kubernetes.io/name")
  else if label pod.labels "app" ≠ "" then ("app", label pod.labels "app")
  else
    match pod.ownerReferences.find? fun ref => ref.controller == some true with
    | some ref => (ref.kind, ref.name)
    | none => ("standalone", pod.name)

def determineGroupKey (pod : Pod) : String × String × String := let group := groupOf pod
  (pod.namespace_ ++ "/" ++ group.1 ++ "/" ++ group.2, group.1, group.2)

def groupKey (pod : Pod) : String := (determineGroupKey pod).1

section Groups
variable (opts : PodGroupingOptions)

/-- Services are looked for only where the view matches them. -/
def matchingServiceIDs (pod : Pod) : List String := match opts.serviceMatching, opts.servicesByNS with
  | true, some servicesByNS =>
    (servicesByNS pod.namespace_).filterMap fun entry =>
      if matchesSelector pod.labels entry.2.selector then opts.serviceIDs entry.1 else none
  | _, _ => []

/-- Pods without a service are left out of the traffic view. -/
def inScope (pod : Pod) : Bool := opts.matchesNamespaceFilter pod.namespace_ &&
    (!(opts.serviceMatching && opts.servicesByNS.isSome) ||
      decide ((matchingServiceIDs opts pod).length ≠ 0))

def startGroup (pod : Pod) : PodGroup := let (key, kind, name) := determineGroupKey pod
  ⟨key, kind, name, pod.namespace_, [], [], 0, 0, 0⟩

def addToGroup (group : PodGroup) (pod : Pod) : PodGroup := let group := { group with
    pods := group.pods ++ [pod]
    serviceIDs := matchingServiceIDs opts pod ∪ group.serviceIDs }
  match getPodStatus pod.phase with
  | .healthy => { group with healthy := group.healthy + 1 }
  | .degraded => { group with degraded := group.degraded + 1 }
  | _ => { group with unhealthy := group.unhealthy + 1 }

theorem add_key (group : PodGroup) (pod : Pod) : (addToGroup opts group pod).key = group.key := by
  unfold addToGroup
  cases getPodStatus pod.phase <;> rfl

theorem add_pods (group : PodGroup) (pod : Pod) :
    (addToGroup opts group pod).pods = group.pods ++ [pod] := by
  unfold addToGroup
  cases getPodStatus pod.phase <;> rfl

theorem add_services (group : PodGroup) (pod : Pod) :
    (addToGroup opts group pod).serviceIDs = matchingServiceIDs opts pod ∪ group.serviceIDs := by
  unfold addToGroup
  cases getPodStatus pod.phase <;> rfl

def podFolding : Folding Pod PodGroup String where
  keyOf := groupKey
  key := PodGroup.key
  start := startGroup
  add := addToGroup opts
  key_start := fun _ => rfl
  key_add := add_key opts

def podsInScope (pods : List Pod) : List Pod := pods.filter (inScope opts)

def groupPods (pods : List Pod) : List PodGroup := (podFolding opts).gather (podsInScope opts pods)

end Groups

def getPodGroupID (group : PodGroup) : String :=
  "podgroup-" ++ String.ofList (group.key.toList.map fun c => if c = '/' then '-' else c)

def getPodID (pod : Pod) : String := "pod/" ++ pod.namespace_ ++ "/" ++ pod.name

def createPodNode (includeNodeName : Bool) (pod : Pod) : Node where
  id := getPodID pod
  kind := "Pod"
  name := pod.name
  status := getPodStatus pod.phase
  data := some (("namespace", .text pod.namespace_) :: pod.data ++
    if includeNodeName then [("nodeName", .text pod.nodeName)] else [])

def computeGroupStatus (group : PodGroup) : HealthStatus := if 0 < group.unhealthy then .unhealthy
  else if 0 < group.degraded then .degraded
  else .healthy

def createPodGroupNode (group : PodGroup) : Node where
  id := getPodGroupID group
  kind := "PodGroup"
  name := if group.groupName = "" then "pods" else group.groupName
  status := computeGroupStatus group
  data := some
    [ ("namespace", .text group.namespace_), ("ownerKind", .text group.groupKind),
      ("podCount", .other (toString group.pods.length)),
      ("healthy", .other (toString group.healthy)),
      ("degraded", .other (toString group.degraded)),
      ("unhealthy", .other (toString group.unhealthy))]

section Tier
variable (opts : BuildOptions)

def maxIndividualPods : Int := if opts.maxIndividualPods ≤ 0 then 5 else opts.maxIndividualPods

def individual (group : PodGroup) : Bool := decide ((group.pods.length : Int) ≤ maxIndividualPods opts)

/-- The nodes of one group, each with the pods it stands for. -/
def groupTier (includeNodeName : Bool) (group : PodGroup) : List (Node × List Pod) :=
  if individual opts group then
    group.pods.map fun pod => (createPodNode includeNodeName pod, [pod])
  else [(createPodGroupNode group, group.pods)]

/-- The pod tier of a graph whose groups the builder visits in the given order. -/
def podTier (includeNodeName : Bool) (order : List PodGroup) : List (Node × List Pod) :=
  order.flatMap (groupTier opts includeNodeName)

end Tier

/-- Pods of the cache: no two share namespace and name. -/
structure PodList where
  pods : List Pod
  distinct : pods.Pairwise fun p q => (p.namespace_, p.name) ≠ (q.namespace_, q.name)

/-- The groups are the classes of the key, their ids tell them apart, and the nodes made of them,
all with ids of their own, stand for every pod in scope once. -/
structure Faithful (opts : PodGroupingOptions) (buildOpts : BuildOptions) (includeNodeName : Bool)
    (pods : List Pod) (order : List PodGroup) : Prop where
  partition : Partition.Grouped (fun p q => groupKey p = groupKey q) (podsInScope opts pods)
    (order.map (·.pods))
  keyed : ∀ g ∈ order, ∀ p ∈ g.pods, groupKey p = g.key
  ids_apart : ∀ g ∈ order, ∀ h ∈ order, getPodGroupID g = getPodGroupID h → g.key = h.key
  never_pod : ∀ g ∈ order, ∀ p, getPodGroupID g ≠ getPodID p
  once : ((podTier buildOpts includeNodeName order).flatMap (·.2)).Perm (podsInScope opts pods)
  ids_distinct : ((podTier buildOpts includeNodeName order).map (·.1.id)).Nodup

/-- What a hyphen separates in a pod's namespace, group kind and group name, read on end. -/
def hyphenWords (pod : Pod) : List (List Char) :=
  [pod.namespace_.toList, (groupOf pod).1.toList, (groupOf pod).2.toList].flatMap
    (List.splitOn '-')

section Keys

theorem group_slashless (pod : Pod) : '/' ∉ (groupOf pod).1.toList ∧ '/' ∉ (groupOf pod).2.toList := by
  have labelled : ∀ key, '/' ∉ (label pod.labels key).toList := by
    intro key
    unfold label
    cases found : pod.labels.lookup key with
    | none => simp
    | some value =>
      obtain ⟨before, after, whole, -⟩ := lookup_eq_some_iff.mp found
      exact pod.labels_slashless (key, value) (by rw [whole]; simp)
  have app : '/' ∉ "app".toList := by decide
  have standalone : '/' ∉ "standalone".toList := by decide
  unfold groupOf
  split
  next => exact ⟨app, labelled _⟩
  next =>
    split
    next => exact ⟨app, labelled _⟩
    next =>
      split
      next ref found => exact pod.owners_slashless ref (mem_of_find?_eq_some found)
      next => exact ⟨standalone, pod.name_slashless⟩

theorem key_chars (pod : Pod) : (groupKey pod).toList =
    join '/' [pod.namespace_.toList, (groupOf pod).1.toList, (groupOf pod).2.toList] := by
  simp [groupKey, determineGroupKey, join, intercalate]

theorem map_join {f : Char → Char} {sep : Char} (pieces : List (List Char)) :
    (join sep pieces).map f = join (f sep) (pieces.map (map f)) := by
  induction pieces with
  | nil => rfl
  | cons piece rest ih =>
    cases rest with
    | nil => simp [join]
    | cons next more =>
      simp only [join, map_cons, intercalate_cons_cons] at ih ⊢
      simp [ih]

/-- With its slashes turned into hyphens a key shows nothing but its words. -/
theorem dashed_iff (p q : Pod) : ((groupKey p).toList.map fun c => if c = '/' then '-' else c) =
      ((groupKey q).toList.map fun c => if c = '/' then '-' else c) ↔
    hyphenWords p = hyphenWords q := by
  have plain : ∀ text : String, '/' ∉ text.toList →
      (text.toList.map fun c => if c = '/' then '-' else c) = text.toList := by
    intro text absent
    conv_rhs => rw [← map_id text.toList]
    apply map_congr_left
    intro c member
    have other : c ≠ '/' := fun same => absent (same ▸ member)
    exact if_neg other
  have dashed : ∀ pod : Pod, ((groupKey pod).toList.map fun c => if c = '/' then '-' else c) =
      join '-' [pod.namespace_.toList, (groupOf pod).1.toList, (groupOf pod).2.toList] := by
    intro pod
    rw [key_chars, map_join]
    simp only [map_cons, map_nil, if_true, plain _ pod.namespace_slashless,
      plain _ (group_slashless pod).1, plain _ (group_slashless pod).2]
  rw [dashed, dashed, join_eq_iff (cons_ne_nil _ _) (cons_ne_nil _ _)]
  rfl

theorem group_id_iff {g h : PodGroup} (own : groupKey p = g.key) (own' : groupKey q = h.key) :
    getPodGroupID g = getPodGroupID h ↔ hyphenWords p = hyphenWords q := by
  rw [← dashed_iff, own, own', getPodGroupID, getPodGroupID, String.append_right_inj, String.ofList_inj]

theorem pod_id_inj (same : getPodID p = getPodID q) : (p.namespace_, p.name) = (q.namespace_, q.name) := by
  have chars := congrArg String.toList same
  have slash : "/".toList = ['/'] := rfl
  simp only [getPodID, String.toList_append, append_assoc, append_cancel_left_eq, slash,
    singleton_append] at chars
  obtain ⟨namespaces, names⟩ := sep_inj p.namespace_slashless q.namespace_slashless chars
  rw [String.toList_inj.mp namespaces, String.toList_inj.mp names]

theorem group_id_not_pod (g : PodGroup) (p : Pod) : getPodGroupID g ≠ getPodID p := by
  intro same
  have chars := congrArg String.toList same
  simp [getPodGroupID, getPodID] at chars

end Keys

section Grouped
variable (opts : PodGroupingOptions)

theorem members_of_key (member : g ∈ groupPods opts pods) :
    g.pods = (podsInScope opts pods).filter fun p => decide (groupKey p = g.key) :=
  gather_members (F := podFolding opts) (f := PodGroup.pods) (fun _ => rfl) (add_pods opts)
    member

theorem groups_partition (pods : List Pod) :
    Partition.Grouped (fun p q => groupKey p = groupKey q) (podsInScope opts pods)
      ((groupPods opts pods).map (·.pods)) :=
  gather_partition (F := podFolding opts) (f := PodGroup.pods) (fun _ => rfl) (add_pods opts)
    (podsInScope opts pods)

theorem groups_keys_distinct (pods : List Pod) : ((groupPods opts pods).map (·.key)).Nodup :=
  (gather_spec (F := podFolding opts) (podsInScope opts pods)).1

theorem grouped_own_key (member : g ∈ groupPods opts pods)
    {p : Pod} (inside : p ∈ g.pods) : groupKey p = g.key := by
  rw [members_of_key opts member] at inside
  exact of_decide_eq_true (mem_filter.mp inside).2

theorem grouped_in_scope (member : g ∈ groupPods opts pods)
    {p : Pod} (inside : p ∈ g.pods) : p ∈ podsInScope opts pods := by
  rw [members_of_key opts member] at inside
  exact (mem_filter.mp inside).1

theorem grouped_inhabited (member : g ∈ groupPods opts pods) : ∃ p, p ∈ g.pods := by
  apply exists_mem_of_ne_nil
  intro empty
  exact (groups_partition opts pods).inhabited (mem_map.mpr ⟨g, member, empty⟩)

theorem grouped_somewhere {p : Pod} (shown : p ∈ podsInScope opts pods) :
    ∃ g ∈ groupPods opts pods, p ∈ g.pods := by
  have inside := (groups_partition opts pods).all.mem_iff.mpr shown
  obtain ⟨members, listed, held⟩ := mem_flatten.mp inside
  obtain ⟨g, member, rfl⟩ := mem_map.mp listed
  exact ⟨g, member, held⟩

end Grouped

section Nodes
variable {opts : PodGroupingOptions} {buildOpts : BuildOptions} {includeNodeName : Bool}

theorem tier_pods (order : List PodGroup) :
    (podTier buildOpts includeNodeName order).flatMap (·.2) = (order.map (·.pods)).flatten := by
  have one : ∀ g, (groupTier buildOpts includeNodeName g).flatMap (·.2) = g.pods := by
    intro g
    unfold groupTier
    split
    next => simp [flatMap_map]
    next => simp
  rw [podTier, flatMap_assoc, ← flatMap_def]
  exact flatMap_congr fun g _ => one g

/-- The ids a group brings into the graph. -/
theorem mem_tier_ids {id : String}
    (made : id ∈ (groupTier buildOpts includeNodeName g).map (·.1.id)) :
    (∃ p ∈ g.pods, id = getPodID p) ∨ id = getPodGroupID g := by
  unfold groupTier at made
  split at made
  next =>
    rw [map_map, mem_map] at made
    obtain ⟨p, inside, rfl⟩ := made
    exact .inl ⟨p, inside, rfl⟩
  next => exact .inr (mem_singleton.mp made)

theorem same_pod {pods : PodList} (listed : p ∈ pods.pods) (listed' : q ∈ pods.pods)
    (same : getPodID p = getPodID q) : p = q := by
  by_contra differ
  have symm : Std.Symm fun p q : Pod => (p.namespace_, p.name) ≠ (q.namespace_, q.name) :=
    ⟨fun _ _ other => Ne.symm other⟩
  exact pods.distinct.forall listed listed' differ (pod_id_inj same)

theorem group_ids_nodup {pods : PodList} (member : g ∈ groupPods opts pods.pods) :
    ((groupTier buildOpts includeNodeName g).map (·.1.id)).Nodup := by
  unfold groupTier
  split
  next =>
    rw [map_map, List.Nodup, pairwise_map]
    have inside : g.pods.Sublist pods.pods := by
      rw [members_of_key opts member]
      exact filter_sublist.trans filter_sublist
    exact (pods.distinct.sublist inside).imp fun apart same => apart (pod_id_inj same)
  next => exact nodup_singleton _

theorem tier_ids_nodup {pods : PodList} {order : List PodGroup}
    (perm : order.Perm (groupPods opts pods.pods))
    (ids_apart : ∀ g ∈ order, ∀ h ∈ order, getPodGroupID g = getPodGroupID h → g.key = h.key) :
    ((podTier buildOpts includeNodeName order).map (·.1.id)).Nodup := by
  have keys : order.Pairwise fun g h => g.key ≠ h.key := by
    rw [← pairwise_map (f := PodGroup.key)]
    exact (perm.map _).nodup_iff.mpr (groups_keys_distinct opts pods.pods)
  rw [podTier, map_flatMap, nodup_flatMap]
  refine ⟨fun g listed => group_ids_nodup (perm.mem_iff.mp listed), ?_⟩
  refine keys.imp_of_mem fun {g h} listed listed' differ => ?_
  intro id made made'
  have member := perm.mem_iff.mp listed
  have member' := perm.mem_iff.mp listed'
  rcases mem_tier_ids made with ⟨p, inside, rfl⟩ | rfl
  · rcases mem_tier_ids made' with ⟨q, inside', same⟩ | same
    · have scope := (mem_filter.mp (grouped_in_scope opts member inside)).1
      have scope' := (mem_filter.mp (grouped_in_scope opts member' inside')).1
      obtain rfl := same_pod scope scope' same
      exact differ
        ((grouped_own_key opts member inside).symm.trans (grouped_own_key opts member' inside'))
    · exact group_id_not_pod h p same.symm
  · rcases mem_tier_ids made' with ⟨q, _, same⟩ | same
    · exact group_id_not_pod g q same
    · exact differ (ids_apart g listed h listed' same)

/-- The ids tell the groups apart exactly when no two pods with different keys have the same
words. -/
theorem ids_apart_iff {order : List PodGroup} (perm : order.Perm (groupPods opts pods)) :
    (∀ g ∈ order, ∀ h ∈ order, getPodGroupID g = getPodGroupID h → g.key = h.key) ↔
      ∀ p ∈ podsInScope opts pods, ∀ q ∈ podsInScope opts pods,
        hyphenWords p = hyphenWords q → groupKey p = groupKey q := by
  constructor
  · intro apart p shown q shown' words
    obtain ⟨g, member, inside⟩ := grouped_somewhere opts shown
    obtain ⟨h, member', inside'⟩ := grouped_somewhere opts shown'
    have own := grouped_own_key opts member inside
    have own' := grouped_own_key opts member' inside'
    rw [own, own']
    exact apart g (perm.mem_iff.mpr member) h (perm.mem_iff.mpr member')
      ((group_id_iff own own').mpr words)
  · intro clear g listed h listed' same
    have member := perm.mem_iff.mp listed
    have member' := perm.mem_iff.mp listed'
    obtain ⟨p, inside⟩ := grouped_inhabited opts member
    obtain ⟨q, inside'⟩ := grouped_inhabited opts member'
    have own := grouped_own_key opts member inside
    have own' := grouped_own_key opts member' inside'
    rw [← own, ← own']
    exact clear p (grouped_in_scope opts member inside) q (grouped_in_scope opts member' inside')
      ((group_id_iff own own').mp same)

/-- For every order in which the builder visits the groups: pods are neither merged nor lost, and
ids are distinct, exactly when no two pods in scope with different group keys read the same once
slashes are hyphens. -/
theorem pod_groups_faithful_iff (opts : PodGroupingOptions) (buildOpts : BuildOptions)
    (includeNodeName : Bool) (pods : PodList) (order : List PodGroup)
    (perm : order.Perm (groupPods opts pods.pods)) :
    Faithful opts buildOpts includeNodeName pods.pods order ↔
      ∀ p ∈ podsInScope opts pods.pods, ∀ q ∈ podsInScope opts pods.pods,
        hyphenWords p = hyphenWords q → groupKey p = groupKey q := by
  rw [← ids_apart_iff perm]
  constructor
  · exact fun faithful => faithful.ids_apart
  · intro apart
    have split := (groups_partition opts pods.pods).perm (fun _ _ => Eq.symm) (perm.map _)
    have pods_once : (podTier buildOpts includeNodeName order).flatMap (·.2) =
        (order.map (·.pods)).flatten := tier_pods order
    exact {
      partition := split
      keyed := fun g listed p => grouped_own_key opts (perm.mem_iff.mp listed)
      ids_apart := apart
      never_pod := fun g _ p => group_id_not_pod g p
      once := pods_once ▸ split.all
      ids_distinct := tier_ids_nodup perm apart }

end Nodes

section Collision

theorem plain_namespace : '/' ∉ "a".toList ∧ '/' ∉ "a-app-b".toList := by decide

theorem plain_labels (app : String) (plain : '/' ∉ app.toList) :
    ∀ label ∈ [("app", app)], '/' ∉ label.2.toList := by
  simpa using plain

theorem plain_apps : '/' ∉ "b-app-c".toList ∧ '/' ∉ "c".toList := by decide

theorem plain_names : '/' ∉ "web-0".toList ∧ '/' ∉ "web-1".toList := by decide

theorem no_owners : ∀ ref ∈ ([] : List OwnerReference), '/' ∉ ref.kind.toList ∧ '/' ∉ ref.name.toList := by
  simp

def nearPod (name : String) (plain : '/' ∉ name.toList) : Pod :=
  ⟨"a", name, [("app", "b-app-c")], [], "Running", "n1", [], plain_namespace.1, plain,
    plain_labels "b-app-c" plain_apps.1, no_owners⟩

def farPod (name : String) (plain : '/' ∉ name.toList) : Pod :=
  ⟨"a-app-b", name, [("app", "c")], [], "Running", "n1", [], plain_namespace.2, plain,
    plain_labels "c" plain_apps.2, no_owners⟩

def collidingPods : List Pod := [ nearPod "web-0" plain_names.1, nearPod "web-1" plain_names.2,
    farPod "web-0" plain_names.1, farPod "web-1" plain_names.2]

def everything : PodGroupingOptions := ⟨none, false, none, fun _ => none⟩

def groupedView : BuildOptions := { defaultBuildOptions with maxIndividualPods := 1 }

/-- App b-app-c of namespace a and app c of namespace a-app-b become two nodes of one id. -/
theorem hyphens_merge_ids : (podTier groupedView true (groupPods everything collidingPods)).map (·.1.id) =
        ["podgroup-a-app-b-app-c", "podgroup-a-app-b-app-c"] ∧
      ¬ Faithful everything groupedView true collidingPods
        (groupPods everything collidingPods) := by
  have ids : (podTier groupedView true (groupPods everything collidingPods)).map (·.1.id) =
      ["podgroup-a-app-b-app-c", "podgroup-a-app-b-app-c"] := by decide +kernel
  refine ⟨ids, fun faithful => ?_⟩
  have distinct := faithful.ids_distinct
  rw [ids] at distinct
  exact absurd distinct (by decide)

def nearPods : List Pod := [nearPod "web-0" plain_names.1, nearPod "web-1" plain_names.2]

theorem near_distinct : nearPods.Pairwise fun p q => (p.namespace_, p.name) ≠ (q.namespace_, q.name) := by
  decide

theorem near_pods_faithful :
    Faithful everything groupedView true nearPods (groupPods everything nearPods) := by
  refine (pod_groups_faithful_iff everything groupedView true ⟨nearPods, near_distinct⟩ _
    (List.Perm.refl _)).mpr fun p shown q shown' _ => ?_
  have one : ∀ p ∈ nearPods, groupKey p = "a/app/b-app-c" := by decide
  rw [one p (mem_filter.mp shown).1, one q (mem_filter.mp shown').1]

end Collision
end PodGrouping
