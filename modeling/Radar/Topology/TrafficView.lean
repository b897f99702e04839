import Radar.Topology.PodGrouping

/- pkg/topology/builder.go: the traffic view's services and the pod tier below them, and whether its
   edges and summaries are what the services' selectors say. -/
namespace TrafficView
open Topology PodGrouping GoText List
variable {s : Service} {p : Pod}

/-- What the pod tier is built from; `referenced` holds the keys of the services some ingress, route
or virtual service leads to. -/
structure Cluster where
  services : List Service
  podList : PodList
  referenced : List String
  services_distinct : services.Pairwise fun s t => (s.namespace_, s.name) ≠ (t.namespace_, t.name)

structure PodSummary where
  total : Nat
  healthy : Nat
  degraded : Nat
  unhealthy : Nat
  deriving DecidableEq, Repr

/-- A node's `podSummary` stands beside it. -/
structure View where
  nodes : List (Node × Option PodSummary)
  edges : List Edge

def svcKey (svc : Service) : String := svc.namespace_ ++ "/" ++ svc.name

def serviceID (svc : Service) : String := "service/" ++ svc.namespace_ ++ "/" ++ svc.name

section Build
variable (cluster : Cluster) (opts : BuildOptions)

def podsByNS (ns : String) : List Pod := cluster.podList.pods.filter fun pod => pod.namespace_ == ns

def hasPods (svc : Service) : Bool :=
  (podsByNS cluster svc.namespace_).any fun pod => matchesSelector pod.labels svc.selector

def servicesToInclude : List Service := cluster.services.filter fun svc =>
    opts.matchesNamespaceFilter svc.namespace_ &&
      (cluster.referenced.contains (svcKey svc) || hasPods cluster svc)

def servicesByNS (ns : String) : List (String × Service) :=
  ((servicesToInclude cluster opts).filter fun svc => svc.namespace_ == ns).map fun svc => (svcKey svc, svc)

def serviceIDs (key : String) : Option String :=
  ((servicesToInclude cluster opts).find? fun svc => svcKey svc == key).map serviceID

def groupingOptions : PodGroupingOptions :=
  ⟨opts.namespaces, true, some (servicesByNS cluster opts), serviceIDs cluster opts⟩

def serviceNode (svc : Service) : Node where
  id := serviceID svc
  kind := "Service"
  name := svc.name
  status := .healthy
  data := some [("namespace", .text svc.namespace_)]

def addPodHealth (summaries : String → Option PodSummary) (nodeID : String) (pod : Pod) :
    String → Option PodSummary := fun id =>
  if id = nodeID then
    let s := (summaries nodeID).getD ⟨0, 0, 0, 0⟩
    let s := { s with total := s.total + 1 }
    match getPodStatus pod.phase with
    | .healthy => some { s with healthy := s.healthy + 1 }
    | .degraded => some { s with degraded := s.degraded + 1 }
    | _ => some { s with unhealthy := s.unhealthy + 1 }
  else summaries id

/-- The pods of a group count for every service of the group. -/
def addGroupHealth (summaries : String → Option PodSummary) (group : PodGroup) :
    String → Option PodSummary :=
  group.serviceIDs.foldl (fun summaries svcID =>
    group.pods.foldl (fun summaries pod => addPodHealth summaries svcID pod) summaries) summaries

def podSummaries (order : List PodGroup) : String → Option PodSummary :=
  order.foldl addGroupHealth fun _ => none

def stampPodSummaries (nodes : List Node) (summaries : String → Option PodSummary) :
    List (Node × Option PodSummary) :=
  nodes.map fun node => (node, summaries node.id)

def routesTo (svcID targetID : String) : Edge :=
  ⟨svcID ++ "-to-" ++ targetID, svcID, targetID, .routesTo, "", "", ""⟩

def groupEdges (group : PodGroup) : List Edge := if individual opts group then
    group.pods.flatMap fun pod => group.serviceIDs.map fun svcID => routesTo svcID (getPodID pod)
  else group.serviceIDs.map fun svcID => routesTo svcID (getPodGroupID group)

/-- The services and the pod tier of the view, for one order of visiting the groups. -/
def buildTrafficTopology (order : List PodGroup) : View :=
  let nodes := (servicesToInclude cluster opts).map serviceNode
  if opts.summaryMode then ⟨stampPodSummaries nodes (podSummaries order), []⟩
  else
    ⟨(nodes ++ (podTier opts false order).map (·.1)).map fun node => (node, none),
      order.flatMap (groupEdges opts)⟩

end Build

/-- The selector relation of Kubernetes. -/
def Selects (svc : Service) (pod : Pod) : Prop := svc.selector ≠ [] ∧ svc.namespace_ = pod.namespace_ ∧
    LabelSelector.Selector.matches_ ⟨svc.selector, []⟩ (fun key => pod.labels.lookup key) = true

instance (svc : Service) (pod : Pod) : Decidable (Selects svc pod) := by
  unfold Selects
  infer_instance

def View.shows (view : View) (pod : Pod) : Prop := ∃ node ∈ view.nodes, node.1.id = getPodID pod

def View.hasEdge (view : View) (svc : Service) (pod : Pod) : Prop :=
  ∃ e ∈ view.edges, e.source = serviceID svc ∧ e.target = getPodID pod

/-- The total at a service's node; without a node or a summary there is nothing to count. -/
def View.summaryTotal (view : View) (svc : Service) : Nat :=
  ((view.nodes.find? fun node => node.1.id == serviceID svc).bind (·.2)).elim 0 (·.total)

structure FollowsSelectors (cluster : Cluster) (opts : BuildOptions) (view : View) : Prop where
  edges : opts.summaryMode = false → ∀ svc ∈ cluster.services, ∀ pod ∈ cluster.podList.pods,
    view.shows pod → (view.hasEdge svc pod ↔ Selects svc pod)
  totals : opts.summaryMode = true → ∀ svc ∈ cluster.services, view.summaryTotal svc =
    (cluster.podList.pods.filter fun pod =>
      opts.matchesNamespaceFilter pod.namespace_ && decide (Selects svc pod)).length

/-- The code's own relation, in which an empty value also stands for an absent label. -/
def routes (svc : Service) (pod : Pod) : Bool :=
  svc.namespace_ == pod.namespace_ && matchesSelector pod.labels svc.selector

/-- The pods the pod tier is made of. -/
def routed (cluster : Cluster) (opts : BuildOptions) (pod : Pod) : Bool :=
  opts.matchesNamespaceFilter pod.namespace_ && cluster.services.any fun svc => routes svc pod

/-- The pod is folded into a summary, or shown on its own because its group is small. -/
def Counted (cluster : Cluster) (opts : BuildOptions) (pod : Pod) : Prop := opts.summaryMode = true ∨
    ((cluster.podList.pods.filter fun other =>
      routed cluster opts other && decide (groupKey other = groupKey pod)).length : Int) ≤
        maxIndividualPods opts

section Services
variable {cluster : Cluster} {opts : BuildOptions} {s t : Service}

theorem key_inj (same : svcKey s = svcKey t) : (s.namespace_, s.name) = (t.namespace_, t.name) := by
  have chars := congrArg String.toList same
  have slash : "/".toList = ['/'] := rfl
  simp only [svcKey, String.toList_append, append_assoc, slash, singleton_append] at chars
  obtain ⟨namespaces, names⟩ := sep_inj s.slashless t.slashless chars
  rw [String.toList_inj.mp namespaces, String.toList_inj.mp names]

theorem id_of_key (s : Service) : serviceID s = "service/" ++ svcKey s := by
  rw [serviceID, svcKey, String.append_assoc, String.append_assoc, String.append_assoc]

theorem same_service (listed : s ∈ cluster.services)
    (listed' : t ∈ cluster.services) (same : svcKey s = svcKey t) : s = t := by
  by_contra differ
  have symm : Std.Symm fun s t : Service => (s.namespace_, s.name) ≠ (t.namespace_, t.name) :=
    ⟨fun _ _ other => Ne.symm other⟩
  exact cluster.services_distinct.forall listed listed' differ (key_inj same)

theorem id_inj (listed : s ∈ cluster.services) (listed' : t ∈ cluster.services)
    (same : serviceID s = serviceID t) : s = t := by
  rw [id_of_key, id_of_key, String.append_right_inj] at same
  exact same_service listed listed' same

theorem included_listed (included : s ∈ servicesToInclude cluster opts) : s ∈ cluster.services :=
  (mem_filter.mp included).1

/-- A service with a pod of its own is in the view. -/
theorem routes_included (listed : s ∈ cluster.services)
    (held : p ∈ cluster.podList.pods) (admitted : opts.matchesNamespaceFilter p.namespace_ = true)
    (route : routes s p = true) : s ∈ servicesToInclude cluster opts := by
  obtain ⟨own, selects⟩ := Bool.and_eq_true_iff.mp route
  have own := eq_of_beq own
  refine mem_filter.mpr ⟨listed, ?_⟩
  have pods : hasPods cluster s = true := by
    refine any_eq_true.mpr ⟨p, ?_, selects⟩
    exact mem_filter.mpr ⟨held, beq_iff_eq.mpr own.symm⟩
  rw [own, admitted, pods, Bool.or_true]
  rfl

theorem included_id (included : s ∈ servicesToInclude cluster opts) :
    serviceIDs cluster opts (svcKey s) = some (serviceID s) := by
  unfold serviceIDs
  cases found : (servicesToInclude cluster opts).find? fun svc => svcKey svc == svcKey s with
  | none =>
    have absent := find?_eq_none.mp found s included
    exact absurd (beq_self_eq_true (svcKey s)) absent
  | some t =>
    have same := find?_some found
    rw [beq_iff_eq] at same
    have listed := included_listed (mem_of_find?_eq_some found)
    rw [same_service listed (included_listed included) same]
    rfl

/-- A pod's service ids are those of the services that route to it. -/
theorem mem_matching_iff (held : p ∈ cluster.podList.pods)
    (admitted : opts.matchesNamespaceFilter p.namespace_ = true) (id : String) :
    id ∈ matchingServiceIDs (groupingOptions cluster opts) p ↔
      ∃ s ∈ cluster.services, routes s p = true ∧ id = serviceID s := by
  simp only [matchingServiceIDs, groupingOptions, servicesByNS, mem_filterMap, mem_map,
    mem_filter, beq_iff_eq]
  constructor
  · rintro ⟨entry, ⟨s, ⟨included, own⟩, rfl⟩, found⟩
    split at found
    next selects =>
      rw [included_id included] at found
      refine ⟨s, included_listed included, ?_, (Option.some.inj found).symm⟩
      rw [routes, beq_iff_eq.mpr own]
      exact selects
    next => exact absurd found (by simp)
  · rintro ⟨s, listed, route, rfl⟩
    have included := routes_included listed held admitted route
    obtain ⟨own, selects⟩ := Bool.and_eq_true_iff.mp route
    refine ⟨(svcKey s, s), ⟨s, ⟨included, eq_of_beq own⟩, rfl⟩, ?_⟩
    rw [if_pos selects, included_id included]

theorem scope_is_routed (held : p ∈ cluster.podList.pods) :
    inScope (groupingOptions cluster opts) p = routed cluster opts p := by
  rw [Bool.eq_iff_iff, inScope, routed, Bool.and_eq_true, Bool.and_eq_true]
  refine and_congr_right fun admitted => ?_
  have some_service : matchingServiceIDs (groupingOptions cluster opts) p ≠ [] ↔
      ∃ s ∈ cluster.services, routes s p = true := by
    constructor
    · intro nonempty
      obtain ⟨id, matched⟩ := exists_mem_of_ne_nil _ nonempty
      obtain ⟨s, listed, route, -⟩ := (mem_matching_iff held admitted id).mp matched
      exact ⟨s, listed, route⟩
    · rintro ⟨s, listed, route⟩
      exact ne_nil_of_mem ((mem_matching_iff held admitted _).mpr ⟨s, listed, route, rfl⟩)
  rw [any_eq_true, ← some_service]
  simp [groupingOptions]

theorem scope_filter : podsInScope (groupingOptions cluster opts) cluster.podList.pods =
    cluster.podList.pods.filter (routed cluster opts) :=
  filter_congr fun _ held => scope_is_routed held

theorem selects_routes (selects : Selects s p) : routes s p = true := by
  obtain ⟨nonempty, own, matched⟩ := selects
  rw [routes, Bool.and_eq_true, beq_iff_eq]
  refine ⟨own, ?_⟩
  rw [matchesSelector, if_neg (by simpa using nonempty), all_eq_true]
  intro pair member
  have equal := all_eq_true.mp (Bool.and_eq_true_iff.mp matched).1 pair member
  have found : p.labels.lookup pair.1 = some pair.2 := eq_of_beq equal
  rw [label, found]
  exact beq_self_eq_true _

theorem routes_routed (listed : s ∈ cluster.services)
    (admitted : opts.matchesNamespaceFilter p.namespace_ = true) (route : routes s p = true) :
    routed cluster opts p = true := by
  rw [routed, admitted, Bool.true_and]
  exact any_eq_true.mpr ⟨s, listed, route⟩

end Services

section Groups
variable {cluster : Cluster} {opts : BuildOptions} {order : List PodGroup} {g : PodGroup}

theorem services_once (member : g ∈ groupPods (groupingOptions cluster opts) cluster.podList.pods) :
    g.serviceIDs.Nodup := by
  have kept : ∀ (pods : List Pod) (g : PodGroup), g.serviceIDs.Nodup →
      (pods.foldl (addToGroup (groupingOptions cluster opts)) g).serviceIDs.Nodup := by
    intro pods
    induction pods with
    | nil => exact fun g once => once
    | cons pod rest ih =>
      intro g once
      refine ih _ ?_
      rw [add_services]
      exact once.union _
  obtain ⟨first, rest, -, whole⟩ := (KeyedFold.gather_spec _).2.2 g member
  rw [congrArg PodGroup.serviceIDs whole]
  exact kept _ _ nodup_nil

/-- What a group holds of a pod of the view. -/
theorem grouped_pod (member : g ∈ groupPods (groupingOptions cluster opts) cluster.podList.pods)
    (key : groupKey p = g.key) :
    p ∈ g.pods ↔ p ∈ cluster.podList.pods ∧ routed cluster opts p = true := by
  rw [members_of_key _ member, scope_filter, mem_filter, mem_filter]
  simp [key]

theorem group_reached_iff (member : g ∈ groupPods (groupingOptions cluster opts) cluster.podList.pods)
    (listed : s ∈ cluster.services) :
    serviceID s ∈ g.serviceIDs ↔ ∃ p ∈ cluster.podList.pods,
      opts.matchesNamespaceFilter p.namespace_ = true ∧ groupKey p = g.key ∧ routes s p = true := by
  have parts := KeyedFold.gather_parts (F := podFolding (groupingOptions cluster opts))
    (f := PodGroup.serviceIDs) (fun _ => rfl) (add_services (groupingOptions cluster opts))
    member (serviceID s)
  rw [parts, scope_filter]
  constructor
  · rintro ⟨p, inside, key, matched⟩
    obtain ⟨held, shown⟩ := mem_filter.mp inside
    have admitted := (Bool.and_eq_true_iff.mp shown).1
    obtain ⟨t, listed', route, same⟩ := (mem_matching_iff held admitted _).mp matched
    obtain rfl := id_inj listed listed' same
    exact ⟨p, held, admitted, key, route⟩
  · rintro ⟨p, held, admitted, key, route⟩
    have shown := routes_routed listed admitted route
    refine ⟨p, mem_filter.mpr ⟨held, shown⟩, key, ?_⟩
    exact (mem_matching_iff held admitted _).mpr ⟨s, listed, route, rfl⟩

/-- Some pod of the pod's group brings the service in. -/
def Reached (cluster : Cluster) (opts : BuildOptions) (svc : Service) (pod : Pod) : Prop :=
  ∃ other ∈ cluster.podList.pods, opts.matchesNamespaceFilter other.namespace_ = true ∧
    groupKey other = groupKey pod ∧ routes svc other = true

variable (perm : order.Perm (groupPods (groupingOptions cluster opts) cluster.podList.pods))
include perm

theorem small_group_iff (held : p ∈ cluster.podList.pods) :
    (∃ g ∈ order, individual opts g = true ∧ p ∈ g.pods) ↔ routed cluster opts p = true ∧
      ((cluster.podList.pods.filter fun other =>
        routed cluster opts other && decide (groupKey other = groupKey p)).length : Int) ≤
          maxIndividualPods opts := by
  have size : ∀ g ∈ order, p ∈ g.pods → g.pods = cluster.podList.pods.filter fun other =>
      routed cluster opts other && decide (groupKey other = groupKey p) := by
    intro g listed inside
    have member := perm.mem_iff.mp listed
    rw [members_of_key _ member, scope_filter, filter_filter, grouped_own_key _ member inside]
    exact filter_congr fun _ _ => Bool.and_comm _ _
  constructor
  · rintro ⟨g, listed, small, inside⟩
    have member := perm.mem_iff.mp listed
    refine ⟨((grouped_pod member (grouped_own_key _ member inside)).mp inside).2, ?_⟩
    rw [← size g listed inside]
    exact of_decide_eq_true small
  · rintro ⟨shown, small⟩
    have scope : p ∈ podsInScope (groupingOptions cluster opts) cluster.podList.pods := by
      rw [scope_filter]
      exact mem_filter.mpr ⟨held, shown⟩
    obtain ⟨g, member, inside⟩ := grouped_somewhere _ scope
    have listed := perm.mem_iff.mpr member
    rw [← size g listed inside] at small
    exact ⟨g, listed, decide_eq_true small, inside⟩

theorem shows_iff (full : opts.summaryMode = false) (held : p ∈ cluster.podList.pods) :
    (buildTrafficTopology cluster opts order).shows p ↔
      ∃ g ∈ order, individual opts g = true ∧ p ∈ g.pods := by
  unfold buildTrafficTopology View.shows
  rw [full]
  simp only [Bool.false_eq_true, if_false, mem_map, mem_append, podTier, mem_flatMap]
  constructor
  · rintro ⟨_, ⟨node, ⟨s, included, rfl⟩ | ⟨made, ⟨g, listed, tier⟩, rfl⟩, rfl⟩, same⟩
    · have chars := congrArg String.toList same
      simp [serviceNode, serviceID, getPodID] at chars
    · unfold groupTier at tier
      split at tier
      next small =>
        obtain ⟨q, inside, rfl⟩ := mem_map.mp tier
        have scope := grouped_in_scope _ (perm.mem_iff.mp listed) inside
        obtain rfl := same_pod (mem_filter.mp scope).1 held same
        exact ⟨g, listed, small, inside⟩
      next =>
        obtain rfl := mem_singleton.mp tier
        exact absurd same (group_id_not_pod g p)
  · rintro ⟨g, listed, small, inside⟩
    refine ⟨_, ⟨_, .inr ⟨(createPodNode false p, [p]), ⟨g, listed, ?_⟩, rfl⟩, rfl⟩, rfl⟩
    rw [groupTier, if_pos small]
    exact mem_map.mpr ⟨p, inside, rfl⟩

theorem edge_iff (full : opts.summaryMode = false) (listed : s ∈ cluster.services)
    (held : p ∈ cluster.podList.pods)
    (shown : (buildTrafficTopology cluster opts order).shows p) :
    (buildTrafficTopology cluster opts order).hasEdge s p ↔ Reached cluster opts s p := by
  obtain ⟨own, visited, small, inside⟩ := (shows_iff perm full held).mp shown
  have member := perm.mem_iff.mp visited
  have key := grouped_own_key _ member inside
  have reached : Reached cluster opts s p ↔ serviceID s ∈ own.serviceIDs := by
    rw [group_reached_iff member listed, Reached, key]
  rw [reached]
  unfold buildTrafficTopology View.hasEdge
  rw [full]
  simp only [Bool.false_eq_true, if_false, mem_flatMap]
  constructor
  · rintro ⟨e, ⟨g, visited', made⟩, source, target⟩
    have member' := perm.mem_iff.mp visited'
    unfold groupEdges at made
    split at made
    next =>
      simp only [mem_flatMap, mem_map] at made
      obtain ⟨q, inside', id, reaches, rfl⟩ := made
      have scope := grouped_in_scope _ member' inside'
      obtain rfl := same_pod (mem_filter.mp scope).1 held target
      obtain rfl : id = serviceID s := source
      rw [group_reached_iff member listed, ← key, grouped_own_key _ member' inside',
        ← group_reached_iff member' listed]
      exact reaches
    next =>
      obtain ⟨id, -, rfl⟩ := mem_map.mp made
      exact absurd target (group_id_not_pod g p)
  · intro reaches
    refine ⟨routesTo (serviceID s) (getPodID p), ⟨own, visited, ?_⟩, rfl, rfl⟩
    rw [groupEdges, if_pos small]
    exact mem_flatMap.mpr ⟨p, inside, mem_map.mpr ⟨serviceID s, reaches, rfl⟩⟩

end Groups

section Totals

def healthTotal (summaries : String → Option PodSummary) (id : String) : Nat :=
  (summaries id).elim 0 (·.total)

theorem pod_counts_once (summaries : String → Option PodSummary) (nodeID : String) (pod : Pod)
    (id : String) : healthTotal (addPodHealth summaries nodeID pod) id =
      healthTotal summaries id + if id = nodeID then 1 else 0 := by
  unfold healthTotal addPodHealth
  by_cases own : id = nodeID
  · subst own
    cases summaries id <;> cases getPodStatus pod.phase <;> simp
  · simp [own]

theorem pods_count (pods : List Pod) (summaries : String → Option PodSummary)
    (nodeID id : String) :
    healthTotal (pods.foldl (fun summaries pod => addPodHealth summaries nodeID pod) summaries) id =
      healthTotal summaries id + if id = nodeID then pods.length else 0 := by
  induction pods generalizing summaries with
  | nil => simp
  | cons pod rest ih =>
    rw [foldl_cons, ih, pod_counts_once, length_cons]
    split <;> omega

theorem group_counts {group : PodGroup} (once : group.serviceIDs.Nodup)
    (summaries : String → Option PodSummary) (id : String) :
    healthTotal (addGroupHealth summaries group) id =
      healthTotal summaries id + if id ∈ group.serviceIDs then group.pods.length else 0 := by
  unfold addGroupHealth
  generalize group.serviceIDs = ids at once ⊢
  induction ids generalizing summaries with
  | nil => simp
  | cons first rest ih =>
    obtain ⟨fresh, once⟩ := nodup_cons.mp once
    rw [foldl_cons, ih _ once, pods_count]
    by_cases own : id = first
    · subst own
      simp [fresh]
    · simp [own]

/-- Over all groups a service counts the pods of those it reaches. -/
theorem summaries_count {order : List PodGroup} (once : ∀ g ∈ order, g.serviceIDs.Nodup)
    {id : String} {reached : Pod → Bool}
    (whole : ∀ g ∈ order, ∀ p ∈ g.pods, reached p = true ↔ id ∈ g.serviceIDs) :
    healthTotal (podSummaries order) id = (((order.map (·.pods)).flatten).filter reached).length := by
  have group : ∀ g ∈ order, (g.pods.filter reached).length =
      if id ∈ g.serviceIDs then g.pods.length else 0 := by
    intro g visited
    split
    next held =>
      rw [filter_eq_self.mpr fun p inside => (whole g visited p inside).mpr held]
    next absent =>
      rw [filter_eq_nil_iff.mpr fun p inside reaches =>
        absent ((whole g visited p inside).mp reaches)]
      rfl
  have counted : ∀ (summaries : String → Option PodSummary),
      healthTotal (order.foldl addGroupHealth summaries) id = healthTotal summaries id +
        (((order.map (·.pods)).flatten).filter reached).length := by
    clear whole
    induction order with
    | nil => intro summaries; simp
    | cons first rest ih =>
      obtain ⟨onceFirst, onceRest⟩ := forall_mem_cons.mp once
      obtain ⟨groupFirst, groupRest⟩ := forall_mem_cons.mp group
      intro summaries
      rw [foldl_cons, ih onceRest groupRest, group_counts onceFirst, map_cons,
        flatten_cons, filter_append, length_append, groupFirst, Nat.add_assoc]
  have none_yet : healthTotal (fun _ => none) id = 0 := rfl
  rw [podSummaries, counted, none_yet, Nat.zero_add]

variable {cluster : Cluster} {opts : BuildOptions} {order : List PodGroup}

/-- What is stamped onto a service's node is what was summed up under its id. -/
theorem stamped_total (summary : opts.summaryMode = true)
    (absent : s ∉ servicesToInclude cluster opts → healthTotal (podSummaries order) (serviceID s) = 0) :
    (buildTrafficTopology cluster opts order).summaryTotal s =
      healthTotal (podSummaries order) (serviceID s) := by
  unfold buildTrafficTopology View.summaryTotal
  rw [if_pos summary]
  cases found : (stampPodSummaries ((servicesToInclude cluster opts).map serviceNode)
      (podSummaries order)).find? fun node => node.1.id == serviceID s with
  | none =>
    refine (absent fun included => ?_).symm
    have missing := find?_eq_none.mp found (serviceNode s, podSummaries order (serviceID s))
      (mem_map.mpr ⟨serviceNode s, mem_map.mpr ⟨s, included, rfl⟩, rfl⟩)
    exact missing (beq_self_eq_true (serviceID s))
  | some node =>
    obtain ⟨plain, _, rfl⟩ := mem_map.mp (mem_of_find?_eq_some found)
    have own := find?_some found
    rw [beq_iff_eq] at own
    rw [← own]
    rfl

variable (perm : order.Perm (groupPods (groupingOptions cluster opts) cluster.podList.pods))
include perm

theorem total_eq (summary : opts.summaryMode = true)
    (listed : s ∈ cluster.services) {reached : Pod → Bool}
    (spec : ∀ p, reached p = true ↔ Reached cluster opts s p) :
    (buildTrafficTopology cluster opts order).summaryTotal s =
      ((cluster.podList.pods.filter (routed cluster opts)).filter reached).length := by
  have whole : ∀ g ∈ order, ∀ p ∈ g.pods, reached p = true ↔ serviceID s ∈ g.serviceIDs := by
    intro g visited p inside
    have member := perm.mem_iff.mp visited
    rw [spec, group_reached_iff member listed, Reached, grouped_own_key _ member inside]
  have once : ∀ g ∈ order, g.serviceIDs.Nodup := fun g visited =>
    services_once (perm.mem_iff.mp visited)
  have total := summaries_count once whole
  have split := (groups_partition (groupingOptions cluster opts) cluster.podList.pods).perm
    (fun _ _ => Eq.symm) (perm.map PodGroup.pods)
  rw [(split.all.filter reached).length_eq, scope_filter] at total
  rw [stamped_total summary ?_, total]
  -- a service without a node reaches no group
  intro excluded
  rw [total, length_eq_zero_iff, filter_eq_nil_iff]
  intro p _ reaches
  obtain ⟨other, held, admitted, -, route⟩ := (spec p).mp reaches
  exact excluded (routes_included listed held admitted route)

end Totals

section Exact
variable {cluster : Cluster} {opts : BuildOptions}

theorem filter_length_eq_iff {α : Type} {wide narrow : α → Bool} {xs : List α}
    (inside : ∀ x ∈ xs, narrow x = true → wide x = true) :
    (xs.filter wide).length = (xs.filter narrow).length ↔ ∀ x ∈ xs, wide x = true → narrow x = true := by
  have within : xs.filter narrow = (xs.filter wide).filter narrow := by
    rw [filter_filter]
    refine filter_congr fun x member => ?_
    cases held : narrow x with
    | false => rfl
    | true => rw [inside x member held, Bool.true_and]
  rw [within, eq_comm, length_filter_eq_length_iff]
  simp [mem_filter]

/-- A pod that a service selects is shown, and its group is reached. -/
theorem selected_reached {svc : Service} {pod : Pod} (listed : svc ∈ cluster.services)
    (held : pod ∈ cluster.podList.pods) (admitted : opts.matchesNamespaceFilter pod.namespace_ = true)
    (selects : Selects svc pod) : routed cluster opts pod = true ∧ Reached cluster opts svc pod := by
  have route := selects_routes selects
  exact ⟨routes_routed listed admitted route, pod, held, admitted, rfl, route⟩

/-- One pod's edges and one service's share of the totals, over the pods that are shown or counted. -/
def Precise (cluster : Cluster) (opts : BuildOptions) : Prop :=
  ∀ svc ∈ cluster.services, ∀ pod ∈ cluster.podList.pods, routed cluster opts pod = true →
    Counted cluster opts pod → Reached cluster opts svc pod → Selects svc pod

variable {order : List PodGroup}
  (perm : order.Perm (groupPods (groupingOptions cluster opts) cluster.podList.pods))
include perm

theorem edges_follow_iff (mode : opts.summaryMode = false) :
    FollowsSelectors cluster opts (buildTrafficTopology cluster opts order) ↔ Precise cluster opts := by
  have shown : ∀ pod ∈ cluster.podList.pods, (buildTrafficTopology cluster opts order).shows pod ↔
        routed cluster opts pod = true ∧ Counted cluster opts pod := by
    intro pod held
    rw [shows_iff perm mode held, small_group_iff perm held, Counted, mode]
    simp
  constructor
  · intro follows svc listed pod held route counted reached
    have visible := (shown pod held).mpr ⟨route, counted⟩
    exact (follows.edges mode svc listed pod held visible).mp
      ((edge_iff perm mode listed held visible).mpr reached)
  · intro precise
    refine ⟨fun _ svc listed pod held visible => ?_, fun summary => by simp [mode] at summary⟩
    obtain ⟨route, counted⟩ := (shown pod held).mp visible
    rw [edge_iff perm mode listed held visible]
    refine ⟨precise svc listed pod held route counted, fun selects => ?_⟩
    exact (selected_reached listed held (Bool.and_eq_true_iff.mp route).1 selects).2

open scoped Classical in
theorem total_exact_iff (mode : opts.summaryMode = true) {svc : Service}
    (listed : svc ∈ cluster.services) :
    ((buildTrafficTopology cluster opts order).summaryTotal svc = (cluster.podList.pods.filter fun pod =>
        opts.matchesNamespaceFilter pod.namespace_ && decide (Selects svc pod)).length) ↔
    ∀ pod ∈ cluster.podList.pods, routed cluster opts pod = true →
      Reached cluster opts svc pod → Selects svc pod := by
  rw [total_eq perm mode listed (fun pod => decide_eq_true_iff), filter_filter, filter_length_eq_iff]
  · simp only [Bool.and_eq_true, decide_eq_true_iff]
    constructor
    · exact fun within pod held route reached => (within pod held ⟨reached, route⟩).2
    · intro exact_ pod held ⟨reached, route⟩
      exact ⟨(Bool.and_eq_true_iff.mp route).1, exact_ pod held route reached⟩
  · simp only [Bool.and_eq_true, decide_eq_true_iff]
    rintro pod held ⟨admitted, selects⟩
    exact (selected_reached listed held admitted selects).symm

theorem totals_follow_iff (mode : opts.summaryMode = true) :
    FollowsSelectors cluster opts (buildTrafficTopology cluster opts order) ↔ Precise cluster opts := by
  classical
  constructor
  · intro follows svc listed pod held route _ reached
    exact (total_exact_iff perm mode listed).mp (follows.totals mode svc listed) pod held route reached
  · intro precise
    refine ⟨fun full => by simp [mode] at full, fun _ svc listed => ?_⟩
    exact (total_exact_iff perm mode listed).mpr fun pod held route =>
      precise svc listed pod held route (.inl mode)

omit perm in
/-- The edges and totals are the selector relation exactly when no two pods of one shown or counted
group differ in a service of theirs, and no empty selector value stands for a missing label. -/
theorem follows_selectors_iff (cluster : Cluster) (opts : BuildOptions) (order : List PodGroup)
    (perm : order.Perm (groupPods (groupingOptions cluster opts) cluster.podList.pods)) :
    FollowsSelectors cluster opts (buildTrafficTopology cluster opts order) ↔
      ∀ svc ∈ cluster.services, ∀ pod ∈ cluster.podList.pods, routed cluster opts pod = true →
        Counted cluster opts pod → Reached cluster opts svc pod → Selects svc pod := by
  cases mode : opts.summaryMode with
  | false => exact edges_follow_iff perm mode
  | true => exact totals_follow_iff perm mode

end Exact

section Tiers

theorem plain_shop : '/' ∉ "shop".toList := by decide

theorem plain_web_pod : '/' ∉ "web-0".toList := by decide

theorem plain_db_pod : '/' ∉ "db-0".toList := by decide

theorem plain_tiers (tier : String) (plain : '/' ∉ tier.toList) :
    ∀ label ∈ [("app", "cart"), ("tier", tier)], '/' ∉ label.2.toList := by
  have app : '/' ∉ "cart".toList := by decide
  simpa [app] using plain

theorem plain_web : '/' ∉ "web".toList := by decide

theorem plain_db : '/' ∉ "db".toList := by decide

def webPod : Pod :=
  ⟨"shop", "web-0", [("app", "cart"), ("tier", "web")], [], "Running", "n1", [], plain_shop,
    plain_web_pod, plain_tiers "web" plain_web, no_owners⟩

def dbPod : Pod := ⟨"shop", "db-0", [("app", "cart"), ("tier", "db")], [], "Running", "n1", [], plain_shop,
    plain_db_pod, plain_tiers "db" plain_db, no_owners⟩

def webService : Service := ⟨"shop", "web", [("app", "cart"), ("tier", "web")], plain_shop⟩

def cartService : Service := ⟨"shop", "cart", [("app", "cart")], plain_shop⟩

theorem tier_pods_distinct : [webPod, dbPod].Pairwise fun p q =>
    (p.namespace_, p.name) ≠ (q.namespace_, q.name) := by
  decide

theorem tier_services_distinct : [webService, cartService].Pairwise fun s t =>
    (s.namespace_, s.name) ≠ (t.namespace_, t.name) := by
  decide

def tiers : Cluster := ⟨[webService, cartService], ⟨[webPod, dbPod], tier_pods_distinct⟩, [],
  tier_services_distinct⟩

def trafficView : BuildOptions := { defaultBuildOptions with viewMode := .traffic }

def trafficSummary : BuildOptions := { trafficView with namespaces := some ["shop"], summaryMode := true }

def visited (cluster : Cluster) (opts : BuildOptions) : List PodGroup :=
  groupPods (groupingOptions cluster opts) cluster.podList.pods

/-- The database pod shares the app label, so it gets the edge of the web service, and the web
service counts it. -/
theorem shared_label_leads_astray : (¬ Selects webService dbPod ∧ ("service/shop/web", "pod/shop/db-0") ∈
        (buildTrafficTopology tiers trafficView (visited tiers trafficView)).edges.map
          (fun e => (e.source, e.target)) ∧
      ¬ FollowsSelectors tiers trafficView
        (buildTrafficTopology tiers trafficView (visited tiers trafficView))) ∧
    (buildTrafficTopology tiers trafficSummary (visited tiers trafficSummary)).summaryTotal
        webService = 2 ∧
      ¬ FollowsSelectors tiers trafficSummary
        (buildTrafficTopology tiers trafficSummary (visited tiers trafficSummary)) := by
  have apart : ¬ Selects webService dbPod := by decide
  have led : ("service/shop/web", "pod/shop/db-0") ∈
      (buildTrafficTopology tiers trafficView (visited tiers trafficView)).edges.map
        (fun e => (e.source, e.target)) := by decide +kernel
  have listed : webService ∈ tiers.services := mem_cons_self
  have held : dbPod ∈ tiers.podList.pods := mem_cons_of_mem _ mem_cons_self
  have total : (buildTrafficTopology tiers trafficSummary
      (visited tiers trafficSummary)).summaryTotal webService = 2 := by decide +kernel
  refine ⟨⟨apart, led, fun follows => ?_⟩, total, fun follows => ?_⟩
  · obtain ⟨e, made, ends⟩ := mem_map.mp led
    obtain ⟨source, target⟩ := Prod.mk.inj ends
    have shown : (buildTrafficTopology tiers trafficView (visited tiers trafficView)).shows dbPod :=
      (shows_iff (List.Perm.refl _) rfl held).mpr
        ((small_group_iff (List.Perm.refl _) held).mpr ⟨by decide, by decide⟩)
    exact apart ((follows.edges rfl webService listed dbPod held shown).mp
      ⟨e, made, source, target⟩)
  · have counted := follows.totals rfl webService listed
    rw [total] at counted
    exact absurd counted (by decide)

def oneService : Cluster := ⟨[cartService], ⟨[webPod, dbPod], tier_pods_distinct⟩, [],
  List.pairwise_singleton _ _⟩

theorem one_service_follows : FollowsSelectors oneService trafficView
    (buildTrafficTopology oneService trafficView (visited oneService trafficView)) := by
  refine (follows_selectors_iff oneService trafficView _ (List.Perm.refl _)).mpr ?_
  intro svc listed pod held _ _ _
  have selected : ∀ svc ∈ [cartService], ∀ pod ∈ [webPod, dbPod], Selects svc pod := by decide
  exact selected svc listed pod held

end Tiers
end TrafficView
