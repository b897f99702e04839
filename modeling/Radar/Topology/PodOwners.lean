import Radar.Topology.Workloads

/- The pod tier of the resources view of pkg/topology/builder.go with the edges from the pods' owners,
   and whether they tie every pod to the workload that controls it. -/
namespace PodOwners
open Topology PodGrouping Workloads List

/-- `tier` are the nodes of pods and pod groups, each with the pods it stands for; `edges` are those
that lead to them. -/
structure View where
  nodes : List Node
  tier : List (Node × List Pod)
  edges : List Edge

section Build
variable (c : Cluster) (opts : BuildOptions)

def groupingOptions : PodGroupingOptions := ⟨opts.namespaces, false, none, fun _ => none⟩

def managesEdge (ownerID targetID : String) : Edge :=
  ⟨ownerID ++ "-to-" ++ targetID, ownerID, targetID, .manages, "", "", ""⟩

/-- CronJob to pod, for views without the Job between them. -/
def shortcutEdge (cronJobID targetID : String) : Edge :=
  ⟨cronJobID ++ "-to-" ++ targetID ++ "-shortcut", cronJobID, targetID, .manages, "", "Job", ""⟩

def replicaSetEdges (key targetID : String) : List Edge := if opts.includeReplicaSets then
    match replicaSetIDs c opts key with
    | some ownerID => [managesEdge ownerID targetID]
    | none => []
  else
    match replicaSetToDeployment c opts key with
    | some deployID => [managesEdge deployID targetID]
    | none =>
      match replicaSetToRollout c opts key with
      | some rolloutID => [managesEdge rolloutID targetID]
      | none => []

def jobEdges (key targetID : String) : List Edge := match jobIDs c opts key with
  | some ownerID =>
    managesEdge ownerID targetID :: match jobToCronJob c opts key with
      | some cronJobID => [shortcutEdge cronJobID targetID]
      | none => []
  | none => []

def ownerEdges (pod : Pod) (targetID : String) (ref : OwnerReference) : List Edge :=
  let key := ownerKey pod.namespace_ ref
  if ref.kind = "ReplicaSet" then replicaSetEdges c opts key targetID
  else if ref.kind = "DaemonSet" then [managesEdge (nodeID .daemonSet key) targetID]
  else if ref.kind = "StatefulSet" then [managesEdge (nodeID .statefulSet key) targetID]
  else if ref.kind = "Job" then jobEdges c opts key targetID
  else []

def createPodOwnerEdges (pod : Pod) (targetID : String) : List Edge :=
  pod.ownerReferences.flatMap (ownerEdges c opts pod targetID)

/-- A small group has the edges of each of its pods, a large one those of its first. -/
def groupEdges (group : PodGroup) : List Edge := if individual opts group then
    group.pods.flatMap fun pod => createPodOwnerEdges c opts pod (getPodID pod)
  else
    match group.pods.head? with
    | some firstPod => createPodOwnerEdges c opts firstPod (getPodGroupID group)
    | none => []

/-- The resources view for one order of visiting the groups. -/
def buildPods (order : List PodGroup) : View := let tier := podTier opts true order
  ⟨nodesBeforePods c opts ++ tier.map (·.1) ++ c.after, tier, order.flatMap (groupEdges c opts)⟩

end Build

def View.has (view : View) (id : String) : Prop := id ∈ view.nodes.map Node.id

def controller (refs : List OwnerReference) : Option OwnerReference :=
  refs.find? fun ref => ref.controller == some true

/-- Whether an owner reference of the object of an id is to the built-in workload of that kind and
name, and not to one of another group or to a former one of the name. -/
abbrev Genuine := String → OwnerReference → Prop

/-- The workload with a node that controls a pod: its controller, or what controls a replica set
without a node. -/
inductive Controls (genuine : Genuine) (c : Cluster) (has : String → Prop) (pod : Pod) : String → Prop
  | direct {ref kind} : controller pod.ownerReferences = some ref → genuine (getPodID pod) ref →
      ref.kind = kind.text → has (nodeID kind (ownerKey pod.namespace_ ref)) →
        Controls genuine c has pod (nodeID kind (ownerKey pod.namespace_ ref))
  | throughReplicaSet {ref rs up kind} : controller pod.ownerReferences = some ref →
      genuine (getPodID pod) ref → ref.kind = "ReplicaSet" →
      ¬ has (nodeID .replicaSet (ownerKey pod.namespace_ ref)) → rs ∈ c.objects .replicaSet →
      rs.key = ownerKey pod.namespace_ ref → controller rs.ownerReferences = some up →
      genuine (nodeID .replicaSet rs.key) up → kind ∈ [Kind.deployment, Kind.rollout] →
      up.kind = kind.text → has (nodeID kind (ownerKey rs.namespace_ up)) →
        Controls genuine c has pod (nodeID kind (ownerKey rs.namespace_ up))

/-- A workload owns a pod by an owner reference, or owns what owns it. -/
inductive Owns (genuine : Genuine) (c : Cluster) (pod : Pod) : String → Prop
  | direct {ref kind} : ref ∈ pod.ownerReferences → genuine (getPodID pod) ref →
      ref.kind = kind.text → Owns genuine c pod (nodeID kind (ownerKey pod.namespace_ ref))
  | through {ref kind w up kind'} : ref ∈ pod.ownerReferences → genuine (getPodID pod) ref →
      ref.kind = kind.text → w ∈ c.objects kind → w.key = ownerKey pod.namespace_ ref →
      up ∈ w.ownerReferences → genuine (nodeID kind w.key) up → up.kind = kind'.text →
        Owns genuine c pod (nodeID kind' (ownerKey w.namespace_ up))

def inScopePods (c : Cluster) (opts : BuildOptions) : List Pod :=
  podsInScope (groupingOptions opts) c.podList.pods

structure OwnersTied (genuine : Genuine) (c : Cluster) (opts : BuildOptions) (view : View) : Prop where
  complete : ∀ pod ∈ inScopePods c opts, ∀ w, Controls genuine c view.has pod w →
    ∀ shown ∈ view.tier, pod ∈ shown.2 →
      ∃ e ∈ view.edges, e.type = .manages ∧ e.source = w ∧ e.target = shown.1.id
  truthful : ∀ shown ∈ view.tier, ∀ e ∈ view.edges, e.type = .manages →
    e.target = shown.1.id → ∃ pod ∈ shown.2, Owns genuine c pod e.source

section Followed
variable (c : Cluster) (opts : BuildOptions)

/-- What the builder follows from an owner reference: the owner, a listed Job's CronJob, and for a
replica set that is not shown its last listed Deployment or, without one, Rollout. -/
def Follows (ns : String) (ref : OwnerReference) (w : String) : Prop := let key := ownerKey ns ref
  (ref.kind = "DaemonSet" ∧ w = nodeID .daemonSet key) ∨
  (ref.kind = "StatefulSet" ∧ w = nodeID .statefulSet key) ∨
  (ref.kind = "Job" ∧ ∃ job ∈ c.listed opts .job, job.key = key ∧
    (w = nodeID .job key ∨ lastOwner c opts .cronJob job = some w)) ∨
  (ref.kind = "ReplicaSet" ∧ ∃ rs ∈ c.listed opts .replicaSet, rs.key = key ∧
    if opts.includeReplicaSets then w = nodeID .replicaSet key
    else (lastOwner c opts .deployment rs).or (lastOwner c opts .rollout rs) = some w)

def Linked (pod : Pod) (w : String) : Prop :=
  ∃ ref ∈ pod.ownerReferences, Follows c opts pod.namespace_ ref w

end Followed

section Speakers
variable (c : Cluster) (opts : BuildOptions)

/-- The pod's group is too large for nodes of its pods. -/
def Large (pod : Pod) : Prop := maxIndividualPods opts <
    (((inScopePods c opts).filter fun other => decide (groupKey other = groupKey pod)).length : Int)

instance (pod : Pod) : Decidable (Large c opts pod) := by
  unfold Large
  infer_instance

def First (pod : Pod) : Prop :=
  ((inScopePods c opts).find? fun other => decide (groupKey other = groupKey pod)) = some pod

/-- The pods whose owners get edges to the node of a pod: itself, or the first pod of its group and
of any other large one of the same id. -/
def Speaks (q p : Pod) : Prop := (¬ Large c opts p ∧ q = p) ∨
    (Large c opts p ∧ Large c opts q ∧ First c opts q ∧ hyphenWords q = hyphenWords p)

/-- One node stands for both. -/
def Together (other p : Pod) : Prop :=
  (¬ Large c opts p ∧ other = p) ∨ (Large c opts p ∧ groupKey other = groupKey p)

/-- Whoever controls a pod is followed from one of those that speak for it, and what is followed from
one of these owns some pod of the same node. -/
structure SpokenFor (genuine : Genuine) (c : Cluster) (opts : BuildOptions) : Prop where
  complete : ∀ p ∈ inScopePods c opts, ∀ w,
    Controls genuine c (· ∈ (nodesBeforePods c opts).map Node.id) p w →
      ∃ q ∈ inScopePods c opts, Speaks c opts q p ∧ Linked c opts q w
  truthful : ∀ p ∈ inScopePods c opts, ∀ q ∈ inScopePods c opts, Speaks c opts q p →
    ∀ w, Linked c opts q w → ∃ other ∈ inScopePods c opts, Together c opts other p ∧ Owns genuine c other w

end Speakers

section Edges
variable {c : Cluster} {opts : BuildOptions} {key targetID w : String}

/-- The workload that stands for a replica set, if there is one. -/
def inPlaceOf (c : Cluster) (opts : BuildOptions) (key : String) : Option String :=
  if opts.includeReplicaSets then replicaSetIDs c opts key
  else (replicaSetToDeployment c opts key).or (replicaSetToRollout c opts key)

theorem replica_set_edges : replicaSetEdges c opts key targetID =
    (inPlaceOf c opts key).toList.map fun ownerID => managesEdge ownerID targetID := by
  unfold replicaSetEdges inPlaceOf
  split
  · cases replicaSetIDs c opts key <;> rfl
  · cases replicaSetToDeployment c opts key with
    | some deployID => rfl
    | none => cases replicaSetToRollout c opts key <;> rfl

theorem job_edges : jobEdges c opts key targetID =
    ((jobIDs c opts key).toList.flatMap fun ownerID => managesEdge ownerID targetID ::
      (jobToCronJob c opts key).toList.map fun cronJobID => shortcutEdge cronJobID targetID) := by
  unfold jobEdges
  cases jobIDs c opts key with
  | none => rfl
  | some ownerID => cases jobToCronJob c opts key <;> rfl

theorem in_place_iff : inPlaceOf c opts key = some w ↔ ∃ rs ∈ c.listed opts .replicaSet, rs.key = key ∧
      if opts.includeReplicaSets then w = nodeID .replicaSet key
      else (lastOwner c opts .deployment rs).or (lastOwner c opts .rollout rs) = some w := by
  have distinct : ((c.listed opts .replicaSet).map Workload.key).Nodup :=
    keys_nodup (typed_distinct (by decide))
  unfold inPlaceOf
  cases opts.includeReplicaSets with
  | true =>
    simp only [if_true]
    rw [replicaSetIDs, ids_iff]
    constructor
    · rintro ⟨same, rs, listed, own⟩
      exact ⟨rs, listed, own, same⟩
    · rintro ⟨rs, listed, own, same⟩
      exact ⟨same, rs, listed, own⟩
  | false =>
    simp only [Bool.false_eq_true, if_false]
    constructor
    · intro found
      have some_ : ∃ rs ∈ c.listed opts .replicaSet, rs.key = key := by
        rcases Option.or_eq_some_iff.mp found with deployment | ⟨_, rollout⟩
        · obtain ⟨rs, listed, own, _⟩ := owner_map_some deployment
          exact ⟨rs, listed, own⟩
        · obtain ⟨rs, listed, own, _⟩ := owner_map_some rollout
          exact ⟨rs, listed, own⟩
      obtain ⟨rs, listed, rfl⟩ := some_
      refine ⟨rs, listed, rfl, ?_⟩
      rwa [replicaSetToDeployment, replicaSetToRollout, owner_map_of distinct listed,
        owner_map_of distinct listed] at found
    · rintro ⟨rs, listed, rfl, own⟩
      rwa [replicaSetToDeployment, replicaSetToRollout, owner_map_of distinct listed,
        owner_map_of distinct listed]

theorem job_source_iff : (∃ e ∈ jobEdges c opts key targetID, e.source = w) ↔
    ∃ job ∈ c.listed opts .job, job.key = key ∧
      (w = nodeID .job key ∨ lastOwner c opts .cronJob job = some w) := by
  have distinct : ((c.listed opts .job).map Workload.key).Nodup := keys_nodup (typed_distinct (by decide))
  rw [job_edges]
  constructor
  · rintro ⟨e, made, rfl⟩
    obtain ⟨ownerID, found, edge⟩ := mem_flatMap.mp made
    obtain ⟨rfl, job, listed, rfl⟩ := ids_iff.mp (Option.mem_toList.mp found)
    refine ⟨job, listed, rfl, ?_⟩
    cases mem_cons.mp edge with
    | inl direct =>
      subst direct
      exact .inl rfl
    | inr shortcut =>
      obtain ⟨cronJobID, up, rfl⟩ := mem_map.mp shortcut
      rw [Option.mem_toList, jobToCronJob, owner_map_of distinct listed] at up
      exact .inr up
  · rintro ⟨job, listed, rfl, own⟩
    have found : jobIDs c opts job.key = some (nodeID .job job.key) := ids_of listed
    rw [found]
    cases own with
    | inl direct => exact ⟨managesEdge (nodeID .job job.key) targetID, by simp, direct.symm⟩
    | inr up =>
      have cron : jobToCronJob c opts job.key = some w := by
        rw [jobToCronJob, owner_map_of distinct listed, up]
      exact ⟨shortcutEdge w targetID, by simp [cron], rfl⟩

variable {pod : Pod}

theorem ref_source_iff (ref : OwnerReference) : (∃ e ∈ ownerEdges c opts pod targetID ref, e.source = w) ↔
      Follows c opts pod.namespace_ ref w := by
  unfold ownerEdges Follows
  by_cases replicaSet : ref.kind = "ReplicaSet"
  · simp only [replicaSet, if_true, replica_set_edges, ← in_place_iff]
    simp [managesEdge]
  · by_cases daemonSet : ref.kind = "DaemonSet"
    · simp only [daemonSet, managesEdge]
      simpa using eq_comm
    · by_cases statefulSet : ref.kind = "StatefulSet"
      · simp only [statefulSet, managesEdge]
        simpa using eq_comm
      · by_cases job : ref.kind = "Job"
        · simp [job, job_source_iff]
        · simp [replicaSet, daemonSet, statefulSet, job]

/-- The owners that get edges are those that are followed. -/
theorem source_iff : (∃ e ∈ createPodOwnerEdges c opts pod targetID, e.source = w) ↔
    Linked c opts pod w := by
  unfold createPodOwnerEdges Linked
  simp only [mem_flatMap, ← @ref_source_iff _ _ targetID]
  constructor
  · rintro ⟨e, ⟨ref, own, made⟩, same⟩
    exact ⟨ref, own, e, made, same⟩
  · rintro ⟨ref, own, e, made, same⟩
    exact ⟨e, ⟨ref, own, made⟩, same⟩

theorem edge_shape {e : Edge} (made : e ∈ createPodOwnerEdges c opts pod targetID) :
    e.type = .manages ∧ e.target = targetID := by
  obtain ⟨ref, _, made⟩ := mem_flatMap.mp made
  simp only [ownerEdges, replica_set_edges, job_edges] at made
  split at made
  · obtain ⟨_, _, rfl⟩ := mem_map.mp made
    exact ⟨rfl, rfl⟩
  · split at made
    · obtain rfl := mem_singleton.mp made
      exact ⟨rfl, rfl⟩
    · split at made
      · obtain rfl := mem_singleton.mp made
        exact ⟨rfl, rfl⟩
      · split at made
        · obtain ⟨ownerID, _, edge⟩ := mem_flatMap.mp made
          cases mem_cons.mp edge with
          | inl direct =>
            subst direct
            exact ⟨rfl, rfl⟩
          | inr shortcut =>
            obtain ⟨_, _, rfl⟩ := mem_map.mp shortcut
            exact ⟨rfl, rfl⟩
        · exact absurd made not_mem_nil

end Edges

section Shown
variable {c : Cluster} {opts : BuildOptions} {p : Pod}

/-- The id of the node that stands for a pod. -/
def shownUnder (c : Cluster) (opts : BuildOptions) (pod : Pod) : String :=
  if Large c opts pod then getPodGroupID (startGroup pod) else getPodID pod

theorem group_id_of_key {g : PodGroup} {pod : Pod} (key : groupKey pod = g.key) :
    getPodGroupID (startGroup pod) = getPodGroupID g := by
  rw [getPodGroupID, getPodGroupID, ← key]
  rfl

/-- Two pods are shown under one id if they are the same pod on its own, or are of large groups whose
ids are made of the same words. -/
theorem shown_under_iff {p q : Pod} (held : p ∈ inScopePods c opts) (held' : q ∈ inScopePods c opts) :
    shownUnder c opts q = shownUnder c opts p ↔ (¬ Large c opts p ∧ q = p) ∨
      (Large c opts p ∧ Large c opts q ∧ hyphenWords q = hyphenWords p) := by
  have words : getPodGroupID (startGroup q) = getPodGroupID (startGroup p) ↔
      hyphenWords q = hyphenWords p := group_id_iff rfl rfl
  unfold shownUnder
  by_cases large : Large c opts p
  · by_cases large' : Large c opts q
    · simp [large, large', words]
    · simp only [large, large', if_true, if_false, not_true, false_and, and_false, or_false, iff_false]
      exact fun same => group_id_not_pod _ q same.symm
  · by_cases large' : Large c opts q
    · simp only [large, large', if_true, if_false, false_and, or_false, not_false_iff, true_and]
      constructor
      · exact fun same => absurd same (group_id_not_pod _ p)
      · rintro rfl
        exact absurd large' large
    · simp only [large, large', if_false, false_and, or_false, not_false_iff, true_and]
      constructor
      · exact same_pod (mem_filter.mp held').1 (mem_filter.mp held).1
      · rintro rfl
        rfl

theorem speaks_iff {p q : Pod} (held : p ∈ inScopePods c opts) (held' : q ∈ inScopePods c opts) :
    Speaks c opts q p ↔ shownUnder c opts q = shownUnder c opts p ∧ (Large c opts q → First c opts q) := by
  rw [shown_under_iff held held', Speaks]
  constructor
  · rintro (⟨small, rfl⟩ | ⟨large, large', first, words⟩)
    · exact ⟨.inl ⟨small, rfl⟩, fun large => absurd large small⟩
    · exact ⟨.inr ⟨large, large', words⟩, fun _ => first⟩
  · rintro ⟨⟨small, rfl⟩ | ⟨large, large', words⟩, first⟩
    · exact .inl ⟨small, rfl⟩
    · exact .inr ⟨large, large', first large', words⟩

section Group
variable {g : PodGroup} (member : g ∈ groupPods (groupingOptions opts) c.podList.pods)
include member

theorem group_pods (inside : p ∈ g.pods) :
    g.pods = (inScopePods c opts).filter fun other => decide (groupKey other = groupKey p) := by
  rw [grouped_own_key _ member inside]
  exact members_of_key _ member

theorem individual_iff (inside : p ∈ g.pods) : individual opts g = true ↔ ¬ Large c opts p := by
  rw [individual, decide_eq_true_iff, Large, ← group_pods member inside, not_lt]

theorem head_iff {q : Pod} : g.pods.head? = some q ↔ q ∈ g.pods ∧ First c opts q := by
  constructor
  · intro head
    have inside := mem_of_mem_head? (Option.mem_def.mpr head)
    rw [group_pods member inside, head?_filter] at head
    exact ⟨inside, head⟩
  · rintro ⟨inside, first⟩
    rw [group_pods member inside, head?_filter]
    exact first

/-- The nodes of a group: each of its pods is shown under its id, with the pods of that node. -/
theorem group_tier {shown : Node × List Pod} (made : shown ∈ groupTier opts true g) :
    (∃ p, p ∈ shown.2) ∧ ∀ p ∈ shown.2, p ∈ inScopePods c opts ∧ shown.1.id = shownUnder c opts p ∧
      ∀ other, other ∈ shown.2 ↔ other ∈ inScopePods c opts ∧ Together c opts other p := by
  unfold groupTier at made
  split at made
  · rename_i small
    obtain ⟨p, inside, rfl⟩ := mem_map.mp made
    have own := (individual_iff member inside).mp small
    have held := grouped_in_scope _ member inside
    refine ⟨⟨p, mem_singleton_self p⟩, ?_⟩
    intro p' single
    obtain rfl := mem_singleton.mp single
    refine ⟨held, (if_neg own).symm, ?_⟩
    intro other
    simp only [mem_singleton, Together, own, not_false_iff, true_and, false_and, or_false]
    constructor
    · rintro rfl
      exact ⟨held, rfl⟩
    · exact And.right
  · rename_i large
    obtain rfl := mem_singleton.mp made
    refine ⟨grouped_inhabited _ member, ?_⟩
    intro p inside
    have own : Large c opts p := by
      by_contra small
      exact large ((individual_iff member inside).mpr small)
    refine ⟨grouped_in_scope _ member inside, ?_, ?_⟩
    · rw [shownUnder, if_pos own, group_id_of_key (grouped_own_key _ member inside)]
      rfl
    · intro other
      simp only [Together, own, not_true, false_and, true_and, false_or]
      rw [group_pods member inside, mem_filter, decide_eq_true_iff]

omit member in
/-- Every pod is in one of the nodes of its group. -/
theorem group_shows (inside : p ∈ g.pods) : ∃ shown ∈ groupTier opts true g, p ∈ shown.2 := by
  unfold groupTier
  split
  · exact ⟨_, mem_map.mpr ⟨p, inside, rfl⟩, mem_singleton_self p⟩
  · exact ⟨_, mem_singleton_self _, inside⟩

/-- The edges of a group come from what is followed from its pods, or from the first of them. -/
theorem group_edges {w t : String} : (∃ e ∈ groupEdges c opts g, e.source = w ∧ e.target = t) ↔
    ∃ q ∈ g.pods, t = shownUnder c opts q ∧ (Large c opts q → First c opts q) ∧ Linked c opts q w := by
  unfold groupEdges
  split
  · rename_i small
    constructor
    · rintro ⟨e, made, rfl, rfl⟩
      obtain ⟨q, inside, edge⟩ := mem_flatMap.mp made
      have own := (individual_iff member inside).mp small
      refine ⟨q, inside, ?_, fun large => absurd large own, source_iff.mp ⟨e, edge, rfl⟩⟩
      rw [shownUnder, if_neg own, (edge_shape edge).2]
    · rintro ⟨q, inside, rfl, _, linked⟩
      have own := (individual_iff member inside).mp small
      obtain ⟨e, edge, source⟩ := (@source_iff _ _ (getPodID q) _ _).mpr linked
      refine ⟨e, mem_flatMap.mpr ⟨q, inside, edge⟩, source, ?_⟩
      rw [shownUnder, if_neg own, (edge_shape edge).2]
  · rename_i large
    have own : ∀ q ∈ g.pods, Large c opts q := by
      intro q inside
      by_contra small
      exact large ((individual_iff member inside).mpr small)
    have id : ∀ q ∈ g.pods, shownUnder c opts q = getPodGroupID g := by
      intro q inside
      rw [shownUnder, if_pos (own q inside), group_id_of_key (grouped_own_key _ member inside)]
    constructor
    · rintro ⟨e, made, rfl, rfl⟩
      cases head : g.pods.head? with
      | none => simp [head] at made
      | some q =>
        rw [head] at made
        obtain ⟨inside, first⟩ := (head_iff member).mp head
        refine ⟨q, inside, ?_, fun _ => first, source_iff.mp ⟨e, made, rfl⟩⟩
        rw [id q inside, (edge_shape made).2]
    · rintro ⟨q, inside, rfl, first, linked⟩
      rw [(head_iff member).mpr ⟨inside, first (own q inside)⟩]
      obtain ⟨e, edge, source⟩ := (@source_iff _ _ (getPodGroupID g) _ _).mpr linked
      exact ⟨e, edge, source, by rw [id q inside, (edge_shape edge).2]⟩

end Group

section View
variable {order : List PodGroup}
  (perm : order.Perm (groupPods (groupingOptions opts) c.podList.pods))
include perm

theorem tier_shows {shown : Node × List Pod} (made : shown ∈ (buildPods c opts order).tier) :
    (∃ p, p ∈ shown.2) ∧ ∀ p ∈ shown.2, p ∈ inScopePods c opts ∧ shown.1.id = shownUnder c opts p ∧
      ∀ other, other ∈ shown.2 ↔ other ∈ inScopePods c opts ∧ Together c opts other p := by
  obtain ⟨g, listed, made⟩ := mem_flatMap.mp made
  exact group_tier (perm.mem_iff.mp listed) made

theorem shown_somewhere (held : p ∈ inScopePods c opts) :
    ∃ shown ∈ (buildPods c opts order).tier, p ∈ shown.2 := by
  obtain ⟨g, member, inside⟩ := grouped_somewhere _ held
  obtain ⟨shown, made, own⟩ := @group_shows opts _ _ inside
  exact ⟨shown, mem_flatMap.mpr ⟨g, perm.mem_iff.mpr member, made⟩, own⟩

/-- Where edges lead from a workload to the node of a pod. -/
theorem edge_iff (held : p ∈ inScopePods c opts) {w : String} :
    (∃ e ∈ (buildPods c opts order).edges, e.source = w ∧ e.target = shownUnder c opts p) ↔
      ∃ q ∈ inScopePods c opts, Speaks c opts q p ∧ Linked c opts q w := by
  constructor
  · rintro ⟨e, made, source, target⟩
    obtain ⟨g, listed, edge⟩ := mem_flatMap.mp made
    have member := perm.mem_iff.mp listed
    obtain ⟨q, inside, same, first, linked⟩ := (group_edges member).mp ⟨e, edge, source, target⟩
    have held' := grouped_in_scope _ member inside
    exact ⟨q, held', (speaks_iff held held').mpr ⟨same.symm, first⟩, linked⟩
  · rintro ⟨q, held', speaks, linked⟩
    obtain ⟨same, first⟩ := (speaks_iff held held').mp speaks
    obtain ⟨g, member, inside⟩ := grouped_somewhere _ held'
    obtain ⟨e, edge, source, target⟩ := (group_edges member).mpr ⟨q, inside, same.symm, first, linked⟩
    exact ⟨e, mem_flatMap.mpr ⟨g, perm.mem_iff.mpr member, edge⟩, source, target⟩

omit perm in
theorem manages {e : Edge} (made : e ∈ (buildPods c opts order).edges) : e.type = .manages := by
  obtain ⟨g, _, edge⟩ := mem_flatMap.mp made
  unfold groupEdges at edge
  split at edge
  · obtain ⟨q, _, edge⟩ := mem_flatMap.mp edge
    exact (edge_shape edge).1
  · split at edge
    · exact (edge_shape edge).1
    · exact absurd edge not_mem_nil

/-- The nodes of workloads are those made before the pods'. -/
theorem has_iff (kind : Kind) (key : String) : (buildPods c opts order).has (nodeID kind key) ↔
    nodeID kind key ∈ (nodesBeforePods c opts).map Node.id := by
  have tier : nodeID kind key ∉ ((buildPods c opts order).tier.map (·.1)).map Node.id := by
    rw [map_map]
    intro inside
    obtain ⟨shown, made, same⟩ := mem_map.mp inside
    obtain ⟨⟨p, own⟩, each⟩ := tier_shows perm made
    have chars := congrArg String.toList (same.symm.trans (each p own).2.1)
    unfold shownUnder at chars
    split at chars <;> cases kind <;> simp [nodeID, Kind.lower, getPodID, getPodGroupID] at chars
  have late : nodeID kind key ∉ c.after.map Node.id := by
    intro inside
    obtain ⟨n, listed, same⟩ := mem_map.mp inside
    exact (c.others_apart n (mem_append_right _ listed)).1 kind key same
  rw [View.has]
  change nodeID kind key ∈
    (nodesBeforePods c opts ++ (buildPods c opts order).tier.map (·.1) ++ c.after).map Node.id ↔ _
  rw [map_append, map_append, mem_append, mem_append]
  tauto

omit perm in
theorem controls_mono {genuine : Genuine} {has has' : String → Prop}
    (same : ∀ kind key, has (nodeID kind key) ↔ has' (nodeID kind key)) {pod : Pod} {w : String}
    (controls : Controls genuine c has pod w) : Controls genuine c has' pod w := by
  cases controls with
  | direct owner real kind there => exact .direct owner real kind ((same _ _).mp there)
  | throughReplicaSet owner real kind absent listed own up real' either upKind there =>
    exact .throughReplicaSet owner real kind (fun there => absent ((same _ _).mpr there)) listed own
      up real' either upKind ((same _ _).mp there)

end View

/-- For every order of the groups: the edges tie every pod to what controls it, and to nothing that
owns none of its node's pods, exactly when the pods that speak for the nodes do. -/
theorem owners_tied_iff (genuine : Genuine) (c : Cluster) (opts : BuildOptions)
    (order : List PodGroup)
    (perm : order.Perm (groupPods (groupingOptions opts) c.podList.pods)) :
    OwnersTied genuine c opts (buildPods c opts order) ↔ SpokenFor genuine c opts := by
  constructor
  · intro tied
    constructor
    · intro p held w controls
      obtain ⟨shown, made, own⟩ := shown_somewhere perm held
      obtain ⟨e, edge, _, source, target⟩ := tied.complete p held w
        (controls_mono (fun kind key => (has_iff perm kind key).symm) controls) shown made own
      rw [(tier_shows perm made).2 p own |>.2.1] at target
      exact (edge_iff perm held).mp ⟨e, edge, source, target⟩
    · intro p held q held' speaks w linked
      obtain ⟨shown, made, own⟩ := shown_somewhere perm held
      obtain ⟨_, id, members⟩ := (tier_shows perm made).2 p own
      obtain ⟨e, edge, rfl, target⟩ := (edge_iff perm held).mpr ⟨q, held', speaks, linked⟩
      obtain ⟨other, inside, owns⟩ := tied.truthful shown made e edge (manages edge) (target.trans id.symm)
      exact ⟨other, ((members other).mp inside).1, ((members other).mp inside).2, owns⟩
  · intro spoken
    constructor
    · intro p held w controls shown made own
      obtain ⟨q, held', speaks, linked⟩ := spoken.complete p held w (controls_mono (has_iff perm) controls)
      obtain ⟨e, edge, source, target⟩ := (edge_iff perm held).mpr ⟨q, held', speaks, linked⟩
      exact ⟨e, edge, manages edge, source, target.trans ((tier_shows perm made).2 p own).2.1.symm⟩
    · intro shown made e edge _ target
      obtain ⟨⟨p, own⟩, each⟩ := tier_shows perm made
      obtain ⟨held, id, members⟩ := each p own
      obtain ⟨q, held', speaks, linked⟩ := (edge_iff perm held).mp ⟨e, edge, rfl, target.trans id⟩
      obtain ⟨other, held'', together, owns⟩ := spoken.truthful p held q held' speaks _ linked
      exact ⟨other, (members other).mpr ⟨held'', together⟩, owns⟩

end Shown

section Shop

theorem plain_shop : '/' ∉ "shop".toList := by decide

theorem plain_web : '/' ∉ "web".toList := by decide

theorem plain_web_set : '/' ∉ "web-1".toList := by decide

theorem plain_migrate : '/' ∉ "migrate".toList := by decide

theorem plain_migrate_pod : '/' ∉ "migrate-x".toList := by decide

theorem plain_set_owner : '/' ∉ "ReplicaSet".toList ∧ '/' ∉ "web-1".toList := by decide

theorem plain_job_owner : '/' ∉ "Job".toList ∧ '/' ∉ "migrate".toList := by decide

def workload (name : String) (refs : List OwnerReference) (plain : '/' ∉ name.toList) : Workload where
  namespace_ := "shop"
  name := name
  ownerReferences := refs
  status := .healthy
  data := []
  namespace_slashless := plain_shop
  name_slashless := plain

/-- A pod labelled as part of the app web. -/
def webPod (name : String) (owner : OwnerReference) (plain : '/' ∉ name.toList)
    (plainOwner : '/' ∉ owner.kind.toList ∧ '/' ∉ owner.name.toList) : Pod :=
  ⟨"shop", name, [("app", "web")], [owner], "Running", "n1", [], plain_shop, plain,
    by simp, by simpa using plainOwner⟩

def web : Workload := workload "web" [] plain_web

def migrate : Workload := workload "migrate" [] plain_migrate

def webSet : ReplicaSet := ⟨workload "web-1" [⟨"Deployment", "web", some true⟩] plain_web_set, some 5⟩

def setPod (name : String) (plain : '/' ∉ name.toList) : Pod :=
  webPod name ⟨"ReplicaSet", "web-1", some true⟩ plain plain_set_owner

def migratePod : Pod := webPod "migrate-x" ⟨"Job", "migrate", some true⟩ plain_migrate_pod plain_job_owner

def shopPods : List Pod :=
  [ setPod "web-1-a" (by decide), setPod "web-1-b" (by decide), setPod "web-1-c" (by decide),
    setPod "web-1-d" (by decide), setPod "web-1-e" (by decide), migratePod]

theorem pods_distinct : shopPods.Pairwise fun p q => (p.namespace_, p.name) ≠ (q.namespace_, q.name) := by
  decide

/-- A Deployment and a Job whose pods are labelled alike. -/
def shop (pods : List Pod)
    (distinct : pods.Pairwise fun p q => (p.namespace_, p.name) ≠ (q.namespace_, q.name)) :
    Cluster where
  deployments := [web]
  rollouts := []
  daemonsets := []
  statefulsets := []
  cronjobs := []
  jobs := [migrate]
  replicasets := [webSet]
  podList := ⟨pods, distinct⟩
  before := []
  after := []
  deployments_distinct := single_distinct web
  rollouts_distinct := nil_distinct
  daemonsets_distinct := nil_distinct
  statefulsets_distinct := nil_distinct
  cronjobs_distinct := nil_distinct
  jobs_distinct := single_distinct migrate
  replicasets_distinct := single_distinct webSet.toWorkload
  others_apart := no_others

theorem single_apart : ([migratePod] : List Pod).Pairwise fun p q =>
    (p.namespace_, p.name) ≠ (q.namespace_, q.name) :=
  pairwise_singleton _ _

/-- On its own the Job's pod is tied to it. -/
theorem migrate_tied : OwnersTied (fun _ _ => True) (shop [migratePod] single_apart)
    defaultBuildOptions (buildPods (shop [migratePod] single_apart) defaultBuildOptions
      (groupPods (groupingOptions defaultBuildOptions) [migratePod])) := by
  have all : inScopePods (shop [migratePod] single_apart) defaultBuildOptions = [migratePod] := rfl
  have small : ¬ Large (shop [migratePod] single_apart) defaultBuildOptions migratePod := by
    decide +kernel
  have listed : (shop [migratePod] single_apart).listed defaultBuildOptions .job = [migrate] := rfl
  refine (owners_tied_iff _ (shop [migratePod] single_apart) defaultBuildOptions _
    (List.Perm.refl _)).mpr ⟨?_, ?_⟩
  · intro p held w controls
    rw [all, mem_singleton] at held
    subst held
    refine ⟨migratePod, by rw [all]; exact mem_singleton_self _, .inl ⟨small, rfl⟩, ?_⟩
    cases controls with
    | direct owner _ kind _ =>
      obtain rfl := Option.some.inj owner
      obtain rfl := kind_text_inj (a := .job) kind
      refine ⟨_, mem_singleton_self _, .inr (.inr (.inl ⟨rfl, migrate, ?_, rfl, .inl rfl⟩))⟩
      rw [listed]
      exact mem_singleton_self _
    | throughReplicaSet owner _ kind =>
      obtain rfl := Option.some.inj owner
      exact absurd kind (by decide)
  · intro p held q held' speaks w linked
    rw [all, mem_singleton] at held held'
    subst held held'
    refine ⟨migratePod, by rw [all]; exact mem_singleton_self _, .inl ⟨small, rfl⟩, ?_⟩
    obtain ⟨ref, own, follows⟩ := linked
    obtain rfl := mem_singleton.mp own
    rcases follows with ⟨kind, _⟩ | ⟨kind, _⟩ | ⟨_, job, inside, _, followed⟩ | ⟨kind, _⟩
    · exact absurd kind (by decide)
    · exact absurd kind (by decide)
    · rw [listed, mem_singleton] at inside
      subst inside
      rcases followed with rfl | up
      · exact @Owns.direct _ _ _ _ .job (mem_singleton_self _) trivial rfl
      · cases up
    · exact absurd kind (by decide)

/-- The six pods become one group, with an edge from the Deployment of its first pod only. -/
theorem job_untied : ¬ OwnersTied (fun _ _ => True) (shop shopPods pods_distinct) defaultBuildOptions
    (buildPods (shop shopPods pods_distinct) defaultBuildOptions
      (groupPods (groupingOptions defaultBuildOptions) shopPods)) := by
  have edges : (buildPods (shop shopPods pods_distinct) defaultBuildOptions
      (groupPods (groupingOptions defaultBuildOptions) shopPods)).edges =
        [managesEdge "deployment/shop/web" "podgroup-shop-app-web"] := by
    decide +kernel
  have job : (buildPods (shop shopPods pods_distinct) defaultBuildOptions
      (groupPods (groupingOptions defaultBuildOptions) shopPods)).has
        (nodeID .job (ownerKey "shop" ⟨"Job", "migrate", some true⟩)) := by
    unfold View.has
    decide +kernel
  have held : migratePod ∈ inScopePods (shop shopPods pods_distinct) defaultBuildOptions := by
    have all : inScopePods (shop shopPods pods_distinct) defaultBuildOptions = shopPods := rfl
    rw [all]
    simp [shopPods]
  intro tied
  obtain ⟨shown, made, own⟩ := shown_somewhere (List.Perm.refl _) held
  obtain ⟨e, edge, _, source, _⟩ :=
    tied.complete migratePod held _ (.direct rfl trivial rfl job) shown made own
  rw [edges] at edge
  obtain rfl := mem_singleton.mp edge
  exact absurd source (by decide)

end Shop

end PodOwners
