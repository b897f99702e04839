import Mathlib.Data.List.Dedup
import Radar.Topology.TrafficView
import Radar.Topology.Workloads

/- Summary mode of the resources view of pkg/topology/builder.go: the pods' health rolled up onto the
   workloads that own them, and onto one node per namespace for the pods that none is found for. -/
namespace SummaryMode
open Topology PodGrouping Workloads List
open TrafficView (PodSummary addPodHealth stampPodSummaries healthTotal pod_counts_once)
variable {id : String}

structure Tally where
  podSummaries : String → Option PodSummary
  orphanByNS : String → Option PodSummary
  orphanRestarts : String → Int32

/-- A node's `podSummary` stands beside it, and beside the nodes made for orphan pods the counts that
they show. -/
structure View where
  nodes : List (Node × Option PodSummary)
  orphans : List (Node × PodSummary)
  podSummaries : String → Option PodSummary

section Build
variable (c : Cluster) (opts : BuildOptions) (restartCounts : Pod → List Int32)

def computePodRestarts (pod : Pod) : Int32 :=
  (restartCounts pod).foldl (fun restarts count => restarts + count) 0

def existingNodeIDs : List String := (nodesBeforePods c opts).map Node.id

/-- The id made up from an owner reference, where there is a node of that id. -/
def gated (kind : Kind) (ownerKey : String) : Option String :=
  if nodeID kind ownerKey ∈ existingNodeIDs c opts then some (nodeID kind ownerKey) else none

/-- What one controller says of its pod's node; owners of other kinds are passed over. -/
def resolveOwner (pod : Pod) (ref : OwnerReference) : Option (Option String) :=
  let key := ownerKey pod.namespace_ ref
  if ref.kind = "ReplicaSet" then
    some ((replicaSetToDeployment c opts key).or (replicaSetToRollout c opts key))
  else if ref.kind = "DaemonSet" then some (gated c opts .daemonSet key)
  else if ref.kind = "StatefulSet" then some (gated c opts .statefulSet key)
  else if ref.kind = "Job" then some (jobIDs c opts key)
  else none

/-- No node is the empty id of the source. -/
def resolvePodWorkloadID (pod : Pod) : Option String :=
  ((pod.ownerReferences.filter fun ref => ref.controller == some true).findSome?
    (resolveOwner c opts pod)).join

def addPod (t : Tally) (pod : Pod) : Tally := match resolvePodWorkloadID c opts pod with
  | none =>
    { t with
      orphanByNS := addPodHealth t.orphanByNS pod.namespace_ pod
      orphanRestarts := fun ns =>
        if ns = pod.namespace_ then t.orphanRestarts ns + computePodRestarts restartCounts pod
        else t.orphanRestarts ns }
  | some workloadID => { t with podSummaries := addPodHealth t.podSummaries workloadID pod }

def inScopePods : List Pod := c.podList.pods.filter fun pod => opts.matchesNamespaceFilter pod.namespace_

def tally : Tally :=
  (inScopePods c opts).foldl (addPod c opts restartCounts) ⟨fun _ => none, fun _ => none, fun _ => 0⟩

def createOrphanPodSummaryNode (ns : String) (summary : PodSummary) (totalRestarts : Int32) : Node where
  id := "podgroup-orphans-" ++ ns
  kind := "PodGroup"
  name := "unattributed pods"
  status := if 0 < summary.unhealthy then .unhealthy
    else if 0 < summary.degraded then .degraded
    else .healthy
  data := some
    [ ("namespace", .text ns), ("podCount", .other summary.total.repr),
      ("healthy", .other summary.healthy.repr), ("degraded", .other summary.degraded.repr),
      ("unhealthy", .other summary.unhealthy.repr),
      ("totalRestarts", .other (toString totalRestarts)), ("summaryOnly", .other "true")]

def orphanNodes (t : Tally) (order : List String) : List (Node × PodSummary) :=
  order.filterMap fun ns => (t.orphanByNS ns).map fun summary =>
    (createOrphanPodSummaryNode ns summary (t.orphanRestarts ns), summary)

/-- The graph of summary mode, for one order of going over the namespaces with orphan pods. -/
def buildSummary (order : List String) : View := let t := tally c opts restartCounts
  let orphans := orphanNodes t order
  let nodes := nodesBeforePods c opts ++ orphans.map (·.1) ++ c.after
  ⟨stampPodSummaries nodes t.podSummaries, orphans, t.podSummaries⟩

end Build

def View.stampedTotal (view : View) : Nat := (view.nodes.map fun node => node.2.elim 0 (·.total)).sum

/-- The total stamped under an id. -/
def View.stampedAt (view : View) (id : String) : Nat :=
  ((view.nodes.find? fun node => node.1.id == id).bind (·.2)).elim 0 (·.total)

/-- What is stamped, each id taken once. -/
def View.stampedByID (view : View) : Nat := ((view.nodes.map (·.1.id)).dedup.map view.stampedAt).sum

def View.orphanTotal (view : View) : Nat := (view.orphans.map (·.2.total)).sum

def Balanced (s : PodSummary) : Prop := s.healthy + s.degraded + s.unhealthy = s.total

/-- The order goes over each namespace with orphan pods once. -/
structure GoesOver (order : List String) (orphanByNS : String → Option PodSummary) : Prop where
  once : order.Nodup
  whole : ∀ ns, ns ∈ order ↔ (orphanByNS ns).isSome = true

/-- The totals are also those of the list of nodes, unless the filter repeats a namespace: then its
rollouts are listed again under their ids. -/
structure NoPodLost (c : Cluster) (opts : BuildOptions) (view : View) : Prop where
  total : view.stampedByID + view.orphanTotal = (inScopePods c opts).length
  listed : (opts.namespaces.getD []).Nodup →
    view.stampedTotal + view.orphanTotal = (inScopePods c opts).length
  split : ∀ id s, view.podSummaries id = some s → Balanced s
  stamped : ∀ id s, view.podSummaries id = some s → ∃ kind, ∃ node ∈ kindNodes c opts kind,
    node.id = id ∧ (node, some s) ∈ view.nodes
  summed : ∀ node s, (node, some s) ∈ view.nodes → view.podSummaries node.id = some s
  orphans : ∀ orphan ∈ view.orphans, (orphan.1, none) ∈ view.nodes ∧ Balanced orphan.2
  perNamespace : (view.orphans.map (·.1.id)).Nodup

section Counts
variable {c : Cluster} {opts : BuildOptions} {restartCounts : Pod → List Int32}
variable {summaries : String → Option PodSummary}

/-- The namespace that an orphan pod counts for. -/
def orphanOf (c : Cluster) (opts : BuildOptions) (pod : Pod) : Option String :=
  if resolvePodWorkloadID c opts pod = none then some pod.namespace_ else none

/-- A pod counted under its label, if it has one. -/
def countUnder (label : Pod → Option String) (summaries : String → Option PodSummary) (pod : Pod) :
    String → Option PodSummary :=
  match label pod with
  | some key => addPodHealth summaries key pod
  | none => summaries

theorem under_counts (label : Pod → Option String) (pods : List Pod)
    (summaries : String → Option PodSummary) (key : String) :
    healthTotal (pods.foldl (countUnder label) summaries) key =
      healthTotal summaries key + pods.countP fun pod => decide (label pod = some key) := by
  induction pods generalizing summaries with
  | nil => rfl
  | cons pod rest ih =>
    rw [foldl_cons, ih, countP_cons]
    have step : healthTotal (countUnder label summaries pod) key =
        healthTotal summaries key + if label pod = some key then 1 else 0 := by
      unfold countUnder
      cases label pod with
      | none => rfl
      | some own =>
        rw [pod_counts_once]
        simp only [Option.some_inj, eq_comm]
    simp only [step, decide_eq_true_eq]
    omega

/-- A summary counts some pod, and each of its pods under one status. -/
structure Counted (s : PodSummary) : Prop where
  balanced : Balanced s
  some_ : 0 < s.total

def AllCounted (summaries : String → Option PodSummary) : Prop :=
  ∀ key s, summaries key = some s → Counted s

theorem health_counted (counted : AllCounted summaries)
    (own : String) (pod : Pod) : AllCounted (addPodHealth summaries own pod) := by
  intro key s held
  unfold addPodHealth at held
  by_cases same : key = own
  · rw [if_pos same] at held
    have before : Balanced ((summaries own).getD ⟨0, 0, 0, 0⟩) := by
      cases found : summaries own with
      | none => rfl
      | some old => exact (counted own old found).balanced
    unfold Balanced at before
    cases status : getPodStatus pod.phase <;>
      simp only [status, Option.some_inj] at held <;> subst held <;>
      constructor <;> simp only [Balanced] <;> omega
  · rw [if_neg same] at held
    exact counted key s held

theorem under_counted (label : Pod → Option String) (pods : List Pod) :
    AllCounted (pods.foldl (countUnder label) fun _ => none) := by
  have run : ∀ summaries, AllCounted summaries → AllCounted (pods.foldl (countUnder label) summaries) := by
    induction pods with
    | nil => exact fun _ counted => counted
    | cons pod rest ih =>
      intro summaries counted
      apply ih
      unfold countUnder
      cases label pod with
      | none => exact counted
      | some key => exact health_counted counted key pod
  exact run _ fun _ _ held => by cases held

theorem add_pods (pods : List Pod) (t : Tally) : (pods.foldl (addPod c opts restartCounts) t).podSummaries =
        pods.foldl (countUnder (resolvePodWorkloadID c opts)) t.podSummaries ∧
      (pods.foldl (addPod c opts restartCounts) t).orphanByNS =
        pods.foldl (countUnder (orphanOf c opts)) t.orphanByNS := by
  induction pods generalizing t with
  | nil => exact ⟨rfl, rfl⟩
  | cons pod rest ih =>
    rw [foldl_cons, foldl_cons, foldl_cons]
    obtain ⟨stamps, orphans⟩ := ih (addPod c opts restartCounts t pod)
    rw [stamps, orphans]
    unfold addPod countUnder orphanOf
    cases resolvePodWorkloadID c opts pod with
    | none => exact ⟨rfl, rfl⟩
    | some workloadID => exact ⟨rfl, rfl⟩

/-- The summaries are the pods' counts under their workloads, the orphans' those under namespaces. -/
theorem tally_under : (tally c opts restartCounts).podSummaries =
      (inScopePods c opts).foldl (countUnder (resolvePodWorkloadID c opts)) (fun _ => none) ∧
    (tally c opts restartCounts).orphanByNS =
      (inScopePods c opts).foldl (countUnder (orphanOf c opts)) fun _ => none :=
  add_pods _ _

theorem stamps_counted : AllCounted (tally c opts restartCounts).podSummaries := by
  rw [tally_under.1]
  exact under_counted _ _

theorem orphans_counted : AllCounted (tally c opts restartCounts).orphanByNS := by
  rw [tally_under.2]
  exact under_counted _ _

theorem tally_stamps (id : String) : healthTotal (tally c opts restartCounts).podSummaries id =
    (inScopePods c opts).countP fun pod => decide (resolvePodWorkloadID c opts pod = some id) := by
  rw [tally_under.1, under_counts]
  exact Nat.zero_add _

theorem tally_orphans (ns : String) : healthTotal (tally c opts restartCounts).orphanByNS ns =
    (inScopePods c opts).countP fun pod => decide (orphanOf c opts pod = some ns) := by
  rw [tally_under.2, under_counts]
  exact Nat.zero_add _

/-- What holds a summary has a pod. -/
theorem counted_pod (counted : AllCounted summaries)
    {key : String} {label : Pod → Option String} {pods : List Pod}
    (total : healthTotal summaries key = pods.countP fun pod => decide (label pod = some key)) :
    (summaries key).isSome = true ↔ ∃ pod ∈ pods, label pod = some key := by
  rw [healthTotal] at total
  cases held : summaries key with
  | none =>
    rw [held] at total
    have nobody := countP_eq_zero.mp total.symm
    simpa using nobody
  | some s =>
    rw [held] at total
    have positive := (counted key s held).some_
    rw [show s.total = _ from total, countP_pos_iff] at positive
    simpa using positive

end Counts

section Places
variable {c : Cluster} {opts : BuildOptions}

/-- The ids of a kind other than replica sets are those of its own nodes. -/
theorem existing_count {kind : Kind} (shown : kind ≠ .replicaSet) (key : String) :
    (existingNodeIDs c opts).count (nodeID kind key) =
      ((kindNodes c opts kind).map Node.id).count (nodeID kind key) := by
  have other : ∀ kind', kind ≠ kind' →
      ((kindNodes c opts kind').map Node.id).count (nodeID kind key) = 0 := fun kind' differ =>
    count_eq_zero_of_not_mem (kind_id_other differ key)
  have early : (c.before.map Node.id).count (nodeID kind key) = 0 := by
    apply count_eq_zero_of_not_mem
    intro inside
    obtain ⟨n, listed, same⟩ := mem_map.mp inside
    exact (c.others_apart n (mem_append_left _ listed)).1 kind key same
  have late : ((if opts.includeReplicaSets then kindNodes c opts .replicaSet else []).map
      Node.id).count (nodeID kind key) = 0 := by
    cases opts.includeReplicaSets with
    | true => exact other .replicaSet shown
    | false => rfl
  simp only [existingNodeIDs, nodesBeforePods, map_append, count_append, early, late]
  cases kind with
  | replicaSet => exact absurd rfl shown
  | deployment => simp [other]
  | rollout => simp [other]
  | daemonSet => simp [other]
  | statefulSet => simp [other]
  | cronJob => simp [other]
  | job => simp [other]

/-- The id of a workload's node, and of no replica set's. -/
def WorkloadNode (c : Cluster) (opts : BuildOptions) (id : String) : Prop :=
  ∃ kind key, kind ≠ .replicaSet ∧ id = nodeID kind key ∧ id ∈ (kindNodes c opts kind).map Node.id

theorem kind_workload {kind : Kind} (shown : kind ≠ .replicaSet)
    (inside : id ∈ (kindNodes c opts kind).map Node.id) : WorkloadNode c opts id := by
  have listed := inside
  rw [kind_ids] at listed
  obtain ⟨w, _, same⟩ := mem_map.mp listed
  exact ⟨kind, w.key, shown, same.symm, inside⟩

theorem gated_workload {kind : Kind} {key id : String} (shown : kind ≠ .replicaSet)
    (gate : gated c opts kind key = some id) : WorkloadNode c opts id := by
  unfold gated at gate
  split at gate
  · rename_i existing
    cases gate
    rw [← count_pos_iff, existing_count shown key, count_pos_iff] at existing
    exact kind_workload shown existing
  · cases gate

theorem owner_workload {pod : Pod} {ref : OwnerReference}
    (owner : resolveOwner c opts pod ref = some (some id)) : WorkloadNode c opts id := by
  simp only [resolveOwner] at owner
  split at owner
  · have either := Option.some.inj owner
    cases first : replicaSetToDeployment c opts (ownerKey pod.namespace_ ref) with
    | some deployID =>
      rw [first] at either
      cases either
      exact kind_workload (by decide) (owner_map_node first)
    | none =>
      rw [first, Option.none_or] at either
      exact kind_workload (by decide) (owner_map_node either)
  · split at owner
    · exact gated_workload (by decide) (Option.some.inj owner)
    · split at owner
      · exact gated_workload (by decide) (Option.some.inj owner)
      · split at owner
        · exact kind_workload (by decide) (ids_node (Option.some.inj owner))
        · cases owner

theorem resolved_workload {pod : Pod}
    (found : resolvePodWorkloadID c opts pod = some id) : WorkloadNode c opts id := by
  obtain ⟨ref, _, owner⟩ := exists_of_findSome?_eq_some (Option.join_eq_some_iff.mp found)
  exact owner_workload owner

/-- With a filter that lists each namespace once a workload's id is there once. -/
theorem workload_once (once : (opts.namespaces.getD []).Nodup)
    (workload : WorkloadNode c opts id) : (existingNodeIDs c opts).count id = 1 := by
  obtain ⟨kind, key, shown, rfl, inside⟩ := workload
  rw [existing_count shown, kind_id_once once inside]

theorem orphan_id_apart (kind : Kind) (key ns : String) : "podgroup-orphans-" ++ ns ≠ nodeID kind key := by
  intro same
  have chars := congrArg String.toList same
  cases kind <;> simp [nodeID, Kind.lower] at chars

end Places

section Shown
variable {c : Cluster} {opts : BuildOptions} {restartCounts : Pod → List Int32}
  {order : List String}

theorem orphan_made (t : Tally) (order : List String) : ∀ orphan ∈ orphanNodes t order,
    ∃ ns summary, ns ∈ order ∧ t.orphanByNS ns = some summary ∧
      orphan = (createOrphanPodSummaryNode ns summary (t.orphanRestarts ns), summary) := by
  intro orphan inside
  obtain ⟨ns, listed, made⟩ := mem_filterMap.mp inside
  obtain ⟨summary, held, rfl⟩ := Option.map_eq_some_iff.mp made
  exact ⟨ns, summary, listed, held, rfl⟩

/-- The nodes of the view, in their order. -/
def viewNodes (c : Cluster) (opts : BuildOptions) (t : Tally) (order : List String) : List Node :=
  nodesBeforePods c opts ++ (orphanNodes t order).map (·.1) ++ c.after

theorem view_once (once : (opts.namespaces.getD []).Nodup) (t : Tally)
    (workload : WorkloadNode c opts id) :
    ((viewNodes c opts t order).map Node.id).count id = 1 := by
  have existing := workload_once once workload
  obtain ⟨kind, key, _, rfl, _⟩ := workload
  have orphans : (((orphanNodes t order).map (·.1)).map Node.id).count (nodeID kind key) = 0 := by
    apply count_eq_zero_of_not_mem
    intro inside
    rw [map_map] at inside
    obtain ⟨orphan, listed, same⟩ := mem_map.mp inside
    obtain ⟨ns, summary, _, _, rfl⟩ := orphan_made t order orphan listed
    exact orphan_id_apart kind key ns same
  have late : (c.after.map Node.id).count (nodeID kind key) = 0 := by
    apply count_eq_zero_of_not_mem
    intro inside
    obtain ⟨n, listed, same⟩ := mem_map.mp inside
    exact (c.others_apart n (mem_append_right _ listed)).1 kind key same
  rw [viewNodes, map_append, map_append, count_append, count_append, orphans, late]
  exact existing

theorem view_shows (t : Tally) (workload : WorkloadNode c opts id) :
    id ∈ (viewNodes c opts t order).map Node.id := by
  obtain ⟨kind, key, shown, rfl, inside⟩ := workload
  rw [← count_pos_iff, ← existing_count shown, count_pos_iff] at inside
  rw [viewNodes, map_append, map_append]
  exact mem_append_left _ (mem_append_left _ inside)

theorem view_nodes : (buildSummary c opts restartCounts order).nodes =
    (viewNodes c opts (tally c opts restartCounts) order).map fun node =>
      (node, (tally c opts restartCounts).podSummaries node.id) :=
  rfl

/-- What is stamped adds up to the pods that a workload is found for. -/
theorem stamped_total (once : (opts.namespaces.getD []).Nodup) :
    (buildSummary c opts restartCounts order).stampedTotal =
      (inScopePods c opts).countP fun pod => (resolvePodWorkloadID c opts pod).isSome := by
  have each : (buildSummary c opts restartCounts order).stampedTotal =
      (((viewNodes c opts (tally c opts restartCounts) order).map Node.id).map fun id =>
        healthTotal (tally c opts restartCounts).podSummaries id).sum := by
    rw [View.stampedTotal, view_nodes, map_map, map_map]
    rfl
  rw [each]
  simp only [tally_stamps]
  exact Partition.sum_fibres fun pod _ id found => view_once once _ (resolved_workload found)

theorem stamped_at (shown : id ∈ (viewNodes c opts (tally c opts restartCounts) order).map Node.id) :
    (buildSummary c opts restartCounts order).stampedAt id =
      healthTotal (tally c opts restartCounts).podSummaries id := by
  rw [View.stampedAt, view_nodes, find?_map]
  cases found : (viewNodes c opts (tally c opts restartCounts) order).find?
      ((fun node => node.1.id == id) ∘ fun node =>
        (node, (tally c opts restartCounts).podSummaries node.id)) with
  | none =>
    obtain ⟨node, listed, rfl⟩ := mem_map.mp shown
    exact absurd (beq_self_eq_true node.id) (find?_eq_none.mp found node listed)
  | some node =>
    have own := find?_some found
    rw [Function.comp_apply, beq_iff_eq] at own
    rw [← own]
    rfl

theorem stamped_by_id : (buildSummary c opts restartCounts order).stampedByID =
    (inScopePods c opts).countP fun pod => (resolvePodWorkloadID c opts pod).isSome := by
  have ids : (buildSummary c opts restartCounts order).nodes.map (·.1.id) =
      (viewNodes c opts (tally c opts restartCounts) order).map Node.id := by
    rw [view_nodes, map_map]
    rfl
  rw [View.stampedByID, ids, map_congr_left fun id shown => stamped_at (mem_dedup.mp shown)]
  simp only [tally_stamps]
  apply Partition.sum_fibres
  intro pod _ id found
  apply count_eq_one_of_mem (nodup_dedup _)
  rw [mem_dedup]
  exact view_shows _ (resolved_workload found)

/-- An orphan node shows what was summed up for its namespace. -/
theorem orphan_counts (t : Tally) (order : List String) : ((orphanNodes t order).map (·.2.total)).sum =
      (order.map fun ns => healthTotal t.orphanByNS ns).sum := by
  induction order with
  | nil => rfl
  | cons ns rest ih =>
    rw [map_cons, sum_cons, ← ih, orphanNodes, healthTotal]
    cases held : t.orphanByNS ns with
    | none =>
      rw [filterMap_cons_none (by rw [held]; rfl)]
      exact (Nat.zero_add _).symm
    | some summary =>
      rw [filterMap_cons_some (by rw [held]; rfl)]
      rfl

theorem orphan_total (visits : GoesOver order (tally c opts restartCounts).orphanByNS) :
    (buildSummary c opts restartCounts order).orphanTotal =
      (inScopePods c opts).countP fun pod => (orphanOf c opts pod).isSome := by
  rw [View.orphanTotal, buildSummary, orphan_counts]
  simp only [tally_orphans]
  apply Partition.sum_fibres
  intro pod inside ns own
  have held : ns ∈ order := by
    rw [visits.whole, counted_pod orphans_counted (tally_orphans ns)]
    exact ⟨pod, inside, own⟩
  exact count_eq_one_of_mem visits.once held

theorem resolved_or_orphan (pods : List Pod) :
    (pods.countP fun pod => (resolvePodWorkloadID c opts pod).isSome) +
      (pods.countP fun pod => (orphanOf c opts pod).isSome) = pods.length := by
  rw [length_eq_countP_add_countP (fun pod => (resolvePodWorkloadID c opts pod).isSome)]
  congr 1
  apply countP_congr
  intro pod _
  rw [orphanOf]
  cases resolvePodWorkloadID c opts pod <;> simp

theorem stamped_somewhere {s : PodSummary}
    (held : (tally c opts restartCounts).podSummaries id = some s) :
    ∃ kind, ∃ node ∈ kindNodes c opts kind, node.id = id ∧
      (node, some s) ∈ (buildSummary c opts restartCounts order).nodes := by
  have some_ : ((tally c opts restartCounts).podSummaries id).isSome = true := by rw [held]; rfl
  rw [counted_pod stamps_counted (tally_stamps id)] at some_
  obtain ⟨pod, _, found⟩ := some_
  obtain ⟨kind, key, shown, rfl, inside⟩ := resolved_workload found
  obtain ⟨node, listed, same⟩ := mem_map.mp inside
  refine ⟨kind, node, listed, same, ?_⟩
  have there : node ∈ nodesBeforePods c opts := by
    simp only [nodesBeforePods, mem_append]
    cases kind <;> simp_all
  refine mem_map.mpr ⟨node, ?_, by rw [same, held]⟩
  exact mem_append_left _ (mem_append_left _ there)

theorem orphan_unstamped (ns : String) :
    (tally c opts restartCounts).podSummaries ("podgroup-orphans-" ++ ns) = none := by
  cases held : (tally c opts restartCounts).podSummaries ("podgroup-orphans-" ++ ns) with
  | none => rfl
  | some s =>
    have some_ : ((tally c opts restartCounts).podSummaries ("podgroup-orphans-" ++ ns)).isSome = true := by
      rw [held]
      rfl
    rw [counted_pod stamps_counted (tally_stamps _)] at some_
    obtain ⟨pod, _, found⟩ := some_
    obtain ⟨kind, key, _, same, _⟩ := resolved_workload found
    exact absurd same (orphan_id_apart kind key ns)

theorem orphan_ids {t : Tally} {ns : String} {x : Node × PodSummary}
    (made : ((t.orphanByNS ns).map fun summary =>
      (createOrphanPodSummaryNode ns summary (t.orphanRestarts ns), summary)) = some x) :
    x.1.id = "podgroup-orphans-" ++ ns := by
  obtain ⟨_, _, rfl⟩ := Option.map_eq_some_iff.mp made
  rfl

theorem orphans_apart {t : Tally} (once : order.Nodup) : ((orphanNodes t order).map (·.1.id)).Nodup := by
  rw [List.Nodup, pairwise_map, orphanNodes, pairwise_filterMap]
  refine once.imp ?_
  intro a b differ x made y made' same
  rw [orphan_ids made, orphan_ids made', String.append_right_inj] at same
  exact differ same

end Shown

/-- Every pod in scope is counted once, under a node that the graph shows. -/
theorem no_pod_lost (c : Cluster) (opts : BuildOptions) (restartCounts : Pod → List Int32)
    (order : List String) (visits : GoesOver order (tally c opts restartCounts).orphanByNS) :
    NoPodLost c opts (buildSummary c opts restartCounts order) where
  total := by
    rw [stamped_by_id, orphan_total visits, resolved_or_orphan]
  listed := by
    intro once
    rw [stamped_total once, orphan_total visits, resolved_or_orphan]
  split := fun id s held => (stamps_counted id s held).balanced
  stamped := fun _ _ held => stamped_somewhere held
  summed := by
    intro node s shown
    obtain ⟨plain, _, same⟩ := mem_map.mp shown
    obtain ⟨rfl, held⟩ := Prod.mk.inj same
    exact held
  orphans := by
    intro orphan inside
    obtain ⟨ns, summary, _, held, rfl⟩ := orphan_made _ _ orphan inside
    refine ⟨?_, (orphans_counted ns summary held).balanced⟩
    refine mem_map.mpr ⟨_, ?_, congrArg (Prod.mk _) (orphan_unstamped ns)⟩
    exact mem_append_left _ (mem_append_right _ (mem_map.mpr ⟨_, inside, rfl⟩))
  perNamespace := orphans_apart visits.once

section Shop

theorem plain_shop : '/' ∉ "shop".toList := by decide

theorem plain_agent : '/' ∉ "agent".toList := by decide

theorem plain_agent_pod : '/' ∉ "agent-x1".toList := by decide

theorem plain_debug : '/' ∉ "debug".toList := by decide

def agents : Workload where
  namespace_ := "shop"
  name := "agent"
  ownerReferences := []
  status := .healthy
  data := []
  namespace_slashless := plain_shop
  name_slashless := plain_agent

theorem agent_owner : ∀ ref ∈ [(⟨"DaemonSet", "agent", some true⟩ : OwnerReference)],
    '/' ∉ ref.kind.toList ∧ '/' ∉ ref.name.toList := by
  decide

/-- A pod of a daemon set, and one that nothing owns. -/
def agentPod : Pod :=
  ⟨"shop", "agent-x1", [], [⟨"DaemonSet", "agent", some true⟩], "Running", "n1", [], plain_shop,
    plain_agent_pod, by simp, agent_owner⟩

def debugPod : Pod :=
  ⟨"shop", "debug", [], [], "Pending", "n1", [], plain_shop, plain_debug, by simp, by simp⟩

theorem pods_apart : [agentPod, debugPod].Pairwise fun p q =>
    (p.namespace_, p.name) ≠ (q.namespace_, q.name) := by
  decide

def shop : Cluster where
  deployments := []
  rollouts := []
  daemonsets := [agents]
  statefulsets := []
  cronjobs := []
  jobs := []
  replicasets := []
  podList := ⟨[agentPod, debugPod], pods_apart⟩
  before := []
  after := []
  deployments_distinct := nil_distinct
  rollouts_distinct := nil_distinct
  daemonsets_distinct := single_distinct agents
  statefulsets_distinct := nil_distinct
  cronjobs_distinct := nil_distinct
  jobs_distinct := nil_distinct
  replicasets_distinct := nil_distinct
  others_apart := no_others

def shopView : BuildOptions := { defaultBuildOptions with namespaces := some ["shop"], summaryMode := true }

theorem shop_orphans (ns : String) :
    ((tally shop shopView fun _ => [2]).orphanByNS ns).isSome = true ↔ ns = "shop" := by
  rw [counted_pod orphans_counted (tally_orphans ns)]
  have pods : inScopePods shop shopView = [agentPod, debugPod] := rfl
  have agent : orphanOf shop shopView agentPod = none := by decide
  have debug : orphanOf shop shopView debugPod = some "shop" := by decide
  simp [pods, agent, debug, eq_comm]

theorem shop_pods_kept : NoPodLost shop shopView (buildSummary shop shopView (fun _ => [2]) ["shop"]) := by
  refine no_pod_lost shop shopView (fun _ => [2]) ["shop"] ⟨by decide, ?_⟩
  intro ns
  rw [mem_singleton, shop_orphans]

end Shop

end SummaryMode
