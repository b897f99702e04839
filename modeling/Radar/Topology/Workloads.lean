import Radar.Topology.PodGrouping

/- The workloads of the resources view of pkg/topology/builder.go: their nodes and the maps that lead
   from a pod's owner to them. -/
namespace Workloads
open Topology GoText PodGrouping List

/-- A workload; `status` and `data` are what its node shows of it besides its namespace. Kubernetes
   lets no slash into namespaces and names. -/
structure Workload where
  namespace_ : String
  name : String
  ownerReferences : List OwnerReference
  status : HealthStatus
  data : List (String × DataValue)
  namespace_slashless : '/' ∉ namespace_.toList
  name_slashless : '/' ∉ name.toList

variable {ws : List Workload}

structure ReplicaSet extends Workload where
  replicas : Option Int

def Workload.key (w : Workload) : String := w.namespace_ ++ "/" ++ w.name

/-- The kinds of workloads, with the first part of their nodes' ids. -/
inductive Kind where
  | deployment | rollout | daemonSet | statefulSet | cronJob | job | replicaSet
  deriving DecidableEq

def Kind.text : Kind → String
  | .deployment => "Deployment"
  | .rollout => "Rollout"
  | .daemonSet => "DaemonSet"
  | .statefulSet => "StatefulSet"
  | .cronJob => "CronJob"
  | .job => "Job"
  | .replicaSet => "ReplicaSet"

def Kind.lower : Kind → String
  | .deployment => "deployment"
  | .rollout => "rollout"
  | .daemonSet => "daemonset"
  | .statefulSet => "statefulset"
  | .cronJob => "cronjob"
  | .job => "job"
  | .replicaSet => "replicaset"

def nodeID (kind : Kind) (key : String) : String := kind.lower ++ "/" ++ key

def Workload.node (kind : Kind) (w : Workload) : Node where
  id := nodeID kind w.key
  kind := kind.text
  name := w.name
  status := w.status
  data := some (("namespace", .text w.namespace_) :: w.data)

def Distinct (ws : List Workload) : Prop := (ws.map fun w => (w.namespace_, w.name)).Nodup

/-- The objects of the cache, each once, and the nodes that the other sections of the builder make
   before and after those of the workloads, under ids of their own. -/
structure Cluster where
  deployments : List Workload
  rollouts : List Workload
  daemonsets : List Workload
  statefulsets : List Workload
  cronjobs : List Workload
  jobs : List Workload
  replicasets : List ReplicaSet
  podList : PodList
  before : List Node
  after : List Node
  deployments_distinct : Distinct deployments
  rollouts_distinct : Distinct rollouts
  daemonsets_distinct : Distinct daemonsets
  statefulsets_distinct : Distinct statefulsets
  cronjobs_distinct : Distinct cronjobs
  jobs_distinct : Distinct jobs
  replicasets_distinct : Distinct (replicasets.map ReplicaSet.toWorkload)
  others_apart : ∀ n ∈ before ++ after, (∀ kind key, n.id ≠ nodeID kind key) ∧
    (∀ ns, n.id ≠ "podgroup-orphans-" ++ ns)

theorem nil_distinct : Distinct [] := nodup_nil

theorem single_distinct (w : Workload) : Distinct [w] := nodup_singleton _

theorem no_others : ∀ n ∈ ([] : List Node) ++ [], (∀ kind key, n.id ≠ nodeID kind key) ∧
    (∀ ns, n.id ≠ "podgroup-orphans-" ++ ns) := by
  simp

section Maps
variable (c : Cluster) (opts : BuildOptions)

def inView (ws : List Workload) : List Workload :=
  ws.filter fun w => opts.matchesNamespaceFilter w.namespace_

/-- ListNamespaces of the dynamic cache: everything, or the union over the namespaces listed. -/
def listNamespaces (namespaces : Option (List String)) (ws : List Workload) : List Workload :=
  let names := namespaces.getD []
  if names.length = 0 then ws
  else names.flatMap fun ns => ws.filter fun w => w.namespace_ == ns

/-- Replica sets with nothing to run are skipped. -/
def active (rs : ReplicaSet) : Bool := !(rs.replicas == some 0)

def activeReplicaSets : List Workload :=
  inView opts ((c.replicasets.filter active).map ReplicaSet.toWorkload)

/-- The workloads of a kind that the builder goes over. -/
def Cluster.listed : Kind → List Workload
  | .deployment => inView opts c.deployments
  | .rollout => inView opts (listNamespaces opts.namespaces c.rollouts)
  | .daemonSet => inView opts c.daemonsets
  | .statefulSet => inView opts c.statefulsets
  | .cronJob => inView opts c.cronjobs
  | .job => inView opts c.jobs
  | .replicaSet => activeReplicaSets c opts

/-- All the objects of a kind. -/
def Cluster.objects : Kind → List Workload
  | .deployment => c.deployments
  | .rollout => c.rollouts
  | .daemonSet => c.daemonsets
  | .statefulSet => c.statefulsets
  | .cronJob => c.cronjobs
  | .job => c.jobs
  | .replicaSet => c.replicasets.map ReplicaSet.toWorkload

/-- The map from namespace and name to the ids of a kind: deploymentIDs, rolloutIDs, jobIDs and the
   like. -/
def ids (kind : Kind) (key : String) : Option String :=
  ((c.listed opts kind).find? fun w => w.key == key).map fun w => nodeID kind w.key

def ownerKey (ns : String) (ref : OwnerReference) : String := ns ++ "/" ++ ref.name

/-- The id of the last owner of a kind that is found. -/
def lastOwner (kind : Kind) (w : Workload) : Option String := (w.ownerReferences.filterMap fun ref =>
    if ref.kind = kind.text then ids c opts kind (ownerKey w.namespace_ ref) else none).getLast?

/-- A map from namespace and name to the owner last written for them. -/
def ownerMap (owned owner : Kind) (key : String) : Option String :=
  (c.listed opts owned).reverse.findSome? fun w => if w.key = key then lastOwner c opts owner w else none

def jobIDs : String → Option String := ids c opts .job
def replicaSetIDs : String → Option String := ids c opts .replicaSet
def replicaSetToDeployment : String → Option String := ownerMap c opts .replicaSet .deployment
def replicaSetToRollout : String → Option String := ownerMap c opts .replicaSet .rollout
def jobToCronJob : String → Option String := ownerMap c opts .job .cronJob

def kindNodes (kind : Kind) : List Node := (c.listed opts kind).map (Workload.node kind)

/-- The nodes there are when the builder comes to the pods. -/
def nodesBeforePods : List Node := kindNodes c opts .deployment ++ kindNodes c opts .rollout ++ c.before ++
    kindNodes c opts .daemonSet ++ kindNodes c opts .statefulSet ++ kindNodes c opts .cronJob ++
    kindNodes c opts .job ++ if opts.includeReplicaSets then kindNodes c opts .replicaSet else []

end Maps

section Keys

theorem kind_text_inj {a b : Kind} (same : a.text = b.text) : a = b := by
  cases a <;> cases b <;> simp_all [Kind.text]

theorem lower_slashless (kind : Kind) : '/' ∉ kind.lower.toList := by
  cases kind <;> decide

theorem lower_inj {a b : Kind} (same : a.lower = b.lower) : a = b := by
  cases a <;> cases b <;> simp_all [Kind.lower]

theorem slash_inj {a b x y : String} (plain : '/' ∉ a.toList) (plain' : '/' ∉ b.toList)
    (same : a ++ "/" ++ x = b ++ "/" ++ y) : a = b ∧ x = y := by
  have chars := congrArg String.toList same
  have slash : "/".toList = ['/'] := rfl
  simp only [String.toList_append, append_assoc, slash, singleton_append] at chars
  obtain ⟨before, after⟩ := sep_inj plain plain' chars
  exact ⟨String.toList_inj.mp before, String.toList_inj.mp after⟩

theorem node_id_inj {a b : Kind} {x y : String} (same : nodeID a x = nodeID b y) : a = b ∧ x = y := by
  obtain ⟨kinds, keys⟩ := slash_inj (lower_slashless a) (lower_slashless b) same
  exact ⟨lower_inj kinds, keys⟩

theorem key_inj {v w : Workload} (same : v.key = w.key) :
    (v.namespace_, v.name) = (w.namespace_, w.name) := by
  obtain ⟨namespaces, names⟩ := slash_inj v.namespace_slashless w.namespace_slashless same
  rw [namespaces, names]

/-- Distinct workloads have distinct keys. -/
theorem keys_nodup (distinct : Distinct ws) : (ws.map Workload.key).Nodup := by
  rw [Distinct, List.Nodup, pairwise_map] at distinct
  rw [List.Nodup, pairwise_map]
  exact distinct.imp fun apart same => apart (key_inj same)

end Keys

section Lookup
variable {c : Cluster} {opts : BuildOptions} {kind : Kind} {key id : String} {owned owner : Kind}
variable {w : Workload}

theorem ids_iff : ids c opts kind key = some id ↔
    id = nodeID kind key ∧ ∃ w ∈ c.listed opts kind, w.key = key := by
  rw [ids, Option.map_eq_some_iff]
  constructor
  · rintro ⟨w, found, rfl⟩
    have own := find?_some found
    rw [beq_iff_eq] at own
    exact ⟨by rw [own], w, mem_of_find?_eq_some found, own⟩
  · rintro ⟨rfl, w, member, own⟩
    cases found : (c.listed opts kind).find? fun w => w.key == key with
    | none =>
      have missed := find?_eq_none.mp found w member
      exact absurd (beq_iff_eq.mpr own) missed
    | some v =>
      have same := find?_some found
      rw [beq_iff_eq] at same
      exact ⟨v, rfl, by rw [same]⟩

/-- A workload's id is in the map of its kind. -/
theorem ids_of (member : w ∈ c.listed opts kind) : ids c opts kind w.key = some (nodeID kind w.key) :=
  ids_iff.mpr ⟨rfl, w, member, rfl⟩

theorem ids_node (found : ids c opts kind key = some id) : id ∈ (kindNodes c opts kind).map Node.id := by
  obtain ⟨rfl, w, member, rfl⟩ := ids_iff.mp found
  rw [kindNodes, map_map]
  exact mem_map.mpr ⟨w, member, rfl⟩

theorem last_owner_some {owner : Kind} (found : lastOwner c opts owner w = some id) :
    ∃ ref ∈ w.ownerReferences, ref.kind = owner.text ∧
      ids c opts owner (ownerKey w.namespace_ ref) = some id := by
  have member := mem_of_getLast? found
  obtain ⟨ref, listed, own⟩ := mem_filterMap.mp member
  by_cases same : ref.kind = owner.text
  · rw [if_pos same] at own
    exact ⟨ref, listed, same, own⟩
  · rw [if_neg same] at own
    cases own

theorem owner_map_some (found : ownerMap c opts owned owner key = some id) :
    ∃ w ∈ c.listed opts owned, w.key = key ∧ lastOwner c opts owner w = some id := by
  obtain ⟨w, member, own⟩ := exists_of_findSome?_eq_some found
  by_cases same : w.key = key
  · rw [if_pos same] at own
    exact ⟨w, mem_reverse.mp member, same, own⟩
  · rw [if_neg same] at own
    cases own

/-- Where keys are distinct, the map holds what the one workload of the key has for owner. -/
theorem owner_map_of (distinct : ((c.listed opts owned).map Workload.key).Nodup)
    (member : w ∈ c.listed opts owned) :
    ownerMap c opts owned owner w.key = lastOwner c opts owner w := by
  cases found : ownerMap c opts owned owner w.key with
  | some id =>
    obtain ⟨v, listed, same, own⟩ := owner_map_some found
    rw [← inj_on_of_nodup_map distinct listed member same, own]
  | none =>
    have none_ := findSome?_eq_none_iff.mp found w (mem_reverse.mpr member)
    rw [if_pos rfl] at none_
    exact none_.symm

theorem owner_map_node (found : ownerMap c opts owned owner key = some id) :
    id ∈ (kindNodes c opts owner).map Node.id := by
  obtain ⟨w, _, _, own⟩ := owner_map_some found
  obtain ⟨ref, _, _, there⟩ := last_owner_some own
  exact ids_node there

end Lookup

section Nodes
variable {c : Cluster} {opts : BuildOptions}

theorem in_view_distinct (distinct : Distinct ws) : Distinct (inView opts ws) :=
  distinct.sublist (filter_sublist.map _)

theorem listed_distinct (distinct : Distinct ws)
    {names : Option (List String)} (once : (names.getD []).Nodup) :
    Distinct (listNamespaces names ws) := by
  rw [listNamespaces]
  by_cases all : (names.getD []).length = 0
  · rw [if_pos all]
    exact distinct
  · rw [if_neg all, Distinct, map_flatMap, nodup_flatMap]
    constructor
    · intro ns _
      exact distinct.sublist (filter_sublist.map _)
    · refine once.imp ?_
      intro a b differ pair inside inside'
      obtain ⟨v, member, rfl⟩ := mem_map.mp inside
      obtain ⟨w, member', same⟩ := mem_map.mp inside'
      have own := beq_iff_eq.mp (mem_filter.mp member).2
      have own' := beq_iff_eq.mp (mem_filter.mp member').2
      exact differ (own.symm.trans ((Prod.mk.inj same).1.symm.trans own'))

/-- Kinds of typed listers go over each workload once. -/
theorem typed_distinct {kind : Kind} (typed : kind ≠ .rollout) : Distinct (c.listed opts kind) := by
  cases kind with
  | deployment => exact in_view_distinct c.deployments_distinct
  | rollout => exact absurd rfl typed
  | daemonSet => exact in_view_distinct c.daemonsets_distinct
  | statefulSet => exact in_view_distinct c.statefulsets_distinct
  | cronJob => exact in_view_distinct c.cronjobs_distinct
  | job => exact in_view_distinct c.jobs_distinct
  | replicaSet =>
    apply in_view_distinct
    exact c.replicasets_distinct.sublist ((filter_sublist.map _).map _)

/-- With a filter that lists each namespace once so do all kinds. -/
theorem kinds_distinct (once : (opts.namespaces.getD []).Nodup) (kind : Kind) :
    Distinct (c.listed opts kind) := by
  by_cases typed : kind = .rollout
  · subst typed
    exact in_view_distinct (listed_distinct c.rollouts_distinct once)
  · exact typed_distinct typed

theorem kind_ids (kind : Kind) : (kindNodes c opts kind).map Node.id =
    (c.listed opts kind).map fun w => nodeID kind w.key := by
  rw [kindNodes, map_map]
  rfl

theorem kind_id_other {kind other : Kind} (differ : kind ≠ other) (key : String) :
    nodeID kind key ∉ (kindNodes c opts other).map Node.id := by
  rw [kind_ids]
  intro inside
  obtain ⟨w, _, same⟩ := mem_map.mp inside
  exact differ (node_id_inj same).1.symm

theorem kind_id_once (once : (opts.namespaces.getD []).Nodup) {kind : Kind}
    {key : String} (there : nodeID kind key ∈ (kindNodes c opts kind).map Node.id) :
    ((kindNodes c opts kind).map Node.id).count (nodeID kind key) = 1 := by
  have keys := keys_nodup (kinds_distinct (c := c) once kind)
  have nodup : ((kindNodes c opts kind).map Node.id).Nodup := by
    rw [kind_ids]
    rw [List.Nodup, pairwise_map] at keys ⊢
    exact keys.imp fun apart same => apart (node_id_inj same).2
  exact count_eq_one_of_mem nodup there

end Nodes

end Workloads
