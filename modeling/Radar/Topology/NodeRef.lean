import Radar.Base.GoText
import Radar.Base.LockStep
import Radar.Topology.Types

/- How a resource reference finds its node: buildNodeID of pkg/topology/relationships.go and
   findNodeByRef of pkg/topology/neighborhood.go. -/
namespace NodeRef
open Topology GoText List

structure ResourceRef where
  kind : String
  namespace_ : String
  name : String
  group : String
  deriving DecidableEq, Repr

/-- strings.ToLower and strings.EqualFold. -/
structure Casing where
  toLower : String → String
  equalFold : String → String → Bool

/-- A DynamicProvider, as the kind its discovery gives a lower-case resource name. -/
abbrev DynamicProvider := String → Option String

def kindMap : List (String × String) :=
  [("pods", "pod"), ("services", "service"), ("deployments", "deployment"),
    ("rollouts", "rollout"), ("daemonsets", "daemonset"), ("statefulsets", "statefulset"),
    ("replicasets", "replicaset"), ("ingresses", "ingress"), ("gateways", "gateway"),
    ("httproutes", "httproute"), ("grpcroutes", "grpcroute"), ("tcproutes", "tcproute"),
    ("tlsroutes", "tlsroute"), ("configmaps", "configmap"), ("secrets", "secret"),
    ("horizontalpodautoscalers", "horizontalpodautoscaler"), ("jobs", "job"),
    ("cronjobs", "cronjob"), ("persistentvolumeclaims", "persistentvolumeclaim"),
    ("applications", "application"), ("kustomizations", "kustomization"),
    ("helmreleases", "helmrelease"), ("gitrepositories", "gitrepository"),
    ("certificates", "certificate"), ("issuers", "issuer"), ("clusterissuers", "clusterissuer"),
    ("nodepools", "nodepool"), ("nodeclaims", "nodeclaim"), ("nodeclasses", "nodeclass"),
    ("ec2nodeclasses", "nodeclass"), ("aksnodeclasses", "nodeclass"),
    ("gcenodeclasses", "nodeclass"), ("scaledobjects", "scaledobject"),
    ("scaledjobs", "scaledjob"), ("gatewayclasses", "gatewayclass"),
    ("virtualservices", "virtualservice"), ("destinationrules", "destinationrule"),
    ("istiogateways", "istiogateway"), ("serviceentries", "serviceentry"),
    ("peerauthentications", "peerauthentication"),
    ("authorizationpolicies", "authorizationpolicy"), ("knativeservices", "knativeservice"),
    ("configurations", "knativeconfiguration"), ("revisions", "knativerevision"),
    ("routes", "knativeroute"), ("brokers", "broker"), ("triggers", "trigger"),
    ("pingsources", "pingsource"), ("apiserversources", "apiserversource"),
    ("containersources", "containersource"), ("sinkbindings", "sinkbinding"),
    ("channels", "channel"), ("ingressroutes", "ingressroute"),
    ("ingressroutetcps", "ingressroutetcp"), ("ingressrouteudps", "ingressrouteudp"),
    ("middlewares", "middleware"), ("middlewaretcps", "middlewaretcp"),
    ("traefikservices", "traefikservice"), ("serverstransports", "serverstransport"),
    ("serverstransporttcps", "serverstransporttcp"), ("tlsoptions", "tlsoption"),
    ("tlsstores", "tlsstore"), ("httpproxies", "httpproxy"),
    ("persistentvolumes", "persistentvolume"), ("pvs", "persistentvolume"),
    ("storageclasses", "storageclass"), ("poddisruptionbudgets", "poddisruptionbudget"),
    ("pdbs", "poddisruptionbudget"), ("networkpolicies", "networkpolicy"),
    ("netpol", "networkpolicy"), ("ciliumnetworkpolicies", "ciliumnetworkpolicy"),
    ("ciliumclusterwidenetworkpolicies", "ciliumclusterwidenetworkpolicy"),
    ("clusternetworkpolicies", "clusternetworkpolicy"),
    ("verticalpodautoscalers", "verticalpodautoscaler"), ("vpas", "verticalpodautoscaler"),
    ("nodes", "node"), ("clusterclasses", "clusterclass"), ("machines", "machine"),
    ("machinesets", "machineset"), ("machinedeployments", "machinedeployment"),
    ("machinepools", "machinepool"), ("kubeadmcontrolplanes", "kubeadmcontrolplane"),
    ("machinehealthchecks", "machinehealthcheck"), ("resourceclaims", "resourceclaim"),
    ("resourceclaimtemplates", "resourceclaimtemplate"), ("deviceclasses", "deviceclass"),
    ("resourceslices", "resourceslice")]

def getResourceByName (dp : DynamicProvider) (pluralName : String) : Option String :=
  match dp pluralName with
  | none => none
  | some kind => if kind = "" then none else some kind

def singularKind (casing : Casing) (dp : Option DynamicProvider) (kind : String) : String :=
  let k := casing.toLower kind
  match kindMap.lookup k with
  | some singular => singular
  | none => match dp.bind fun dp => getResourceByName dp k with
    | some res => casing.toLower res
    | none => k

def buildNodeID (casing : Casing) (dp : Option DynamicProvider)
    (kind namespace_ name : String) : String :=
  singularKind casing dp kind ++ "/" ++ namespace_ ++ "/" ++ name

def pseudoKindFor (casing : Casing) (kind group : String) : String := let k := casing.toLower kind
  if group = "serving.knative.dev" then
    if k ∈ ["service", "services"] then "KnativeService"
    else if k ∈ ["configuration", "configurations"] then "KnativeConfiguration"
    else if k ∈ ["revision", "revisions"] then "KnativeRevision"
    else if k ∈ ["route", "routes"] then "KnativeRoute"
    else kind
  else if group = "cluster.x-k8s.io" then
    if k ∈ ["cluster", "clusters"] then "CAPICluster" else kind
  else if group = "networking.istio.io" then
    if k ∈ ["gateway", "gateways"] then "IstioGateway" else kind
  else kind

def dataString (n : Node) (key : String) : String := match (n.data.getD []).lookup key with
  | some (.text s) => s
  | _ => ""

def nodeNamespaceFromData (n : Node) : String := dataString n "namespace"

def apiVersionGroup (apiVersion : String) : String := match cut '/' apiVersion with
  | some (group, _) => group
  | none => ""

def nodeAPIGroupFromData (n : Node) : String := apiVersionGroup (dataString n "apiVersion")

/-- The conditions that do not `continue` past a node. -/
def matchesRef (casing : Casing) (ref : ResourceRef) (n : Node) : Bool :=
  (casing.equalFold n.kind (pseudoKindFor casing ref.kind ref.group) || casing.equalFold n.kind ref.kind) &&
  n.name == ref.name && nodeNamespaceFromData n == ref.namespace_ &&
  (ref.group == "" || nodeAPIGroupFromData n == ref.group)

inductive Found where
  | missing
  | ambiguous
  | node (n : Node)
  deriving DecidableEq, Repr

/-- The first node that matches makes the group; a later one of another group is ambiguous. -/
def findLoop (casing : Casing) (ref : ResourceRef) : Option Node → List Node → Found
  | none, [] => .missing
  | some m, [] => .node m
  | found, n :: rest =>
    if matchesRef casing ref n then
      match found with
      | none => findLoop casing ref (some n) rest
      | some m =>
        if nodeAPIGroupFromData n ≠ nodeAPIGroupFromData m then .ambiguous
        else findLoop casing ref (some n) rest
    else findLoop casing ref found rest

def findNodeByRef (casing : Casing) (nodes : List Node) (ref : ResourceRef) : Found :=
  findLoop casing ref none nodes

/-- All of the nodes are of one API group. -/
def OneGroup (nodes : List Node) : Prop :=
  ∀ a ∈ nodes, ∀ b ∈ nodes, nodeAPIGroupFromData a = nodeAPIGroupFromData b

instance (nodes : List Node) : Decidable (OneGroup nodes) :=
  inferInstanceAs (Decidable (∀ a ∈ nodes, ∀ b ∈ nodes, nodeAPIGroupFromData a = nodeAPIGroupFromData b))

def lastFound (nodes : List Node) : Found := match nodes.getLast? with
  | none => .missing
  | some n => .node n

section Find
variable {casing : Casing} {ref : ResourceRef} {nodes : List Node}

theorem one_group_filter (one : OneGroup nodes) (keep : Node → Bool) : OneGroup (nodes.filter keep) :=
  fun a first b second => one a (mem_of_mem_filter first) b (mem_of_mem_filter second)

theorem find_loop_skip {n : Node} (miss : ¬ matchesRef casing ref n = true)
    (found : Option Node) (rest : List Node) :
    findLoop casing ref found (n :: rest) = findLoop casing ref found rest := by
  cases found <;> simp [findLoop, miss]

/-- The loop looks at the nodes that match only. -/
theorem find_loop_filter (found : Option Node) (nodes : List Node) : findLoop casing ref found nodes =
      findLoop casing ref found (nodes.filter (matchesRef casing ref)) := by
  induction nodes generalizing found with
  | nil => rfl
  | cons n rest ih =>
    by_cases hit : matchesRef casing ref n = true
    · rw [filter_cons_of_pos hit]
      cases found <;> simp only [findLoop, hit, if_true, ih]
    · rw [filter_cons_of_neg hit, find_loop_skip hit, ih]

theorem find_loop_agree {m : Node}
    (hits : ∀ n ∈ nodes, matchesRef casing ref n = true) (one : OneGroup (m :: nodes)) :
    findLoop casing ref (some m) nodes = lastFound (m :: nodes) := by
  induction nodes generalizing m with
  | nil => rfl
  | cons n rest ih =>
    have hit := hits n mem_cons_self
    have same : nodeAPIGroupFromData n = nodeAPIGroupFromData m := one n (by simp) m (by simp)
    have later := ih (m := n) (fun k member => hits k (mem_cons_of_mem n member))
      (fun a first b second => one a (by simp_all) b (by simp_all))
    simp only [findLoop, hit, if_true, same, ne_eq, not_true_eq_false, if_false, later]
    rfl

theorem find_loop_disagree {m : Node}
    (hits : ∀ n ∈ nodes, matchesRef casing ref n = true) (mixed : ¬ OneGroup (m :: nodes)) :
    findLoop casing ref (some m) nodes = .ambiguous := by
  induction nodes generalizing m with
  | nil =>
    refine absurd ?_ mixed
    intro a first b second
    rw [mem_singleton.mp first, mem_singleton.mp second]
  | cons n rest ih =>
    have hit := hits n mem_cons_self
    simp only [findLoop, hit, if_true]
    by_cases same : nodeAPIGroupFromData n = nodeAPIGroupFromData m
    · simp only [same, ne_eq, not_true_eq_false, if_false]
      apply ih fun k member => hits k (mem_cons_of_mem n member)
      intro one
      apply mixed
      have toN : ∀ a ∈ m :: n :: rest, nodeAPIGroupFromData a = nodeAPIGroupFromData n := by
        intro a member
        rcases mem_cons.mp member with first | later
        · rw [first, same]
        · exact one a later n mem_cons_self
      intro a first b second
      rw [toN a first, toN b second]
    · simp only [same, ne_eq, not_false_eq_true, if_true]

theorem find_of_one_group (one : OneGroup (nodes.filter (matchesRef casing ref))) :
    findNodeByRef casing nodes ref = lastFound (nodes.filter (matchesRef casing ref)) := by
  unfold findNodeByRef
  rw [find_loop_filter]
  have hits : ∀ n ∈ nodes.filter (matchesRef casing ref), matchesRef casing ref n = true :=
    fun n member => (mem_filter.mp member).2
  cases same : nodes.filter (matchesRef casing ref) with
  | nil => rfl
  | cons n rest =>
    rw [same] at hits one
    simp only [findLoop, hits n mem_cons_self, if_true]
    exact find_loop_agree (fun k member => hits k (mem_cons_of_mem n member)) one

theorem find_of_mixed (mixed : ¬ OneGroup (nodes.filter (matchesRef casing ref))) :
    findNodeByRef casing nodes ref = .ambiguous := by
  unfold findNodeByRef
  rw [find_loop_filter]
  have hits : ∀ n ∈ nodes.filter (matchesRef casing ref), matchesRef casing ref n = true :=
    fun n member => (mem_filter.mp member).2
  cases same : nodes.filter (matchesRef casing ref) with
  | nil => exact absurd (by rw [same]; intro a member; simp at member) mixed
  | cons n rest =>
    rw [same] at hits mixed
    simp only [findLoop, hits n mem_cons_self, if_true]
    exact find_loop_disagree (fun k member => hits k (mem_cons_of_mem n member)) mixed

theorem last_found_mem {n : Node} (last : lastFound nodes = .node n) : n ∈ nodes := by
  unfold lastFound at last
  split at last
  · contradiction
  · rename_i m present
    cases last
    exact mem_of_getLast? present

/-- Dropping nodes changes the last one only if it is dropped itself. -/
theorem last_found_filter {keep : Node → Bool}
    (kept : ∀ n, lastFound nodes = .node n → keep n = true) :
    lastFound (nodes.filter keep) = lastFound nodes := by
  cases last : nodes.getLast? with
  | none =>
    rw [getLast?_eq_none_iff.mp last]
    rfl
  | some n =>
    have found : lastFound nodes = .node n := by simp [lastFound, last]
    have same := LockStep.getLast?_filter last (kept n found)
    rw [found]
    simp [lastFound, same]

end Find

end NodeRef
