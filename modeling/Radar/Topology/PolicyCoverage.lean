import Radar.Base.LabelSelector
import Radar.Topology.NodeRef

/- pkg/topology/builder.go: the workloads and the policies of the resources view, the edges between
   them and the badge of each workload. The graph's other nodes and edges are left out. -/
namespace PolicyCoverage
open Topology NodeRef LabelSelector GoText

/-- A namespaced object. Kubernetes lets no slash into a namespace. -/
structure ObjectMeta where
  namespace_ : String
  name : String
  named : namespace_ ≠ ""
  slashless : '/' ∉ namespace_.toList

inductive WorkloadKind where
  | deployment | statefulSet | daemonSet
  deriving DecidableEq

def WorkloadKind.nodeKind : WorkloadKind → String
  | .deployment => "Deployment"
  | .statefulSet => "StatefulSet"
  | .daemonSet => "DaemonSet"

def WorkloadKind.idPrefix : WorkloadKind → String
  | .deployment => "deployment"
  | .statefulSet => "statefulset"
  | .daemonSet => "daemonset"

/-- `data` is what the node shows of the workload besides its namespace. -/
structure Workload where
  metadata : ObjectMeta
  templateLabels : Labels
  status : HealthStatus
  data : List (String × DataValue)

structure PodDisruptionBudget where
  metadata : ObjectMeta
  selector : Option Selector
  disruptionsAllowed : Int
  currentHealthy : Int
  desiredHealthy : Int

structure NetworkPolicy where
  metadata : ObjectMeta
  podSelector : Selector
  policyTypes : List String

/-- The values of the matchLabels may be something other than texts. -/
structure EndpointSelector where
  matchLabels : List (String × Option String)
  matchExpressions : List Requirement

structure CiliumNetworkPolicy where
  metadata : ObjectMeta
  endpointSelector : Option EndpointSelector
  apiVersion : String

/-- Objects of one kind differ in namespace or name. Selectors are as the API server admits them:
none fails to parse. -/
structure Cluster where
  workloads : WorkloadKind → List Workload
  pdbs : List PodDisruptionBudget
  netpols : List NetworkPolicy
  cnps : List CiliumNetworkPolicy
  distinct : ∀ kind, ∀ w ∈ workloads kind, ∀ w' ∈ workloads kind,
    w.metadata.namespace_ = w'.metadata.namespace_ → w.metadata.name = w'.metadata.name → w = w'

def kinds : List WorkloadKind := [.deployment, .statefulSet, .daemonSet]

def nodeID (prefix_ : String) (metadata : ObjectMeta) : String :=
  prefix_ ++ "/" ++ metadata.namespace_ ++ "/" ++ metadata.name

def workloadID (kind : WorkloadKind) (w : Workload) : String := nodeID kind.idPrefix w.metadata

def PodDisruptionBudget.id (pdb : PodDisruptionBudget) : String := nodeID "poddisruptionbudget" pdb.metadata

def NetworkPolicy.id (np : NetworkPolicy) : String := nodeID "networkpolicy" np.metadata

def CiliumNetworkPolicy.id (cnp : CiliumNetworkPolicy) : String := nodeID "ciliumnetworkpolicy" cnp.metadata

section Nodes

def workloadNode (kind : WorkloadKind) (w : Workload) : Node where
  id := workloadID kind w
  kind := kind.nodeKind
  name := w.metadata.name
  status := w.status
  data := some (("namespace", .text w.metadata.namespace_) :: w.data)

def pdbNode (pdb : PodDisruptionBudget) : Node where
  id := pdb.id
  kind := "PodDisruptionBudget"
  name := pdb.metadata.name
  status := if pdb.disruptionsAllowed = 0 ∧ pdb.currentHealthy < pdb.desiredHealthy then .degraded
    else .healthy
  data := some [("namespace", .text pdb.metadata.namespace_),
    ("disruptionsAllowed", .other (toString pdb.disruptionsAllowed)),
    ("currentHealthy", .other (toString pdb.currentHealthy)),
    ("desiredHealthy", .other (toString pdb.desiredHealthy))]

/-- The mark of a policy that selects every pod of its namespace and gets no edges. -/
def matchesAllPods : String × DataValue := ("matchesAllPods", .other "true")

def netpolNode (np : NetworkPolicy) : Node where
  id := np.id
  kind := "NetworkPolicy"
  name := np.metadata.name
  status := .healthy
  data := some ([("namespace", .text np.metadata.namespace_),
    ("policyTypes", .other (",".intercalate np.policyTypes))] ++
      if np.podSelector.empty then [matchesAllPods] else [])

/-- unstructured.NestedMap of spec.endpointSelector.matchLabels. -/
def CiliumNetworkPolicy.selectorMap (cnp : CiliumNetworkPolicy) : List (String × Option String) :=
  (cnp.endpointSelector.map EndpointSelector.matchLabels).getD []

def cnpNode (cnp : CiliumNetworkPolicy) : Node where
  id := cnp.id
  kind := "CiliumNetworkPolicy"
  name := cnp.metadata.name
  status := .healthy
  data := some ([("namespace", .text cnp.metadata.namespace_), ("apiVersion", .text cnp.apiVersion)] ++
    if cnp.selectorMap.length = 0 then [matchesAllPods] else [])

end Nodes

section Edges

def protects (source target : String) : Edge where
  id := source ++ "-to-" ++ target
  source := source
  target := target
  type := .protects
  label := ""
  skipIfKindVisible := ""
  policyEffect := ""

/-- The edges from a policy to the workloads of its namespace whose template labels it selects. -/
def protectsEdges (c : Cluster) (opts : BuildOptions) (source : String) (ns : String)
    (selects : Labels → Bool) : List Edge :=
  kinds.flatMap fun kind =>
    ((c.workloads kind).filter fun w => w.metadata.namespace_ = ns ∧ selects w.templateLabels ∧
      -- the ids of deployments and stateful sets are those of the nodes built
      (kind ≠ .daemonSet → opts.matchesNamespaceFilter w.metadata.namespace_)).map fun w =>
        protects source (workloadID kind w)

def pdbEdges (c : Cluster) (opts : BuildOptions) (pdb : PodDisruptionBudget) : List Edge :=
  match pdb.selector with
  | none => []
  | some sel => protectsEdges c opts pdb.id pdb.metadata.namespace_ sel.matches_

def netpolEdges (c : Cluster) (opts : BuildOptions) (np : NetworkPolicy) : List Edge :=
  if np.podSelector.empty then []
  else protectsEdges c opts np.id np.metadata.namespace_ np.podSelector.matches_

/-- A missing label reads as the empty text. -/
def matchesStringMap (selector : List (String × Option String)) (labels : Labels) : Bool :=
  selector.all fun pair => match pair.2 with
    | none => false
    | some sv => (labels pair.1).getD "" == sv

def cnpEdges (c : Cluster) (opts : BuildOptions) (cnp : CiliumNetworkPolicy) : List Edge :=
  if cnp.selectorMap.length = 0 then []
  else protectsEdges c opts cnp.id cnp.metadata.namespace_ (matchesStringMap cnp.selectorMap)

end Edges

section Badges

/-- `n.Data[key] = value`. -/
def setData (n : Node) (key value : String) : Node :=
  { n with data := some ((key, .text value) :: (n.data.getD []).filter fun entry => entry.1 ≠ key) }

def namespaceWorkloads (c : Cluster) (covers : String → Bool) : List String := kinds.flatMap fun kind =>
    ((c.workloads kind).filter fun w => covers w.metadata.namespace_).map (workloadID kind)

def coveredWorkloads (c : Cluster) (g : Graph) : List String :=
  ((g.edges.filter fun e => e.type = .protects).map Edge.target) ++
  ((c.netpols.filter fun np => np.podSelector.empty).flatMap fun np =>
    namespaceWorkloads c fun ns => ns = np.metadata.namespace_) ++
  (g.nodes.filter fun n => (n.kind = "CiliumNetworkPolicy" ∨ n.kind = "CiliumClusterwideNetworkPolicy") ∧
        matchesAllPods ∈ n.data.getD []).flatMap fun n =>
    let ns := nodeNamespaceFromData n
    namespaceWorkloads c fun own => ns = "" ∨ own = ns

def annotateNodePolicyCoverage (c : Cluster) (g : Graph) : List Node := let covered := coveredWorkloads c g
  g.nodes.map fun n => if n.kind = "Deployment" ∨ n.kind = "StatefulSet" ∨ n.kind = "DaemonSet" then
      setData n "policyStatus" (if n.id ∈ covered then "protected" else "unprotected")
    else n

end Badges

/-- What buildResourcesTopology has put together before the badges. -/
def resourceGraph (c : Cluster) (opts : BuildOptions) : Graph :=
  let pdbs := c.pdbs.filter fun pdb => opts.matchesNamespaceFilter pdb.metadata.namespace_
  let netpols := c.netpols.filter fun np => opts.matchesNamespaceFilter np.metadata.namespace_
  let cnps := c.cnps.filter fun cnp => opts.matchesNamespaceFilter cnp.metadata.namespace_
  { nodes := (kinds.flatMap fun kind => ((c.workloads kind).filter fun w =>
        opts.matchesNamespaceFilter w.metadata.namespace_).map (workloadNode kind)) ++
      pdbs.map pdbNode ++ netpols.map netpolNode ++ cnps.map cnpNode
    edges := pdbs.flatMap (pdbEdges c opts) ++ netpols.flatMap (netpolEdges c opts) ++
      cnps.flatMap (cnpEdges c opts) }

def buildResourcesTopology (c : Cluster) (opts : BuildOptions) : Graph := let built := resourceGraph c opts
  if opts.showPolicyEffect then { built with nodes := annotateNodePolicyCoverage c built }
  else built

end PolicyCoverage
