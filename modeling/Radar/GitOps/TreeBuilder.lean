import Radar.Base.Arrange
import Radar.Base.KeyedFold
import Radar.Base.QueryEscape
import Radar.Topology.NodeRef

/- pkg/gitops/tree: the tree of what a GitOps root declares and of what these resources own. -/
namespace GitOpsTree
open Arrange GoText KeyedFold QueryEscape

structure ResourceRef where
  group : String
  kind : String
  namespace_ : String
  name : String
  uid : String
  deriving DecidableEq

inductive NodeRole where
  | root | declared | generated | group_
  deriving DecidableEq

inductive Tool where
  | argocd | fluxcd
  deriving DecidableEq

structure Node where
  id : String
  ref : ResourceRef
  role : NodeRole
  tool : Tool
  sync : String
  health : String
  topologyStatus : String
  deriving DecidableEq

inductive EdgeType where
  | owns | source | dependsOn
  deriving DecidableEq

structure Edge where
  source : String
  target : String
  type : EdgeType
  deriving DecidableEq

structure Summary where
  declared : Nat
  generated : Nat
  degraded : Nat
  outOfSync : Nat
  deriving DecidableEq

structure ResourceTree where
  root : Node
  nodes : List Node
  edges : List Edge
  summary : Summary
  deriving DecidableEq

structure ManagedResource where
  ref : ResourceRef
  sync : String
  health : String

structure RelatedResource where
  ref : ResourceRef
  type : EdgeType

/-- What the root lists as its own. Argo CD gives a state to each resource; the inventory of Flux and
what carries the labels of a HelmRelease come without one, beside the sources and dependencies. -/
inductive Inventory where
  | argocd (resources : List ManagedResource)
  | fluxcd (refs : List ResourceRef) (related : List RelatedResource)

def Inventory.tool : Inventory → Tool
  | .argocd _ => .argocd
  | .fluxcd _ _ => .fluxcd

def Inventory.managed : Inventory → List ManagedResource
  | .argocd resources => resources
  | .fluxcd refs _ => refs.map fun ref => ⟨ref, "", ""⟩

def Inventory.related : Inventory → List RelatedResource
  | .argocd _ => []
  | .fluxcd _ related => related

structure RootObject where
  ref : ResourceRef
  sync : String
  health : String

/-- What the builder reads off a live object: `rootStatus` of it stands beside its uid. -/
structure LiveObject where
  uid : String
  sync : String
  health : String

section Refs

def refKey (ref : ResourceRef) : String :=
  String.ofList (join '/' [(queryEscape ref.group).toList, (queryEscape ref.kind).toList,
    (queryEscape ref.namespace_).toList, (queryEscape ref.name).toList])

def nodeID (ref : ResourceRef) : String := refKey ref

def edgeKey (source target : String) : String := source ++ "->" ++ target

def refFromTopologyNode (n : Topology.Node) : ResourceRef :=
  ⟨NodeRef.dataString n "group", n.kind, NodeRef.dataString n "namespace", n.name, ""⟩

def ResourceRef.groupless (ref : ResourceRef) : ResourceRef := { ref with group := "", uid := "" }

def resourceOf (ref : ResourceRef) : String × String × String := (ref.kind, ref.namespace_, ref.name)

end Refs

/-- A topology in which ids and resources are distinct: the builder names a node by its lower-case
kind, namespace and name and skips ids that are taken. -/
structure LiveTopology where
  nodes : List Topology.Node
  edges : List Topology.Edge
  ids_nonempty : ∀ n ∈ nodes, n.id ≠ ""
  ids_distinct : nodes.Pairwise fun a b => a.id ≠ b.id
  resources_distinct : nodes.Pairwise fun a b =>
    resourceOf (refFromTopologyNode a) ≠ resourceOf (refFromTopologyNode b)

structure Builder where
  dynamic : ResourceRef → Option LiveObject
  topo : LiveTopology
  allowedNamespaces : Option (List String)

section Nodes

def statusText : Topology.HealthStatus → String
  | .healthy => "healthy"
  | .degraded => "degraded"
  | .unhealthy => "unhealthy"
  | .unknown => "unknown"

def healthToTopology (health : String) : String := if health = "Healthy" then "healthy"
  else if health = "Degraded" ∨ health = "Missing" then "unhealthy"
  else if health = "Progressing" ∨ health = "Suspended" then "degraded"
  else "unknown"

def healthFromTopology : Topology.HealthStatus → String
  | .healthy => "Healthy"
  | .degraded => "Progressing"
  | .unhealthy => "Degraded"
  | .unknown => "Unknown"

def nodeFromTopology (n : Topology.Node) (ref : ResourceRef) (role : NodeRole) (tool : Tool)
    (sync health : String) : Node :=
  ⟨nodeID ref, ref, role, tool, sync, if health = "" then healthFromTopology n.status else health,
    statusText n.status⟩

def syntheticNode (ref : ResourceRef) (role : NodeRole) (tool : Tool) (sync health : String) : Node :=
  ⟨nodeID ref, ref, role, tool, sync, health, healthToTopology health⟩

def enrichNodeFromObject (node : Node) (obj : Option LiveObject) : Node := match obj with
  | none => node
  | some obj => { node with ref := { node.ref with uid := obj.uid } }

end Nodes

section Build
variable (b : Builder)

def Builder.canEnrich (ref : ResourceRef) : Bool := match b.allowedNamespaces with
  | none => true
  | some allowed => ref.namespace_ != "" && allowed.contains ref.namespace_

def Builder.getAllowedObject (ref : ResourceRef) : Option LiveObject :=
  if ref.name = "" || !b.canEnrich ref then none else b.dynamic ref

/-- The writes to the map of topology nodes by reference, each with its group and without. -/
def topoByRef : List (String × Topology.Node) := b.topo.nodes.flatMap fun n =>
    [(refKey (refFromTopologyNode n), n), (refKey (refFromTopologyNode n).groupless, n)]

/-- The last write of a key holds. -/
def lookupLast (writes : List (String × Topology.Node)) (key : String) : Option Topology.Node :=
  (writes.reverse.find? fun write => write.1 == key).map (·.2)

def findTopoNode (ref : ResourceRef) : Option Topology.Node :=
  (lookupLast (topoByRef b) (refKey ref)).or (lookupLast (topoByRef b) (refKey ref.groupless))

def topoByID (id : String) : Option Topology.Node := b.topo.nodes.find? fun n => n.id == id

/-- The maps under construction; a missing id reads as the empty text. -/
structure Assembly where
  nodes : List Node
  edges : List Edge
  topoIDByTreeID : String → String
  treeIDByTopoID : String → String

def Assembly.bind (asm : Assembly) (id : String) (live : Topology.Node) : Assembly := { asm with
    topoIDByTreeID := fun x => if x = id then live.id else asm.topoIDByTreeID x
    treeIDByTopoID := fun x => if x = live.id then id else asm.treeIDByTopoID x }

def Assembly.setNode (asm : Assembly) (node : Node) : Assembly :=
  { asm with nodes := put Node.id asm.nodes node }

def Assembly.setEdge (asm : Assembly) (e : Edge) : Assembly :=
  { asm with edges := put (fun e => edgeKey e.source e.target) asm.edges e }

def Assembly.has (asm : Assembly) (id : String) : Bool := asm.nodes.any fun n => n.id == id

def rootNode (root : RootObject) (tool : Tool) : Node :=
  ⟨nodeID root.ref, root.ref, .root, tool, root.sync, root.health, healthToTopology root.health⟩

def start (root : RootObject) (tool : Tool) : Assembly := let node := rootNode root tool
  let asm : Assembly := ⟨[node], [], fun _ => "", fun _ => ""⟩
  match findTopoNode b root.ref with
  | some live => asm.bind node.id live
  | none => asm

/-- The node of a resource, from its topology node where there is one, and the link between them. -/
def placeLive (tool : Tool) (asm : Assembly) (ref : ResourceRef) (sync health : String)
    (live : Topology.Node) : Assembly :=
  (asm.setNode (enrichNodeFromObject (nodeFromTopology live ref .declared tool sync health)
    (b.getAllowedObject ref))).bind (nodeID ref) live

def placeSynthetic (tool : Tool) (asm : Assembly) (ref : ResourceRef) (sync health : String) : Assembly :=
  asm.setNode (enrichNodeFromObject (syntheticNode ref .declared tool sync health)
    (b.getAllowedObject ref))

def declare (tool : Tool) (asm : Assembly) (res : ManagedResource) : Assembly :=
  match findTopoNode b res.ref with
  | some live => placeLive b tool asm res.ref res.sync res.health live
  | none => placeSynthetic b tool asm res.ref res.sync res.health

/-- A source or dependency of a Flux root. One already there without a topology node stays as it is. -/
def relate (rootID : String) (asm : Assembly) (res : RelatedResource) : Assembly := let id := nodeID res.ref
  if id = rootID then asm
  else
    let (sync, health) := ((b.getAllowedObject res.ref).map fun obj => (obj.sync, obj.health)).getD
      ("", "")
    let asm := match findTopoNode b res.ref with
      | some live => placeLive b .fluxcd asm res.ref sync health live
      | none => if asm.has id then asm else placeSynthetic b .fluxcd asm res.ref sync health
    asm.setEdge ⟨rootID, id, res.type⟩

def assemble (root : RootObject) (inventory : Inventory) : Assembly :=
  inventory.related.foldl (relate b (nodeID root.ref))
    (inventory.managed.foldl (declare b inventory.tool) (start b root inventory.tool))

structure Traversal where
  asm : Assembly
  queue : List String
  seen : List String

def adj (topoID : String) : List Topology.Edge :=
  b.topo.edges.filter fun e => e.type == .manages && e.source == topoID

def visitEdge (tool : Tool) (id : String) (t : Traversal) (e : Topology.Edge) : Traversal :=
  match topoByID b e.target with
  | none => t
  | some target =>
    let ref := refFromTopologyNode target
    let known := t.asm.treeIDByTopoID target.id
    let targetID := if known = "" then nodeID ref else known
    let asm := if known = "" then t.asm.bind targetID target else t.asm
    let asm := if asm.has targetID then asm
      else asm.setNode (nodeFromTopology target ref .generated tool "" "")
    { t with asm := asm.setEdge ⟨id, targetID, .owns⟩, queue := t.queue ++ [targetID] }

def visit (tool : Tool) (t : Traversal) : Traversal := match t.queue with
  | [] => t
  | id :: rest =>
    if id ∈ t.seen then { t with queue := rest }
    else
      let t : Traversal := ⟨t.asm, rest, id :: t.seen⟩
      let sourceTopoID := t.asm.topoIDByTreeID id
      if sourceTopoID = "" then t else (adj b sourceTopoID).foldl (visitEdge b tool id) t

def traverse (tool : Tool) : Nat → Traversal → Traversal
  | 0, t => t
  | n + 1, t => traverse tool n (visit b tool t)

/-- Rounds after which the queue is empty: every id is taken up once and queues an edge's target. -/
def rounds (asm : Assembly) (queue : List String) : Nat :=
  queue.length + (asm.nodes.length + b.topo.nodes.length) * b.topo.edges.length

def rolePriority : NodeRole → Nat
  | .root => 0
  | .declared => 1
  | .generated => 2
  | .group_ => 3

def kindPriority (kind : String) : Nat :=
  ([("Namespace", 0), ("AppProject", 1), ("ServiceAccount", 2), ("Secret", 3), ("SealedSecret", 3),
    ("ConfigMap", 4), ("CustomResourceDefinition", 5), ("ClusterRole", 6), ("ClusterRoleBinding", 7),
    ("Role", 8), ("RoleBinding", 9), ("Service", 10), ("Deployment", 11), ("StatefulSet", 11),
    ("DaemonSet", 11), ("ReplicaSet", 12), ("Pod", 13), ("Ingress", 14), ("Gateway", 14),
    ("HTTPRoute", 15)].lookup kind).getD 20

def lessNode (a b : Node) : Bool :=
  if a.role ≠ b.role then decide (rolePriority a.role < rolePriority b.role)
  else if kindPriority a.ref.kind ≠ kindPriority b.ref.kind then
    decide (kindPriority a.ref.kind < kindPriority b.ref.kind)
  else decide (refKey a.ref < refKey b.ref)

def lessEdge (a b : Edge) : Bool :=
  if a.source ≠ b.source then decide (a.source < b.source) else decide (a.target < b.target)

def summarize (nodes : List Node) : Summary where
  declared := (nodes.filter fun n => n.role == .declared).length
  generated := (nodes.filter fun n => n.role == .generated).length
  degraded := (nodes.filter fun n => n.health == "Degraded" || n.health == "Missing").length
  outOfSync := (nodes.filter fun n => n.sync == "OutOfSync").length

def declaredIDs (inventory : Inventory) : List String := inventory.managed.map fun res => nodeID res.ref

/-- Everything but the last edges, those from the root. `order` is one in which the map of declared
ids is visited; with nothing declared the root itself is taken up. -/
def explore (root : RootObject) (inventory : Inventory) (order : List String) : Traversal :=
  let asm := assemble b root inventory
  let queue := if order.length = 0 then [nodeID root.ref] else order
  traverse b inventory.tool (rounds b asm queue) ⟨asm, queue, []⟩

/-- A declared resource that nothing owns hangs from the root. -/
def attach (rootID : String) (asm : Assembly) (order : List String) : Assembly :=
  order.foldl (fun attached id =>
    if id = rootID || asm.edges.any (fun e => e.target == id) then attached
    else attached.setEdge ⟨rootID, id, .owns⟩) asm

/-- Build with the orders in which its two loops over the declared ids visit them. -/
def build (root : RootObject) (inventory : Inventory) (order order' : List String) : ResourceTree :=
  let asm := attach (nodeID root.ref) (explore b root inventory order).asm order'
  let nodes := sortStable lessNode asm.nodes
  { root := (asm.nodes.find? fun n => n.id == nodeID root.ref).getD (rootNode root inventory.tool)
    nodes := nodes
    edges := sortStable lessEdge asm.edges
    summary := summarize nodes }

end Build
end GitOpsTree
