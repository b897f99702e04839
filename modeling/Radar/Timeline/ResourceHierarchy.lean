import Radar.Base.Arrange
import Radar.Base.GoText
import Radar.Base.KeyedFold
import Radar.Base.RootWalk
import Radar.Timeline.Types
import Radar.Topology.Types

/- packages/k8s-ui/src/utils/resource-hierarchy.ts: the lanes of a timeline and which lane is shown under
   which. A map from lane to lane is a function; a reference to a lane is its id. -/
namespace ResourceHierarchy
open List
open Timeline (EventType OwnerInfo)
open Topology (EdgeType)

section Model

/-- A TimelineEvent as the interface has it. -/
structure UiEvent where
  id : String
  timestamp : String
  kind : String
  apiVersion : Option String
  namespace_ : String
  name : String
  eventType : EventType
  reason : Option String
  owner : Option OwnerInfo
  deriving DecidableEq

structure UiNode where
  id : String
  apiVersion : Option String
  labels : Option (List (String × String))

structure UiEdge where
  source : String
  target : String
  type : EdgeType

structure UiTopology where
  nodes : List UiNode
  edges : List UiEdge

structure ResourceLane where
  id : String
  kind : String
  group : String
  namespace_ : String
  name : String
  events : List UiEvent
  isWorkload : Bool
  children : List String
  childEventCount : Nat
  allEventsSorted : Option (List UiEvent)
  deriving DecidableEq

def PROBLEMATIC_REASONS : List String :=
  ["BackOff", "CrashLoopBackOff", "Failed", "Error", "OOMKilling", "OOMKilled", "CreateContainerConfigError",
    "CreateContainerError", "RunContainerError", "InvalidImageName", "ErrImagePull", "ImagePullBackOff",
    "ContainerStatusUnknown", "FailedScheduling", "FailedMount", "FailedAttachVolume", "FailedCreate",
    "FailedDelete", "Unhealthy", "Killing", "Evicted", "FailedSync", "FailedValidation", "FailedPreStopHook",
    "FailedPostStartHook", "HostPortConflict", "InsufficientMemory", "InsufficientCPU", "NodeNotReady",
    "NetworkNotReady", "KubeletNotReady", "MemoryPressure", "DiskPressure", "PIDPressure",
    "NodeStatusUnknown", "ProgressDeadlineExceeded", "ReplicaFailure", "MinimumReplicasUnavailable",
    "FailedGetScale", "FailedRescale", "FailedUpdateScale", "FailedGetResourceMetric",
    "FailedComputeMetricsReplicas", "ProvisioningFailed", "FailedBinding", "VolumeFailedDelete",
    "DeadlineExceeded", "BackoffLimitExceeded"]

def isProblematicEvent (event : UiEvent) : Bool :=
  event.eventType = .warning || event.reason.any fun reason => reason ∈ PROBLEMATIC_REASONS

def isWorkloadKind (kind : String) : Bool :=
  kind ∈ ["Deployment", "Rollout", "DaemonSet", "StatefulSet", "Service", "Job", "CronJob", "Workflow",
    "CronWorkflow", "Application", "Kustomization", "HelmRelease", "GitRepository", "OCIRepository",
    "HelmRepository", "KnativeService"]

def apiVersionToGroup (apiVersion : Option String) : String :=
  ((apiVersion.bind (GoText.cut '/')).map Prod.fst).getD ""

def laneIdOf (kind namespace_ name : String) : String := kind ++ "/" ++ namespace_ ++ "/" ++ name

def kindMap : List (String × String) :=
  [("pod", "Pod"), ("service", "Service"), ("deployment", "Deployment"), ("replicaset", "ReplicaSet"),
    ("statefulset", "StatefulSet"), ("daemonset", "DaemonSet"), ("ingress", "Ingress"), ("gateway", "Gateway"),
    ("httproute", "HTTPRoute"), ("grpcroute", "GRPCRoute"), ("tcproute", "TCPRoute"), ("tlsroute", "TLSRoute"),
    ("configmap", "ConfigMap"), ("secret", "Secret"), ("persistentvolumeclaim", "PersistentVolumeClaim"),
    ("persistentvolume", "PersistentVolume"), ("storageclass", "StorageClass"), ("job", "Job"),
    ("cronjob", "CronJob"), ("horizontalpodautoscaler", "HorizontalPodAutoscaler"),
    ("verticalpodautoscaler", "VerticalPodAutoscaler"), ("poddisruptionbudget", "PodDisruptionBudget"),
    ("podgroup", "PodGroup"), ("rollout", "Rollout"), ("namespace", "Namespace"), ("node", "Node"),
    ("application", "Application"), ("applicationset", "ApplicationSet"), ("appproject", "AppProject"),
    ("kustomization", "Kustomization"), ("helmrelease", "HelmRelease"), ("helmrepository", "HelmRepository"),
    ("helmchart", "HelmChart"), ("gitrepository", "GitRepository"), ("ocirepository", "OCIRepository"),
    ("certificate", "Certificate"), ("virtualservice", "VirtualService"), ("destinationrule", "DestinationRule"),
    ("istiogateway", "IstioGateway"), ("serviceentry", "ServiceEntry"),
    ("peerauthentication", "PeerAuthentication"), ("authorizationpolicy", "AuthorizationPolicy"),
    ("scaledobject", "ScaledObject"), ("scaledjob", "ScaledJob"), ("nodepool", "NodePool"),
    ("nodeclaim", "NodeClaim"), ("issuer", "Issuer"), ("clusterissuer", "ClusterIssuer"),
    ("knativeservice", "KnativeService"), ("knativeconfiguration", "KnativeConfiguration"),
    ("knativerevision", "KnativeRevision"), ("knativeroute", "KnativeRoute"), ("broker", "Broker"),
    ("trigger", "Trigger"), ("channel", "Channel"), ("pingsource", "PingSource"),
    ("apiserversource", "ApiServerSource"), ("containersource", "ContainerSource"),
    ("sinkbinding", "SinkBinding"), ("ingressroute", "IngressRoute"), ("ingressroutetcp", "IngressRouteTCP"),
    ("ingressrouteudp", "IngressRouteUDP"), ("middleware", "Middleware"), ("middlewaretcp", "MiddlewareTCP"),
    ("traefikservice", "TraefikService"), ("serverstransport", "ServersTransport"),
    ("serverstransporttcp", "ServersTransportTCP"), ("tlsoption", "TLSOption"), ("tlsstore", "TLSStore"),
    ("httpproxy", "HTTPProxy")]

/-- Only the first three parts of a node's id are looked at. -/
def nodeIdToLaneId (nodeId : String) : Option String := match GoText.split '/' nodeId with
  | kind :: namespace_ :: name :: _ => some (laneIdOf ((kindMap.lookup kind).getD kind) namespace_ name)
  | _ => none

def setAt {β : Type} (m : String → Option β) (key : String) (value : β) : String → Option β :=
  fun k => if k = key then some value else m k

def topoGroupByLaneId (nodes : List UiNode) : String → Option String := nodes.foldl (fun groups node =>
    match nodeIdToLaneId node.id with
    | none => groups
    | some laneId =>
      let group := apiVersionToGroup node.apiVersion
      if group ≠ "" then setAt groups laneId group else groups) fun _ => none

section Lanes
variable (groups : String → Option String)

def resolveGroup (laneId : String) (event : Option UiEvent) : String :=
  let fromEvent := apiVersionToGroup (event.bind UiEvent.apiVersion)
  if fromEvent ≠ "" then fromEvent else (groups laneId).getD ""

def newLane (laneId kind group namespace_ name : String) : ResourceLane :=
  ⟨laneId, kind, group, namespace_, name, [], isWorkloadKind kind, [], 0, none⟩

/-- A lane of which no more than its id is known. -/
def laneFromId (laneId : String) : ResourceLane := let parts := GoText.split '/' laneId
  newLane laneId (parts.headD "") (resolveGroup groups laneId none) ((parts.drop 1).headD "")
    (String.intercalate "/" (parts.drop 2))

/-- A Kubernetes Event with an owner goes to the owner's lane. -/
def attaches (event : UiEvent) : Option OwnerInfo := if event.kind = "Event" then event.owner else none

def laneOf (event : UiEvent) : String := match attaches event with
  | some owner => laneIdOf owner.kind event.namespace_ owner.name
  | none => laneIdOf event.kind event.namespace_ event.name

/-- How the first pass and the attaching of Events build the map of lanes. -/
def laneFolding : KeyedFold.Folding UiEvent ResourceLane String where
  keyOf := laneOf
  key := ResourceLane.id
  start event := match attaches event with
    | some owner => laneFromId groups (laneIdOf owner.kind event.namespace_ owner.name)
    | none =>
      let laneId := laneIdOf event.kind event.namespace_ event.name
      newLane laneId event.kind (resolveGroup groups laneId (some event)) event.namespace_ event.name
  add lane event := match attaches event with
    | some _ => { lane with events := lane.events ++ [event] }
    | none =>
      { lane with
        group := if lane.group = "" then apiVersionToGroup event.apiVersion else lane.group
        events := lane.events ++ [event] }
  key_start event := by
    simp only [laneOf]
    cases attaches event <;> rfl
  key_add lane event := by
    cases attaches event <;> rfl

/-- First the events with lanes of their own, then the attached ones. -/
def laneOrder (events : List UiEvent) : List UiEvent :=
  (events.filter fun event => attaches event = none) ++ events.filter fun event => attaches event ≠ none

def eventLanes (events : List UiEvent) : List ResourceLane := (laneFolding groups).gather (laneOrder events)

structure Building where
  lanes : List ResourceLane
  laneParent : String → Option String

def has (lanes : List ResourceLane) (laneId : String) : Bool := lanes.any fun lane => lane.id = laneId

def ensure (lanes : List ResourceLane) (fresh : ResourceLane) : List ResourceLane :=
  if has lanes fresh.id then lanes else lanes ++ [fresh]

/-- The owner that a lane takes from the first of its events that has one. -/
def ownerOf (lane : ResourceLane) : Option OwnerInfo := lane.events.findSome? UiEvent.owner

def ownerStep (b : Building) (lane : ResourceLane) : Building := match ownerOf lane with
  | none => b
  | some owner =>
    let ownerLaneId := laneIdOf owner.kind lane.namespace_ owner.name
    ⟨ensure b.lanes (newLane ownerLaneId owner.kind (resolveGroup groups ownerLaneId none) lane.namespace_
      owner.name), setAt b.laneParent lane.id ownerLaneId⟩

/-- The loop over a map that grows goes on to the lanes it adds. -/
def ownerLoop : Nat → Nat → Building → Option Building
  | 0, visited, b => if visited < b.lanes.length then none else some b
  | fuel + 1, visited, b =>
    match b.lanes[visited]? with
    | none => some b
    | some lane => ownerLoop fuel (visited + 1) (ownerStep groups b lane)

def kindOf (laneId : String) : String := (GoText.split '/' laneId).headD ""

def routeKinds : List String := ["HTTPRoute", "GRPCRoute", "TCPRoute", "TLSRoute"]

/-- Which end of an edge is shown under the other: the child and its parent. -/
def edgeEnds (type : EdgeType) (source target : String) : Option (String × String) := match type with
  | .manages => none
  | .exposes => some (target, source)
  | .routesTo =>
    if kindOf source = "Gateway" ∧ kindOf target ∈ routeKinds then some (target, source)
    else if kindOf source ∈ routeKinds ∧ kindOf target = "Service" then some (source, target)
    else if kindOf source = "Ingress" ∧ kindOf target = "Service" then some (source, target)
    else if kindOf source = "Service" then some (target, source)
    else none
  | .configures | .uses | .protects => some (source, target)

def nominated (edge : UiEdge) : Option (String × String) := (nodeIdToLaneId edge.source).bind fun source =>
    (nodeIdToLaneId edge.target).bind fun target => edgeEnds edge.type source target

/-- The first edge that nominates a parent for a lane gives it. -/
def edgeStep (b : Building) (edge : UiEdge) : Building := match nominated edge with
  | none => b
  | some (child, parent) =>
    if b.laneParent child = none ∧ has b.lanes child then
      ⟨ensure b.lanes (laneFromId groups parent), setAt b.laneParent child parent⟩
    else b

end Lanes

def appLabel (node : UiNode) : Option String := let labels := node.labels.getD []
  ((labels.lookup "app.kubernetes.io/name").filter fun label => label ≠ "").or
    ((labels.lookup "app").filter fun label => label ≠ "")

def laneAppLabels (nodes : List UiNode) : String → Option String := nodes.foldl (fun labels node =>
    match nodeIdToLaneId node.id, appLabel node with
    | some laneId, some label => setAt labels laneId label
    | _, _ => labels) fun _ => none

def appLabelEligibleKinds : List String :=
  ["Service", "Deployment", "Rollout", "StatefulSet", "DaemonSet", "Job", "CronJob", "Ingress", "Gateway",
    "HTTPRoute", "GRPCRoute", "TCPRoute", "TLSRoute", "ConfigMap", "Secret", "Application", "Kustomization",
    "HelmRelease", "GitRepository", "Workflow", "CronWorkflow", "KnativeService", "KnativeConfiguration",
    "KnativeRevision", "KnativeRoute", "Broker", "Trigger", "IngressRoute", "IngressRouteTCP",
    "IngressRouteUDP", "HTTPProxy"]

def groupPriority : List (String × Nat) :=
  [("Service", 1), ("Ingress", 2), ("Gateway", 2), ("HTTPRoute", 2), ("GRPCRoute", 2), ("TCPRoute", 2),
    ("TLSRoute", 2), ("Deployment", 3), ("Rollout", 3), ("StatefulSet", 3), ("DaemonSet", 3), ("Job", 4),
    ("CronJob", 4), ("ConfigMap", 5), ("Secret", 5), ("ReplicaSet", 6), ("Pod", 7), ("KnativeService", 1),
    ("KnativeRoute", 2), ("Broker", 2), ("Channel", 2), ("KnativeConfiguration", 3), ("KnativeRevision", 4),
    ("Trigger", 3), ("PingSource", 3), ("ApiServerSource", 3), ("ContainerSource", 3), ("SinkBinding", 3),
    ("IngressRoute", 2), ("IngressRouteTCP", 2), ("IngressRouteUDP", 2), ("TraefikService", 3),
    ("Middleware", 4), ("MiddlewareTCP", 4), ("HTTPProxy", 2)]

def childPriority : List (String × Nat) :=
  [("Service", 1), ("Gateway", 1), ("HTTPRoute", 2), ("GRPCRoute", 2), ("TCPRoute", 2), ("TLSRoute", 2),
    ("Deployment", 2), ("Rollout", 2), ("StatefulSet", 2), ("DaemonSet", 2), ("Job", 3), ("CronJob", 3),
    ("ReplicaSet", 3), ("Pod", 4), ("ConfigMap", 5), ("Secret", 5), ("KnativeService", 1), ("KnativeRoute", 2),
    ("Broker", 1), ("Channel", 1), ("KnativeConfiguration", 2), ("KnativeRevision", 3), ("Trigger", 2),
    ("PingSource", 3), ("ApiServerSource", 3), ("ContainerSource", 3), ("SinkBinding", 3), ("IngressRoute", 1),
    ("IngressRouteTCP", 1), ("IngressRouteUDP", 1), ("TraefikService", 2), ("Middleware", 3),
    ("MiddlewareTCP", 3), ("HTTPProxy", 1)]

def priorityOf (table : List (String × Nat)) (kind : String) : Nat := (table.lookup kind).getD 10

def appFolding : KeyedFold.Folding (String × ResourceLane) (String × List (String × ResourceLane)) String where
  keyOf := Prod.fst
  key := Prod.fst
  start entry := (entry.1, [])
  add group entry := (group.1, group.2 ++ [entry])
  key_start _ := rfl
  key_add _ _ := rfl

/-- A lane that no evidence has placed yet, with its label. -/
def labelEntry (labels : String → Option String) (b : Building) (lane : ResourceLane) :
    Option (String × ResourceLane) :=
  if b.laneParent lane.id ≠ none then none
  else if lane.kind ∉ appLabelEligibleKinds then none
  else (labels lane.id).map fun label => (label, lane)

def labelled (labels : String → Option String) (b : Building) : List (String × ResourceLane) :=
  b.lanes.filterMap (labelEntry labels b)

def appGroups (labels : String → Option String) (b : Building) : List (List ResourceLane) :=
  (appFolding.gather (labelled labels b)).map fun group => group.2.map Prod.snd

def sortedGroup (lanes : List ResourceLane) : List ResourceLane := Arrange.sortStable (fun a b =>
    decide (priorityOf groupPriority a.kind < priorityOf groupPriority b.kind)) lanes

def give (parentLaneId : String) (laneParent : String → Option String) (child : ResourceLane) :
    String → Option String :=
  if laneParent child.id = none then setAt laneParent child.id parentLaneId else laneParent

/-- The best lane of a group of several becomes the parent of the others. -/
def groupStep (laneParent : String → Option String) (lanes : List ResourceLane) : String → Option String :=
  if lanes.length < 2 then laneParent
  else
    match sortedGroup lanes with
    | [] => laneParent
    | parent :: rest => rest.foldl (give parent.id) laneParent

def appStep (nodes : List UiNode) (b : Building) : Building :=
  ⟨b.lanes, (appGroups (laneAppLabels nodes) b).foldl groupStep b.laneParent⟩

/-- The parent that findRoot goes on to. -/
def parentLane (b : Building) (laneId : String) : Option String :=
  (b.laneParent laneId).filter fun parentId => parentId ≠ "" ∧ has b.lanes parentId

def findRoot (b : Building) (laneId : String) : Option String :=
  RootWalk.walk (parentLane b) (b.lanes.length + 1) [] laneId

def eventsOf (lanes : List ResourceLane) (laneId : String) : List UiEvent :=
  ((lanes.find? fun lane => lane.id = laneId).map ResourceLane.events).getD []

structure Nesting where
  lanes : List ResourceLane
  childLaneIds : List String

def adopt (lanes : List ResourceLane) (rootId laneId : String) : List ResourceLane := lanes.map fun lane =>
    if lane.id = rootId then
      { lane with
        children := lane.children ++ [laneId]
        childEventCount := lane.childEventCount + (eventsOf lanes laneId).length }
    else lane

def nestStep (b : Building) (n : Nesting) (laneId : String) : Option Nesting :=
  if b.laneParent laneId = none then some n
  else (findRoot b laneId).map fun rootId =>
    if rootId ≠ laneId ∧ has n.lanes rootId then ⟨adopt n.lanes rootId laneId, n.childLaneIds ++ [laneId]⟩ else n

variable (time : String → Option Int)

/-- Time stamps that Date cannot read count for nothing. -/
def latest (events : List UiEvent) : Int := events.foldl (fun latest event =>
    match time event.timestamp with
    | some t => if latest < t then t else latest
    | none => latest) 0

def childBefore (lanes : List ResourceLane) (a b : String) : Bool :=
  let priority := fun laneId => priorityOf childPriority
    (((lanes.find? fun lane => lane.id = laneId).map ResourceLane.kind).getD "")
  if priority a ≠ priority b then priority a < priority b
  else latest time (eventsOf lanes b) < latest time (eventsOf lanes a)

def renderPriority (event : UiEvent) : Nat := if isProblematicEvent event then 3
  else match event.eventType with
    | .delete => 2
    | .add => 1
    | _ => 0

def sortEventsForRendering (events : List UiEvent) : List UiEvent :=
  Arrange.sortStable (fun a b => decide (renderPriority a < renderPriority b)) events

/-- Of events with one id the last, where the first one stood. -/
def uniqueEvents (events : List UiEvent) : List UiEvent := events.foldl (KeyedFold.put UiEvent.id) []

def finish (lanes : List ResourceLane) (lane : ResourceLane) : ResourceLane :=
  let children := Arrange.sortStable (childBefore time lanes) lane.children
  { lane with
    children := children
    allEventsSorted := some (sortEventsForRendering
      (uniqueEvents (lane.events ++ children.flatMap (eventsOf lanes)))) }

structure Hierarchy where
  lanes : List ResourceLane
  topLevelLanes : List String
  deriving DecidableEq

variable (events : List UiEvent) (topology : Option UiTopology) (groupByApp : Bool)

def linkParents (groups : String → Option String) (owned : Building) : Building := match topology with
  | none => owned
  | some t =>
    let linked := t.edges.foldl (edgeStep groups) owned
    if groupByApp then appStep t.nodes linked else linked

def topologyGroups : String → Option String := topoGroupByLaneId ((topology.map UiTopology.nodes).getD [])

/-- The lanes and the parents that owners, edges and labels give them. -/
def gatherParents : Option Building := let lanes := eventLanes (topologyGroups topology) events
  (ownerLoop (topologyGroups topology) (2 * lanes.length) 0 ⟨lanes, fun _ => none⟩).map
    (linkParents topology groupByApp (topologyGroups topology))

/-- Without a root resource; `none` where it does not end. -/
def buildResourceHierarchy : Option Hierarchy := (gatherParents events topology groupByApp).bind fun b =>
    ((b.lanes.map ResourceLane.id).foldlM (nestStep b) ⟨b.lanes, []⟩).map fun n =>
      ⟨n.lanes.map fun lane => if lane.id ∈ n.childLaneIds then lane else finish time n.lanes lane,
        (n.lanes.map ResourceLane.id).filter fun laneId => laneId ∉ n.childLaneIds⟩

/-- The events of the lanes at the top and of those below them, lane by lane. -/
def allEvents (h : Hierarchy) : List UiEvent := h.topLevelLanes.flatMap fun laneId =>
    match h.lanes.find? fun lane => lane.id = laneId with
    | some lane => lane.events ++ lane.children.flatMap (eventsOf h.lanes)
    | none => []

def getAllEventsFromHierarchy (h : Hierarchy) : List UiEvent := Arrange.sortStable (fun a b =>
    match time a.timestamp, time b.timestamp with
    | some a, some b => decide (b < a)
    | _, _ => false) (uniqueEvents (allEvents h))

def countEventsInHierarchy (h : Hierarchy) : Nat := (h.topLevelLanes.map fun laneId =>
    match h.lanes.find? fun lane => lane.id = laneId with
    | some lane => lane.events.length + (lane.children.map fun child => (eventsOf h.lanes child).length).sum
    | none => 0).sum

end Model

variable {lanes : List ResourceLane} {lane : ResourceLane} {b : Building} {rootId : String}
variable {child parent : String}

section Lanes
variable {groups : String → Option String} {events : List UiEvent} {laneId : String}

theorem has_iff : has lanes laneId = true ↔ laneId ∈ lanes.map ResourceLane.id := by
  simp [has]

theorem laneIdOf_ne (kind namespace_ name : String) : laneIdOf kind namespace_ name ≠ "" := by
  intro empty
  have length := congrArg String.length empty
  simp [laneIdOf, String.length_append] at length

/-- A lane before anything is shown under it. -/
structure Bare (lane : ResourceLane) : Prop where
  named : lane.id ≠ ""
  childless : lane.children = []
  uncounted : lane.childEventCount = 0

/-- Every event in one lane, and parents between lanes only. -/
structure Whole (events : List UiEvent) (b : Building) : Prop where
  distinct : (b.lanes.map ResourceLane.id).Nodup
  bare : ∀ lane ∈ b.lanes, Bare lane
  all : (b.lanes.flatMap ResourceLane.events).Perm events
  between : ∀ child parent, b.laneParent child = some parent →
    has b.lanes child = true ∧ has b.lanes parent = true

theorem folding_start (event : UiEvent) : Bare ((laneFolding groups).start event) ∧
    ((laneFolding groups).start event).events = [] := by
  simp only [laneFolding]
  cases attaches event with
  | none => exact ⟨⟨laneIdOf_ne _ _ _, rfl, rfl⟩, rfl⟩
  | some owner => exact ⟨⟨laneIdOf_ne _ _ _, rfl, rfl⟩, rfl⟩

theorem folding_add (lane : ResourceLane) (event : UiEvent) :
    (Bare lane → Bare ((laneFolding groups).add lane event)) ∧
      ((laneFolding groups).add lane event).events = lane.events ++ [event] := by
  simp only [laneFolding]
  cases attaches event with
  | none => exact ⟨fun bare => ⟨bare.named, bare.childless, bare.uncounted⟩, rfl⟩
  | some owner => exact ⟨fun bare => ⟨bare.named, bare.childless, bare.uncounted⟩, rfl⟩

theorem order_perm : (laneOrder events).Perm events := by
  have split_ := filter_append_perm (fun event => decide (attaches event = none)) events
  simpa [laneOrder] using split_

theorem lanes_whole : Whole events ⟨eventLanes groups events, fun _ => none⟩ where
  distinct := (KeyedFold.gather_spec (F := laneFolding groups) (laneOrder events)).1
  bare := fun lane member => KeyedFold.gather_all (fun event => (folding_start event).1)
    (fun lane event => (folding_add lane event).1) member
  all := by
    have parts := (KeyedFold.gather_partition (F := laneFolding groups) (f := ResourceLane.events)
      (fun event => (folding_start event).2) (fun lane event => (folding_add lane event).2) (laneOrder events)).all
    exact parts.trans order_perm
  between := fun _ _ none => nomatch none

theorem has_ensure {fresh : ResourceLane} :
    has (ensure lanes fresh) laneId = true ↔ has lanes laneId = true ∨ laneId = fresh.id := by
  unfold ensure
  split
  next here => exact ⟨.inl, fun either => either.elim id fun same => same ▸ here⟩
  next =>
    rw [has_iff, has_iff, map_append, mem_append, map_singleton, mem_singleton]

/-- A lane gets a parent, which becomes a lane if it is none. -/
theorem whole_set (whole : Whole events b) {child : String} (present : has b.lanes child = true)
    {fresh : ResourceLane} (bare : Bare fresh) (empty : fresh.events = []) :
    Whole events ⟨ensure b.lanes fresh, setAt b.laneParent child fresh.id⟩ where
  distinct := by
    unfold ensure
    split
    next => exact whole.distinct
    next absent =>
      rw [map_append]
      refine whole.distinct.append (nodup_singleton _) (disjoint_singleton.mpr fun held => ?_)
      exact absent (has_iff.mpr held)
  bare := by
    unfold ensure
    split
    next => exact whole.bare
    next =>
      intro lane member
      rcases mem_append.mp member with old | new
      · exact whole.bare lane old
      · exact mem_singleton.mp new ▸ bare
  all := by
    unfold ensure
    split
    next => exact whole.all
    next =>
      rw [flatMap_append, flatMap_singleton, empty, append_nil]
      exact whole.all
  between := by
    intro c p given
    simp only [has_ensure]
    simp only [setAt] at given
    split at given
    next own =>
      obtain rfl : fresh.id = p := Option.some.inj given
      exact ⟨.inl (own ▸ present), .inr rfl⟩
    next =>
      obtain ⟨here, there⟩ := whole.between c p given
      exact ⟨.inl here, .inl there⟩

theorem newLane_bare (kind group namespace_ name : String) (named : laneId ≠ "") :
    Bare (newLane laneId kind group namespace_ name) := ⟨named, rfl, rfl⟩

theorem ownerStep_whole (whole : Whole events b)
    (present : has b.lanes lane.id = true) : Whole events (ownerStep groups b lane) := by
  unfold ownerStep
  split
  next => exact whole
  next owner _ => exact whole_set whole present (newLane_bare _ _ _ _ (laneIdOf_ne _ _ _)) rfl

/-- What a step adds has no owner, so that the loop passes it by. -/
theorem ownerStep_lanes (b : Building) (lane : ResourceLane) : ∃ extra, (ownerStep groups b lane).lanes =
    b.lanes ++ extra ∧ extra.length ≤ 1 ∧ ∀ fresh ∈ extra, ownerOf fresh = none := by
  unfold ownerStep
  split
  next => exact ⟨[], by simp, Nat.zero_le 1, fun _ none => absurd none not_mem_nil⟩
  next owner _ =>
    simp only [ensure]
    split
    next => exact ⟨[], by simp, Nat.zero_le 1, fun _ none => absurd none not_mem_nil⟩
    next =>
      refine ⟨_, rfl, le_refl 1, fun fresh member => ?_⟩
      rw [mem_singleton.mp member]
      rfl

theorem ownerLoop_rest {fuel visited : Nat} (done : List ResourceLane) {extra : List ResourceLane}
    (split_ : b.lanes = done ++ extra) (at_ : done.length = visited)
    (ownerless : ∀ lane ∈ extra, ownerOf lane = none) (enough : extra.length ≤ fuel) :
    ownerLoop groups fuel visited b = some b := by
  induction extra generalizing fuel visited done with
  | nil =>
    cases fuel with
    | zero => rw [ownerLoop, if_neg (by simp [split_, at_])]
    | succ fuel =>
      have past : b.lanes[visited]? = none := by simp [split_, ← at_]
      rw [ownerLoop, past]
  | cons lane rest ih =>
    have here : b.lanes[visited]? = some lane := by simp [split_, ← at_]
    cases fuel with
    | zero => simp at enough
    | succ fuel =>
      have same : ownerStep groups b lane = b := by
        rw [ownerStep, ownerless lane mem_cons_self]
      rw [ownerLoop, here]
      simp only [same]
      refine ih (done ++ [lane]) (by rw [split_]; simp) (by simp [at_]) ?_ (by simpa using enough)
      exact fun lane' member => ownerless lane' (mem_cons_of_mem lane member)

theorem ownerLoop_eq {fuel visited : Nat} (done : List ResourceLane)
    {todo : List ResourceLane} (extra : List ResourceLane) (split_ : b.lanes = done ++ todo ++ extra)
    (at_ : done.length = visited) (ownerless : ∀ lane ∈ extra, ownerOf lane = none)
    (enough : 2 * todo.length + extra.length ≤ fuel) :
    ownerLoop groups fuel visited b = some (todo.foldl (ownerStep groups) b) := by
  induction todo generalizing fuel visited b done extra with
  | nil => exact ownerLoop_rest done (by simpa using split_) at_ ownerless (by simpa using enough)
  | cons lane rest ih =>
    have here : b.lanes[visited]? = some lane := by simp [split_, ← at_]
    cases fuel with
    | zero => simp at enough
    | succ fuel =>
      obtain ⟨more, longer, few, ownerless'⟩ := @ownerStep_lanes groups b lane
      rw [ownerLoop, here]
      refine ih (done ++ [lane]) (extra ++ more) ?_ (by simp [at_]) ?_ ?_
      · rw [longer, split_]
        simp
      · intro lane' member
        exact (mem_append.mp member).elim (ownerless lane') (ownerless' lane')
      · simp only [length_cons, length_append] at enough ⊢
        omega

theorem ownerSteps_whole (whole : Whole events b) {todo : List ResourceLane}
    (present : ∀ lane ∈ todo, has b.lanes lane.id = true) :
    Whole events (todo.foldl (ownerStep groups) b) := by
  induction todo generalizing b with
  | nil => exact whole
  | cons lane rest ih =>
    refine ih (ownerStep_whole whole (present lane mem_cons_self)) fun lane' member => ?_
    obtain ⟨more, longer, _, _⟩ := @ownerStep_lanes groups b lane
    have held := present lane' (mem_cons_of_mem lane member)
    rw [has_iff] at held ⊢
    rw [longer, map_append]
    exact mem_append_left _ held

theorem nodeIdToLaneId_ne {nodeId : String} (found : nodeIdToLaneId nodeId = some laneId) : laneId ≠ "" := by
  unfold nodeIdToLaneId at found
  split at found
  next => exact Option.some.inj found ▸ laneIdOf_ne _ _ _
  next => cases found

/-- Either end of an edge is another node's lane. -/
theorem edgeEnds_cases {type : EdgeType} {source target child parent : String}
    (ends : edgeEnds type source target = some (child, parent)) :
    (child = source ∧ parent = target) ∨ (child = target ∧ parent = source) := by
  unfold edgeEnds at ends
  grind

theorem nominated_ne {edge : UiEdge} (found : nominated edge = some (child, parent)) : parent ≠ "" := by
  obtain ⟨source, from_, rest⟩ := Option.bind_eq_some_iff.mp found
  obtain ⟨target, to_, ends⟩ := Option.bind_eq_some_iff.mp rest
  rcases edgeEnds_cases ends with ⟨_, rfl⟩ | ⟨_, rfl⟩
  · exact nodeIdToLaneId_ne to_
  · exact nodeIdToLaneId_ne from_

theorem edgeStep_whole (whole : Whole events b) (edge : UiEdge) :
    Whole events (edgeStep groups b edge) := by
  unfold edgeStep
  split
  next => exact whole
  next child parent found =>
    split
    next able => exact whole_set whole able.2 (newLane_bare _ _ _ _ (nominated_ne found)) rfl
    next => exact whole

theorem edgeSteps_whole (whole : Whole events b) (edges : List UiEdge) :
    Whole events (edges.foldl (edgeStep groups) b) :=
  foldlRecOn edges (edgeStep groups) whole fun _ held edge _ => edgeStep_whole held edge

end Lanes

section Groups
variable {events : List UiEvent} {labels : String → Option String}
variable {laneParent : String → Option String}

theorem mem_sortedGroup : lane ∈ sortedGroup lanes ↔ lane ∈ lanes := (Arrange.sort_perm _ lanes).mem_iff

theorem gives_cases {first : String} {rest : List ResourceLane}
    (given : rest.foldl (give first) laneParent child = some parent) :
    laneParent child = some parent ∨ (∃ lane ∈ rest, lane.id = child) ∧ first = parent := by
  induction rest generalizing laneParent with
  | nil => exact .inl given
  | cons lane rest ih =>
    rcases ih given with old | ⟨⟨lane', member, own⟩, same⟩
    · unfold give at old
      split at old
      next =>
        simp only [setAt] at old
        split at old
        next own => exact .inr ⟨⟨lane, mem_cons_self, own.symm⟩, Option.some.inj old⟩
        next => exact .inl old
      next => exact .inl old
    · exact .inr ⟨⟨lane', mem_cons_of_mem lane member, own⟩, same⟩

/-- A parent given by a label is a lane of the same group. -/
theorem groupStep_cases (given : groupStep laneParent lanes child = some parent) :
    laneParent child = some parent ∨
      (∃ lane ∈ lanes, lane.id = child) ∧ ∃ lane ∈ lanes, lane.id = parent := by
  unfold groupStep at given
  by_cases few : lanes.length < 2
  · rw [if_pos few] at given
    exact .inl given
  · rw [if_neg few] at given
    cases sorted : sortedGroup lanes with
    | nil =>
      rw [sorted] at given
      exact .inl given
    | cons first rest =>
      rw [sorted] at given
      have inside : ∀ lane, lane ∈ first :: rest → lane ∈ lanes :=
        fun lane member => mem_sortedGroup.mp (sorted ▸ member)
      rcases gives_cases given with old | ⟨⟨lane, member, own⟩, same⟩
      · exact .inl old
      · exact .inr ⟨⟨lane, inside lane (mem_cons_of_mem first member), own⟩, first,
          inside first mem_cons_self, same⟩

theorem labelEntry_iff {entry : String × ResourceLane} : labelEntry labels b lane = some entry ↔
      entry.2 = lane ∧ b.laneParent lane.id = none ∧ lane.kind ∈ appLabelEligibleKinds ∧
        labels lane.id = some entry.1 := by
  unfold labelEntry
  by_cases free : b.laneParent lane.id = none
  · by_cases eligible : lane.kind ∈ appLabelEligibleKinds
    · rw [if_neg (not_not.mpr free), if_neg (not_not.mpr eligible), Option.map_eq_some_iff]
      constructor
      · rintro ⟨label, own, rfl⟩
        exact ⟨rfl, free, eligible, own⟩
      · rintro ⟨rfl, _, _, own⟩
        exact ⟨entry.1, own, rfl⟩
    · simp [free, eligible]
  · simp [free]

theorem mem_labelled {label : String} :
    (label, lane) ∈ labelled labels b ↔ lane ∈ b.lanes ∧ b.laneParent lane.id = none ∧
      lane.kind ∈ appLabelEligibleKinds ∧ labels lane.id = some label := by
  simp only [labelled, mem_filterMap, labelEntry_iff]
  constructor
  · rintro ⟨_, member, rfl, rest⟩
    exact ⟨member, rest⟩
  · rintro ⟨member, rest⟩
    exact ⟨lane, member, rfl, rest⟩

/-- The group of a label has the lanes with that label. -/
theorem appGroups_spec (listed : lanes ∈ appGroups labels b) : ∃ label, lanes =
      ((labelled labels b).filter fun entry => entry.1 = label).map Prod.snd := by
  obtain ⟨group, member, rfl⟩ := mem_map.mp listed
  refine ⟨group.1, congrArg (map Prod.snd) ?_⟩
  exact KeyedFold.gather_members (F := appFolding) (f := Prod.snd) (fun _ => rfl) (fun _ _ => rfl) member

theorem appGroups_inside (listed : lanes ∈ appGroups labels b) (member : lane ∈ lanes) : lane ∈ b.lanes := by
  obtain ⟨label, rfl⟩ := appGroups_spec listed
  obtain ⟨entry, inside, rfl⟩ := mem_map.mp member
  exact (mem_labelled.mp (mem_of_mem_filter inside)).1

theorem appStep_whole (whole : Whole events b) (nodes : List UiNode) : Whole events (appStep nodes b) where
  distinct := whole.distinct
  bare := whole.bare
  all := whole.all
  between := by
    have steps : ∀ groups : List (List ResourceLane),
        (∀ lanes ∈ groups, ∀ lane ∈ lanes, lane ∈ b.lanes) → ∀ laneParent : String → Option String,
        (∀ child parent, laneParent child = some parent → has b.lanes child = true ∧ has b.lanes parent = true) →
        ∀ child parent, groups.foldl groupStep laneParent child = some parent →
          has b.lanes child = true ∧ has b.lanes parent = true := by
      intro groups
      induction groups with
      | nil => exact fun _ _ between => between
      | cons lanes rest ih =>
        intro inside laneParent between
        refine ih (fun g listed => inside g (mem_cons_of_mem lanes listed)) _ fun child parent given => ?_
        rcases groupStep_cases given with old | ⟨⟨lane, member, rfl⟩, lane', member', rfl⟩
        · exact between child parent old
        · have within := inside lanes mem_cons_self
          exact ⟨has_iff.mpr (mem_map_of_mem (within lane member)),
            has_iff.mpr (mem_map_of_mem (within lane' member'))⟩
    exact steps _ (fun lanes listed lane member => appGroups_inside listed member) _ whole.between

end Groups

section Nest
variable {events : List UiEvent} {laneId : String} {f : ResourceLane → ResourceLane}

theorem find_root (present : has b.lanes laneId = true) :
    ∃ rootId, has b.lanes rootId = true ∧ findRoot b laneId = some rootId := by
  have inside : ∀ x ∈ b.lanes.map ResourceLane.id, ∀ y, parentLane b x = some y →
      y ∈ b.lanes.map ResourceLane.id := by
    intro x _ y above
    have good := of_decide_eq_true (Option.filter_eq_some_iff.mp above).2
    exact has_iff.mp good.2
  obtain ⟨rootId, member, found⟩ := @RootWalk.walk_total String (parentLane b) laneId _ _ inside
    (b.lanes.length + 1) [] nodup_nil (fun _ none => absurd none not_mem_nil) (has_iff.mp present)
    (by simp)
  exact ⟨rootId, has_iff.mpr member, found⟩

theorem findRoot_root (found : findRoot b laneId = some rootId) :
    RootWalk.Root (parentLane b) laneId rootId := RootWalk.walk_start found

/-- A root is its own root. -/
theorem findRoot_again (present : has b.lanes rootId = true)
    (found : findRoot b laneId = some rootId) : findRoot b rootId = some rootId := by
  obtain ⟨again, _, found'⟩ := find_root present
  have still := RootWalk.root_still (findRoot_root found)
  rw [found', RootWalk.root_unique (findRoot_root found') (RootWalk.root_here still)]

/-- The lane under which the second pass puts a lane. -/
def nestedUnder (b : Building) (laneId : String) : Option String := if b.laneParent laneId = none then none
  else (findRoot b laneId).filter fun rootId => rootId ≠ laneId ∧ has b.lanes rootId

/-- The lanes after some of them have been put under their roots. -/
def placed (b : Building) (done : List String) : List ResourceLane := b.lanes.map fun lane => { lane with
      children := done.filter fun child => nestedUnder b child = some lane.id
      childEventCount := ((done.filter fun child => nestedUnder b child = some lane.id).map fun child =>
          (eventsOf b.lanes child).length).sum }

theorem placed_nil (whole : Whole events b) : placed b [] = b.lanes := by
  refine (map_congr_left fun lane member => ?_).trans (map_id b.lanes)
  obtain ⟨_, childless, uncounted⟩ := whole.bare lane member
  cases lane
  simp_all

theorem find_map (same : ∀ lane, (f lane).id = lane.id) :
    ((lanes.map f).find? fun lane => lane.id = laneId) = (lanes.find? fun lane => lane.id = laneId).map f := by
  rw [find?_map]
  congr 1
  simp [Function.comp_def, same]

theorem eventsOf_map (same : ∀ lane, (f lane).id = lane.id) (kept : ∀ lane, (f lane).events = lane.events) :
    eventsOf (lanes.map f) laneId = eventsOf lanes laneId := by
  rw [eventsOf, find_map same, eventsOf, Option.map_map]
  congr 2
  exact funext kept

theorem has_map (same : ∀ lane, (f lane).id = lane.id) : has (lanes.map f) laneId = has lanes laneId := by
  simp [has, Function.comp_def, same]

/-- One step of the second pass. -/
theorem nestStep_placed (done : List String) (present : has b.lanes laneId = true) :
    nestStep b ⟨placed b done, done.filter fun child => nestedUnder b child ≠ none⟩ laneId =
      some ⟨placed b (done ++ [laneId]), (done ++ [laneId]).filter fun child => nestedUnder b child ≠ none⟩ := by
  have kept : nestedUnder b laneId = none → placed b (done ++ [laneId]) = placed b done ∧
      (done ++ [laneId]).filter (fun child => nestedUnder b child ≠ none) =
        done.filter fun child => nestedUnder b child ≠ none := by
    intro top
    simp [placed, filter_append, top]
  unfold nestStep
  by_cases free : b.laneParent laneId = none
  · have top : nestedUnder b laneId = none := if_pos free
    rw [if_pos free, (kept top).1, (kept top).2]
  · obtain ⟨rootId, root, found⟩ := find_root present
    have there : has (placed b done) rootId = has b.lanes rootId := has_map fun _ => rfl
    rw [if_neg free, found, Option.map_some, there]
    by_cases self : rootId = laneId
    · have top : nestedUnder b laneId = none := by simp [nestedUnder, free, found, self]
      rw [if_neg (by simp [self]), (kept top).1, (kept top).2]
    · have under : nestedUnder b laneId = some rootId := by
        simp [nestedUnder, free, found, self, root]
      rw [if_pos ⟨self, root⟩]
      congr 2
      · have same : eventsOf (placed b done) laneId = eventsOf b.lanes laneId :=
          eventsOf_map (fun _ => rfl) fun _ => rfl
        rw [adopt, same, placed, map_map]
        refine map_congr_left fun lane _ => ?_
        by_cases own : lane.id = rootId
        · simp [own, under, filter_append]
        · simp [own, under, filter_append, Ne.symm own]
      · simp [filter_append, under]

theorem nest_placed (whole : Whole events b) {done : List String} (present : ∀ id ∈ done, has b.lanes id = true) :
    done.foldlM (nestStep b) ⟨b.lanes, []⟩ =
      some ⟨placed b done, done.filter fun child => nestedUnder b child ≠ none⟩ := by
  induction done using reverseRecOn with
  | nil => rw [placed_nil whole]; rfl
  | append_singleton done laneId ih =>
    rw [foldlM_append, ih fun id member => present id (mem_append_left _ member)]
    have step := nestStep_placed done (present laneId (by simp))
    simpa using step

end Nest

section Claims

def childrenOf (lanes : List ResourceLane) (laneId : String) : List String :=
  ((lanes.find? fun lane => lane.id = laneId).map ResourceLane.children).getD []

/-- Every event in one lane, every lane at the top or once below a lane at the top, and the counts right. -/
structure Conserved (time : String → Option Int) (events : List UiEvent) (h : Hierarchy) : Prop where
  distinct : (h.lanes.map ResourceLane.id).Nodup
  all : (h.lanes.flatMap ResourceLane.events).Perm events
  one : (events.map UiEvent.id).Nodup →
    ∀ event ∈ events, ∃! laneId, laneId ∈ h.lanes.map ResourceLane.id ∧ event ∈ eventsOf h.lanes laneId
  once : (h.topLevelLanes.flatMap fun laneId => laneId :: childrenOf h.lanes laneId).Perm
    (h.lanes.map ResourceLane.id)
  flat : ∀ lane ∈ h.lanes, lane.id ∉ h.topLevelLanes → lane.children = []
  counted : ∀ lane ∈ h.lanes,
    lane.childEventCount = (lane.children.map fun child => (eventsOf h.lanes child).length).sum
  total : countEventsInHierarchy h = events.length
  shown : (events.map UiEvent.id).Nodup → (getAllEventsFromHierarchy time h).Perm events

end Claims

section Conservation
variable {events : List UiEvent} {laneId : String} (time : String → Option Int)

/-- The lanes under a root, in the order of the map. -/
def under (b : Building) (rootId : String) : List String :=
  (b.lanes.map ResourceLane.id).filter fun child => nestedUnder b child = some rootId

def topLevel (b : Building) : List String :=
  (b.lanes.map ResourceLane.id).filter fun laneId => nestedUnder b laneId = none

/-- A lane as it is returned. -/
def shownLane (b : Building) (lane : ResourceLane) : ResourceLane := let nested := { lane with
    children := under b lane.id
    childEventCount := ((under b lane.id).map fun child => (eventsOf b.lanes child).length).sum }
  if nestedUnder b lane.id = none then finish time (placed b (b.lanes.map ResourceLane.id)) nested else nested

theorem shown_fields (lane : ResourceLane) : (shownLane time b lane).id = lane.id ∧
    (shownLane time b lane).events = lane.events ∧
    (shownLane time b lane).children.Perm (under b lane.id) ∧
    (shownLane time b lane).childEventCount =
      ((under b lane.id).map fun child => (eventsOf b.lanes child).length).sum := by
  simp only [shownLane]
  split
  next => exact ⟨rfl, rfl, Arrange.sort_perm _ _, rfl⟩
  next => exact ⟨rfl, rfl, List.Perm.refl _, rfl⟩

theorem build_eq (whole : Whole events b) (topology : Option UiTopology) (groupByApp : Bool)
    (built : gatherParents events topology groupByApp = some b) :
    buildResourceHierarchy time events topology groupByApp =
      some ⟨b.lanes.map (shownLane time b), topLevel b⟩ := by
  have nested := nest_placed whole fun id member => has_iff.mpr member
  rw [buildResourceHierarchy, built, Option.bind_some, nested, Option.map_some]
  have ids : (placed b (b.lanes.map ResourceLane.id)).map ResourceLane.id = b.lanes.map ResourceLane.id := by
    simp [placed]
  have kids : ∀ id ∈ b.lanes.map ResourceLane.id,
      id ∈ ((b.lanes.map ResourceLane.id).filter fun child => nestedUnder b child ≠ none) ↔
        nestedUnder b id ≠ none := by
    intro id member
    simp only [mem_filter, member, decide_eq_true_eq, true_and]
  congr 2
  · rw [placed, map_map]
    refine map_congr_left fun lane member => ?_
    have kid := kids lane.id (mem_map_of_mem member)
    by_cases top : nestedUnder b lane.id = none
    · simp only [Function.comp_apply, kid, top, shownLane, ne_eq, not_true_eq_false, if_false, if_true]
      rfl
    · simp only [Function.comp_apply, kid, top, shownLane, ne_eq, not_false_eq_true, if_true, if_false]
      rfl
  · rw [ids]
    refine filter_congr fun id member => ?_
    have kid := kids id member
    simp only [kid, ne_eq, not_not]

theorem find_lane (distinct : (lanes.map ResourceLane.id).Nodup)
    (member : lane ∈ lanes) : (lanes.find? fun l => l.id = lane.id) = some lane := by
  cases found : lanes.find? fun l => l.id = lane.id with
  | none => exact absurd (decide_eq_true rfl) (find?_eq_none.mp found lane member)
  | some other =>
    have same : other.id = lane.id := by simpa using find?_some found
    exact congrArg some (inj_on_of_nodup_map distinct (mem_of_find?_eq_some found) member same)

theorem nested_iff : nestedUnder b laneId = some rootId ↔
    b.laneParent laneId ≠ none ∧ findRoot b laneId = some rootId ∧ rootId ≠ laneId ∧
      has b.lanes rootId = true := by
  unfold nestedUnder
  by_cases free : b.laneParent laneId = none
  · simp [free]
  · rw [if_neg free, Option.filter_eq_some_iff]
    simp [free]

/-- What another lane is put under is at the top. -/
theorem root_top (nested : nestedUnder b laneId = some rootId) : nestedUnder b rootId = none := by
  obtain ⟨_, found, _, root⟩ := nested_iff.mp nested
  have again := findRoot_again root found
  cases nested' : nestedUnder b rootId with
  | none => rfl
  | some other =>
    obtain ⟨_, found', differ, _⟩ := nested_iff.mp nested'
    exact absurd (Option.some.inj (found'.symm.trans again)) differ

/-- Each lane that is not at the top is under one. -/
theorem under_perm (distinct : (b.lanes.map ResourceLane.id).Nodup) : ((b.lanes.map ResourceLane.id).flatMap (under b)).Perm
    ((b.lanes.map ResourceLane.id).filter fun id => !decide (nestedUnder b id = none)) := by
  have within : ∀ id ∈ (b.lanes.map ResourceLane.id).filter (fun id => !decide (nestedUnder b id = none)),
      nestedUnder b id ∈ (b.lanes.map ResourceLane.id).map some := by
    intro id member
    cases nested : nestedUnder b id with
    | none => simp [nested] at member
    | some rootId => exact mem_map_of_mem (has_iff.mp (nested_iff.mp nested).2.2.2)
  have parts := Partition.sorted_by_key_perm (distinct.map (Option.some_injective String)) within
  rw [map_map] at parts
  rw [flatMap_def]
  refine List.Perm.trans (List.Perm.of_eq (congrArg flatten (map_congr_left fun rootId _ => ?_))) parts
  rw [under, Function.comp_apply, filter_filter]
  refine filter_congr fun id _ => ?_
  cases nestedUnder b id with
  | none => simp
  | some _ => simp

/-- At the top or under a lane at the top: each lane once. -/
theorem placed_once (distinct : (b.lanes.map ResourceLane.id).Nodup) :
    ((topLevel b).flatMap fun id => id :: under b id).Perm (b.lanes.map ResourceLane.id) := by
  have nested : ((topLevel b).flatMap (under b)).Perm
      ((b.lanes.map ResourceLane.id).filter fun id => !decide (nestedUnder b id = none)) := by
    have tops := (filter_append_perm (fun id => decide (nestedUnder b id = none))
      (b.lanes.map ResourceLane.id)).flatMap_right (under b)
    have none_ : (((b.lanes.map ResourceLane.id).filter fun id => !decide (nestedUnder b id = none)).flatMap
        (under b)) = [] := by
      rw [flatMap_eq_nil_iff]
      intro id member
      rw [under, filter_eq_nil_iff]
      intro child _ below
      have top := root_top (of_decide_eq_true below)
      have kid := (mem_filter.mp member).2
      simp [top] at kid
    rw [flatMap_append, none_, append_nil] at tops
    refine tops.trans ?_
    exact under_perm distinct
  have apart := flatMap_append_perm (topLevel b) (fun id => [id]) (under b)
  refine apart.symm.trans ?_
  rw [flatMap_singleton']
  exact (nested.append_left _).trans (filter_append_perm _ _)

theorem count_length (h : Hierarchy) : countEventsInHierarchy h = (allEvents h).length := by
  rw [countEventsInHierarchy, allEvents, length_flatMap]
  congr 1
  refine map_congr_left fun laneId _ => ?_
  cases h.lanes.find? fun lane => lane.id = laneId with
  | none => rfl
  | some lane => simp [length_flatMap]

theorem eventsOf_lane (distinct : (lanes.map ResourceLane.id).Nodup) (member : lane ∈ lanes) :
    eventsOf lanes lane.id = lane.events := by
  rw [eventsOf, find_lane distinct member]
  rfl

theorem listed_events (distinct : (lanes.map ResourceLane.id).Nodup) :
    (lanes.map ResourceLane.id).flatMap (eventsOf lanes) = lanes.flatMap ResourceLane.events := by
  rw [flatMap_map]
  exact flatMap_congr fun lane member => eventsOf_lane distinct member

/-- With every lane shown once every event is. -/
theorem allEvents_perm {h : Hierarchy} (distinct : (h.lanes.map ResourceLane.id).Nodup)
    (all : (h.lanes.flatMap ResourceLane.events).Perm events)
    (once : (h.topLevelLanes.flatMap fun laneId => laneId :: childrenOf h.lanes laneId).Perm
      (h.lanes.map ResourceLane.id)) : (allEvents h).Perm events := by
  have listed : allEvents h = (h.topLevelLanes.flatMap fun laneId =>
      laneId :: childrenOf h.lanes laneId).flatMap (eventsOf h.lanes) := by
    rw [allEvents, flatMap_assoc]
    refine flatMap_congr fun laneId _ => ?_
    rw [flatMap_cons]
    cases found : h.lanes.find? fun lane => lane.id = laneId with
    | none => simp [childrenOf, eventsOf, found]
    | some lane => simp [childrenOf, eventsOf, found]
  rw [listed]
  refine (once.flatMap_right _).trans ?_
  rw [listed_events distinct]
  exact all

/-- An event of distinct ones is in one lane. -/
theorem one_lane (distinct : (lanes.map ResourceLane.id).Nodup)
    (all : (lanes.flatMap ResourceLane.events).Perm events) (apart : events.Nodup) {event : UiEvent}
    (member : event ∈ events) :
    ∃! laneId, laneId ∈ lanes.map ResourceLane.id ∧ event ∈ eventsOf lanes laneId := by
  obtain ⟨lane, inside, held⟩ := mem_flatMap.mp (all.mem_iff.mpr member)
  refine ⟨lane.id, ⟨mem_map_of_mem inside, by rwa [eventsOf_lane distinct inside]⟩, ?_⟩
  rintro _ ⟨listed, held'⟩
  obtain ⟨lane', inside', rfl⟩ := mem_map.mp listed
  rw [eventsOf_lane distinct inside'] at held'
  by_contra differ
  have disjoint := (nodup_flatMap.mp (all.nodup_iff.mpr apart)).2
  have symm : Std.Symm (Function.onFun List.Disjoint ResourceLane.events) := ⟨fun _ _ => List.Disjoint.symm⟩
  have none := disjoint.forall inside inside' fun same => differ (congrArg ResourceLane.id same.symm)
  exact none held held'

theorem shown_children (distinct : (b.lanes.map ResourceLane.id).Nodup) {id : String}
    (member : id ∈ b.lanes.map ResourceLane.id) :
    (childrenOf (b.lanes.map (shownLane time b)) id).Perm (under b id) := by
  obtain ⟨lane, inside, rfl⟩ := mem_map.mp member
  rw [childrenOf, find_map fun lane => (shown_fields time lane).1, find_lane distinct inside]
  exact (shown_fields time lane).2.2.1

/-- What has been built has every event and every lane once. -/
theorem shown_conserved (whole : Whole events b) :
    Conserved time events ⟨b.lanes.map (shownLane time b), topLevel b⟩ := by
  have fields := fun lane => @shown_fields b time lane
  have ids : (b.lanes.map (shownLane time b)).map ResourceLane.id = b.lanes.map ResourceLane.id := by
    rw [map_map]
    exact map_congr_left fun lane _ => (fields lane).1
  have own : ∀ id, eventsOf (b.lanes.map (shownLane time b)) id = eventsOf b.lanes id :=
    fun id => eventsOf_map (fun lane => (fields lane).1) fun lane => (fields lane).2.1
  have all : ((b.lanes.map (shownLane time b)).flatMap ResourceLane.events).Perm events := by
    rw [flatMap_map]
    exact (List.Perm.flatMap_left b.lanes fun lane _ => List.Perm.of_eq (fields lane).2.1).trans whole.all
  have once : ((topLevel b).flatMap fun id => id :: childrenOf (b.lanes.map (shownLane time b)) id).Perm
      (b.lanes.map ResourceLane.id) := by
    refine (List.Perm.flatMap_left _ fun id member => ?_).trans (placed_once whole.distinct)
    exact (shown_children time whole.distinct (mem_of_mem_filter member)).cons id
  have distinct : ((b.lanes.map (shownLane time b)).map ResourceLane.id).Nodup := ids ▸ whole.distinct
  have shown : (allEvents ⟨b.lanes.map (shownLane time b), topLevel b⟩).Perm events :=
    allEvents_perm distinct all (ids ▸ once)
  constructor
  case distinct => exact distinct
  case all => exact all
  case one =>
    intro apart event member
    exact one_lane distinct all (List.Nodup.of_map _ apart) member
  case once => exact ids ▸ once
  case flat =>
    intro lane member low
    obtain ⟨lane, inside, rfl⟩ := mem_map.mp member
    have none_ : under b lane.id = [] := by
      rw [under, filter_eq_nil_iff]
      intro child _ below
      refine low (mem_filter.mpr ⟨?_, ?_⟩)
      · rw [(fields lane).1]
        exact mem_map_of_mem inside
      · rw [(fields lane).1]
        exact decide_eq_true (root_top (of_decide_eq_true below))
    exact List.Perm.eq_nil (none_ ▸ (fields lane).2.2.1)
  case counted =>
    intro lane member
    obtain ⟨lane, inside, rfl⟩ := mem_map.mp member
    obtain ⟨_, _, nested, count⟩ := fields lane
    rw [count]
    simp only [own]
    exact (nested.map _).sum_eq.symm
  case total =>
    rw [count_length]
    exact shown.length_eq
  case shown =>
    intro apart
    rw [getAllEventsFromHierarchy, uniqueEvents,
      KeyedFold.putAll_distinct ((shown.map UiEvent.id).nodup_iff.mpr apart)]
    exact (Arrange.sort_perm _ _).trans shown

/-- What the owners of the lanes of events give. -/
def owned (groups : String → Option String) (events : List UiEvent) : Building :=
  (eventLanes groups events).foldl (ownerStep groups) ⟨eventLanes groups events, fun _ => none⟩

theorem ownerLoop_all (groups : String → Option String) (lanes : List ResourceLane) :
    ownerLoop groups (2 * lanes.length) 0 ⟨lanes, fun _ => none⟩ =
      some (lanes.foldl (ownerStep groups) ⟨lanes, fun _ => none⟩) := by
  refine ownerLoop_eq [] [] ?_ rfl (fun _ none => absurd none not_mem_nil) (le_refl _)
  rw [nil_append, append_nil]

theorem gathered_eq (events : List UiEvent) (topology : Option UiTopology) (groupByApp : Bool) :
    gatherParents events topology groupByApp =
      some (linkParents topology groupByApp (topologyGroups topology) (owned (topologyGroups topology) events)) := by
  rw [gatherParents, ownerLoop_all, Option.map_some]
  rfl

theorem owned_whole (groups : String → Option String) (events : List UiEvent) : Whole events (owned groups events) :=
  ownerSteps_whole lanes_whole fun _ member => has_iff.mpr (mem_map_of_mem member)

theorem linked_whole {groups : String → Option String} (whole : Whole events b)
    (topology : Option UiTopology) (groupByApp : Bool) :
    Whole events (linkParents topology groupByApp groups b) := by
  cases topology with
  | none => exact whole
  | some t =>
    cases groupByApp with
    | false => exact edgeSteps_whole whole t.edges
    | true => exact appStep_whole (edgeSteps_whole whole t.edges) t.nodes

/-- The hierarchy is built for whatever events, graph and grouping, and conserves the events. -/
theorem hierarchy_conserves (events : List UiEvent) (topology : Option UiTopology) (groupByApp : Bool) :
    ∃ h, buildResourceHierarchy time events topology groupByApp = some h ∧ Conserved time events h := by
  have whole := @linked_whole _ _ (topologyGroups topology) (owned_whole (topologyGroups topology) events) topology
    groupByApp
  exact ⟨_, build_eq time whole topology groupByApp (gathered_eq events topology groupByApp),
    shown_conserved time whole⟩

end Conservation
end ResourceHierarchy
