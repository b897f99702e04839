import Radar.Applications.Overlay
import Radar.Topology.Neighborhood

/- pkg/topology/relationships.go and pkg/topology/managedby.go: what a resource is related to, read off
   the edges of its node, and who manages it. -/
namespace ResourceRelations
open Topology NodeRef Neighborhood GoText

/-- The apiserver's objects as far as they are looked into. -/
structure PodResourceClaim where
  name : String
  resourceClaimName : Option String

structure PodObject where
  namespace_ : String
  name : String
  meta_ : Overlay.ObjectMeta
  serviceAccountName : String
  nodeName : String
  phase : String
  resourceClaims : List PodResourceClaim
  resourceClaimStatuses : List PodResourceClaim

/-- The requests and reservations of a claim; a text that is absent is empty. -/
structure DeviceRequest where
  exactly : String
  deviceClassName : String
  firstAvailable : List String

structure Reservation where
  resource : String
  name : String

structure Unstructured where
  meta_ : Overlay.ObjectMeta
  group : String
  requests : List DeviceRequest
  reservedFor : List Reservation

inductive Queried where
  | pod (p : PodObject)
  | unstructured (u : Unstructured)
  | other (meta_ : Option Overlay.ObjectMeta)

def Queried.meta_ : Queried → Option Overlay.ObjectMeta
  | .pod p => some p.meta_
  | .unstructured u => some u.meta_
  | .other meta_ => meta_

structure PersistentVolumeClaim where
  namespace_ : String
  name : String
  volumeName : String

structure PersistentVolume where
  name : String
  claimRef : Option (String × String)
  storageClassName : String

/-- A DynamicProvider: the kind and the group discovery has for a name, and its object. -/
structure Discovery where
  kinds : DynamicProvider
  group : String → Option String
  get : String → String → String → Option Queried

structure ResourceProvider where
  persistentVolumeClaims : List PersistentVolumeClaim
  persistentVolumes : List PersistentVolume
  pods : List PodObject
  lookupTypedMetadata : String → String → String → Option Queried

structure Relationships where
  owner : Option ResourceRef := none
  deployment : Option ResourceRef := none
  children : List ResourceRef := []
  services : List ResourceRef := []
  ingresses : List ResourceRef := []
  gateways : List ResourceRef := []
  routes : List ResourceRef := []
  configRefs : List ResourceRef := []
  consumers : List ResourceRef := []
  scalers : List ResourceRef := []
  scaleTarget : Option ResourceRef := none
  pdbs : List ResourceRef := []
  networkPolicies : List ResourceRef := []
  pods : List ResourceRef := []
  serviceAccount : Option ResourceRef := none
  node : Option ResourceRef := none
  resourceClaims : List ResourceRef := []
  managedBy : List ResourceRef := []
  deriving DecidableEq

def displayKinds : List (String × String) :=
  [("pod", "Pod"), ("service", "Service"), ("deployment", "Deployment"), ("rollout", "Rollout"),
    ("daemonset", "DaemonSet"), ("statefulset", "StatefulSet"), ("replicaset", "ReplicaSet"),
    ("ingress", "Ingress"), ("gateway", "Gateway"), ("httproute", "HTTPRoute"),
    ("grpcroute", "GRPCRoute"), ("tcproute", "TCPRoute"), ("tlsroute", "TLSRoute"),
    ("configmap", "ConfigMap"), ("secret", "Secret"),
    ("horizontalpodautoscaler", "HorizontalPodAutoscaler"), ("job", "Job"), ("cronjob", "CronJob"),
    ("persistentvolumeclaim", "PersistentVolumeClaim"), ("podgroup", "PodGroup"),
    ("application", "Application"), ("kustomization", "Kustomization"),
    ("helmrelease", "HelmRelease"), ("gitrepository", "GitRepository"),
    ("certificate", "Certificate"), ("issuer", "Issuer"), ("clusterissuer", "ClusterIssuer"),
    ("node", "Node"), ("nodepool", "NodePool"), ("nodeclaim", "NodeClaim"),
    ("nodeclass", "NodeClass"), ("scaledobject", "ScaledObject"), ("scaledjob", "ScaledJob"),
    ("gatewayclass", "GatewayClass"), ("istiogateway", "Gateway"),
    ("knativeservice", "KnativeService"), ("knativeconfiguration", "Configuration"),
    ("knativerevision", "Revision"), ("knativeroute", "Route"), ("broker", "Broker"),
    ("trigger", "Trigger"), ("pingsource", "PingSource"), ("apiserversource", "ApiServerSource"),
    ("containersource", "ContainerSource"), ("sinkbinding", "SinkBinding"), ("channel", "Channel"),
    ("ingressroute", "IngressRoute"), ("ingressroutetcp", "IngressRouteTCP"),
    ("ingressrouteudp", "IngressRouteUDP"), ("middleware", "Middleware"),
    ("middlewaretcp", "MiddlewareTCP"), ("traefikservice", "TraefikService"),
    ("serverstransport", "ServersTransport"), ("serverstransporttcp", "ServersTransportTCP"),
    ("tlsoption", "TLSOption"), ("tlsstore", "TLSStore"), ("httpproxy", "HTTPProxy"),
    ("internet", "Internet"), ("persistentvolume", "PersistentVolume"),
    ("storageclass", "StorageClass"), ("poddisruptionbudget", "PodDisruptionBudget"),
    ("networkpolicy", "NetworkPolicy"), ("ciliumnetworkpolicy", "CiliumNetworkPolicy"),
    ("ciliumclusterwidenetworkpolicy", "CiliumClusterwideNetworkPolicy"),
    ("clusternetworkpolicy", "ClusterNetworkPolicy"),
    ("verticalpodautoscaler", "VerticalPodAutoscaler"), ("capicluster", "Cluster"),
    ("clusterclass", "ClusterClass"), ("machine", "Machine"), ("machineset", "MachineSet"),
    ("machinedeployment", "MachineDeployment"), ("machinepool", "MachinePool"),
    ("kubeadmcontrolplane", "KubeadmControlPlane"), ("machinehealthcheck", "MachineHealthCheck"),
    ("resourceclaim", "ResourceClaim"), ("resourceclaimtemplate", "ResourceClaimTemplate"),
    ("deviceclass", "DeviceClass"), ("resourceslice", "ResourceSlice")]

section Ids
variable (casing : Casing) (dp : Option Discovery)

def nodeID (kind namespace_ name : String) : String :=
  buildNodeID casing (dp.map Discovery.kinds) kind namespace_ name

def normalizeKind (kind : String) : String := match displayKinds.lookup (casing.toLower kind) with
  | some normalized => normalized
  | none => ((dp.bind fun dp => getResourceByName dp.kinds kind)).getD kind

/-- A pod group is of the display only and is no resource. -/
def parseNodeID (nodeID : String) : Option ResourceRef := match cut '/' nodeID with
  | none => none
  | some (kind, rest) =>
    match cut '/' rest with
    | none => none
    | some (namespace_, name) =>
      if casing.toLower kind = "podgroup" then none
      else some ⟨normalizeKind casing dp kind, namespace_, name, ""⟩

def resolveAPIGroup (kind : String) : String := (dp.bind fun dp => dp.group (casing.toLower kind)).getD ""

def enrichRef (ref : ResourceRef) : ResourceRef := { ref with group := resolveAPIGroup casing dp ref.kind }

/-- The reference an end of an edge is shown as. -/
def refOf (id : String) : Option ResourceRef := (parseNodeID casing dp id).map (enrichRef casing dp)

end Ids

def edgesForNode (topo : Graph) (idx : Option RelationshipsIndex) (id : String) : List Edge × List Edge :=
  match idx with
  | some idx => (idx.incoming id, idx.outgoing id)
  | none => (topo.edges.filter fun e => e.target == id, topo.edges.filter fun e => e.source == id)

def isRouteKind (kindLower : String) : Bool :=
  ["httproute", "httproutes", "grpcroute", "grpcroutes", "tcproute", "tcproutes", "tlsroute",
    "tlsroutes"].contains kindLower

def routesToTarget (casing : Casing) (kindLower : String) (rel : Relationships) (ref : ResourceRef) :
    Relationships :=
  if kindLower = "gateway" ∨ kindLower = "gateways" then
    if isRouteKind (casing.toLower ref.kind) then { rel with routes := rel.routes ++ [ref] }
    else { rel with services := rel.services ++ [ref] }
  else if kindLower = "ingress" ∨ kindLower = "ingresses" ∨ isRouteKind kindLower then
    { rel with services := rel.services ++ [ref] }
  else { rel with pods := rel.pods ++ [ref] }

def routesFromSource (casing : Casing) (rel : Relationships) (ref : ResourceRef) : Relationships :=
  let sourceKind := casing.toLower ref.kind
  if sourceKind = "ingress" then { rel with ingresses := rel.ingresses ++ [ref] }
  else if sourceKind ∈ ["gateway", "httproute", "grpcroute", "tcproute", "tlsroute"] then
    { rel with gateways := rel.gateways ++ [ref] }
  else if sourceKind = "service" then { rel with services := rel.services ++ [ref] }
  else rel

def protectsFromSource (rel : Relationships) (ref : ResourceRef) : Relationships :=
  if ref.kind = "PodDisruptionBudget" then { rel with pdbs := rel.pdbs ++ [ref] }
  else if ref.kind ∈ ["NetworkPolicy", "CiliumNetworkPolicy", "ClusterNetworkPolicy",
      "CiliumClusterwideNetworkPolicy"] then
    { rel with networkPolicies := rel.networkPolicies ++ [ref] }
  else rel

/-- An outgoing protects edge has no field to land in. -/
def addOutgoing (casing : Casing) (dp : Option Discovery) (kindLower : String) (rel : Relationships)
    (edge : Edge) : Relationships :=
  match refOf casing dp edge.target with
  | none => rel
  | some ref => match edge.type with
    | .manages => { rel with children := rel.children ++ [ref] }
    | .exposes => { rel with pods := rel.pods ++ [ref] }
    | .routesTo => routesToTarget casing kindLower rel ref
    | .uses => { rel with scaleTarget := some ref }
    | .protects => rel
    | .configures => { rel with consumers := rel.consumers ++ [ref] }

def addIncoming (casing : Casing) (dp : Option Discovery) (rel : Relationships) (edge : Edge) :
    Relationships :=
  match refOf casing dp edge.source with
  | none => rel
  | some ref => match edge.type with
    | .manages => { rel with owner := some ref }
    | .exposes => { rel with services := rel.services ++ [ref] }
    | .routesTo => routesFromSource casing rel ref
    | .uses => { rel with scalers := rel.scalers ++ [ref] }
    | .protects => protectsFromSource rel ref
    | .configures => { rel with configRefs := rel.configRefs ++ [ref] }

section Graph
variable (casing : Casing) (dp : Option Discovery) (topo : Graph) (idx : Option RelationshipsIndex)

/-- Deployment, ReplicaSet, Pod: the pods two levels down. -/
def grandchildPods (rel : Relationships) : List ResourceRef :=
  (rel.children.filter fun child => casing.equalFold child.kind "ReplicaSet").flatMap fun child =>
    let childID := nodeID casing dp child.kind child.namespace_ child.name
    ((edgesForNode topo idx childID).2.filter fun e => e.type == .manages).filterMap fun e =>
      (parseNodeID casing dp e.target).bind fun podRef =>
        if casing.equalFold podRef.kind "Pod" then some (enrichRef casing dp podRef) else none

/-- The Deployment over a Pod's ReplicaSet. -/
def grandparentDeployment (owner : ResourceRef) : Option ResourceRef :=
  let ownerID := nodeID casing dp owner.kind owner.namespace_ owner.name
  ((edgesForNode topo idx ownerID).1.filter fun e => e.type == .manages).findSome? fun e =>
    (parseNodeID casing dp e.source).bind fun deployRef =>
      if casing.equalFold deployRef.kind "Deployment" then some (enrichRef casing dp deployRef)
      else none

def withGrandchildren (kindLower : String) (rel : Relationships) : Relationships :=
  if kindLower = "deployments" ∨ kindLower = "deployment" then
    { rel with pods := rel.pods ++ grandchildPods casing dp topo idx rel }
  else rel

def withDeployment (kindLower : String) (rel : Relationships) : Relationships :=
  if kindLower = "pods" ∨ kindLower = "pod" then
    match rel.owner with
    | none => rel
    | some owner =>
      if casing.equalFold owner.kind "ReplicaSet" then
        { rel with deployment := grandparentDeployment casing dp topo idx owner }
      else rel
  else rel

/-- What the edges of the resource's node say, and the two shortcuts past ReplicaSets. -/
def edgeRelationships (kind namespace_ name : String) : Relationships :=
  let kindLower := casing.toLower kind
  let edges := edgesForNode topo idx (nodeID casing dp kind namespace_ name)
  let outgoing := edges.2.foldl (addOutgoing casing dp kindLower) {}
  let rel := edges.1.foldl (addIncoming casing dp) outgoing
  withDeployment casing dp topo idx kindLower (withGrandchildren casing dp topo idx kindLower rel)

end Graph

section Objects
variable (casing : Casing) (dp : Option Discovery)

def clusterScopedRef (kind name : String) : ResourceRef := enrichRef casing dp ⟨kind, "", name, ""⟩

def namespacedRef (kind namespace_ name : String) : ResourceRef :=
  enrichRef casing dp ⟨kind, namespace_, name, ""⟩

def volumeOf (provider : ResourceProvider) (namespace_ name : String) (rel : Relationships) :
    Relationships :=
  match provider.persistentVolumeClaims.find? fun pvc =>
    pvc.namespace_ == namespace_ && pvc.name == name && pvc.volumeName != "" with
  | none => rel
  | some pvc =>
    { rel with children := rel.children ++ [clusterScopedRef casing dp "PersistentVolume" pvc.volumeName] }

def claimAndClass (provider : ResourceProvider) (name : String) (rel : Relationships) : Relationships :=
  match provider.persistentVolumes.find? fun pv => pv.name == name with
  | none => rel
  | some pv =>
    { rel with
      consumers := rel.consumers ++ (pv.claimRef.toList.map fun claim =>
        namespacedRef casing dp "PersistentVolumeClaim" claim.1 claim.2)
      configRefs := rel.configRefs ++
        if pv.storageClassName ≠ "" then [clusterScopedRef casing dp "StorageClass" pv.storageClassName]
        else [] }

def volumesOfClass (provider : ResourceProvider) (name : String) (rel : Relationships) : Relationships :=
  { rel with
    children := rel.children ++
      (provider.persistentVolumes.filter fun pv => pv.storageClassName == name).map fun pv =>
        clusterScopedRef casing dp "PersistentVolume" pv.name }

def podsOnNode (provider : ResourceProvider) (name : String) (rel : Relationships) : Relationships :=
  { rel with
    pods := rel.pods ++ (provider.pods.filter fun pod =>
        pod.nodeName == name && pod.phase != "Succeeded" && pod.phase != "Failed").map fun pod =>
          namespacedRef casing dp "Pod" pod.namespace_ pod.name }

/-- The storage chain and the pods of a node come from the provider, not from edges. -/
def addStorage (provider : Option ResourceProvider) (kindLower namespace_ name : String)
    (rel : Relationships) : Relationships :=
  match provider with
  | none => rel
  | some provider =>
    if kindLower ∈ ["persistentvolumeclaim", "persistentvolumeclaims", "pvc", "pvcs"] then
      volumeOf casing dp provider namespace_ name rel
    else if kindLower ∈ ["persistentvolume", "persistentvolumes", "pv", "pvs"] then
      claimAndClass casing dp provider name rel
    else if kindLower ∈ ["storageclass", "storageclasses", "sc"] then
      volumesOfClass casing dp provider name rel
    else if kindLower ∈ ["node", "nodes"] then podsOnNode casing dp provider name rel
    else rel

def lookupObjectMetadata (provider : Option ResourceProvider) (kindLower namespace_ name : String) :
    Option Queried :=
  (provider.bind fun provider => provider.lookupTypedMetadata kindLower namespace_ name) <|>
    dp.bind fun dp => dp.get kindLower namespace_ name

/-- The name of a claim made from a template is in the status only. -/
def claimName (pod : PodObject) (pc : PodResourceClaim) : String := match pc.resourceClaimName with
  | some name => name
  | none => (pod.resourceClaimStatuses.findSome? fun st =>
      if st.name = pc.name then st.resourceClaimName else none).getD ""

def resourceRef (kind namespace_ name : String) : ResourceRef := ⟨kind, namespace_, name, "resource.k8s.io"⟩

def addPodSpec (namespace_ : String) (pod : PodObject) (rel : Relationships) : Relationships := { rel with
    serviceAccount := if pod.serviceAccountName ≠ "" then
        some (namespacedRef casing dp "ServiceAccount" namespace_ pod.serviceAccountName)
      else rel.serviceAccount
    node := if pod.nodeName ≠ "" then some (clusterScopedRef casing dp "Node" pod.nodeName) else rel.node
    resourceClaims := rel.resourceClaims ++
      ((pod.resourceClaims.map (claimName pod)).filter fun name => name != "").map
        (resourceRef "ResourceClaim" namespace_) }

def deviceClasses (req : DeviceRequest) : List String := (if req.exactly ≠ "" then [req.exactly]
    else if req.deviceClassName ≠ "" then [req.deviceClassName] else []) ++
  req.firstAvailable.filter fun dc => dc != ""

def addClaim (namespace_ : String) (u : Unstructured) (rel : Relationships) : Relationships := { rel with
    configRefs := rel.configRefs ++
      (u.requests.flatMap deviceClasses).eraseDups.map (resourceRef "DeviceClass" "")
    consumers := rel.consumers ++
      (u.reservedFor.filter fun r => r.resource == "pods" && r.name != "").map fun r =>
        namespacedRef casing dp "Pod" namespace_ r.name }

def addObject (kindLower namespace_ : String) (queried : Option Queried) (rel : Relationships) :
    Relationships :=
  match queried with
  | some (.pod pod) => addPodSpec casing dp namespace_ pod rel
  | some (.unstructured u) =>
    if (kindLower = "resourceclaim" ∨ kindLower = "resourceclaims") ∧ u.group = "resource.k8s.io" then
      addClaim casing dp namespace_ u rel
    else rel
  | _ => rel

end Objects

def fluxManager (kind group name namespace_ : String) : Option ResourceRef :=
  if name ≠ "" ∧ namespace_ ≠ "" then some ⟨kind, namespace_, name, group⟩ else none

def detectManagedByFromMeta (obj : Overlay.ObjectMeta) : Option ResourceRef :=
  fluxManager "HelmRelease" "helm.toolkit.fluxcd.io" (obj.labels "helm.toolkit.fluxcd.io/name")
      (obj.labels "helm.toolkit.fluxcd.io/namespace") <|>
  fluxManager "Kustomization" "kustomize.toolkit.fluxcd.io"
      (obj.labels "kustomize.toolkit.fluxcd.io/name")
      (obj.labels "kustomize.toolkit.fluxcd.io/namespace") <|>
  ((Overlay.parseArgoTrackingID (obj.annotations "argocd.argoproj.io/tracking-id")).map fun app =>
    ⟨"Application", app.1, app.2, "argoproj.io"⟩) <|>
  (let n := obj.labels "argocd.argoproj.io/instance"
    if n ≠ "" then some ⟨"Application", "", n, "argoproj.io"⟩ else none) <|>
  (let n := obj.annotations "meta.helm.sh/release-name"
    if n ≠ "" then some ⟨"HelmRelease", obj.annotations "meta.helm.sh/release-namespace", n, ""⟩
    else none)

/-- The walk's three variables. -/
structure OwnerWalk where
  cur : String
  visited : List String
  topRef : Option ResourceRef
  deriving DecidableEq

/-- The source of the first manages edge to the node, empty when there is none. -/
def ownerOf (topo : Graph) (idx : Option RelationshipsIndex) (target : String) : String := match idx with
  | some idx => (((idx.incoming target).find? fun e => e.type == .manages).map Edge.source).getD ""
  | none => ((topo.edges.find? fun e => e.type == .manages && e.target == target).map Edge.source).getD ""

section Walk
variable (casing : Casing) (dp : Option Discovery) (topo : Graph) (idx : Option RelationshipsIndex)

/-- One round of the loop, `none` where it breaks. -/
def ownerHop (w : OwnerWalk) : Option OwnerWalk := let next := ownerOf topo idx w.cur
  if next = "" then none
  else if w.visited.contains next then none
  else match refOf casing dp next with
    | none => none
    | some ref => some ⟨next, next :: w.visited, some ref⟩

variable {casing dp topo idx} in
theorem owner_hop_some {w w' : OwnerWalk} : ownerHop casing dp topo idx w = some w' ↔
    ∃ ref, ownerOf topo idx w.cur ≠ "" ∧ ownerOf topo idx w.cur ∉ w.visited ∧
      refOf casing dp (ownerOf topo idx w.cur) = some ref ∧
        w' = ⟨ownerOf topo idx w.cur, ownerOf topo idx w.cur :: w.visited, some ref⟩ := by
  simp only [ownerHop]
  by_cases ended : ownerOf topo idx w.cur = ""
  · simp [ended]
  · by_cases seen : ownerOf topo idx w.cur ∈ w.visited
    · simp [seen]
    · cases parsed : refOf casing dp (ownerOf topo idx w.cur) with
      | none => simp [ended]
      | some ref => simp [ended, seen, eq_comm]

def walkLoop : Nat → OwnerWalk → OwnerWalk
  | 0, w => w
  | rounds + 1, w => match ownerHop casing dp topo idx w with
    | none => w
    | some w' => walkLoop rounds w'

def walkStart (kind namespace_ name : String) : OwnerWalk :=
  let cur := nodeID casing dp kind namespace_ name
  ⟨cur, [cur], none⟩

/-- The loop breaks before it has made as many rounds as there are edges, and one. -/
def walkTopmostOwner (kind namespace_ name : String) : Option ResourceRef :=
  (walkLoop casing dp topo idx (topo.edges.length + 1)
    (walkStart casing dp kind namespace_ name)).topRef

def synthesizeManagedBy (obj : Option Overlay.ObjectMeta) (kind namespace_ name : String) :
    List ResourceRef :=
  (obj.bind detectManagedByFromMeta <|>
    walkTopmostOwner casing dp topo idx kind namespace_ name).toList

end Walk

def nilIfEmpty (rel : Relationships) : Option Relationships := if rel = {} then none else some rel

def getRelationshipsWithObject (casing : Casing) (kind namespace_ name : String)
    (obj : Option Queried) (topo : Option Graph) (provider : Option ResourceProvider)
    (dp : Option Discovery) (idx : Option RelationshipsIndex) : Option Relationships :=
  match topo with
  | none => none
  | some topo =>
    let kindLower := casing.toLower kind
    let queried := obj <|> lookupObjectMetadata dp provider kindLower namespace_ name
    let edges := edgeRelationships casing dp topo idx kind namespace_ name
    let stored := addStorage casing dp provider kindLower namespace_ name edges
    let seen := addObject casing dp kindLower namespace_ queried stored
    nilIfEmpty { seen with
      managedBy := synthesizeManagedBy casing dp topo idx (queried.bind Queried.meta_) kind
        namespace_ name }

def getRelationships (casing : Casing) (kind namespace_ name : String) (topo : Option Graph)
    (provider : Option ResourceProvider) (dp : Option Discovery) : Option Relationships :=
  getRelationshipsWithObject casing kind namespace_ name none topo provider dp none

end ResourceRelations
