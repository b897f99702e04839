import Mathlib.Data.Prod.Lex
import Mathlib.Data.String.Basic
import Radar.Base.Arrange
import Radar.Topology.ResourceRelations

/- pkg/resourcecontext/build.go: the context of a resource, with every reference in it checked by itself.
   A builder returns what it found readable and the fields it has to report as omitted. -/
namespace ContextBuild
open Topology NodeRef Neighborhood GoText
open ResourceRelations (Discovery Relationships Queried PodObject PodResourceClaim DeviceRequest
  Reservation ResourceProvider detectManagedByFromMeta getRelationshipsWithObject)

structure ContextRef where
  kind : String
  group : String
  namespace_ : String
  name : String
  deriving DecidableEq, Repr

/-- A RefAccessChecker: by group, kind and namespace. -/
abbrev CanRead := String → String → String → Bool

/-- Without a checker everything may be read. -/
def checkRef (ac : Option CanRead) (r : ContextRef) : Bool := match ac with
  | none => true
  | some canRead => canRead r.group r.kind r.namespace_

inductive OmittedReason where
  | rbacDenied | budgetExceeded | cacheCold | notInstalled
  deriving DecidableEq

structure OmittedField where
  field : String
  reason : OmittedReason
  deriving DecidableEq

def addOmitted (items : List OmittedField) (field : String) (reason : OmittedReason) : List OmittedField :=
  if ⟨field, reason⟩ ∈ items then items else items ++ [⟨field, reason⟩]

def collect (denied : List String) : List OmittedField :=
  denied.foldl (fun items field => addOmitted items field .rbacDenied) []

def filterRefs (ac : Option CanRead) (refs : List ContextRef) (fieldPath : String) :
    List ContextRef × List String :=
  (refs.filter (checkRef ac), if refs.any fun r => !checkRef ac r then [fieldPath] else [])

def gateRef (ac : Option CanRead) (candidate : ContextRef) (fieldPath : String) :
    Option ContextRef × List String :=
  if checkRef ac candidate then (some candidate, []) else (none, [fieldPath])

/-- By kind, namespace and name; the group does not order. -/
def refLess (a b : ContextRef) : Bool := if a.kind ≠ b.kind then decide (a.kind < b.kind)
  else if a.namespace_ ≠ b.namespace_ then decide (a.namespace_ < b.namespace_)
  else decide (a.name < b.name)

def toContextRef (r : ResourceRef) : ContextRef := ⟨r.kind, r.group, r.namespace_, r.name⟩

def toContextRefs (refs : List ResourceRef) : List ContextRef :=
  Arrange.sortStable refLess (refs.map toContextRef)

/-- A refSet of one namespace, as its sorted references. -/
def refSet (kind namespace_ : String) (names : List String) : List ContextRef := Arrange.sortStable refLess
    ((names.filter fun name => name != "").eraseDups.map fun name => ⟨kind, "", namespace_, name⟩)

structure ProjectedSource where
  configMap : Option String
  secret : Option String

structure Volume where
  configMap : Option String
  secret : Option String
  persistentVolumeClaim : Option String
  projected : List ProjectedSource

/-- An entry of EnvFrom, or an Env with the references of its ValueFrom. -/
structure EnvRef where
  configMap : Option String
  secret : Option String

structure Container where
  envFrom : List EnvRef
  env : List EnvRef

structure PodSpec where
  volumes : List Volume
  initContainers : List Container
  containers : List Container
  imagePullSecrets : List String
  serviceAccountName : String
  nodeName : String
  resourceClaims : List PodResourceClaim

structure OwnerReference where
  apiVersion : String
  kind : String
  name : String
  controller : Option Bool

inductive WorkloadKind where
  | deployment | statefulSet | daemonSet | replicaSet | job
  deriving DecidableEq

def WorkloadKind.identity : WorkloadKind → String × String
  | .deployment => ("Deployment", "apps")
  | .statefulSet => ("StatefulSet", "apps")
  | .daemonSet => ("DaemonSet", "apps")
  | .replicaSet => ("ReplicaSet", "apps")
  | .job => ("Job", "batch")

/-- The other types identityOf knows. -/
inductive PlainKind where
  | node | namespace_ | persistentVolume | persistentVolumeClaim | serviceAccount | event
  | limitRange | networkPolicy | podDisruptionBudget | storageClass | role | clusterRole
  | roleBinding | clusterRoleBinding
  deriving DecidableEq

def PlainKind.identity : PlainKind → String × String
  | .node => ("Node", "")
  | .namespace_ => ("Namespace", "")
  | .persistentVolume => ("PersistentVolume", "")
  | .persistentVolumeClaim => ("PersistentVolumeClaim", "")
  | .serviceAccount => ("ServiceAccount", "")
  | .event => ("Event", "")
  | .limitRange => ("LimitRange", "")
  | .networkPolicy => ("NetworkPolicy", "networking.k8s.io")
  | .podDisruptionBudget => ("PodDisruptionBudget", "policy")
  | .storageClass => ("StorageClass", "storage.k8s.io")
  | .role => ("Role", "rbac.authorization.k8s.io")
  | .clusterRole => ("ClusterRole", "rbac.authorization.k8s.io")
  | .roleBinding => ("RoleBinding", "rbac.authorization.k8s.io")
  | .clusterRoleBinding => ("ClusterRoleBinding", "rbac.authorization.k8s.io")

/-- A reference by apiVersion, kind and name, as a CronJob or an HPA has it. -/
structure ObjectReference where
  apiVersion : String
  kind : String
  name : String

/-- The service a backend names, if it names one. -/
abbrev Backend := Option String

/-- A rule without HTTP is none. -/
structure Ingress where
  className : Option String
  addresses : List (String × String)
  defaultBackend : Backend
  rules : List (Option (List Backend))
  tls : List String

inductive Body where
  | pod (spec : PodSpec) (phase : String) (claimStatuses : List PodResourceClaim)
  | service (selector : List (String × String)) (externalName : Bool)
  | configMap
  | secret
  | workload (kind : WorkloadKind) (template : PodSpec)
  | cronJob (template : PodSpec) (active : List ObjectReference)
  | ingress (spec : Ingress)
  | hpa (scaleTargetRef : ObjectReference)
  | plain (kind : PlainKind)
  | unstructured (kind group : String) (requests : List DeviceRequest)
      (reservedFor : List Reservation)
  | unrecognized

structure Obj where
  name : String
  meta_ : Overlay.ObjectMeta
  ownerReferences : List OwnerReference
  body : Body

structure ResourceIdentity where
  kind : String
  group : String
  namespace_ : String
  name : String

def identityOf (obj : Obj) : Option ResourceIdentity :=
  let named := fun (identity : String × String) =>
    some ⟨identity.1, identity.2, obj.meta_.namespace_, obj.name⟩
  match obj.body with
  | .pod _ _ _ => named ("Pod", "")
  | .service _ _ => named ("Service", "")
  | .configMap => named ("ConfigMap", "")
  | .secret => named ("Secret", "")
  | .workload kind _ => named kind.identity
  | .cronJob _ _ => named ("CronJob", "batch")
  | .ingress _ => named ("Ingress", "networking.k8s.io")
  | .hpa _ => named ("HorizontalPodAutoscaler", "autoscaling")
  | .plain kind => named kind.identity
  | .unstructured kind group _ _ => named (kind, group)
  | .unrecognized => none

/-- The object as the relationships are read off it. -/
def queriedOf (obj : Obj) : Queried := match obj.body with
  | .pod spec phase claimStatuses => .pod
      { namespace_ := obj.meta_.namespace_
        name := obj.name
        meta_ := obj.meta_
        serviceAccountName := spec.serviceAccountName
        nodeName := spec.nodeName
        phase := phase
        resourceClaims := spec.resourceClaims
        resourceClaimStatuses := claimStatuses }
  | .unstructured _ group requests reservedFor => .unstructured ⟨obj.meta_, group, requests, reservedFor⟩
  | _ => .other (some obj.meta_)

def kindForGVK (kind group : String) : String := if group = "serving.knative.dev" then
    if kind = "Service" then "knativeservice"
    else if kind = "Configuration" then "knativeconfiguration"
    else if kind = "Revision" then "knativerevision"
    else if kind = "Route" then "knativeroute"
    else kind
  else if group = "cluster.x-k8s.io" ∧ kind = "Cluster" then "capicluster"
  else if group = "networking.istio.io" ∧ kind = "Gateway" then "istiogateway"
  else kind

structure Workload where
  namespace_ : String
  name : String
  template : PodSpec

structure ListedPod where
  namespace_ : String
  name : String
  ownerReferences : List OwnerReference
  spec : PodSpec

structure Provider where
  relations : ResourceProvider
  deployments : List Workload
  statefulSets : List Workload
  daemonSets : List Workload
  jobs : List Workload
  cronJobs : List Workload
  pods : List ListedPod

structure BackendPod where
  namespace_ : String
  name : String
  conditions : List (String × String)

/-- The pods a selector finds in a namespace, none on an error. -/
abbrev ServiceBackendLookup := String → List (String × String) → Option (List BackendPod)

structure ServiceEnvReference where
  status : String
  container : String
  env : String
  value : String
  service : ContextRef
  referencedPort : Int
  servicePorts : List String
  message : String
  deriving DecidableEq

/-- What is read off the object alone or handed through is one value. -/
structure Options (σ : Type) where
  tier : String
  accessChecker : Option CanRead
  topology : Option Graph
  provider : Option Provider
  dynamicProv : Option Discovery
  relationships : Option Relationships
  relIndex : Option RelationshipsIndex
  serviceBackends : Option ServiceBackendLookup
  appReferences : Option (List ServiceEnvReference)
  summaries : Obj → σ

structure UsesBlock where
  configMaps : List ContextRef
  secrets : List ContextRef
  serviceAccount : Option ContextRef
  pvcs : List ContextRef
  deriving DecidableEq

structure ReferenceUse where
  kind : String
  group : String
  namespace_ : String
  name : String
  paths : List String
  deriving DecidableEq

structure ReferencedBy where
  total : Nat
  items : List ReferenceUse
  truncated : Bool
  deriving DecidableEq

structure PodSelectionSummary where
  total : Nat
  ready : Nat
  notReady : Nat
  readyPods : List ContextRef
  notReadyPods : List ContextRef
  truncated : Bool
  deriving DecidableEq

inductive ServiceWarning where
  | noSelector | noSelectedPods | noReadyPods
  deriving DecidableEq

structure ServiceSummary where
  selectedPods : Option PodSelectionSummary
  warnings : List ServiceWarning
  deriving DecidableEq

inductive IngressWarning where
  | noAddress | noClass | noRules
  deriving DecidableEq

structure IngressSummary where
  class_ : String
  addresses : List String
  backendServices : List ContextRef
  tlsSecrets : List ContextRef
  warnings : List IngressWarning
  deriving DecidableEq

structure ResourceContext (σ : Type) where
  tier : String
  owner : Option ContextRef
  managedBy : List ContextRef
  exposes : List ContextRef
  selectedBy : List ContextRef
  referencedBy : Option ReferencedBy
  uses : Option UsesBlock
  runsOn : Option ContextRef
  scaledBy : List ContextRef
  serviceSummary : Option ServiceSummary
  ingressSummary : Option IngressSummary
  activeJobs : List ContextRef
  hpaTarget : Option ContextRef
  appReferences : List ServiceEnvReference
  summaries : Option σ
  omitted : List OmittedField

def groupFromAPIVersion (apiVersion : String) : String := match cut '/' apiVersion with
  | none => ""
  | some (group, _) => group

def OwnerReference.isController (owner : OwnerReference) : Bool := owner.controller == some true

def hasControllerOwner (refs : List OwnerReference) : Bool := refs.any OwnerReference.isController

/-- The controller among the owner references, or the first. -/
def ownerFromObject (obj : Obj) : Option ContextRef :=
  (obj.ownerReferences.find? OwnerReference.isController <|> obj.ownerReferences.head?).map fun chosen =>
    ⟨chosen.kind, groupFromAPIVersion chosen.apiVersion, obj.meta_.namespace_, chosen.name⟩

section Uses

def Volume.configMaps (v : Volume) : List String :=
  v.configMap.toList ++ v.projected.flatMap fun src => src.configMap.toList

def Volume.secrets (v : Volume) : List String :=
  v.secret.toList ++ v.projected.flatMap fun src => src.secret.toList

def Container.configMaps (c : Container) : List String :=
  (c.envFrom ++ c.env).flatMap fun e => e.configMap.toList

def Container.secrets (c : Container) : List String := (c.envFrom ++ c.env).flatMap fun e => e.secret.toList

def PodSpec.configMaps (spec : PodSpec) : List String := spec.volumes.flatMap Volume.configMaps ++
    (spec.initContainers ++ spec.containers).flatMap Container.configMaps

def PodSpec.secrets (spec : PodSpec) : List String := spec.volumes.flatMap Volume.secrets ++
    (spec.initContainers ++ spec.containers).flatMap Container.secrets

def PodSpec.pvcs (spec : PodSpec) : List String :=
  spec.volumes.flatMap fun v => v.persistentVolumeClaim.toList

def usesServiceAccount (ac : Option CanRead) (namespace_ serviceAccountName : String) :
    Option ContextRef × List String :=
  if serviceAccountName = "" then (none, [])
  else gateRef ac ⟨"ServiceAccount", "", namespace_, serviceAccountName⟩ "uses.serviceAccount"

def UsesBlock.orNil (uses : UsesBlock) : Option UsesBlock :=
  if uses = ⟨[], [], none, []⟩ then none else some uses

def buildUsesFromPodSpec (ac : Option CanRead) (namespace_ : String) (spec : PodSpec) :
    Option UsesBlock × List String :=
  let configMaps := filterRefs ac (refSet "ConfigMap" namespace_ spec.configMaps) "uses.configMaps"
  let secrets := filterRefs ac (refSet "Secret" namespace_ spec.secrets) "uses.secrets"
  let pvcs := filterRefs ac (refSet "PersistentVolumeClaim" namespace_ spec.pvcs) "uses.pvcs"
  let serviceAccount := usesServiceAccount ac namespace_ spec.serviceAccountName
  (UsesBlock.orNil ⟨configMaps.1, secrets.1, serviceAccount.1, pvcs.1⟩,
    configMaps.2 ++ secrets.2 ++ pvcs.2 ++ serviceAccount.2)

/-- A service account the pod's own uses lack comes from the relationships. -/
def withServiceAccount (ac : Option CanRead) (rel : Option Relationships)
    (uses : Option UsesBlock × List String) : Option UsesBlock × List String :=
  match uses.1, rel.bind Relationships.serviceAccount with
  | some block, some serviceAccount =>
    if block.serviceAccount.isSome then uses
    else
      let gated := gateRef ac (toContextRef serviceAccount) "uses.serviceAccount"
      (some { block with serviceAccount := gated.1 }, uses.2 ++ gated.2)
  | _, _ => uses

def buildUses (ac : Option CanRead) (rel : Option Relationships) (obj : Obj) :
    Option UsesBlock × List String :=
  match obj.body with
  | .pod spec _ _ =>
    withServiceAccount ac rel (buildUsesFromPodSpec ac obj.meta_.namespace_ spec)
  | .workload _ template => buildUsesFromPodSpec ac obj.meta_.namespace_ template
  | .cronJob template _ => buildUsesFromPodSpec ac obj.meta_.namespace_ template
  | _ => (none, [])

/-- The name and group of the node: that of the relationships goes before the one the spec names. -/
def nodeOf (rel : Option Relationships) (spec : PodSpec) : String × String :=
  match rel.bind Relationships.node with
  | some node => (node.name, node.group)
  | none => (spec.nodeName, "")

def buildRunsOn (ac : Option CanRead) (rel : Option Relationships) (obj : Obj) :
    Option ContextRef × List String :=
  match obj.body with
  | .pod spec _ _ =>
    if (nodeOf rel spec).1 = "" then (none, [])
    else gateRef ac ⟨"Node", (nodeOf rel spec).2, "", (nodeOf rel spec).1⟩ "runsOn"
  | _ => (none, [])

end Uses

section ReferencedBy

structure RefTarget where
  kind : String
  namespace_ : String
  name : String

/-- The path where a field of the target's kind has the target's name. -/
def pathWhere (target : RefTarget) (kind : String) (name : Option String) (path : String) : List String :=
  if target.kind = kind ∧ name = some target.name then [path] else []

def Volume.paths (target : RefTarget) (pathPrefix : String) (v : Volume) : List String :=
  pathWhere target "ConfigMap" v.configMap (pathPrefix ++ ".volumes[].configMap.name") ++
  pathWhere target "Secret" v.secret (pathPrefix ++ ".volumes[].secret.secretName") ++
  v.projected.flatMap fun src => pathWhere target "ConfigMap" src.configMap
      (pathPrefix ++ ".volumes[].projected.sources[].configMap.name") ++
    pathWhere target "Secret" src.secret
      (pathPrefix ++ ".volumes[].projected.sources[].secret.name")

def Container.paths (target : RefTarget) (pathPrefix : String) (c : Container) : List String :=
  (c.envFrom.flatMap fun e => pathWhere target "ConfigMap" e.configMap
      (pathPrefix ++ ".containers[].envFrom[].configMapRef.name") ++
    pathWhere target "Secret" e.secret (pathPrefix ++ ".containers[].envFrom[].secretRef.name")) ++
  c.env.flatMap fun e => pathWhere target "ConfigMap" e.configMap
      (pathPrefix ++ ".containers[].env[].valueFrom.configMapKeyRef.name") ++
    pathWhere target "Secret" e.secret
      (pathPrefix ++ ".containers[].env[].valueFrom.secretKeyRef.name")

def podSpecReferencePaths (spec : PodSpec) (pathPrefix : String) (target : RefTarget) : List String :=
  Arrange.sortStable (fun a b => decide (a < b))
    (spec.volumes.flatMap (Volume.paths target pathPrefix) ++ (spec.imagePullSecrets.flatMap fun secret =>
        pathWhere target "Secret" (some secret) (pathPrefix ++ ".imagePullSecrets[].name")) ++
      (spec.initContainers ++ spec.containers).flatMap (Container.paths target pathPrefix)).eraseDups

def referenceUseForPodSpec (kind group namespace_ name : String) (spec : PodSpec)
    (pathPrefix : String) (target : RefTarget) : ReferenceUse :=
  ⟨kind, group, namespace_, name, podSpecReferencePaths spec pathPrefix target⟩

/-- What `appendRef` takes of the workloads of one kind. -/
def workloadUses (kind group pathPrefix : String) (target : RefTarget) (workloads : List Workload) :
    List ReferenceUse :=
  ((workloads.filter fun w => w.namespace_ == target.namespace_).map fun w =>
    referenceUseForPodSpec kind group w.namespace_ w.name w.template pathPrefix target).filter
      fun use => use.paths != []

def podUses (target : RefTarget) (pods : List ListedPod) : List ReferenceUse := ((pods.filter fun p =>
    p.namespace_ == target.namespace_ && !hasControllerOwner p.ownerReferences).map fun p =>
      referenceUseForPodSpec "Pod" "" p.namespace_ p.name p.spec "spec" target).filter
        fun use => use.paths != []

def consumers (provider : Provider) (target : RefTarget) : List ReferenceUse :=
  workloadUses "Deployment" "apps" "spec.template.spec" target provider.deployments ++
  workloadUses "StatefulSet" "apps" "spec.template.spec" target provider.statefulSets ++
  workloadUses "DaemonSet" "apps" "spec.template.spec" target provider.daemonSets ++
  workloadUses "Job" "batch" "spec.template.spec" target provider.jobs ++
  workloadUses "CronJob" "batch" "spec.jobTemplate.spec.template.spec" target provider.cronJobs ++
  podUses target provider.pods

def ReferenceUse.toRef (use : ReferenceUse) : ContextRef := ⟨use.kind, use.group, use.namespace_, use.name⟩

def useLess (a b : ReferenceUse) : Bool := refLess a.toRef b.toRef

def maxReferencedByItems : Nat := 20

def maxReferencedByPathsPerRef : Nat := 8

/-- A readable use is counted; the first of them are kept, with their first paths. -/
def visitUse (ac : Option CanRead) (state : Nat × List ReferenceUse) (use : ReferenceUse) :
    Nat × List ReferenceUse :=
  if checkRef ac use.toRef then
    (state.1 + 1, if state.2.length < maxReferencedByItems then
        state.2 ++ [{ use with paths := use.paths.take maxReferencedByPathsPerRef }]
      else state.2)
  else state

def referencedTarget (ident : ResourceIdentity) : Option RefTarget := if ident.namespace_ = "" then none
  else if ident.kind = "ConfigMap" ∨ ident.kind = "Secret" then
    some ⟨ident.kind, ident.namespace_, ident.name⟩
  else none

def buildReferencedBy (ac : Option CanRead) (provider : Option Provider) (ident : ResourceIdentity) :
    Option ReferencedBy × List String :=
  match provider, referencedTarget ident with
  | some provider, some target =>
    let refs := Arrange.sortStable useLess (consumers provider target)
    let seen := refs.foldl (visitUse ac) (0, [])
    (if seen.2 = [] then none else some ⟨seen.1, seen.2, decide (seen.2.length < seen.1)⟩,
      if refs.any fun use => !checkRef ac use.toRef then ["referencedBy"] else [])
  | _, _ => (none, [])

end ReferencedBy

section Summaries

def BackendPod.toRef (pod : BackendPod) : ContextRef := ⟨"Pod", "", pod.namespace_, pod.name⟩

/-- The first condition of the type decides. -/
def isPodReady (pod : BackendPod) : Bool := pod.conditions.lookup "Ready" == some "True"

def maxServicePodRefs : Nat := 10

def visitPod (ac : Option CanRead) (sel : PodSelectionSummary) (pod : BackendPod) : PodSelectionSummary :=
  if checkRef ac pod.toRef then
    let counted := { sel with total := sel.total + 1 }
    if isPodReady pod then
      let ready := { counted with ready := sel.ready + 1 }
      if maxServicePodRefs ≤ sel.readyPods.length then { ready with truncated := true }
      else { ready with readyPods := sel.readyPods ++ [pod.toRef] }
    else
      let notReady := { counted with notReady := sel.notReady + 1 }
      if maxServicePodRefs ≤ sel.notReadyPods.length then { notReady with truncated := true }
      else { notReady with notReadyPods := sel.notReadyPods ++ [pod.toRef] }
  else sel

def selectPods (ac : Option CanRead) (pods : List BackendPod) : PodSelectionSummary :=
  pods.foldl (visitPod ac) ⟨0, 0, 0, [], [], false⟩

def selectionWarnings (sel : PodSelectionSummary) : List ServiceWarning :=
  if sel.total = 0 then [.noSelectedPods] else if sel.ready = 0 then [.noReadyPods] else []

def buildServiceSummary (ac : Option CanRead) (lookup : Option ServiceBackendLookup) (obj : Obj) :
    Option ServiceSummary × List String :=
  match obj.body with
  | .service selector externalName =>
    if selector = [] then (some ⟨none, if externalName then [] else [.noSelector]⟩, [])
    else match lookup.bind fun lookup => lookup obj.meta_.namespace_ selector with
      | none => (none, [])
      | some pods =>
        let sel := selectPods ac pods
        (some ⟨some sel, selectionWarnings sel⟩,
          if pods.any fun pod => !checkRef ac pod.toRef then ["serviceSummary.selectedPods"] else [])
  | _ => (none, [])

def Ingress.address (addr : String × String) : Option String :=
  if addr.1 ≠ "" then some addr.1 else if addr.2 ≠ "" then some addr.2 else none

def Ingress.backends (ing : Ingress) : List String :=
  (ing.defaultBackend :: (ing.rules.flatMap fun rule => rule.getD [])).flatMap Option.toList

def IngressSummary.orNil (summary : IngressSummary) : Option IngressSummary :=
  if summary = ⟨"", [], [], [], []⟩ then none else some summary

def ingressWarnings (ing : Ingress) (class_ : String) (addresses : List String) : List IngressWarning :=
  (if addresses = [] then [.noAddress] else []) ++ (if class_ = "" then [.noClass] else []) ++
    if ing.rules = [] then [.noRules] else []

def buildIngressSummary (ac : Option CanRead) (obj : Obj) : Option IngressSummary × List String :=
  match obj.body with
  | .ingress ing =>
    let class_ := ing.className.getD (obj.meta_.annotations "kubernetes.io/ingress.class")
    let addresses := ing.addresses.filterMap Ingress.address
    let backends := filterRefs ac (refSet "Service" obj.meta_.namespace_ ing.backends)
      "ingressSummary.backendServices"
    let secrets := filterRefs ac (refSet "Secret" obj.meta_.namespace_ ing.tls)
      "ingressSummary.tlsSecrets"
    (IngressSummary.orNil
      ⟨class_, addresses, backends.1, secrets.1, ingressWarnings ing class_ addresses⟩,
      backends.2 ++ secrets.2)
  | _ => (none, [])

def buildActiveJobs (ac : Option CanRead) (obj : Obj) : List ContextRef × List String := match obj.body with
  | .cronJob _ active =>
    filterRefs ac ((active.filter fun ref => ref.kind != "" && ref.name != "").map fun ref =>
      ⟨ref.kind, groupFromAPIVersion ref.apiVersion, obj.meta_.namespace_, ref.name⟩)
      "cronJobSummary.activeJobs"
  | _ => ([], [])

/-- The target of the scaler, which is not checked. -/
def hpaTarget (obj : Obj) : Option ContextRef := match obj.body with
  | .hpa target =>
    some ⟨target.kind, groupFromAPIVersion target.apiVersion, obj.meta_.namespace_, target.name⟩
  | _ => none

def filterAppReferences (ac : Option CanRead) (refs : Option (List ServiceEnvReference)) :
    List ServiceEnvReference × List String :=
  ((refs.getD []).filter fun ref => checkRef ac ref.service,
    if (refs.getD []).any fun ref => !checkRef ac ref.service then ["appReferences.serviceEnv"]
    else [])

end Summaries

section Context
variable {σ : Type} (casing : Casing) (opts : Options σ) (obj : Obj) (ident : ResourceIdentity)

/-- The relationships handed in, or else those of the topology. -/
def relationshipsOf : Option Relationships := match opts.relationships with
  | some rel => some rel
  | none => opts.topology.bind fun topo =>
      getRelationshipsWithObject casing (kindForGVK ident.kind ident.group) ident.namespace_ ident.name
        (some (queriedOf obj)) (some topo) (opts.provider.map Provider.relations) opts.dynamicProv
        opts.relIndex

/-- Without relationships the object's own labels and annotations may name a manager. -/
def managers (rel : Option Relationships) : List ResourceRef := match rel with
  | some rel => rel.managedBy
  | none => (detectManagedByFromMeta obj.meta_).toList

def buildOwner (ac : Option CanRead) (rel : Option Relationships) : Option ContextRef × List String :=
  match rel.bind Relationships.owner with
  | some owner => gateRef ac (toContextRef owner) "owner"
  | none => match ownerFromObject obj with
    | some owner => gateRef ac owner "owner"
    | none => (none, [])

def related (ac : Option CanRead) (rel : Option Relationships)
    (select : Relationships → List ResourceRef) (fieldPath : String) : List ContextRef × List String :=
  filterRefs ac (toContextRefs ((rel.map select).getD [])) fieldPath

def exposing (rel : Relationships) : List ResourceRef :=
  rel.services ++ rel.ingresses ++ rel.gateways ++ rel.routes

def selecting (rel : Relationships) : List ResourceRef := rel.pdbs ++ rel.networkPolicies

/-- The context, given the relationships. -/
def contextOf (rel : Option Relationships) : ResourceContext σ := let ac := opts.accessChecker
  let managedBy := filterRefs ac (toContextRefs (managers obj rel)) "managedBy"
  let owner := buildOwner obj ac rel
  let exposes := related ac rel exposing "exposes"
  let selectedBy := related ac rel selecting "selectedBy"
  let scaledBy := related ac rel Relationships.scalers "scaledBy"
  let uses := buildUses ac rel obj
  let runsOn := buildRunsOn ac rel obj
  let serviceSummary := buildServiceSummary ac opts.serviceBackends obj
  let referencedBy := buildReferencedBy ac opts.provider ident
  let ingressSummary := buildIngressSummary ac obj
  let activeJobs := buildActiveJobs ac obj
  let appReferences := filterAppReferences ac opts.appReferences
  { tier := opts.tier
    owner := owner.1
    managedBy := managedBy.1
    exposes := exposes.1
    selectedBy := selectedBy.1
    referencedBy := referencedBy.1
    uses := uses.1
    runsOn := runsOn.1
    scaledBy := scaledBy.1
    serviceSummary := serviceSummary.1
    ingressSummary := ingressSummary.1
    activeJobs := activeJobs.1
    hpaTarget := hpaTarget obj
    appReferences := appReferences.1
    summaries := some (opts.summaries obj)
    omitted := collect (managedBy.2 ++ owner.2 ++ exposes.2 ++ selectedBy.2 ++ scaledBy.2 ++ uses.2 ++
      runsOn.2 ++ serviceSummary.2 ++ referencedBy.2 ++ ingressSummary.2 ++ activeJobs.2 ++
      appReferences.2) }

def tierOnly : ResourceContext σ :=
  ⟨opts.tier, none, [], [], [], none, none, none, [], none, none, [], none, [], none, []⟩

def build (obj : Option Obj) : Option (ResourceContext σ) := match obj with
  | none => none
  | some obj => match identityOf obj with
    | none => some (tierOnly opts)
    | some ident => some (contextOf opts obj ident (relationshipsOf casing opts obj ident))

end Context

end ContextBuild
