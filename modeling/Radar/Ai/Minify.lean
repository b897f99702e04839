import Radar.Ai.Redact
import Radar.Base.JsonTree

/- pkg/ai/context: what of an object is handed to an agent, for typed Secrets and for the objects of
   the dynamic client. A map is listed by key, and ranging over one visits its keys in some order. -/
namespace Minify
open GoText JsonTree

abbrev VerbosityLevel := Int

def levelSummary : VerbosityLevel := 0
def levelCompact : VerbosityLevel := 1
def levelDetail : VerbosityLevel := 2

/-- The fields of a summary that a Secret or an object of no known kind sets. -/
structure ResourceSummary where
  kind : String
  name : String := ""
  namespace_ : String := ""
  status : String := ""
  age : String := ""
  terminating : Bool := false
  finalizers : List String := []
  type_ : String := ""
  keys : List String := []

/-- What lies outside the package: the clock, the order a range takes, the reading of a timestamp
   (none where it is zero or not one), strings.ToLower, and the summaries of known custom kinds. -/
structure Surroundings where
  now : Int
  keyOrder : List String → List String
  parseTime : String → Option Int
  lowering : Lowering
  customSummary : (group kind : String) → Entries → ResourceSummary

inductive Minified where
  | summary (s : ResourceSummary)
  | tree (entries : Entries)

section Age

def formatDuration (d : Int) : String := let second := 1000000000
  if d < 60 * second then toString (d.tdiv second) ++ "s"
  else if d < 3600 * second then toString (d.tdiv (60 * second)) ++ "m"
  else if d < 86400 * second then toString (d.tdiv (3600 * second)) ++ "h"
  else toString (d.tdiv (86400 * second)) ++ "d"

/-- In nanoseconds, which saturate. -/
def age (now : Int) : Option Int → String
  | none => ""
  | some created => formatDuration (max (-2 ^ 63) (min (2 ^ 63 - 1) (now - created)))

end Age

section Typed

structure ObjectMeta where
  name : String
  namespace_ : String
  labels : List (String × String)
  annotations : List (String × String)
  creationTimestamp : Option Int
  deletionTimestamp : Option Int
  finalizers : List String

structure Secret where
  metadata : ObjectMeta
  type_ : String
  data : List (String × List UInt8)
  stringData : List (String × String)

variable (around : Surroundings) (secret : Secret)

def secretKeys : List String :=
  around.keyOrder (secret.data.map Prod.fst) ++ around.keyOrder (secret.stringData.map Prod.fst)

def summarizeSecret : ResourceSummary :=
  { kind := "Secret", name := secret.metadata.name, namespace_ := secret.metadata.namespace_,
    type_ := secret.type_, keys := secretKeys around secret,
    age := age around.now secret.metadata.creationTimestamp }

def applyLifecycleFields (metadata : ObjectMeta) (s : ResourceSummary) : ResourceSummary :=
  if metadata.deletionTimestamp.isSome then
    { s with terminating := true, finalizers := metadata.finalizers }
  else s

def texts (pairs : List (String × String)) : Value :=
  .object (pairs.map fun pair => (pair.1, .string pair.2))

def strings (elements : List String) : Value := .array (elements.map Value.string)

def minifySecretDetail : Entries := (if secret.metadata.annotations = [] then []
    else [("annotations", texts secret.metadata.annotations)]) ++
  [("keys", strings (secretKeys around secret)), ("kind", .string "Secret")] ++
  (if secret.metadata.labels = [] then [] else [("labels", texts secret.metadata.labels)]) ++
  [("name", .string secret.metadata.name), ("namespace", .string secret.metadata.namespace_),
    ("type", .string secret.type_)]

def minifySecretCompact : Entries :=
  [("keys", strings (secretKeys around secret)), ("kind", .string "Secret"),
    ("name", .string secret.metadata.name), ("namespace", .string secret.metadata.namespace_),
    ("type", .string secret.type_)]

/-- Minify of a typed Secret. -/
def minify (level : VerbosityLevel) : Except String Minified := if level = levelSummary then
    .ok (.summary (applyLifecycleFields secret.metadata (summarizeSecret around secret)))
  else if level = levelDetail then .ok (.tree (minifySecretDetail around secret))
  else if level = levelCompact then .ok (.tree (minifySecretCompact around secret))
  else .error ("unknown verbosity level: " ++ toString level)

end Typed

section Prune

def stripMetadataKeys : List String :=
  ["resourceVersion", "uid", "generation", "selfLink", "generateName", "managedFields",
    "deletionGracePeriodSeconds", "finalizers"]

def keepAnnotationPrefixes : List String :=
  ["kubernetes.io/ingress.class", "argo", "flux", "helm.sh", "app.kubernetes.io"]

def stripContainerFields : List String := ["terminationMessagePath", "terminationMessagePolicy"]

def stripPodSpecFields : List String :=
  ["tolerations", "dnsPolicy", "schedulerName", "priority", "priorityClassName",
    "preemptionPolicy", "nodeName", "enableServiceLinks"]

def stripContainerFieldsCompact : List String :=
  ["command", "args", "livenessProbe", "readinessProbe", "startupProbe", "lifecycle",
    "securityContext", "workingDir", "stdin", "stdinOnce", "tty"]

def stripPodSpecFieldsCompact : List String :=
  ["volumes", "serviceAccountName", "serviceAccount", "securityContext", "hostNetwork", "hostPID",
    "hostIPC", "affinity", "topologySpreadConstraints"]

def stripPodStatusFields : List String := ["hostIP", "podIP", "podIPs", "qosClass", "startTime"]

def stripWorkloadStatusFields : List String :=
  ["observedGeneration", "collisionCount", "updatedNumberScheduled"]

def pruneMetadataCommon (metadata : Entries) : Entries := drop stripMetadataKeys metadata

def shouldKeepAnnotation (key : String) : Bool :=
  keepAnnotationPrefixes.any fun prefix_ => hasPrefix key prefix_

def pruneAnnotationsCompact (metadata : Entries) : Entries := match field metadata "annotations" with
  | some (.object annotations) =>
    let filtered := annotations.filter fun entry => shouldKeepAnnotation entry.1
    if filtered.isEmpty then drop ["annotations"] metadata
    else change "annotations" (fun _ => .object filtered) metadata
  | _ => metadata

/-- The text at a key, empty where there is none. -/
def textAt (entries : Entries) (key : String) : String := match field entries key with
  | some (.string text) => text
  | _ => ""

/-- imagePullPolicy is kept where it says Never. -/
def prunePullPolicy (container : Entries) : Entries := match field container "imagePullPolicy" with
  | some (.string policy) => if policy ≠ "Never" then drop ["imagePullPolicy"] container else container
  | _ => container

def redactText : Value → Value
  | .string text => .string (Redact.redactSecrets text)
  | value => value

def redactEnvValues (container : Entries) : Entries :=
  change "env" (onElements (onObject (change "value" redactText))) container

def pruneContainerList (spec : Entries) (key : String) : Entries :=
  change key (onElements (onObject fun container =>
    redactEnvValues (prunePullPolicy (drop stripContainerFields container)))) spec

def pruneContainersInSpec (spec : Entries) : Entries :=
  pruneContainerList (pruneContainerList spec "containers") "initContainers"

def prunePodSpec (spec : Entries) : Entries := pruneContainersInSpec (drop stripPodSpecFields spec)

/-- A list of objects given by their names, those without one left out. -/
def namesOnly : Value → Value
  | .array elements => strings (elements.filterMap fun element => match element with
      | .object entries =>
        match field entries "name" with
        | some (.string name) => some name
        | _ => none
      | _ => none)
  | value => value

def simplifyVolumeMounts (container : Entries) : Entries := change "volumeMounts" namesOnly container

def simplifyEnvToNames (container : Entries) : Entries := change "env" namesOnly container

def pruneContainersCompact (spec : Entries) (key : String) : Entries :=
  change key (onElements (onObject fun container =>
    simplifyEnvToNames (simplifyVolumeMounts (prunePullPolicy
      (drop stripContainerFieldsCompact (drop stripContainerFields container)))))) spec

def prunePodSpecCompact (spec : Entries) : Entries := pruneContainersCompact (pruneContainersCompact
    (drop stripPodSpecFieldsCompact (drop stripPodSpecFields spec)) "containers") "initContainers"

/-- The spec of a spec's template. -/
def inTemplate (f : Entries → Entries) (spec : Entries) : Entries :=
  change "template" (onObject (change "spec" (onObject f))) spec

def pruneSpecDetail (spec : Entries) : Entries :=
  pruneContainersInSpec (inTemplate prunePodSpec (drop stripPodSpecFields spec))

def pruneSpecCompact (spec : Entries) : Entries :=
  pruneContainersCompact (pruneContainersCompact (inTemplate prunePodSpecCompact
    (drop stripPodSpecFieldsCompact (drop stripPodSpecFields spec))) "containers") "initContainers"

def pruneStatusForKind (kind : String) (status : Entries) : Entries :=
  if kind = "pod" then drop stripPodStatusFields status
  else if kind ∈ ["deployment", "statefulset", "daemonset", "replicaset"] then
    drop stripWorkloadStatusFields status
  else status

/-- The metadata, the spec and the status of an object pruned each in its way. -/
def pruneMap (around : Surroundings) (metadata spec : Entries → Entries) (m : Entries) : Entries :=
  change "status" (onObject (pruneStatusForKind (around.lowering.toLower (textAt m "kind"))))
    (change "spec" (onObject spec) (change "metadata" (onObject metadata) m))

def pruneMapDetail (around : Surroundings) (m : Entries) : Entries :=
  pruneMap around pruneMetadataCommon pruneSpecDetail m

def pruneMapCompact (around : Surroundings) (m : Entries) : Entries :=
  pruneMap around (fun metadata => pruneAnnotationsCompact (pruneMetadataCommon metadata))
    pruneSpecCompact m

end Prune

section Unstructured
variable (around : Surroundings) (obj : Entries)

def nestedText (path : List String) : String := match nested (.object obj) path with
  | some (.string text) => text
  | _ => ""

/-- The group of an apiVersion, empty where it has no slash or more than one. -/
def groupOf (apiVersion : String) : String := match split '/' apiVersion with
  | [group, _] => group
  | _ => ""

def knownKinds : List (String × String) := [("argoproj.io", "Application"), ("argoproj.io", "Rollout"),
    ("kustomize.toolkit.fluxcd.io", "Kustomization"), ("helm.toolkit.fluxcd.io", "HelmRelease"),
    ("gateway.networking.k8s.io", "Gateway"), ("karpenter.sh", "NodePool"),
    ("karpenter.sh", "NodeClaim"), ("keda.sh", "ScaledObject"), ("keda.sh", "ScaledJob"),
    ("keda.sh", "TriggerAuthentication"), ("keda.sh", "ClusterTriggerAuthentication"),
    ("gateway.networking.k8s.io", "GatewayClass"), ("gateway.networking.k8s.io", "HTTPRoute"),
    ("gateway.networking.k8s.io", "GRPCRoute"), ("gateway.networking.k8s.io", "TCPRoute"),
    ("gateway.networking.k8s.io", "TLSRoute"), ("projectcontour.io", "HTTPProxy"),
    ("cluster.x-k8s.io", "Cluster"), ("cluster.x-k8s.io", "Machine"),
    ("cluster.x-k8s.io", "MachineDeployment"), ("cluster.x-k8s.io", "MachineSet"),
    ("cluster.x-k8s.io", "MachinePool"), ("cluster.x-k8s.io", "ClusterClass"),
    ("cluster.x-k8s.io", "MachineHealthCheck"),
    ("controlplane.cluster.x-k8s.io", "KubeadmControlPlane"), ("resource.k8s.io", "ResourceClaim"),
    ("resource.k8s.io", "ResourceClaimTemplate"), ("resource.k8s.io", "DeviceClass"),
    ("resource.k8s.io", "ResourceSlice"), ("nvidia.com", "ClusterPolicy"),
    ("nvidia.com", "NVIDIADriver")]

def isKnownKind (group kind : String) : Bool := knownKinds.contains (group, kind) ||
    (contains group "karpenter" && "NodeClass".toList.isSuffixOf kind.toList)

def conditionPriority : List (String × Nat) := [("Ready", 0), ("Available", 1), ("Synced", 2)]

/-- The best condition so far, by its priority, and what it says. -/
def pickCondition (best : Nat × String) (c : Value) : Nat × String := match c with
  | .object cond =>
    let condType := textAt cond "type"
    match conditionPriority.lookup condType with
    | some p =>
      if p < best.1 then
        (p, if textAt cond "status" = "True" then condType
          else if textAt cond "reason" ≠ "" then textAt cond "reason"
          else "Not" ++ condType)
      else best
    | none => best
  | _ => best

def firstCondition : Value → String
  | .object cond =>
    if textAt cond "status" = "True" then textAt cond "type" else "Not" ++ textAt cond "type"
  | _ => ""

def extractReadyCondition : String := match nested (.object obj) ["status", "conditions"] with
  | some (.array (first :: rest)) =>
    let best := (first :: rest).foldl pickCondition (999, "")
    if best.2 = "" then firstCondition first else best.2
  | _ => ""

def summarizeGenericCRD : ResourceSummary := let status := extractReadyCondition obj
  { kind := nestedText obj ["kind"], name := nestedText obj ["metadata", "name"],
    namespace_ := nestedText obj ["metadata", "namespace"],
    age := age around.now (around.parseTime (nestedText obj ["metadata", "creationTimestamp"])),
    status := if status = "" then nestedText obj ["status", "phase"] else status }

def summarizeUnstructured : ResourceSummary := let group := groupOf (nestedText obj ["apiVersion"])
  let kind := nestedText obj ["kind"]
  if isKnownKind group kind then around.customSummary group kind obj
  else summarizeGenericCRD around obj

def minifyUnstructured (level : VerbosityLevel) : Minified :=
  if level = levelSummary then .summary (summarizeUnstructured around obj)
  else if level = levelDetail then .tree (pruneMapDetail around obj)
  else .tree (pruneMapCompact around obj)

end Unstructured

end Minify
