import Radar.Base.Arrange
import Radar.Base.GoText
import Radar.Base.KeyedFold
import Radar.Packages.Chart

/- pkg/packages/aggregate.go, types.go and crd_groups.go: what is installed, put together from Helm
   releases, workload labels, GitOps declarations and CRDs. -/
namespace Packages
open GoText

inductive SourceCode where
  | helm | labels | crds | argoCD | fluxCD
  deriving DecidableEq

def sourceRank : SourceCode → Nat
  | .helm => 0
  | .labels => 1
  | .crds => 2
  | .argoCD => 3
  | .fluxCD => 4

abbrev Health := String

structure Overlay where
  key : String
  tier : Int
  confidence : String
  deriving DecidableEq

structure HelmRelease where
  name : String
  namespace_ : String
  chart : String
  chartName : String
  chartVersion : String
  appVersion : String
  resourceHealth : Health

/-- A label or an annotation that is absent reads as the empty text. -/
structure Workload where
  namespace_ : String
  labels : String → String
  annotations : String → String
  health : Health
  overlay : Option Overlay

/-- The API server registers no group without a dot. -/
structure CRD where
  group : String
  versions : List String
  dotted : '.' ∈ group.toList

structure Declaration where
  source : String
  namespace_ : String
  name : String
  targetNamespace : String
  targetName : String
  chart : String
  chartVersion : String
  status : Health
  overlay : Option Overlay

structure Sources where
  helm : List HelmRelease
  workloads : List Workload
  crds : List CRD
  gitOpsDeclarations : List Declaration

/-- The cluster is left empty by all of this and only filled in elsewhere. -/
structure SourceContribution where
  source : SourceCode
  health : Health := ""
  version : String := ""
  apiVersion : String := ""
  appVersion : String := ""
  releaseName : String := ""
  releaseNamespace : String := ""
  declarationName : String := ""
  declarationNamespace : String := ""
  cluster : String := ""
  deriving DecidableEq

structure PackageRow where
  chart : String
  namespace_ : String
  releaseName : String
  version : String := ""
  appVersion : String := ""
  health : Health := ""
  sources : List SourceCode := []
  contributors : List SourceContribution := []
  fromCRDGroup : String := ""
  overlay : Option Overlay := none
  deriving DecidableEq

structure Key where
  chart : String
  namespace_ : String
  releaseName : String
  deriving DecidableEq

def PackageRow.key (r : PackageRow) : Key := ⟨r.chart, r.namespace_, r.releaseName⟩

def newRow (k : Key) : PackageRow :=
  { chart := k.chart, namespace_ := k.namespace_, releaseName := k.releaseName }

def crdGroupToChart : List (String × String) :=
  [("cert-manager.io", "cert-manager"), ("acme.cert-manager.io", "cert-manager"),
    ("argoproj.io", "argo-cd"), ("source.toolkit.fluxcd.io", "flux"),
    ("helm.toolkit.fluxcd.io", "flux"), ("kustomize.toolkit.fluxcd.io", "flux"),
    ("notification.toolkit.fluxcd.io", "flux"), ("image.toolkit.fluxcd.io", "flux"),
    ("karpenter.sh", "karpenter"), ("karpenter.k8s.aws", "karpenter"),
    ("external-secrets.io", "external-secrets"), ("velero.io", "velero"), ("kyverno.io", "kyverno"),
    ("wgpolicyk8s.io", "kyverno"), ("monitoring.coreos.com", "kube-prometheus-stack"),
    ("networking.istio.io", "istio"), ("security.istio.io", "istio"), ("telemetry.istio.io", "istio"),
    ("install.istio.io", "istio"), ("extensions.istio.io", "istio"), ("traefik.io", "traefik"),
    ("traefik.containo.us", "traefik"), ("postgresql.cnpg.io", "cloudnative-pg"),
    ("opentelemetry.io", "opentelemetry-operator"), ("keda.sh", "keda"), ("eventing.keda.sh", "keda"),
    ("operator.knative.dev", "knative-operator"), ("serving.knative.dev", "knative-serving"),
    ("eventing.knative.dev", "knative-eventing"), ("sources.knative.dev", "knative-eventing"),
    ("cluster.x-k8s.io", "cluster-api"), ("controlplane.cluster.x-k8s.io", "cluster-api"),
    ("bootstrap.cluster.x-k8s.io", "cluster-api"), ("infrastructure.cluster.x-k8s.io", "cluster-api"),
    ("addons.cluster.x-k8s.io", "cluster-api"), ("aquasecurity.github.io", "trivy-operator"),
    ("cilium.io", "cilium")]

/-- `none` where the group is not in the table. -/
def chartFromCRDGroup (group : String) : Option String := crdGroupToChart.lookup group

section Rows
variable (lowering : Lowering)

def healthRank (h : Health) : Nat := let low := lowering.toLower h
  if low ∈ ["unhealthy", "danger", "critical", "failed", "stalled"] then 4
  else if low ∈ ["degraded", "warning", "warn", "progressing", "reconciling"] then 3
  else if low = "unknown" then 2
  else if low ∈ ["healthy", "ok", "ready", "available"] then 1
  else 2

def worseHealth (a b : Health) : Health := if a = "" then b
  else if b = "" then a
  else if healthRank lowering b ≤ healthRank lowering a then a
  else b

def sortSources (s : List SourceCode) : List SourceCode :=
  Arrange.sortStable (fun a b => decide (sourceRank a < sourceRank b)) s

def sortContributors (cs : List SourceContribution) : List SourceContribution :=
  Arrange.sortStable (fun a b => decide (sourceRank a.source < sourceRank b.source)) cs

def normalizeContribution (c : SourceContribution) : SourceContribution := if c.source = .crds then
    { c with apiVersion := if c.apiVersion = "" then c.version else c.apiVersion,
             version := "", appVersion := "" }
  else { c with apiVersion := "" }

def addSource (sources : List SourceCode) (src : SourceCode) : List SourceCode :=
  if src ∈ sources then sources else sortSources (sources ++ [src])

/-- The first text that is not empty. -/
def firstSeen (held candidate : String) : String := if held = "" then candidate else held

def mergeContribution (existing c : SourceContribution) : SourceContribution := { existing with
    health := worseHealth lowering existing.health c.health,
    version := firstSeen existing.version c.version,
    apiVersion := firstSeen existing.apiVersion c.apiVersion,
    appVersion := firstSeen existing.appVersion c.appVersion,
    releaseName := firstSeen existing.releaseName c.releaseName,
    releaseNamespace := firstSeen existing.releaseNamespace c.releaseNamespace,
    declarationName := firstSeen existing.declarationName c.declarationName,
    declarationNamespace := firstSeen existing.declarationNamespace c.declarationNamespace }

/-- The first entry of the same source and cluster takes the contribution up; without one it is an
    entry of its own. -/
def addContributor : List SourceContribution → SourceContribution → Option (List SourceContribution)
  | [], _ => none
  | existing :: rest, c =>
    if existing.source = c.source ∧ existing.cluster = c.cluster then
      some (mergeContribution lowering existing c :: rest)
    else (addContributor rest c).map (existing :: ·)

def PackageRow.addContribution (r : PackageRow) (contribution : SourceContribution) : PackageRow :=
  let c := normalizeContribution contribution
  { r with
    sources := addSource r.sources c.source,
    health := worseHealth lowering r.health c.health,
    version := if r.version = "" ∧ c.source ≠ .crds then c.version else r.version,
    appVersion := firstSeen r.appVersion c.appVersion,
    contributors := match addContributor lowering r.contributors c with
      | some merged => merged
      | none => sortContributors (r.contributors ++ [c]) }

/-- Whether an overlay takes the place of the one a row holds: a lower tier only. -/
def outranks (o held : Option Overlay) : Bool := match o, held with
  | none, _ => false
  | some _, none => true
  | some o, some held => decide (o.tier < held.tier)

def PackageRow.mergeOverlay (r : PackageRow) (o : Option Overlay) : PackageRow :=
  { r with overlay := if outranks o r.overlay then o else r.overlay }

def PackageRow.defaultHealth (r : PackageRow) : PackageRow :=
  { r with health := if r.health = "" then "unknown" else r.health }

/-- How a contribution comes to its row: as a release's, as the CRDs of a known chart that has no row
    yet, or as those of an unknown group. -/
inductive Standing where
  | release
  | synthesized
  | group (name : String)

structure Arrival where
  key : Key
  contribution : SourceContribution
  overlay : Option Overlay
  standing : Standing

def PackageRow.add (r : PackageRow) (a : Arrival) : PackageRow :=
  let r := (r.addContribution lowering a.contribution).mergeOverlay a.overlay
  match a.standing with
  | .release => r
  | .synthesized => r.defaultHealth
  | .group name => { r with fromCRDGroup := name }.defaultHealth

/-- The map of rows: a row is made when its key is first asked for. -/
def rowFolding : KeyedFold.Folding Arrival PackageRow Key where
  keyOf := Arrival.key
  key := PackageRow.key
  start := fun a => newRow a.key
  add := PackageRow.add lowering
  key_start := fun _ => rfl
  key_add := by
    intro r a
    unfold PackageRow.add
    cases a.standing <;> rfl

def helmArrival (h : HelmRelease) : Option Arrival :=
  let parsed := if h.chartName = "" ∨ h.chartVersion = "" then Chart.splitChart h.chart else ("", "")
  let chartName := firstSeen h.chartName parsed.1
  let chartVersion := firstSeen h.chartVersion parsed.2
  if chartName = "" then none
  else some
    { key := ⟨chartName, h.namespace_, h.name⟩
      contribution :=
        { source := .helm, health := h.resourceHealth, version := chartVersion,
          appVersion := h.appVersion, releaseName := h.name, releaseNamespace := h.namespace_ }
      overlay := none
      standing := .release }

def workloadArrival (w : Workload) : Option Arrival :=
  let release := w.annotations "meta.helm.sh/release-name"
  let chartLabel := w.labels "helm.sh/chart"
  if release = "" ∧ chartLabel = "" then none
  else
    let parsed := if chartLabel ≠ "" then Chart.splitChart chartLabel else ("", "")
    let chartName := if parsed.1 = "" ∧ release ≠ "" then release else parsed.1
    if chartName = "" then none
    else
      let releaseNs := firstSeen (w.annotations "meta.helm.sh/release-namespace") w.namespace_
      let releaseName := firstSeen release chartName
      some
        { key := ⟨chartName, releaseNs, releaseName⟩
          contribution :=
            { source := .labels, health := w.health, version := parsed.2,
              releaseName := releaseName, releaseNamespace := releaseNs }
          overlay := w.overlay
          standing := .release }

def declarationSource (source : String) : Option SourceCode := let low := lowering.toLower source
  if low ∈ ["argocd", "argo-cd", "argo"] then some .argoCD
  else if low ∈ ["flux", "fluxcd"] then some .fluxCD
  else none

def declarationArrival (d : Declaration) : Option Arrival := match declarationSource lowering d.source with
  | none => none
  | some src =>
    let chartName := firstSeen d.chart d.name
    if chartName = "" then none
    else
      let release := firstSeen d.targetName chartName
      some
        { key := ⟨chartName, d.targetNamespace, release⟩
          contribution :=
            { source := src, health := d.status, version := d.chartVersion, releaseName := release,
              releaseNamespace := d.targetNamespace, declarationName := d.name,
              declarationNamespace := d.namespace_ }
          overlay := d.overlay
          standing := .release }

/-- What arrives before the CRDs do. -/
def arrivals (s : Sources) : List Arrival :=
  s.helm.filterMap helmArrival ++ s.workloads.filterMap workloadArrival ++
    s.gitOpsDeclarations.filterMap (declarationArrival lowering)

def crdArrival (c : CRD) (k : Key) (standing : Standing) : Arrival :=
  { key := k
    contribution := { source := .crds, apiVersion := c.versions.head?.getD "" }
    overlay := none
    standing := standing }

/-- A known group's CRDs go to every row of the chart there is, in whatever order the map is visited;
    without one, and for an unknown group, to a row of their own. -/
def landCRD (rows : List PackageRow) (c : CRD) : List PackageRow := match chartFromCRDGroup c.group with
  | some chart =>
    if rows.any fun r => r.chart == chart then
      rows.map fun r => if r.chart = chart then r.add lowering (crdArrival c r.key .release) else r
    else (rowFolding lowering).insert rows (crdArrival c ⟨chart, "", ""⟩ .synthesized)
  | none => (rowFolding lowering).insert rows (crdArrival c ⟨c.group, "", ""⟩ (.group c.group))

def rowLess (a b : PackageRow) : Bool := if a.chart ≠ b.chart then decide (a.chart < b.chart)
  else if a.namespace_ ≠ b.namespace_ then decide (a.namespace_ < b.namespace_)
  else decide (a.releaseName < b.releaseName)

def releaseRows (s : Sources) : List PackageRow := (rowFolding lowering).gather (arrivals lowering s)

def aggregate (s : Sources) : List PackageRow := Arrange.sortStable rowLess
    ((s.crds.foldl (landCRD lowering) (releaseRows lowering s)).map PackageRow.defaultHealth)

end Rows

end Packages
