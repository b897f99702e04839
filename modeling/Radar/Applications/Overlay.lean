import Mathlib.Data.List.Sort
import Radar.Base.GoText

/- pkg/subject/overlay.go: which application a workload's labels and annotations speak of. -/
namespace Overlay
open GoText

/-- The nine signals in the order of their precedence. -/
inductive Tier where
  | fluxHelmRelease | fluxKustomize | argoTrackingID | argoInstance | helmRelease
  | instance_ | partOf | appName | bareApp
  deriving DecidableEq

def Tier.rank : Tier → Nat
  | .fluxHelmRelease => 1
  | .fluxKustomize => 2
  | .argoTrackingID => 3
  | .argoInstance => 4
  | .helmRelease => 5
  | .instance_ => 6
  | .partOf => 7
  | .appName => 8
  | .bareApp => 9

inductive Confidence where
  | high | medium | low
  deriving DecidableEq

def confidenceForTier (t : Tier) : Confidence := if 1 ≤ t.rank ∧ t.rank ≤ 4 then .high
  else if 5 ≤ t.rank ∧ t.rank ≤ 8 then .medium
  else .low

structure Ref where
  kind : String
  group : String
  namespace_ : String
  name : String
  deriving DecidableEq

structure Signal where
  tier : Tier
  key : String
  ref : Ref
  confidence : Confidence
  deriving DecidableEq

structure AppOverlay where
  winner : Signal
  conflicts : List Signal
  deriving DecidableEq

/-- An absent label or annotation reads as the empty text. -/
structure ObjectMeta where
  namespace_ : String
  labels : String → String
  annotations : String → String

/-- The Application's namespace and name; the legacy form has no namespace. -/
def parseArgoTrackingID (value : String) : Option (String × String) := match cut ':' value with
  | none => none
  | some (head, _) =>
    match cut '_' head with
    | none => if head = "" then none else some ("", head)
    | some (ns, n) => if n = "" then none else some (ns, n)

def signal (tier : Tier) (key kind group namespace_ name : String) : Signal :=
  ⟨tier, key, ⟨kind, group, namespace_, name⟩, confidenceForTier tier⟩

def fluxSignal (tier : Tier) (kind group name namespace_ : String) : List Signal :=
  if name ≠ "" ∧ namespace_ ≠ "" then
    [signal tier (namespace_ ++ "/" ++ kind ++ "/" ++ name) kind group namespace_ name]
  else []

def appSignal (tier : Tier) (namespace_ name : String) : List Signal :=
  if name ≠ "" then [signal tier (namespace_ ++ "/app/" ++ name) "app" "" namespace_ name] else []

def applicationSignal (tier : Tier) (namespace_ name : String) : Signal :=
  signal tier (namespace_ ++ "/Application/" ++ name) "Application" "argoproj.io" namespace_ name

/-- All the signals, as they are read. -/
def signals (obj : ObjectMeta) : List Signal :=
  fluxSignal .fluxHelmRelease "HelmRelease" "helm.toolkit.fluxcd.io"
      (obj.labels "helm.toolkit.fluxcd.io/name") (obj.labels "helm.toolkit.fluxcd.io/namespace") ++
  fluxSignal .fluxKustomize "Kustomization" "kustomize.toolkit.fluxcd.io"
      (obj.labels "kustomize.toolkit.fluxcd.io/name")
      (obj.labels "kustomize.toolkit.fluxcd.io/namespace") ++
  (match parseArgoTrackingID (obj.annotations "argocd.argoproj.io/tracking-id") with
    | none => []
    | some (argoNS, argoName) => [applicationSignal .argoTrackingID argoNS argoName]) ++
  (let n := obj.annotations "meta.helm.sh/release-name"
    let ns := obj.annotations "meta.helm.sh/release-namespace"
    if n ≠ "" then [signal .helmRelease (ns ++ "/HelmRelease/" ++ n) "HelmRelease" "" ns n]
    else []) ++
  (let n := obj.labels "argocd.argoproj.io/instance"
    if n ≠ "" then [applicationSignal .argoInstance "" n] else []) ++
  appSignal .instance_ obj.namespace_ (obj.labels "app.kubernetes.io/instance") ++
  appSignal .partOf obj.namespace_ (obj.labels "app.kubernetes.io/part-of") ++
  appSignal .appName obj.namespace_ (obj.labels "app.kubernetes.io/name") ++
  appSignal .bareApp obj.namespace_ (obj.labels "app")

/-- The signal of highest precedence; the bare app label alone counts only on request. -/
def resolveOverlay (obj : ObjectMeta) (allowBareApp : Bool) : Option AppOverlay :=
  match (signals obj).mergeSort fun a b => decide (a.tier.rank ≤ b.tier.rank) with
  | [] => none
  | winner :: conflicts =>
    if 8 < winner.tier.rank ∧ allowBareApp = false then none else some ⟨winner, conflicts⟩

end Overlay
