import Radar.Applications.Overlay
import Radar.Base.Firsts
import Radar.Base.MultiMap
import Radar.Base.Partition
import Radar.Base.UnionFind

/- internal/server/applications.go: workloads grouped into applications by shared atoms. -/
namespace Applications
open Firsts GoText MultiMap Overlay Partition UnionFind

structure AppWorkload where
  kind : String
  namespace_ : String
  name : String
  deriving DecidableEq

structure AppRelationships where
  services : List String
  ingresses : List String
  routes : List String
  deriving DecidableEq

structure AppWorkloadInput where
  wl : AppWorkload
  overlay : Option AppOverlay
  rels : Option AppRelationships
  rootKey : String
  rootKind : String
  deriving DecidableEq

structure AppRow where
  key : String
  name : String
  namespace_ : String
  namespaces : List String
  tier : Nat
  confidence : Option Confidence
  workloads : List AppWorkload
  relationships : Option AppRelationships
  deriving DecidableEq

section Atoms

/-- strings.Index: the text before the first place where the marker stands, and behind it. -/
def cutAround (marker : List Char) : List Char → Option (List Char × List Char)
  | [] => if marker = [] then some ([], []) else none
  | c :: rest =>
    if marker.isPrefixOf (c :: rest) then some ([], (c :: rest).drop marker.length)
    else (cutAround marker rest).map fun parts => (c :: parts.1, parts.2)

def applicationMarker : List Char := "/Application/".toList

/-- The namespace and the name in an Application's key; a name holds no slash. -/
def applicationParts (kind key : String) : Option (String × String) := if kind ≠ "Application" then none
  else
    match cutAround applicationMarker key.toList with
    | none => none
    | some (ns, name) =>
      if name = [] ∨ '/' ∈ name then none else some (String.ofList ns, String.ofList name)

/-- The Applications of a workload whose namespace is known. -/
def concreteApplications (input : AppWorkloadInput) : List (String × String) :=
  ((applicationParts input.rootKind input.rootKey).toList ++
    (input.overlay.bind fun o => applicationParts "Application" o.winner.key).toList).filter
      fun app => app.1 ≠ ""

/-- The pairs of the nested map from a name to its namespaces, with namespace first. -/
def argoApplicationNamespaces (inputs : List AppWorkloadInput) : List (String × String) :=
  (inputs.flatMap concreteApplications).dedup

def ambiguous (apps : List (String × String)) (name : String) : Bool :=
  1 < (apps.filter fun app => app.2 = name).length

def argoCanonicalAtoms (kind key : String) (apps : List (String × String)) : List String :=
  match applicationParts kind key with
  | none => []
  | some (ns, name) =>
    (if ns ≠ "" then ["A:application:" ++ ns ++ "/" ++ name] else []) ++
      if ambiguous apps name then [] else ["A:application:" ++ name]

def inputAtoms (input : AppWorkloadInput) (apps : List (String × String)) : List String :=
  ("S:" ++ input.rootKey) :: (argoCanonicalAtoms input.rootKind input.rootKey apps ++
    match input.overlay with
    | none => []
    | some o => ("O:" ++ o.winner.key) :: argoCanonicalAtoms "Application" o.winner.key apps)

end Atoms

section Components

/-- The first atom joined with each of the others. -/
def atomPairs : List String → List (String × String)
  | [] => []
  | first :: rest => rest.map fun atom => (first, atom)

def joinedAtoms (inputs : List AppWorkloadInput) : Forest String := unionAll ∅ (inputs.flatMap fun input =>
    atomPairs (inputAtoms input (argoApplicationNamespaces inputs)))

/-- The workloads of each component, and the components in the order they come up. -/
def collect (d : Forest String) (order : List String) (members : Map String AppWorkloadInput) :
    List AppWorkloadInput → List String × Map String AppWorkloadInput
  | [] => (order, members)
  | input :: rest =>
    let comp := find d ("S:" ++ input.rootKey)
    collect comp.2 (if comp.1 ∈ members then order else order ++ [comp.1])
      (push members comp.1 input) rest

def components (inputs : List AppWorkloadInput) : List (List AppWorkloadInput) :=
  let collected := collect (joinedAtoms inputs) [] ∅ inputs
  collected.1.map fun comp => values collected.2 comp

end Components

section Rows

def appNameFromKey (key : String) : String :=
  let last := (key.toList.reverse.takeWhile fun c => c != '/').reverse
  if '/' ∈ key.toList ∧ last ≠ [] then String.ofList last else key

def namespaceFromKey (key : String) : String := match cut '/' key with
  | none => ""
  | some (ns, _) => ns

def managerTier (kind : String) : Option (Nat × Confidence) :=
  if kind = "HelmRelease" then some (Tier.fluxHelmRelease.rank, .high)
  else if kind = "Kustomization" then some (Tier.fluxKustomize.rank, .high)
  else if kind = "Application" then some (Tier.argoTrackingID.rank, .high)
  else none

def betterSignal (best : Option Signal) (w : Signal) : Option Signal := match best with
  | none => some w
  | some b =>
    if w.tier.rank < b.tier.rank ∨ (w.tier.rank = b.tier.rank ∧ w.key < b.key) then some w
    else some b

def bestSignal (ins : List AppWorkloadInput) : Option Signal :=
  (ins.filterMap fun input => input.overlay.map AppOverlay.winner).foldl betterSignal none

/-- The key, tier and confidence of a row: of the best overlay, else of the structural root. -/
def identifyApp (ins : List AppWorkloadInput) : String × Nat × Option Confidence :=
  match bestSignal ins with
  | some best => (best.key, best.tier.rank, some best.confidence)
  | none =>
    match ins.find? fun input => (managerTier input.rootKind).isSome with
    | some root =>
      (root.rootKey, ((managerTier root.rootKind).map Prod.fst).getD 0,
        (managerTier root.rootKind).map Prod.snd)
    | none => ((ins.head?.map AppWorkloadInput.rootKey).getD "", 0, none)

def sortedTexts (texts : List String) : List String := texts.mergeSort fun a b => decide (a ≤ b)

def dedupSorted (texts : List String) (cap : Nat) : List String :=
  (sortedTexts (firsts id [] (texts.filter fun text => text ≠ ""))).take cap

def mergeRelationships (ins : List AppWorkloadInput) : Option AppRelationships :=
  match ins.filterMap AppWorkloadInput.rels with
  | [] => none
  | rels =>
    some ⟨dedupSorted (rels.flatMap AppRelationships.services) 20,
      dedupSorted (rels.flatMap AppRelationships.ingresses) 20,
      dedupSorted (rels.flatMap AppRelationships.routes) 20⟩

/-- The app lives where its workloads run, not where its manager does. -/
def rowOf (ins : List AppWorkloadInput) : AppRow := let identity := identifyApp ins
  let namespaces := sortedTexts
    (firsts id [] ((ins.map fun input => input.wl.namespace_).filter fun ns => ns ≠ ""))
  { key := identity.1
    name := appNameFromKey identity.1
    namespace_ := match namespaces with
      | [] => namespaceFromKey identity.1
      | [ns] => ns
      | _ => ""
    namespaces := namespaces
    tier := identity.2.1
    confidence := identity.2.2
    workloads := ins.map AppWorkloadInput.wl
    relationships := mergeRelationships ins }

def rowBefore (a b : AppRow) : Bool :=
  if a.name ≠ b.name then decide (a.name < b.name) else decide (a.key ≤ b.key)

def groupApplications (inputs : List AppWorkloadInput) : List AppRow :=
  ((components inputs).map rowOf).mergeSort rowBefore

end Rows

end Applications
