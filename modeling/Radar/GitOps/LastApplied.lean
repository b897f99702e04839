import Radar.Base.Arrange
import Radar.GitOps.IgnoredPaths
import Radar.GitOps.SchemeDefaults

/- pkg/gitops/insights/drift.go, computeDriftFromLastApplied: the applied object against the live one. -/
namespace LastApplied
open Drift JsonText SortedEntries

def kubectlLastAppliedAnnotation : String := "kubectl.kubernetes.io/last-applied-configuration"

def driftEntryCap : Nat := 50

structure Drift where
  entries : List DriftEntry
  source : String
  truncated : Bool

/-- What is read of an object by code outside: its annotations, its spec where that is a map, and a
   map from its JSON text. -/
structure Reading where
  getAnnotations : Entries → List (String × String)
  nestedSpec : Entries → Option Entries
  unmarshal : String → Option Entries

def mapAt (obj : Entries) (key : String) : Option Entries := match valueAt obj key with
  | .object entries => some entries
  | _ => none

def kindServerAssignedPaths (kind : String) : List String := if kind = "Service" then
    ["/spec/clusterIP", "/spec/clusterIPs", "/spec/ipFamilies", "/spec/ipFamilyPolicy",
     "/spec/internalTrafficPolicy"]
  else if kind = "Pod" then ["/spec/nodeName"]
  else if kind = "PersistentVolumeClaim" then ["/spec/volumeName"]
  else []

section Compute
variable (reading : Reading) (walk : Walk)

/-- The applied object, where there is one to be read. -/
def lastApplied (live : Entries) : Option Entries :=
  let raw := ((reading.getAnnotations live).lookup kubectlLastAppliedAnnotation).getD ""
  if raw = "" then none else reading.unmarshal raw

def specEntries (kind : String) (desiredSpec liveSpec : Option Entries) (ignorePointers : List String) :
    List DriftEntry :=
  let entries := diffValues walk ["spec"] "spec" (.object (desiredSpec.getD [])) (.object (liveSpec.getD []))
  let entries := filterIgnoredPaths entries (kindServerAssignedPaths kind)
  filterIgnoredPaths entries ignorePointers

def computeDriftFromLastApplied (live : Option Entries) (ignorePointers : List String) : Option Drift :=
  live.bind fun live => (lastApplied reading live).bind fun desiredObj =>
    let desiredSpec := mapAt (applySchemeDefaults desiredObj) "spec"
    let liveSpec := reading.nestedSpec live
    if desiredSpec.isNone && liveSpec.isNone then none
    else
      let entries := specEntries walk (kindOf live) desiredSpec liveSpec ignorePointers
      if entries.isEmpty then none
      else some
        { entries := (Arrange.sortStable (fun a b => decide (a.path < b.path)) entries).take driftEntryCap
          source := "lastAppliedAnnotation"
          truncated := driftEntryCap < entries.length }

end Compute

section Settled
variable {reading : Reading} {walk : Walk}

theorem filter_nil (pointers : List String) : filterIgnoredPaths [] pointers = [] := by
  rw [filterIgnoredPaths]
  split <;> rfl

theorem same_spec (kind : String) (spec : Option Entries) (ignorePointers : List String) :
    specEntries walk kind spec spec ignorePointers = [] := by
  rw [specEntries, diff_self]
  simp only [filter_nil]

/-- A live spec that is the applied one with its defaults has not drifted. -/
theorem defaulted_silent {live desiredObj : Entries} (applied : lastApplied reading live = some desiredObj)
    (agrees : reading.nestedSpec live = mapAt (applySchemeDefaults desiredObj) "spec")
    (ignorePointers : List String) :
    computeDriftFromLastApplied reading walk (some live) ignorePointers = none := by
  rw [computeDriftFromLastApplied, Option.bind_some, applied, Option.bind_some, agrees]
  simp only [same_spec]
  split <;> rfl

/-- Defaulting once is enough, takes nothing away, and an object that is live as it was applied and
   defaulted shows no drift. -/
theorem scheme_defaults (desired : Obj) :
    applySchemeDefaults (applySchemeDefaults desired.entries) = applySchemeDefaults desired.entries ∧
    Kept (.object desired.entries) (.object (applySchemeDefaults desired.entries)) ∧
    ∀ reading walk live ignorePointers, lastApplied reading live = some desired.entries →
      reading.nestedSpec live = mapAt (applySchemeDefaults desired.entries) "spec" →
      computeDriftFromLastApplied reading walk (some live) ignorePointers = none :=
  ⟨defaults_again desired.ordered, defaults_kept desired.entries,
    fun _ _ _ ignorePointers applied agrees => defaulted_silent applied agrees ignorePointers⟩

end Settled

section Sample

/-- A ReplicaSet without a number of replicas. -/
def manifest : Obj where
  entries := [("kind", .string "ReplicaSet"), ("spec", .object [("paused", .bool true)])]
  ordered := pair_ordered (by decide) (.string _) (single_ordered "paused" (.bool true))

def liveObject : Entries := [("kind", .string "ReplicaSet"), ("metadata", .object [("annotations",
     .object [( kubectlLastAppliedAnnotation, .string (jsonString (.object manifest.entries)))])]),
   ("spec", .object [("paused", .bool true), ("replicas", int64 1)])]

def stringEntries (entries : Entries) : List (String × String) :=
  entries.filterMap fun entry => match entry.2 with
    | .string text => some (entry.1, text)
    | _ => none

/-- Reading the two objects above as they are written. -/
def sampleReading : Reading where
  getAnnotations live := ((mapAt live "metadata").bind fun metadata =>
    (mapAt metadata "annotations").map stringEntries).getD []
  nestedSpec live := mapAt live "spec"
  unmarshal raw := if raw = jsonString (.object manifest.entries) then some manifest.entries else none

theorem replicas_defaulted :
    computeDriftFromLastApplied sampleReading inOrder (some liveObject) [] = none := by
  have applied : lastApplied sampleReading liveObject = some manifest.entries := by
    have raw : ((sampleReading.getAnnotations liveObject).lookup kubectlLastAppliedAnnotation).getD "" =
        jsonString (.object manifest.entries) := rfl
    have written : jsonString (.object manifest.entries) ≠ "" := by decide
    rw [lastApplied, raw]
    simp only [written, if_false, sampleReading, if_true]
  have agrees : sampleReading.nestedSpec liveObject = mapAt (applySchemeDefaults manifest.entries) "spec" :=
    rfl
  exact (scheme_defaults manifest).2.2 sampleReading inOrder liveObject [] applied agrees

end Sample

end LastApplied
