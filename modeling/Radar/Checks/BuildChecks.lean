import Mathlib.Data.Prod.Lex
import Radar.Base.Arrange
import Radar.Base.KeyedFold
import Radar.Subject.OwnerWalk

/- pkg/checks/checks.go: the findings of the detectors gathered into the remediation queue, one row for
   each failing check. -/
namespace Checks
open Arrange KeyedFold Selection

structure CheckMeta where
  title : String
  description : String

/-- The resource within its cluster, which is the same for all the findings of a call. -/
structure ResourceRef extends OwnerWalk.Ref where
  clusterID : String
  deriving DecidableEq

structure EffectiveFindingState where
  visibility : String
  source : String
  scoreImpact : String
  alertImpact : String
  complianceImpact : String
  reason : String
  deriving DecidableEq

structure EffectiveFinding where
  source : String
  resource : ResourceRef
  checkID : String
  category : String
  originalSeverity : String
  effectiveSeverity : String
  message : String
  state : EffectiveFindingState
  deriving DecidableEq

structure Check where
  id : String
  source : String
  subject : ResourceRef
  checkID : String
  category : String
  effectiveSeverity : String
  title : String
  message : String
  affectedFindings : Nat
  affectedResources : Nat
  representativeFinding : EffectiveFinding
  findings : List EffectiveFinding
  environment : String
  deriving DecidableEq

def severityRank (s : String) : Nat := if s = "critical" then 4
  else if s = "high" then 3
  else if s = "medium" then 2
  else if s = "low" then 1
  else 0

def sourceRadarBuiltin : String := "radar_builtin"

def refKey (r : ResourceRef) : String := OwnerWalk.refKey r.toRef

/-- A check's findings as they come, and the set of the keys of their resources. -/
structure Bucket where
  checkID : String
  findings : List EffectiveFinding
  resKeys : List String

def Bucket.add (b : Bucket) (f : EffectiveFinding) : Bucket :=
  { b with findings := b.findings ++ [f], resKeys := b.resKeys.insert (refKey f.resource) }

def bucketFolding : Folding EffectiveFinding Bucket String where
  keyOf := EffectiveFinding.checkID
  key := Bucket.checkID
  start := fun f => ⟨f.checkID, [], []⟩
  add := Bucket.add
  key_start := fun _ => rfl
  key_add := fun _ _ => rfl

def lessFinding (a b : EffectiveFinding) : Bool :=
  if severityRank a.effectiveSeverity ≠ severityRank b.effectiveSeverity then
    decide (severityRank b.effectiveSeverity < severityRank a.effectiveSeverity)
  else if a.resource.kind ≠ b.resource.kind then decide (a.resource.kind < b.resource.kind)
  else if a.resource.namespace_ ≠ b.resource.namespace_ then
    decide (a.resource.namespace_ < b.resource.namespace_)
  else decide (a.resource.name < b.resource.name)

def sortEffectiveFindings (findings : List EffectiveFinding) : List EffectiveFinding :=
  sortStable lessFinding findings

section Build
variable (catalog : String → CheckMeta) (clusterID env : String)

/-- The row of a bucket, which holds a finding at least. -/
def checkOf (b : Bucket) : Option Check := match sortEffectiveFindings b.findings with
  | [] => none
  | rep :: rest => some
    { id := clusterID ++ "|" ++ sourceRadarBuiltin ++ "|" ++ b.checkID
      source := sourceRadarBuiltin
      subject := rep.resource
      checkID := b.checkID
      category := rep.category
      effectiveSeverity := rep.effectiveSeverity
      title := if (catalog b.checkID).title = "" then b.checkID else (catalog b.checkID).title
      message := if rep.message = "" then (catalog b.checkID).description else rep.message
      affectedFindings := b.findings.length
      affectedResources := b.resKeys.length
      representativeFinding := rep
      findings := rep :: rest
      environment := env }

def lessCheck (a b : Check) : Bool :=
  if severityRank a.effectiveSeverity ≠ severityRank b.effectiveSeverity then
    decide (severityRank b.effectiveSeverity < severityRank a.effectiveSeverity)
  else if a.affectedResources ≠ b.affectedResources then
    decide (b.affectedResources < a.affectedResources)
  else decide (a.checkID < b.checkID)

def buildChecks (findings : List EffectiveFinding) : List Check :=
  sortStable lessCheck ((bucketFolding.gather findings).filterMap (checkOf catalog clusterID env))

end Build

end Checks
