import Radar.Timeline.Types

/- pkg/issuesapi/types.go and SeverityRank of internal/issues/filters.go: the rows of issues. -/
namespace Issues
open Timeline

/-- The two tiers every detector's severity is normalized to. -/
inductive Severity where
  | critical
  | warning
  deriving DecidableEq, Repr

def severityRank : Severity → Nat
  | .critical => 3
  | .warning => 2

inductive Source where
  | problem
  | missingRef
  | scheduling
  | condition
  | other (name : String)
    (undeclared : name ∉ ["problem", "missing_ref", "scheduling", "condition"])
  deriving DecidableEq, Repr

def Source.text : Source → String
  | .problem => "problem"
  | .missingRef => "missing_ref"
  | .scheduling => "scheduling"
  | .condition => "condition"
  | .other name _ => name

theorem other_text {name : String}
    (undeclared : name ∉ ["problem", "missing_ref", "scheduling", "condition"]) :
    "problem" ≠ name ∧ "missing_ref" ≠ name ∧ "scheduling" ≠ name ∧ "condition" ≠ name := by
  simp only [List.mem_cons, List.not_mem_nil, or_false, not_or] at undeclared
  exact ⟨Ne.symm undeclared.1, Ne.symm undeclared.2.1, Ne.symm undeclared.2.2.1, Ne.symm undeclared.2.2.2⟩

theorem source_text_inj {a b : Source} (same : a.text = b.text) : a = b := by
  cases a with
  | other name undeclared =>
    have apart := other_text undeclared
    cases b <;> simp_all [Source.text]
  | _ =>
    cases b with
    | other name undeclared =>
      have apart := other_text undeclared
      simp_all [Source.text]
    | _ => first | rfl | exact absurd same (by decide)

/-- String types whose values nothing here looks into. -/
structure Category where
  text : String
  deriving DecidableEq, Repr

structure CategoryGroup where
  text : String
  deriving DecidableEq, Repr

structure Scope where
  text : String
  deriving DecidableEq, Repr

structure Ref where
  group : String
  kind : String
  namespace_ : String
  name : String
  deriving DecidableEq, Repr

structure Affected where
  pods : Nat
  workloads : Nat
  services : Nat
  pvcs : Nat
  nodes : Nat
  deriving DecidableEq, Repr

/-- The fields of a parsed diagnosis. -/
structure Diagnosis where
  cause : String
  action : String
  remediationKind : String
  remediationTarget : String
  operationRetryCount : Int
  stuck : Bool
  deriving DecidableEq, Repr

structure Issue where
  severity : Severity
  source : Source
  category : Category
  categoryGroup : CategoryGroup
  id : String
  groupingScope : Scope
  kind : String
  group : String
  namespace_ : String
  name : String
  reason : String
  message : String
  diagnosis : Diagnosis
  firstSeen : Time
  lastSeen : Time
  count : Nat
  owner : Ref
  restartCount : Int
  lastTerminatedReason : String
  affected : Affected
  members : List Ref
  membersTruncated : Bool
  issueTiming : String
  issueTimingBasis : String
  deriving DecidableEq, Repr

def Issue.ref (i : Issue) : Ref := ⟨i.group, i.kind, i.namespace_, i.name⟩

end Issues
