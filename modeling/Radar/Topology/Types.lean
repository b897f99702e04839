import Mathlib.Data.List.Basic

/- pkg/topology/types.go: the graph, the build options and the namespace filter they carry. -/
namespace Topology

inductive HealthStatus where
  | healthy | degraded | unhealthy | unknown
  deriving DecidableEq, Repr

inductive EdgeType where
  | routesTo | exposes | manages | uses | protects | configures
  deriving DecidableEq, Repr

/-- A value of a node's data map. The graph code looks only into strings. -/
inductive DataValue where
  | text (s : String)
  | other (encoded : String)
  deriving DecidableEq, Repr

/-- Kinds stay strings: discovered custom resources bring their own. A nil data map is `none`. -/
structure Node where
  id : String
  kind : String
  name : String
  status : HealthStatus
  data : Option (List (String × DataValue))
  deriving DecidableEq, Repr

structure Edge where
  id : String
  source : String
  target : String
  type : EdgeType
  label : String
  skipIfKindVisible : String
  policyEffect : String
  deriving DecidableEq, Repr

structure Graph where
  nodes : List Node
  edges : List Edge
  deriving DecidableEq, Repr

/-- The two declared view modes, and every other value of the string type behind them. -/
inductive ViewMode where
  | traffic
  | resources
  | other (text : String) (undeclared : text ≠ "traffic" ∧ text ≠ "resources")
  deriving DecidableEq, Repr

def ViewMode.text : ViewMode → String
  | .traffic => "traffic"
  | .resources => "resources"
  | .other text _ => text

structure BuildOptions where
  namespaces : Option (List String)
  viewMode : ViewMode
  maxIndividualPods : Int
  includeSecrets : Bool
  includeConfigMaps : Bool
  includePVCs : Bool
  includeReplicaSets : Bool
  includeGenericCRDs : Bool
  forRelationshipCache : Bool
  showPolicyEffect : Bool
  summaryMode : Bool
  deriving DecidableEq, Repr

def matchesNamespace (namespaces : Option (List String)) (ns : String) : Bool := match namespaces with
  | none => true
  | some listed => listed.contains ns

def BuildOptions.matchesNamespaceFilter (opts : BuildOptions) (ns : String) : Bool :=
  matchesNamespace opts.namespaces ns

/-- `opts.Namespaces = namespaces`, as the handlers set it. -/
def BuildOptions.withNamespaces (opts : BuildOptions) (namespaces : Option (List String)) : BuildOptions :=
  { opts with namespaces := namespaces }

def defaultBuildOptions : BuildOptions where
  namespaces := none
  viewMode := .resources
  maxIndividualPods := 5
  includeSecrets := false
  includeConfigMaps := true
  includePVCs := true
  includeReplicaSets := false
  includeGenericCRDs := true
  forRelationshipCache := false
  showPolicyEffect := false
  summaryMode := false

theorem view_text_inj {a b : ViewMode} (same : a.text = b.text) : a = b := by
  cases a with
  | traffic => cases b <;> simp_all [ViewMode.text, eq_comm]
  | resources => cases b <;> simp_all [ViewMode.text, eq_comm]
  | other text undeclared => cases b <;> simp_all [ViewMode.text]

@[simp] theorem matches_all (ns : String) : matchesNamespace none ns = true := rfl

@[simp] theorem matches_listed (listed : List String) (ns : String) :
    matchesNamespace (some listed) ns = true ↔ ns ∈ listed := by
  simp [matchesNamespace]

theorem matches_nothing (ns : String) : matchesNamespace (some []) ns = false := rfl

/-- Two filters admit the same namespaces: `nil` with `nil`, lists with the same members. -/
def SameScope (a b : Option (List String)) : Prop := ∀ ns, matchesNamespace a ns = matchesNamespace b ns

theorem same_scope_members {a b : List String} : SameScope (some a) (some b) ↔ ∀ ns, ns ∈ a ↔ ns ∈ b := by
  constructor
  · intro same ns
    rw [← matches_listed a, ← matches_listed b, same ns]
  · intro members ns
    rw [Bool.eq_iff_iff]
    simpa using members ns

theorem member_length_le {listed : List String} {name : String} (member : name ∈ listed) :
    name.toList.length ≤ (listed.flatMap String.toList).length := by
  induction listed with
  | nil => simp at member
  | cons first rest ih =>
    simp only [List.flatMap_cons, List.length_append]
    rcases List.mem_cons.mp member with same | later
    · subst same
      omega
    · have := ih later
      omega

/-- No list of names admits every name, so `nil` shares its scope with no list. -/
theorem all_is_no_list (listed : List String) : ¬ SameScope none (some listed) := by
  intro same
  let longer : String := String.ofList ('x' :: listed.flatMap String.toList)
  have admitted : longer ∈ listed := (matches_listed listed longer).mp (same longer).symm
  have short := member_length_le admitted
  simp only [longer, String.toList_ofList, List.length_cons] at short
  omega

theorem same_scope_symm {a b : Option (List String)} (same : SameScope a b) : SameScope b a :=
  fun ns => (same ns).symm

end Topology
