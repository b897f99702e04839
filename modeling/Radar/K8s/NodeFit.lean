import Mathlib.Data.String.Basic
import Radar.Base.Arrange
import Radar.Base.Firsts
import Radar.Base.GoText
import Radar.Base.LabelSelector
import Radar.Base.SortedEntries

/- internal/k8s/detect_scheduling.go: which label requirement of a pod no node satisfies. -/
namespace NodeFit
open GoText LabelSelector

structure NodeFacts where
  name : String
  labels : Labels

inductive NodeSelectorOperator where
  | in_ | notIn | exists_ | doesNotExist | gt | lt
  | other (text : String)
  deriving DecidableEq

def NodeSelectorOperator.text : NodeSelectorOperator → String
  | .in_ => "In"
  | .notIn => "NotIn"
  | .exists_ => "Exists"
  | .doesNotExist => "DoesNotExist"
  | .gt => "Gt"
  | .lt => "Lt"
  | .other text => text

structure MatchExpr where
  key : String
  operator : NodeSelectorOperator
  values : List String
  deriving DecidableEq

structure NodeSelectorTermFacts where
  expressions : List MatchExpr
  deriving DecidableEq

/-- A map of labels, as its entries in the order of their keys. -/
structure LabelMap where
  entries : List (String × String)
  sorted : SortedEntries.Sorted entries

structure PodPlacement where
  nodeSelector : LabelMap
  requiredNodeAffinity : List NodeSelectorTermFacts

section Spec

/-- A term as the pod has it: requirements on the node's labels and on its fields. -/
structure NodeSelectorTerm where
  matchExpressions : List MatchExpr
  matchFields : List MatchExpr
  deriving DecidableEq

structure NodeSelector where
  nodeSelectorTerms : List NodeSelectorTerm

structure NodeAffinity where
  requiredDuringSchedulingIgnoredDuringExecution : Option NodeSelector

structure Affinity where
  nodeAffinity : Option NodeAffinity

structure PodSpec where
  nodeSelector : LabelMap
  affinity : Option Affinity

/-- The required affinity, where every pointer on the way to it is set. -/
def PodSpec.required (spec : PodSpec) : Option NodeSelector :=
  (spec.affinity.bind Affinity.nodeAffinity).bind
    NodeAffinity.requiredDuringSchedulingIgnoredDuringExecution

def extractPodPlacement (spec : PodSpec) : PodPlacement := match spec.required with
  | none => ⟨spec.nodeSelector, []⟩
  | some req => ⟨spec.nodeSelector, req.nodeSelectorTerms.filterMap fun term =>
      let t := NodeSelectorTermFacts.mk term.matchExpressions
      if 0 < t.expressions.length then some t else none⟩

end Spec

section Matching
variable (nodes : List NodeFacts)

def nodeMatchesExpr (n : NodeFacts) (e : MatchExpr) : Bool := match e.operator with
  | .in_ => (n.labels e.key).any fun v => e.values.contains v
  | .notIn => !(n.labels e.key).any fun v => e.values.contains v
  | .exists_ => (n.labels e.key).isSome
  | .doesNotExist => (n.labels e.key).isNone
  | .gt => match n.labels e.key, e.values with
    | some v, first :: _ => match parseInt64 v, parseInt64 first with
      | some nv, some bound => nv > bound
      | _, _ => false
    | _, _ => false
  | .lt => match n.labels e.key, e.values with
    | some v, first :: _ => match parseInt64 v, parseInt64 first with
      | some nv, some bound => nv < bound
      | _, _ => false
    | _, _ => false
  | .other _ => false

def nodeMatchesTerm (n : NodeFacts) (term : NodeSelectorTermFacts) : Bool :=
  term.expressions.all (nodeMatchesExpr n)

def anyTermMatches (terms : List NodeSelectorTermFacts) : Bool :=
  nodes.any fun n => terms.any (nodeMatchesTerm n)

def countNodesMatchingExpr (e : MatchExpr) : Nat := nodes.countP fun n => nodeMatchesExpr n e

/-- An absent label reads as the empty text. -/
def countNodesWithLabel (key val : String) : Nat :=
  nodes.countP fun node => (node.labels key).getD "" == val

def countNodesWithLabelKey (key : String) : Nat := nodes.countP fun node => (node.labels key).isSome

def lessText (a b : String) : Bool := a < b

def distinctLabelValues (key : String) : List String :=
  Arrange.sortStable lessText (Firsts.firsts id [] (nodes.filterMap fun node => node.labels key))

def commaSeparated (values : List String) : String := ", ".intercalate values

def explainMissingLabel (key val : String) : String := let present := distinctLabelValues nodes key
  if present.length = 0 then
    "no node carries label " ++ key ++ " (pod requires " ++ key ++ "=" ++ val ++ ")"
  else
    "no node has " ++ key ++ "=" ++ val ++ " — " ++ toString (countNodesWithLabelKey nodes key) ++
      " node(s) carry " ++ key ++ ": [" ++ commaSeparated present ++ "]"

def explainMissingExpr (e : MatchExpr) : String := let present := distinctLabelValues nodes e.key
  match e.operator with
  | .in_ =>
    if present.length = 0 then
      "no node carries label " ++ e.key ++ " (pod requires " ++ e.key ++ " in [" ++
        commaSeparated e.values ++ "])"
    else
      "no node has " ++ e.key ++ " in [" ++ commaSeparated e.values ++ "] — fleet " ++ e.key ++
        ": [" ++ commaSeparated present ++ "]"
  | .exists_ => "no node carries label " ++ e.key ++ " (pod requires it to exist)"
  | .doesNotExist => "every node carries label " ++ e.key ++ " (pod requires it absent)"
  | .notIn =>
    "every node has " ++ e.key ++ " in [" ++ commaSeparated e.values ++ "] (pod requires otherwise)"
  | operator => "no node satisfies nodeAffinity " ++ e.key ++ " " ++ operator.text ++ " [" ++
      commaSeparated e.values ++ "]"

variable (p : PodPlacement)

/-- The entries of the pod's nodeSelector that are named as a cause. -/
def missingLabels : List (String × String) :=
  p.nodeSelector.entries.filter fun (k, v) => countNodesWithLabel nodes k v == 0

def affinityMsgs : List String :=
  let msgs := Firsts.firsts id [] (p.requiredNodeAffinity.flatMap fun term =>
    (term.expressions.filter fun e => countNodesMatchingExpr nodes e == 0).map
      (explainMissingExpr nodes))
  if msgs.length = 0 then ["no node satisfies the pod's required nodeAffinity term combination"]
  else msgs

def resolveUnsatisfiableNodeSelector : List String :=
  (missingLabels nodes p).map (fun (k, v) => explainMissingLabel nodes k v) ++
    if 0 < p.requiredNodeAffinity.length && !anyTermMatches nodes p.requiredNodeAffinity then
      affinityMsgs nodes p
    else []

end Matching

section Kubernetes

/-- A requirement on labels, in the forms the API accepts. -/
def Holds (n : NodeFacts) (e : MatchExpr) : Prop := match e.operator with
  | .in_ => e.values ≠ [] ∧ ∃ v, n.labels e.key = some v ∧ v ∈ e.values
  | .notIn => e.values ≠ [] ∧ ∀ v, n.labels e.key = some v → v ∉ e.values
  | .exists_ => e.values = [] ∧ (n.labels e.key).isSome
  | .doesNotExist => e.values = [] ∧ n.labels e.key = none
  | .gt => ∃ v bound nv b, n.labels e.key = some v ∧ e.values = [bound] ∧
      parseInt64 v = some nv ∧ parseInt64 bound = some b ∧ b < nv
  | .lt => ∃ v bound nv b, n.labels e.key = some v ∧ e.values = [bound] ∧
      parseInt64 v = some nv ∧ parseInt64 bound = some b ∧ nv < b
  | .other _ => False

/-- A requirement on fields; the only field is the node's name. -/
def FieldHolds (n : NodeFacts) (e : MatchExpr) : Prop := e.key = "metadata.name" ∧
    ((e.operator = .in_ ∧ e.values = [n.name]) ∨
      (e.operator = .notIn ∧ ∃ other, e.values = [other] ∧ n.name ≠ other))

/-- All requirements of a term hold; a term that requires nothing matches nothing. -/
structure TermMatches (n : NodeFacts) (term : NodeSelectorTerm) : Prop where
  asks : term.matchExpressions ≠ [] ∨ term.matchFields ≠ []
  expressions : ∀ e ∈ term.matchExpressions, Holds n e
  fields : ∀ e ∈ term.matchFields, FieldHolds n e

def SelectorHolds (n : NodeFacts) (selector : LabelMap) : Prop :=
  ∀ entry ∈ selector.entries, n.labels entry.1 = some entry.2

/-- The node satisfies the pod's nodeSelector and its required affinity. -/
structure Satisfies (n : NodeFacts) (spec : PodSpec) : Prop where
  selector : SelectorHolds n spec.nodeSelector
  affinity : ∀ req, spec.required = some req → ∃ term ∈ req.nodeSelectorTerms, TermMatches n term

/-- What the diagnosis promises of a pod and the nodes of its cluster: a report means that no node
   satisfies the pod, and a label named as the cause is on no node with that value. -/
structure Sound (spec : PodSpec) (nodes : List NodeFacts) : Prop where
  unsatisfiable : resolveUnsatisfiableNodeSelector nodes (extractPodPlacement spec) ≠ [] →
    ∀ n ∈ nodes, ¬ Satisfies n spec
  named : ∀ k v, (k, v) ∈ missingLabels nodes (extractPodPlacement spec) → ∀ n ∈ nodes, n.labels k ≠ some v

end Kubernetes

section Reports
variable {nodes : List NodeFacts} {n : NodeFacts} {spec : PodSpec} {p : PodPlacement}

/-- A requirement that holds is matched; the matching accepts more, as it does not ask for the forms
   that the API accepts. -/
theorem holds_matched {e : MatchExpr} (holds : Holds n e) : nodeMatchesExpr n e = true := by
  obtain ⟨key, operator, values⟩ := e
  cases operator with
  | in_ =>
    obtain ⟨-, v, carried, listed⟩ := holds
    simp only [nodeMatchesExpr]
    rw [carried]
    simpa using listed
  | notIn =>
    obtain ⟨-, apart⟩ := holds
    simp only [nodeMatchesExpr]
    cases carried : n.labels key with
    | none => rfl
    | some v => simpa using apart v carried
  | exists_ => exact holds.2
  | doesNotExist =>
    obtain ⟨-, absent⟩ := holds
    simp only [nodeMatchesExpr]
    rw [absent]
    rfl
  | gt =>
    obtain ⟨v, bound, nv, b, carried, single, number, number', above⟩ := holds
    simp only at single
    simp only [nodeMatchesExpr]
    rw [carried, single]
    simp only
    rw [number, number']
    simpa using above
  | lt =>
    obtain ⟨v, bound, nv, b, carried, single, number, number', below⟩ := holds
    simp only at single
    simp only [nodeMatchesExpr]
    rw [carried, single]
    simp only
    rw [number, number']
    simpa using below
  | other text => exact holds.elim

theorem term_matched {term : NodeSelectorTerm} (matched : TermMatches n term) :
    nodeMatchesTerm n ⟨term.matchExpressions⟩ = true :=
  List.all_eq_true.mpr fun e member => holds_matched (matched.expressions e member)

theorem any_term_iff {terms : List NodeSelectorTermFacts} : anyTermMatches nodes terms = true ↔
    ∃ m ∈ nodes, ∃ term ∈ terms, nodeMatchesTerm m term = true := by
  rw [anyTermMatches, List.any_eq_true]
  simp only [List.any_eq_true]

/-- The terms that are kept: those with a requirement on labels. -/
theorem kept_terms {req : NodeSelector} (set : spec.required = some req) :
    (extractPodPlacement spec).requiredNodeAffinity =
      (req.nodeSelectorTerms.filter fun term => term.matchExpressions ≠ []).map
        fun term => ⟨term.matchExpressions⟩ := by
  rw [extractPodPlacement, set]
  simp only
  induction req.nodeSelectorTerms with
  | nil => rfl
  | cons term rest ih =>
    rw [List.filterMap_cons, ih]
    cases text : term.matchExpressions with
    | nil => simp [text]
    | cons e more => simp [text]

theorem kept_selector : (extractPodPlacement spec).nodeSelector = spec.nodeSelector := by
  rw [extractPodPlacement]
  cases spec.required with
  | none => rfl
  | some req => rfl

theorem named_absent {k v : String} (named : (k, v) ∈ missingLabels nodes p)
    (member : n ∈ nodes) : n.labels k ≠ some v := by
  intro carried
  have uncounted := (List.mem_filter.mp named).2
  have none_ := List.countP_eq_zero.mp (beq_iff_eq.mp uncounted) n member
  rw [carried] at none_
  exact none_ (beq_self_eq_true v)

theorem selector_unnamed (holds : SelectorHolds n p.nodeSelector)
    (member : n ∈ nodes) : missingLabels nodes p = [] := by
  rw [List.eq_nil_iff_forall_not_mem]
  intro entry named
  exact named_absent named member (holds entry (List.mem_filter.mp named).1)

theorem affinity_msgs_some (p : PodPlacement) : affinityMsgs nodes p ≠ [] := by
  rw [affinityMsgs]
  by_cases empty : (Firsts.firsts id [] (p.requiredNodeAffinity.flatMap fun term =>
      (term.expressions.filter fun e => countNodesMatchingExpr nodes e == 0).map
        (explainMissingExpr nodes))).length = 0
  · rw [if_pos empty]
    exact List.cons_ne_nil _ _
  · rw [if_neg empty]
    exact fun none_ => empty (congrArg List.length none_)

/-- Nothing is reported exactly when no label is missing and either no term was kept or some node
   matches one of those kept. -/
theorem silent_iff : resolveUnsatisfiableNodeSelector nodes p = [] ↔ missingLabels nodes p = [] ∧
      (p.requiredNodeAffinity = [] ∨ anyTermMatches nodes p.requiredNodeAffinity = true) := by
  rw [resolveUnsatisfiableNodeSelector, List.append_eq_nil_iff, List.map_eq_nil_iff]
  apply and_congr_right
  intro _
  cases terms : p.requiredNodeAffinity with
  | nil => simp
  | cons term rest =>
    by_cases any : anyTermMatches nodes (term :: rest) = true
    · simp [any]
    · simp [any, affinity_msgs_some]

end Reports

section Soundness
variable (spec : PodSpec) (nodes : List NodeFacts)

/-- A node that has the pod's labels and meets a term that requires fields only. -/
def FieldsAlone (req : NodeSelector) (n : NodeFacts) : Prop := SelectorHolds n spec.nodeSelector ∧
    ∃ term ∈ req.nodeSelectorTerms, term.matchExpressions = [] ∧ TermMatches n term

/-- No term requires labels, or the labels that one requires are on some node. -/
def LabelsFound (req : NodeSelector) : Prop :=
  (∀ term ∈ req.nodeSelectorTerms, term.matchExpressions = []) ∨
    ∃ m ∈ nodes, ∃ term ∈ req.nodeSelectorTerms, term.matchExpressions ≠ [] ∧
      nodeMatchesTerm m ⟨term.matchExpressions⟩ = true

theorem kept_none_iff {req : NodeSelector} (set : spec.required = some req) :
    (extractPodPlacement spec).requiredNodeAffinity = [] ∨
      anyTermMatches nodes (extractPodPlacement spec).requiredNodeAffinity = true ↔
        LabelsFound nodes req := by
  rw [any_term_iff, kept_terms set, List.map_eq_nil_iff, List.filter_eq_nil_iff, LabelsFound]
  simp [and_assoc]

/-- A pod that a node satisfies is reported exactly when the node meets fields alone and no other
   node the labels of any term. -/
theorem reported_satisfied {n : NodeFacts} (member : n ∈ nodes) (satisfied : Satisfies n spec) :
    resolveUnsatisfiableNodeSelector nodes (extractPodPlacement spec) ≠ [] ↔
      ∃ req, spec.required = some req ∧ FieldsAlone spec req n ∧ ¬ LabelsFound nodes req := by
  have unnamed : missingLabels nodes (extractPodPlacement spec) = [] :=
    selector_unnamed (kept_selector ▸ satisfied.selector) member
  rw [Ne, silent_iff, and_iff_right unnamed]
  cases set : spec.required with
  | none =>
    have nothing : (extractPodPlacement spec).requiredNodeAffinity = [] := by
      rw [extractPodPlacement, set]
    simp [nothing]
  | some req =>
    rw [kept_none_iff spec nodes set]
    constructor
    · intro lost
      obtain ⟨term, listed, matched⟩ := satisfied.affinity req set
      have fieldsOnly : term.matchExpressions = [] := by
        by_contra labelled
        exact lost (Or.inr ⟨n, member, term, listed, labelled, term_matched matched⟩)
      exact ⟨req, rfl, ⟨satisfied.selector, term, listed, fieldsOnly, matched⟩, lost⟩
    · rintro ⟨_, same, _, lost⟩
      cases same
      exact lost

/-- The diagnosis is sound exactly when no node meets the pod through fields alone while the labels
   of every other term are on no node: terms without label requirements are lost on extraction,
   although any one term is enough. -/
theorem sound_iff : Sound spec nodes ↔ ∀ req, spec.required = some req →
    ∀ n ∈ nodes, FieldsAlone spec req n → LabelsFound nodes req := by
  constructor
  · intro sound req set n member alone
    by_contra lost
    obtain ⟨selected, term, listed, fieldsOnly, matched⟩ := alone
    have satisfied : Satisfies n spec := by
      constructor
      · exact selected
      · intro other same
        rw [set, Option.some.injEq] at same
        subst same
        exact ⟨term, listed, matched⟩
    have reported := (reported_satisfied spec nodes member satisfied).mpr
      ⟨req, set, ⟨selected, term, listed, fieldsOnly, matched⟩, lost⟩
    exact sound.unsatisfiable reported n member satisfied
  · intro found
    constructor
    · intro reported n member satisfied
      obtain ⟨req, set, alone, lost⟩ := (reported_satisfied spec nodes member satisfied).mp reported
      exact lost (found req set n member alone)
    · intro k v named n member
      exact named_absent named member

end Soundness

/-- A pod for one named node or for any node of a pool that has none. -/
def pinned : PodSpec where
  nodeSelector := ⟨[], List.Pairwise.nil⟩
  affinity := some ⟨some ⟨some ⟨[⟨[⟨"pool", .in_, ["gpu"]⟩], []⟩,
    ⟨[], [⟨"metadata.name", .in_, ["node-1"]⟩]⟩]⟩⟩⟩

def firstNode : NodeFacts := ⟨"node-1", fun _ => none⟩

/-- The pod is reported as unsatisfiable although its node is there. -/
theorem pinned_reported : resolveUnsatisfiableNodeSelector [firstNode] (extractPodPlacement pinned) =
    ["no node carries label pool (pod requires pool in [gpu])"] ∧ ¬ Sound pinned [firstNode] := by
  have report : resolveUnsatisfiableNodeSelector [firstNode] (extractPodPlacement pinned) =
      ["no node carries label pool (pod requires pool in [gpu])"] := by decide +kernel
  have satisfied : Satisfies firstNode pinned := by
    constructor
    · intro entry member
      cases member
    · intro req set
      cases set
      refine ⟨_, List.mem_cons_of_mem _ List.mem_cons_self, Or.inr (List.cons_ne_nil _ _), ?_, ?_⟩
      · intro e member
        cases member
      · intro e member
        rw [List.mem_singleton.mp member]
        exact ⟨rfl, Or.inl ⟨rfl, rfl⟩⟩
  refine ⟨report, fun sound => ?_⟩
  exact sound.unsatisfiable (report ▸ List.cons_ne_nil _ _) firstNode List.mem_cons_self satisfied

end NodeFit
