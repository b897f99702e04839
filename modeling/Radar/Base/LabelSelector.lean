import Mathlib.Data.List.Basic

/- Kubernetes label selectors: equalities and expressions, all of which must hold. -/
namespace LabelSelector

/-- The labels of an object; an absent one has no value. -/
abbrev Labels := String → Option String

inductive Requirement where
  | in_ (key : String) (values : List String)
  | notIn (key : String) (values : List String)
  | exists_ (key : String)
  | doesNotExist (key : String)
  deriving DecidableEq

structure Selector where
  matchLabels : List (String × String)
  matchExpressions : List Requirement
  deriving DecidableEq

def Requirement.holds (labels : Labels) : Requirement → Bool
  | .in_ key values => (labels key).any fun value => values.contains value
  | .notIn key values => !(labels key).any fun value => values.contains value
  | .exists_ key => (labels key).isSome
  | .doesNotExist key => (labels key).isNone

def Selector.matches_ (s : Selector) (labels : Labels) : Bool :=
  (s.matchLabels.all fun pair => labels pair.1 == some pair.2) &&
    s.matchExpressions.all fun r => r.holds labels

/-- A selector that asks for nothing. -/
def Selector.empty (s : Selector) : Bool := s.matchLabels.isEmpty && s.matchExpressions.isEmpty

theorem empty_matches {s : Selector} (empty : s.empty = true) (labels : Labels) :
    s.matches_ labels = true := by
  obtain ⟨equalities, expressions⟩ := s
  simp only [Selector.empty, Bool.and_eq_true, List.isEmpty_iff] at empty
  obtain ⟨rfl, rfl⟩ := empty
  rfl

end LabelSelector
