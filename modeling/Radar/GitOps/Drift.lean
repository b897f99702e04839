import Mathlib.Data.List.Dedup
import Radar.Base.JsonText

/- pkg/gitops/insights/drift.go: the field-level difference between what was applied and what is live. -/
namespace Drift
open JsonText SortedEntries

inductive DriftOp where
  | added | removed | changed
  deriving DecidableEq

structure DriftEntry where
  path : String
  op : DriftOp
  desired : String
  live : String
  deriving DecidableEq

def isNilish : Json → Bool
  | .null => true
  | .object entries => entries.isEmpty
  | .array elements => elements.isEmpty
  | .string text => text == ""
  | _ => false

def jsonString (v : Json) : String := String.ofList (text v)

def isAllDigits (s : String) : Bool := s != "" && s.toList.all fun r => '0' ≤ r && r ≤ '9'

def joinPath (prefix_ segment : String) : String := if prefix_ = "" then segment
  else if isAllDigits segment then prefix_ ++ ".[" ++ segment ++ "]"
  else prefix_ ++ "." ++ segment

/-- In which order the loop over a map visits its keys, which nothing determines. A loop is known
   by the keys that led to it. -/
structure Walk where
  order : List String → List String → List String
  perm : ∀ trail keys, (order trail keys).Perm keys

def inOrder : Walk := ⟨fun _ keys => keys, fun _ keys => List.Perm.refl keys⟩

def keyUnion (desired live : Entries) : List String := (desired.map Prod.fst ++ live.map Prod.fst).dedup

theorem valueAt_size (entries : Entries) (key : String) :
    sizeOf (valueAt entries key) < sizeOf (Json.object entries) := by
  rw [Json.object.sizeOf_spec]
  have inside : sizeOf (valueAt entries key) ≤ sizeOf entries := by
    induction entries with
    | nil => simp [valueAt]
    | cons entry rest ih =>
      obtain ⟨name, value⟩ := entry
      simp only [valueAt, find_cons] at ih ⊢
      by_cases here : key = name
      · simp [here]
        omega
      · simp [here]
        omega
  omega

/-- The entries for two values at a path, `trail` being the keys on the way there. -/
def diffValues (walk : Walk) (trail : List String) (path : String) (desired live : Json) :
    List DriftEntry :=
  if isNilish desired && isNilish live then []
  else if isNilish desired then [⟨path, .added, "", jsonString live⟩]
  else if isNilish live then [⟨path, .removed, jsonString desired, ""⟩]
  else match desired, live with
    | .object dMap, .object lMap =>
      (walk.order trail (keyUnion dMap lMap)).flatMap fun k =>
        diffValues walk (trail ++ [k]) (joinPath path k) (valueAt dMap k) (valueAt lMap k)
    | _, _ =>
      if jsonString desired = jsonString live then []
      else [⟨path, .changed, jsonString desired, jsonString live⟩]
termination_by sizeOf desired + sizeOf live
decreasing_by
  have fewer := valueAt_size dMap k
  have fewer' := valueAt_size lMap k
  omega

theorem jsonString_inj {a b : Json} : jsonString a = jsonString b ↔ a = b := by
  constructor
  · intro same
    exact text_inj (String.ofList_injective same)
  · intro same
    rw [same]

section Cases
variable {walk : Walk} {trail : List String} {path : String} {desired live : Json}

theorem diff_none (none : isNilish desired = true) (none' : isNilish live = true) :
    diffValues walk trail path desired live = [] := by
  rw [diffValues.eq_def, none, none']
  rfl

theorem diff_added (none : isNilish desired = true) (there : isNilish live = false) :
    diffValues walk trail path desired live = [⟨path, .added, "", jsonString live⟩] := by
  rw [diffValues.eq_def, none, there]
  rfl

theorem diff_removed (there : isNilish desired = false) (none : isNilish live = true) :
    diffValues walk trail path desired live = [⟨path, .removed, jsonString desired, ""⟩] := by
  rw [diffValues.eq_def, there, none]
  rfl

theorem diff_maps {dMap lMap : Entries} (there : isNilish (.object dMap) = false)
    (there' : isNilish (.object lMap) = false) :
    diffValues walk trail path (.object dMap) (.object lMap) =
      (walk.order trail (keyUnion dMap lMap)).flatMap fun k =>
        diffValues walk (trail ++ [k]) (joinPath path k) (valueAt dMap k) (valueAt lMap k) := by
  rw [diffValues.eq_def, there, there']
  rfl

def BothMaps (desired live : Json) : Prop := ∃ dMap lMap, desired = .object dMap ∧ live = .object lMap

theorem diff_leaves (there : isNilish desired = false) (there' : isNilish live = false)
    (leaves : ¬ BothMaps desired live) : diffValues walk trail path desired live =
      if jsonString desired = jsonString live then []
      else [⟨path, .changed, jsonString desired, jsonString live⟩] := by
  rw [diffValues.eq_def, there, there']
  cases desired with
  | object dMap =>
    cases live with
    | object lMap => exact absurd ⟨dMap, lMap, rfl, rfl⟩ leaves
    | _ => rfl
  | _ => rfl

end Cases

/-- Two values taken apart as the comparison does it. -/
theorem pair_induction {motive : Json → Json → Prop}
    (none : ∀ desired live, isNilish desired = true → isNilish live = true → motive desired live)
    (added : ∀ desired live, isNilish desired = true → isNilish live = false → motive desired live)
    (removed : ∀ desired live, isNilish desired = false → isNilish live = true → motive desired live)
    (maps : ∀ dMap lMap, isNilish (.object dMap) = false → isNilish (.object lMap) = false →
      (∀ k, motive (valueAt dMap k) (valueAt lMap k)) → motive (.object dMap) (.object lMap))
    (leaves : ∀ desired live, isNilish desired = false → isNilish live = false →
      ¬ BothMaps desired live → motive desired live) (desired live : Json) : motive desired live := by
  cases here : isNilish desired with
  | true =>
    cases there : isNilish live with
    | true => exact none desired live here there
    | false => exact added desired live here there
  | false =>
    cases there : isNilish live with
    | true => exact removed desired live here there
    | false =>
      by_cases both : BothMaps desired live
      · obtain ⟨dMap, lMap, rfl, rfl⟩ := both
        exact maps dMap lMap here there fun k =>
          pair_induction none added removed maps leaves (valueAt dMap k) (valueAt lMap k)
      · exact leaves desired live here there both
termination_by sizeOf desired + sizeOf live
decreasing_by
  have fewer := valueAt_size dMap k
  have fewer' := valueAt_size lMap k
  subst_vars
  omega

/-- Values that agree leave nothing to report. -/
theorem diff_self (walk : Walk) (trail : List String) (path : String) (v : Json) :
    diffValues walk trail path v v = [] := by
  have along : ∀ desired live, desired = live → ∀ trail path,
      diffValues walk trail path desired live = [] := by
    intro desired live
    induction desired, live using pair_induction with
    | none desired live here there => exact fun _ _ _ => diff_none here there
    | added desired live here there =>
      rintro rfl
      simp [here] at there
    | removed desired live here there =>
      rintro rfl
      simp [here] at there
    | maps dMap lMap here there ih =>
      intro same trail path
      cases same
      rw [diff_maps here here, List.flatMap_eq_nil_iff]
      exact fun k _ => ih k rfl _ _
    | leaves desired live here there both =>
      rintro rfl trail path
      rw [diff_leaves here here both, if_pos rfl]
  exact along v v rfl trail path

end Drift
