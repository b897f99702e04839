import Mathlib.Data.String.Basic
import Radar.Packages.Aggregate

/- Where a Helm release and a workload with its chart label come to lie. -/
namespace ChartRows
open Packages Chart

/-- Nothing in the version looks like another version behind a hyphen. -/
def Unambiguous (version : String) : Prop := ∀ i, ¬ CutAt version.toList i

theorem split_label_text (name version : String) (starts : startsVersion version.toList = true) :
    (Unambiguous version ∧ splitChart (name ++ "-" ++ version) = (name, version)) ∨ (¬ Unambiguous version ∧
        name.toList.length < (splitChart (name ++ "-" ++ version)).1.toList.length) := by
  have chars : (name ++ "-" ++ version).toList = name.toList ++ '-' :: version.toList := by
    simp
  have some_ : name ++ "-" ++ version ≠ "" := by
    intro empty
    rw [empty] at chars
    exact absurd chars (by simp)
  rw [splitChart, if_neg some_, chars]
  rcases split_label name.toList version.toList starts with ⟨plain, parts⟩ | ⟨cut, longer⟩
  · refine Or.inl ⟨plain, ?_⟩
    simp only [parts, String.ofList_toList]
  · refine Or.inr ⟨fun plain => ?_, ?_⟩
    · obtain ⟨i, held⟩ := cut
      exact plain i held
    · simp only [String.toList_ofList]
      exact longer

/-- The key a Helm release or a workload is filed under. -/
def helmKey (h : HelmRelease) : Option Key := (helmArrival h).map Arrival.key

def workloadKey (w : Workload) : Option Key := (workloadArrival w).map Arrival.key

/-- The workload carries the label and the annotations that Helm gives it for the release, which has a
    name and a namespace. -/
structure InstalledBy (w : Workload) (h : HelmRelease) (name version : String) : Prop where
  label : w.labels "helm.sh/chart" = name ++ "-" ++ version
  release : w.annotations "meta.helm.sh/release-name" = h.name
  namespace_ : w.annotations "meta.helm.sh/release-namespace" = h.namespace_
  named : h.name ≠ ""
  housed : h.namespace_ ≠ ""

section Rows
variable {name version : String} {h : HelmRelease} {w : Workload}

theorem label_some (name version : String) : name ++ "-" ++ version ≠ "" := by
  intro empty
  have chars := congrArg String.toList empty
  simp at chars

theorem split_some (some_ : name ≠ "") (starts : startsVersion version.toList = true) :
    (splitChart (name ++ "-" ++ version)).1 ≠ "" := by
  rcases split_label_text name version starts with ⟨_, parts⟩ | ⟨_, longer⟩
  · rw [parts]
    exact some_
  · intro empty
    rw [empty] at longer
    exact absurd longer (by simp)

/-- The workload's row is that of the release's name and namespace and of what is split off its label. -/
theorem workload_key (installed : InstalledBy w h name version) (some_ : name ≠ "")
    (starts : startsVersion version.toList = true) : workloadKey w =
      some ⟨(splitChart (name ++ "-" ++ version)).1, h.namespace_, h.name⟩ := by
  have split := split_some some_ starts
  have label := label_some name version
  simp [workloadKey, workloadArrival, installed.label, installed.release, installed.namespace_,
    installed.named, installed.housed, label, split, firstSeen]

theorem helm_key_named (given : h.chartName = name) (some_ : name ≠ "") :
    helmKey h = some ⟨name, h.namespace_, h.name⟩ := by
  simp [helmKey, helmArrival, given, some_, firstSeen]

theorem helm_key_parsed (unnamed : h.chartName = "") (given : h.chart = name ++ "-" ++ version)
    (some_ : name ≠ "") (starts : startsVersion version.toList = true) : helmKey h =
      some ⟨(splitChart (name ++ "-" ++ version)).1, h.namespace_, h.name⟩ := by
  have split := split_some some_ starts
  simp [helmKey, helmArrival, unnamed, given, split, firstSeen]

theorem split_name_iff (name : String) (starts : startsVersion version.toList = true) :
    (splitChart (name ++ "-" ++ version)).1 = name ↔ Unambiguous version := by
  rcases split_label_text name version starts with ⟨plain, parts⟩ | ⟨ambiguous, longer⟩
  · exact iff_of_true (by rw [parts]) plain
  · refine iff_of_false (fun same => ?_) ambiguous
    rw [same] at longer
    exact absurd longer (Nat.lt_irrefl _)

theorem split_iff (starts : startsVersion version.toList = true) :
    splitChart (name ++ "-" ++ version) = (name, version) ↔ Unambiguous version := by
  constructor
  · intro parts
    rw [← split_name_iff name starts, parts]
  · intro plain
    rcases split_label_text name version starts with ⟨_, parts⟩ | ⟨ambiguous, _⟩
    · exact parts
    · exact absurd plain ambiguous

end Rows

/-- Splitting undoes the construction of a chart label exactly where the version is unambiguous, and
    exactly there the release of that chart and its workloads share a row. -/
theorem chart_label_law (name version : String) (starts : startsVersion version.toList = true) :
    (splitChart (name ++ "-" ++ version) = (name, version) ↔ Unambiguous version) ∧
    (∀ h w, name ≠ "" → h.chartName = name → InstalledBy w h name version →
      (workloadKey w = helmKey h ↔ Unambiguous version)) ∧
    ∀ h w, name ≠ "" → h.chartName = "" → h.chart = name ++ "-" ++ version →
      InstalledBy w h name version → workloadKey w = helmKey h := by
  refine ⟨split_iff starts, fun h w some_ given installed => ?_,
    fun h w some_ unnamed given installed => ?_⟩
  · rw [workload_key installed some_ starts, helm_key_named given some_, ← split_name_iff name starts]
    simp
  · rw [workload_key installed some_ starts, helm_key_parsed unnamed given some_ starts]

theorem release_candidate_law : splitChart ("cert-manager" ++ "-" ++ "1.14.0-rc.1") =
      ("cert-manager", "1.14.0-rc.1") ↔ Unambiguous "1.14.0-rc.1" :=
  (chart_label_law "cert-manager" "1.14.0-rc.1" (by decide)).1

/-- A numbered pre-release behind a hyphen is taken for the version. -/
theorem numbered_prerelease_split :
    splitChart ("cert-manager" ++ "-" ++ "1.14.0-1") = ("cert-manager-1.14.0", "1") ∧
      splitChart ("cert-manager" ++ "-" ++ "1.14.0-1") ≠ ("cert-manager", "1.14.0-1") := by
  decide

end ChartRows
