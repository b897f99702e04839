import Radar.Base.GoText
import Radar.GitOps.Defaulting

/- pkg/gitops/insights/drift.go, applySchemeDefaults: what the API server fills in, filled in on the
   applied side. -/
namespace Drift
open GoText JsonText SortedEntries

/-- int64, which is written in decimal. -/
def int64 (n : Nat) : Json := .number
  { text := Nat.toDigits 10 n
    some_ := Nat.toDigits_ne_nil
    plain := by
      intro c member
      rw [numeral, Nat.isDigit_of_mem_toDigits (by decide) (by decide) member]
      rfl }

def setIfMissing (m : Entries) (key : String) (value : Json) : Entries :=
  if (find key m).isNone || isNilish (valueAt m key) then put key value m else m

section Containers

/-- strings.LastIndexByte. -/
def lastIndexByte (text : List Char) (c : Char) : Int := match text.reverse.findIdx? fun d => d = c with
  | none => -1
  | some behind => text.length - 1 - behind

def defaultImagePullPolicy (image : String) : String := let image := trimSpace image
  if image = "" then "Always"
  else
    let base := image.toList.takeWhile fun c => c != '@'
    let lastSlash := lastIndexByte base '/'
    let lastColon := lastIndexByte base ':'
    if lastColon ≤ lastSlash then "Always"
    else if base.drop (lastColon + 1).toNat = "latest".toList then "Always"
    else "IfNotPresent"

def applyPortDefaults (pm : Entries) : Entries := setIfMissing pm "protocol" (.string "TCP")

def imageOf (c : Entries) : String := match valueAt c "image" with
  | .string image => image
  | _ => ""

/-- The defaults of a container with the image. -/
def withImage (image : String) (c : Entries) : Entries :=
  let c := setIfMissing c "imagePullPolicy" (.string (defaultImagePullPolicy image))
  let c := setIfMissing c "terminationMessagePath" (.string "/dev/termination-log")
  let c := setIfMissing c "terminationMessagePolicy" (.string "File")
  let c := setIfMissing c "resources" (.object [])
  change "ports" (onElements (onObject applyPortDefaults)) c

def applyContainerDefaults (c : Entries) : Entries := withImage (imageOf c) c

end Containers

section Pods

def applyPodSpecDefaultsWithRestart (defaultRestartPolicy : String) (spec : Entries) : Entries :=
  let spec := setIfMissing spec "dnsPolicy" (.string "ClusterFirst")
  let spec := setIfMissing spec "restartPolicy" (.string defaultRestartPolicy)
  let spec := setIfMissing spec "schedulerName" (.string "default-scheduler")
  let spec := setIfMissing spec "securityContext" (.object [])
  let spec := setIfMissing spec "terminationGracePeriodSeconds" (int64 30)
  let spec := change "containers" (onElements (onObject applyContainerDefaults)) spec
  change "initContainers" (onElements (onObject applyContainerDefaults)) spec

def applyPodSpecDefaults (spec : Entries) : Entries := applyPodSpecDefaultsWithRestart "Always" spec

/-- The template and its spec are rewritten where they stand, if they are maps. -/
def applyPodTemplateDefaults (defaultRestartPolicy : String) (spec : Entries) : Entries := change "template"
    (onObject (change "spec" (onObject (applyPodSpecDefaultsWithRestart defaultRestartPolicy)))) spec

end Pods

section Workloads

def applyDeploymentSpecDefaults (spec : Entries) : Entries :=
  let spec := setIfMissing spec "replicas" (int64 1)
  let spec := setIfMissing spec "progressDeadlineSeconds" (int64 600)
  let spec := setIfMissing spec "revisionHistoryLimit" (int64 10)
  let spec := setIfMissing spec "strategy" (.object
    [("rollingUpdate", .object [("maxSurge", .string "25%"), ("maxUnavailable", .string "25%")]),
     ("type", .string "RollingUpdate")])
  applyPodTemplateDefaults "Always" spec

def applyStatefulSetSpecDefaults (spec : Entries) : Entries :=
  let spec := setIfMissing spec "replicas" (int64 1)
  let spec := setIfMissing spec "revisionHistoryLimit" (int64 10)
  let spec := setIfMissing spec "podManagementPolicy" (.string "OrderedReady")
  let spec := setIfMissing spec "updateStrategy" (.object [("type", .string "RollingUpdate")])
  applyPodTemplateDefaults "Always" spec

def applyDaemonSetSpecDefaults (spec : Entries) : Entries :=
  let spec := setIfMissing spec "revisionHistoryLimit" (int64 10)
  let spec := setIfMissing spec "updateStrategy" (.object
    [("rollingUpdate", .object [("maxUnavailable", int64 1)]), ("type", .string "RollingUpdate")])
  applyPodTemplateDefaults "Always" spec

def applyReplicaSetSpecDefaults (spec : Entries) : Entries :=
  let spec := setIfMissing spec "replicas" (int64 1)
  applyPodTemplateDefaults "Always" spec

def applyJobSpecDefaults (spec : Entries) : Entries :=
  let spec := setIfMissing spec "backoffLimit" (int64 6)
  let spec := setIfMissing spec "completionMode" (.string "NonIndexed")
  applyPodTemplateDefaults "Never" spec

def applyCronJobSpecDefaults (spec : Entries) : Entries :=
  let spec := setIfMissing spec "concurrencyPolicy" (.string "Allow")
  let spec := setIfMissing spec "failedJobsHistoryLimit" (int64 1)
  let spec := setIfMissing spec "successfulJobsHistoryLimit" (int64 3)
  let spec := setIfMissing spec "suspend" (.bool false)
  change "jobTemplate" (onObject (change "spec" (onObject applyJobSpecDefaults))) spec

def applyServiceSpecDefaults (spec : Entries) : Entries :=
  let spec := setIfMissing spec "type" (.string "ClusterIP")
  let spec := setIfMissing spec "sessionAffinity" (.string "None")
  let spec := setIfMissing spec "ipFamilyPolicy" (.string "SingleStack")
  change "ports" (onElements (onObject applyPortDefaults)) spec

end Workloads

def kindDefaulters : List (String × (Entries → Entries)) := [("Deployment", applyDeploymentSpecDefaults),
   ("StatefulSet", applyStatefulSetSpecDefaults),
   ("DaemonSet", applyDaemonSetSpecDefaults),
   ("ReplicaSet", applyReplicaSetSpecDefaults),
   ("Job", applyJobSpecDefaults),
   ("CronJob", applyCronJobSpecDefaults),
   ("Pod", applyPodSpecDefaults),
   ("Service", applyServiceSpecDefaults)]

def kindOf (obj : Entries) : String := match valueAt obj "kind" with
  | .string kind => kind
  | _ => ""

/-- A spec that is no map is left, as the object of an unknown kind is. -/
def applySchemeDefaults (obj : Entries) : Entries := match kindDefaulters.lookup (kindOf obj) with
  | none => obj
  | some defaulter => change "spec" (onObject defaulter) obj

section Settled

theorem missing_eq (m : Entries) (key : String) :
    ((find key m).isNone || isNilish (valueAt m key)) = isNilish (valueAt m key) := by
  rw [valueAt]
  cases find key m with
  | none => rfl
  | some v => rfl

theorem find_setIfMissing (m : Entries) (key other : String) (value : Json) :
    find other (setIfMissing m key value) =
      if other = key ∧ isNilish (valueAt m key) = true then some value else find other m := by
  rw [setIfMissing, missing_eq]
  by_cases missing : isNilish (valueAt m key) = true
  · rw [if_pos missing, find_put]
    simp [missing]
  · rw [if_neg missing]
    simp [missing]

theorem fill_wise (key : String) {value : Json} (ordered : Ordered value) :
    KeyWise [key] fun m => setIfMissing m key value where
  ordered m whole := by
    obtain ⟨sorted, all⟩ := whole.entries
    rw [setIfMissing]
    split
    · refine .object _ (put_sorted sorted key value) fun e member => ?_
      rcases put_mem member with rfl | old
      · exact ordered
      · exact all e old
    · exact whole
  frame m name absent := by
    have other : name ≠ key := fun same => absent (List.mem_singleton.mpr same)
    rw [find_setIfMissing, if_neg fun both => other both.1]
  own m m' name same := by
    rw [find_setIfMissing, find_setIfMissing, same]
    by_cases here : name = key
    · subst here
      rw [valueAt, valueAt, same]
    · rw [if_neg fun both => here both.1, if_neg fun both => here both.1]
  again m name _ := by
    by_cases here : name = key
    · subst here
      by_cases missing : isNilish (valueAt m name) = true
      · have filled : find name (setIfMissing m name value) = some value := by
          rw [find_setIfMissing, if_pos ⟨rfl, missing⟩]
        rw [find_setIfMissing, filled, ite_self]
      · have kept : setIfMissing m name value = m := by rw [setIfMissing, missing_eq, if_neg missing]
        rw [kept, kept]
    · rw [find_setIfMissing, if_neg fun both => here both.1]
  kept m := by
    rw [setIfMissing, missing_eq]
    split
    · rename_i missing
      exact kept_put missing value
    · exact kept_refl _

theorem port_settling : Settling (onElements (onObject applyPortDefaults)) :=
  (fill_wise "protocol" (.string "TCP")).onObject.onElements

theorem empty_ordered : Ordered (.object []) :=
  .object [] List.Pairwise.nil fun _ member => absurd member List.not_mem_nil

theorem image_wise (image : String) : KeyWise
    ["imagePullPolicy", "terminationMessagePath", "terminationMessagePolicy", "resources", "ports"]
    (withImage image) :=
  ((((fill_wise "imagePullPolicy" (.string _)).comp
    (fill_wise "terminationMessagePath" (.string _)) (by decide)).comp
    (fill_wise "terminationMessagePolicy" (.string _)) (by decide)).comp
    (fill_wise "resources" empty_ordered) (by decide)).comp
    (port_settling.change "ports") (by decide)

/-- The image is read, and not written, so that a second pass reads it again. -/
theorem container_settling : Settling (onObject applyContainerDefaults) where
  ordered v ordered := by
    cases v with
    | object c => exact (image_wise (imageOf c)).ordered c ordered
    | _ => exact ordered
  again v ordered := by
    cases v with
    | object c =>
      have image : imageOf (applyContainerDefaults c) = imageOf c := by
        rw [imageOf, imageOf, valueAt, valueAt, applyContainerDefaults,
          (image_wise (imageOf c)).frame c "image" (by decide)]
      have twice : applyContainerDefaults (applyContainerDefaults c) = applyContainerDefaults c := by
        rw [applyContainerDefaults, image]
        exact (image_wise (imageOf c)).idempotent c ordered
      exact congrArg Json.object twice
    | _ => rfl
  kept := kept_onObject fun c => (image_wise (imageOf c)).kept c

theorem pod_wise (policy : String) : KeyWise
    ["dnsPolicy", "restartPolicy", "schedulerName", "securityContext", "terminationGracePeriodSeconds",
     "containers", "initContainers"] (applyPodSpecDefaultsWithRestart policy) :=
  ((((((fill_wise "dnsPolicy" (.string _)).comp
    (fill_wise "restartPolicy" (.string _)) (by decide)).comp
    (fill_wise "schedulerName" (.string _)) (by decide)).comp
    (fill_wise "securityContext" empty_ordered) (by decide)).comp
    (fill_wise "terminationGracePeriodSeconds" (.number _)) (by decide)).comp
    (container_settling.onElements.change "containers") (by decide)).comp
    (container_settling.onElements.change "initContainers") (by decide)

theorem template_wise (policy : String) : KeyWise ["template"] (applyPodTemplateDefaults policy) :=
  ((pod_wise policy).onObject.change "spec").onObject.change "template"

theorem single_ordered (key : String) {v : Json} (ordered : Ordered v) : Ordered (.object [(key, v)]) := by
  refine .object _ (List.pairwise_singleton _ _) fun e member => ?_
  rw [List.mem_singleton.mp member]
  exact ordered

theorem pair_ordered {key key' : String} (before : key < key') {v w : Json} (ordered : Ordered v)
    (ordered' : Ordered w) : Ordered (.object [(key, v), (key', w)]) := by
  refine .object _ (List.pairwise_pair.mpr before) fun e member => ?_
  rcases List.mem_pair.mp member with rfl | rfl
  · exact ordered
  · exact ordered'

theorem deployment_wise : KeyWise
    ["replicas", "progressDeadlineSeconds", "revisionHistoryLimit", "strategy", "template"]
    applyDeploymentSpecDefaults :=
  ((((fill_wise "replicas" (.number _)).comp
    (fill_wise "progressDeadlineSeconds" (.number _)) (by decide)).comp
    (fill_wise "revisionHistoryLimit" (.number _)) (by decide)).comp
    (fill_wise "strategy" (pair_ordered (by decide)
      (pair_ordered (by decide) (.string _) (.string _)) (.string _))) (by decide)).comp
    (template_wise "Always") (by decide)

theorem statefulSet_wise : KeyWise
    ["replicas", "revisionHistoryLimit", "podManagementPolicy", "updateStrategy", "template"]
    applyStatefulSetSpecDefaults :=
  ((((fill_wise "replicas" (.number _)).comp
    (fill_wise "revisionHistoryLimit" (.number _)) (by decide)).comp
    (fill_wise "podManagementPolicy" (.string _)) (by decide)).comp
    (fill_wise "updateStrategy" (single_ordered "type" (.string _))) (by decide)).comp
    (template_wise "Always") (by decide)

theorem daemonSet_wise : KeyWise ["revisionHistoryLimit", "updateStrategy", "template"]
    applyDaemonSetSpecDefaults :=
  ((fill_wise "revisionHistoryLimit" (.number _)).comp
    (fill_wise "updateStrategy" (pair_ordered (by decide)
      (single_ordered "maxUnavailable" (.number _)) (.string _))) (by decide)).comp
    (template_wise "Always") (by decide)

theorem replicaSet_wise : KeyWise ["replicas", "template"] applyReplicaSetSpecDefaults :=
  (fill_wise "replicas" (.number _)).comp (template_wise "Always") (by decide)

theorem job_wise : KeyWise ["backoffLimit", "completionMode", "template"] applyJobSpecDefaults :=
  ((fill_wise "backoffLimit" (.number _)).comp
    (fill_wise "completionMode" (.string _)) (by decide)).comp
    (template_wise "Never") (by decide)

theorem cronJob_wise : KeyWise
    ["concurrencyPolicy", "failedJobsHistoryLimit", "successfulJobsHistoryLimit", "suspend", "jobTemplate"]
    applyCronJobSpecDefaults :=
  ((((fill_wise "concurrencyPolicy" (.string _)).comp
    (fill_wise "failedJobsHistoryLimit" (.number _)) (by decide)).comp
    (fill_wise "successfulJobsHistoryLimit" (.number _)) (by decide)).comp
    (fill_wise "suspend" (.bool _)) (by decide)).comp
    ((job_wise.onObject.change "spec").onObject.change "jobTemplate") (by decide)

theorem service_wise : KeyWise ["type", "sessionAffinity", "ipFamilyPolicy", "ports"]
    applyServiceSpecDefaults :=
  (((fill_wise "type" (.string _)).comp
    (fill_wise "sessionAffinity" (.string _)) (by decide)).comp
    (fill_wise "ipFamilyPolicy" (.string _)) (by decide)).comp
    (port_settling.change "ports") (by decide)

theorem defaulters_settle : ∀ entry ∈ kindDefaulters, Settling (onObject entry.2) := by
  intro entry member
  simp only [kindDefaulters, List.mem_cons, List.not_mem_nil, or_false] at member
  rcases member with rfl | rfl | rfl | rfl | rfl | rfl | rfl | rfl
  · exact deployment_wise.onObject
  · exact statefulSet_wise.onObject
  · exact daemonSet_wise.onObject
  · exact replicaSet_wise.onObject
  · exact job_wise.onObject
  · exact cronJob_wise.onObject
  · exact (pod_wise "Always").onObject
  · exact service_wise.onObject

theorem defaulter_settles {kind : String} {defaulter : Entries → Entries}
    (known : kindDefaulters.lookup kind = some defaulter) : Settling (onObject defaulter) := by
  obtain ⟨before, after, whole, _⟩ := List.lookup_eq_some_iff.mp known
  exact defaulters_settle (kind, defaulter) (by rw [whole]; simp)

theorem defaults_kind (obj : Entries) : kindOf (applySchemeDefaults obj) = kindOf obj := by
  rw [applySchemeDefaults]
  cases known : kindDefaulters.lookup (kindOf obj) with
  | none => rfl
  | some defaulter =>
    have frame := ((defaulter_settles known).change "spec").frame obj "kind" (by decide)
    simp only [kindOf, valueAt, frame]

/-- A second pass changes nothing. -/
theorem defaults_again {obj : Entries} (ordered : Ordered (.object obj)) :
    applySchemeDefaults (applySchemeDefaults obj) = applySchemeDefaults obj := by
  cases known : kindDefaulters.lookup (kindOf obj) with
  | none =>
    have same : applySchemeDefaults obj = obj := by rw [applySchemeDefaults, known]
    rw [same, same]
  | some defaulter =>
    have known' := defaults_kind obj ▸ known
    have once : applySchemeDefaults obj = change "spec" (onObject defaulter) obj := by
      rw [applySchemeDefaults, known]
    have twice : applySchemeDefaults (applySchemeDefaults obj) =
        change "spec" (onObject defaulter) (applySchemeDefaults obj) := by
      rw [applySchemeDefaults, known']
    rw [twice, once]
    exact ((defaulter_settles known).change "spec").idempotent obj ordered

/-- Nothing that is there is lost. -/
theorem defaults_kept (obj : Entries) : Kept (.object obj) (.object (applySchemeDefaults obj)) := by
  rw [applySchemeDefaults]
  cases known : kindDefaulters.lookup (kindOf obj) with
  | none => exact kept_refl _
  | some defaulter => exact ((defaulter_settles known).change "spec").kept obj

end Settled

end Drift
