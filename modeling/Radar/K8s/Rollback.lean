import Radar.Base.GoText
import Radar.Base.MergePatch
import Radar.K8s.DynamicCache

/- pkg/k8score/workload.go: RollbackWorkload, which sends an earlier pod template as a patch. -/
namespace Rollback
open MergePatch GoText DynamicCache

inductive PatchType where
  | merge | strategicMerge
  deriving DecidableEq, Repr

structure PatchRequest where
  resource : GVR
  namespace_ : String
  name : String
  patchType : PatchType
  body : Json

def asString : Json → Option String
  | .string text => some text
  | _ => none

def asObject : Json → Option (String → Option Json)
  | .object fields => some fields
  | _ => none

/-- A whole number; the API server writes integers without a fraction. -/
def asInteger : Json → Option Int
  | .number value => if value.den = 1 then some value.num else none
  | _ => none

/-- An object as the API server hands it out: annotations are texts. -/
structure Stored where
  object : Json
  annotated : ∀ key value, object.get ["metadata", "annotations", key] = some value →
    ∃ text, value = .string text

/-- What the calls to the API server answer; a call that goes through has no error. -/
structure DynamicClient where
  get : GVR → String → String → Except String Json
  list : GVR → String → Except String (List Stored)
  patch : PatchRequest → Option String

structure WorkloadManager where
  dynClient : Option DynamicClient
  discovery : Option (String → Option GVR)

def normalizeWorkloadKind (kind : String) : String :=
  if kind = "Deployment" ∨ kind = "deployment" ∨ kind = "deployments" then "deployments"
  else if kind = "StatefulSet" ∨ kind = "statefulset" ∨ kind = "statefulsets" then "statefulsets"
  else if kind = "DaemonSet" ∨ kind = "daemonset" ∨ kind = "daemonsets" then "daemonsets"
  else kind

def getUID (object : Json) : String := ((object.get ["metadata", "uid"]).bind asString).getD ""

/-- The UIDs of GetOwnerReferences, which gives up on a list with anything but objects in it. -/
def ownerUIDs (object : Json) : List String := match object.get ["metadata", "ownerReferences"] with
  | some (.array references) =>
    if references.all fun ref => (asObject ref).isSome then
      references.map fun ref => ((ref.field "uid").bind asString).getD ""
    else []
  | _ => []

def owned (workloadUID : String) (stored : Stored) : Bool := (ownerUIDs stored.object).contains workloadUID

def revisionAnnotation : String := "deployment.kubernetes.io/revision"

def annotatedRevision (rs : Stored) : Option Int :=
  ((rs.object.get ["metadata", "annotations", revisionAnnotation]).bind asString).bind parseInt64

def isTargetRS (workloadUID : String) (revision : Int) (rs : Stored) : Bool :=
  owned workloadUID rs && annotatedRevision rs == some revision

def isTargetCR (workloadUID : String) (revision : Int) (cr : Stored) : Bool :=
  owned workloadUID cr && (cr.object.get ["revision"]).bind asInteger == some revision

def templateBody (podTemplate : String → Option Json) : Json :=
  entries [("spec", entries [("template", .object podTemplate)])]

section Calls
variable (client : DynamicClient) (discovery : String → Option GVR)

/-- The request, once the server has taken it. -/
def send (request : PatchRequest) (failure : String) : Except String PatchRequest :=
  match client.patch request with
  | some err => .error (failure ++ err)
  | none => .ok request

def rollbackDeployment (namespace_ name workloadUID : String) (revision : Int) :
    Except String PatchRequest :=
  match discovery "replicasets" with
  | none => .error "replicasets resource not found"
  | some rsGVR =>
    match client.list rsGVR namespace_ with
    | .error err => .error ("failed to list replicasets: " ++ err)
    | .ok rsList =>
      match rsList.find? (isTargetRS workloadUID revision) with
      | none => .error ("revision " ++ toString revision ++ " not found")
      | some targetRS =>
        match (targetRS.object.get ["spec", "template"]).bind asObject with
        | none => .error ("failed to extract pod template from revision " ++ toString revision)
        | some podTemplate =>
          match discovery "deployments" with
          | none => .error "deployments resource not found"
          | some deployGVR =>
            send client ⟨deployGVR, namespace_, name, .merge, templateBody podTemplate⟩
              "failed to rollback deployment: "

def rollbackControllerRevision (normalizedKind namespace_ name workloadUID : String)
    (revision : Int) : Except String PatchRequest :=
  match discovery "controllerrevisions" with
  | none => .error "controllerrevisions resource not found"
  | some crGVR =>
    match client.list crGVR namespace_ with
    | .error err => .error ("failed to list controllerrevisions: " ++ err)
    | .ok crList =>
      match crList.find? (isTargetCR workloadUID revision) with
      | none => .error ("revision " ++ toString revision ++ " not found")
      | some targetCR =>
        match (targetCR.object.get ["data"]).bind asObject with
        | none => .error ("failed to extract data from revision " ++ toString revision)
        | some data =>
          match discovery normalizedKind with
          | none => .error ("unknown resource kind: " ++ normalizedKind)
          | some gvr =>
            send client ⟨gvr, namespace_, name, .strategicMerge, .object data⟩
              "failed to rollback workload: "

end Calls

/-- The patch that has been sent, or the error of the call, after which nothing has changed. -/
def rollbackWorkload (m : WorkloadManager) (kind namespace_ name : String) (revision : Int) :
    Except String PatchRequest :=
  match m.dynClient, m.discovery with
  | none, _ => .error "dynamic client not initialized"
  | _, none => .error "resource discovery not initialized"
  | some client, some discovery =>
    match discovery (normalizeWorkloadKind kind) with
    | none => .error ("unknown resource kind: " ++ kind)
    | some workloadGVR =>
      match client.get workloadGVR namespace_ name with
      | .error err => .error ("failed to get workload: " ++ err)
      | .ok workload =>
        if normalizeWorkloadKind kind = "deployments" then
          rollbackDeployment client discovery namespace_ name (getUID workload) revision
        else if normalizeWorkloadKind kind = "statefulsets" ∨ normalizeWorkloadKind kind = "daemonsets" then
          rollbackControllerRevision client discovery (normalizeWorkloadKind kind) namespace_ name
            (getUID workload) revision
        else .error ("rollback not supported for " ++ kind)

section Deployments

def templatePath : List String := ["spec", "template"]

def hashPath : List String := ["metadata", "labels", "pod-template-hash"]

/-- A ReplicaSet has a pod template, and the template's labels are texts. -/
structure ReplicaSet extends Stored where
  template : String → Option Json
  templated : object.get templatePath = some (.object template)
  labelled : ∀ key value, (Json.object template).get ["metadata", "labels", key] = some value →
    ∃ text, value = .string text

variable {replicaSets : List ReplicaSet}

/-- What a rollback to the ReplicaSet is to leave: its template without the controller's label. -/
def ReplicaSet.restored (rs : ReplicaSet) : Json := (Json.object rs.template).without hashPath

/-- All calls of a rollback get through, and these are the objects they find. -/
structure Serves (m : WorkloadManager) (client : DynamicClient) (deployGVR : GVR)
    (namespace_ name : String) (deployment : Json) (replicaSets : List ReplicaSet) : Prop where
  connected : m.dynClient = some client
  discovered : ∃ discovery rsGVR, m.discovery = some discovery ∧
    discovery "deployments" = some deployGVR ∧ discovery "replicasets" = some rsGVR ∧
    client.list rsGVR namespace_ = .ok (replicaSets.map ReplicaSet.toStored)
  found : client.get deployGVR namespace_ name = .ok deployment
  accepts : ∀ request, client.patch request = none

def Carries (deployment : Json) (revision : Int) (rs : ReplicaSet) : Bool :=
  isTargetRS (getUID deployment) revision rs.toStored

/-- The Deployment has the template of the revision and is otherwise as it was; where asked, a null
   passes for an absent field. -/
structure RolledBack (absent : Bool) (deployment after : Json) (replicaSets : List ReplicaSet)
    (revision : Int) : Prop where
  exact_ : ∀ rs ∈ replicaSets, Carries deployment revision rs = true →
    (after.get templatePath).map (reading absent) = some (reading absent rs.restored)
  outside : ∀ path, ¬ path <+: templatePath → ¬ templatePath <+: path → after.get path = deployment.get path

/-- The Deployment's template has nothing that the revision's lacks, which itself has neither the
   controller's label nor, unless they pass for absent fields, nulls; and no other ReplicaSet claims
   the revision for another template. -/
structure Replaces (absent : Bool) (deployment : Json) (replicaSets : List ReplicaSet)
    (revision : Int) (target : ReplicaSet) : Prop where
  unhashed : (Json.object target.template).get hashPath = none
  covers : Covers absent ((deployment.get templatePath).getD .null) (.object target.template)
  alone : ∀ rs ∈ replicaSets, Carries deployment revision rs = true →
    reading absent rs.restored = reading absent target.restored

theorem template_patched (deployment : Json) (podTemplate : String → Option Json) :
    (merge deployment (templateBody podTemplate)).get templatePath =
      some (merge ((deployment.get templatePath).getD .null) (.object podTemplate)) := by
  have inner : templatePath ≠ [] := List.cons_ne_nil _ _
  have there : (templateBody podTemplate).get templatePath = some (.object podTemplate) := rfl
  rw [get_merge_patched inner there]
  rfl

theorem outside_untouched (podTemplate : String → Option Json) {path : List String}
    (above : ¬ path <+: templatePath) (below : ¬ templatePath <+: path) :
    Untouched path (templateBody podTemplate) := by
  cases path with
  | nil => exact absurd List.nil_prefix above
  | cons key rest =>
    by_cases spec : key = "spec"
    · subst spec
      cases rest with
      | nil => exact absurd (by decide) above
      | cons key' rest =>
        have other : key' ≠ "template" := by
          rintro rfl
          exact below ⟨rest, rfl⟩
        simp [templateBody, entries, Untouched, List.lookup_cons, beq_false_of_ne other]
    · simp [templateBody, entries, Untouched, List.lookup_cons, beq_false_of_ne spec]

/-- A label the patch carries stands in the result. -/
theorem hash_survives (current : Json) (target : ReplicaSet) {label : Json}
    (carried : (Json.object target.template).get hashPath = some label) :
    ∃ text, label = .string text ∧
      (merge current (.object target.template)).get hashPath = some (.string text) := by
  obtain ⟨text, rfl⟩ := target.labelled _ _ carried
  exact ⟨text, rfl, get_merge_patched (List.cons_ne_nil _ _) carried⟩

theorem restored_iff (absent : Bool) (current : Json) (target : ReplicaSet) :
    reading absent (merge current (.object target.template)) = reading absent target.restored ↔
      (Json.object target.template).get hashPath = none ∧
        Covers absent current (.object target.template) := by
  cases carried : (Json.object target.template).get hashPath with
  | none =>
    rw [ReplicaSet.restored, without_absent carried, merge_covers]
    simp
  | some label =>
    obtain ⟨text, rfl, kept⟩ := hash_survives current target carried
    simp only [reduceCtorEq, false_and, iff_false]
    intro same
    have inner : hashPath ≠ [] := List.cons_ne_nil _ _
    have read := (@get_reading _ absent _ _).mpr kept
    rw [same, get_reading, ReplicaSet.restored, get_without _ inner] at read
    cases read

theorem rolled_back_iff {absent : Bool} {deployment : Json} {revision : Int} {target : ReplicaSet}
    (first : replicaSets.find? (Carries deployment revision) = some target) :
    RolledBack absent deployment (merge deployment (templateBody target.template)) replicaSets
        revision ↔ Replaces absent deployment replicaSets revision target := by
  have carries := List.find?_some first
  have member := List.mem_of_find?_eq_some first
  have own := restored_iff absent ((deployment.get templatePath).getD .null) target
  constructor
  · intro rolled
    have each := rolled.exact_
    simp only [template_patched, Option.map_some, Option.some.injEq] at each
    have exact_ := each target member carries
    obtain ⟨unhashed, covers⟩ := own.mp exact_
    exact ⟨unhashed, covers, fun rs listed claims => (each rs listed claims).symm.trans exact_⟩
  · intro replaces
    have exact_ := own.mpr ⟨replaces.unhashed, replaces.covers⟩
    constructor
    · intro rs listed claims
      rw [template_patched, Option.map_some, exact_, replaces.alone rs listed claims]
    · intro path above below
      exact get_merge_untouched (outside_untouched target.template above below)

theorem rollback_sent {m : WorkloadManager} {client : DynamicClient} {deployGVR : GVR}
    {namespace_ name kind : String} {deployment : Json}
    {revision : Int} {target : ReplicaSet}
    (serves : Serves m client deployGVR namespace_ name deployment replicaSets)
    (kinds : normalizeWorkloadKind kind = "deployments")
    (first : replicaSets.find? (Carries deployment revision) = some target) :
    rollbackWorkload m kind namespace_ name revision =
      .ok ⟨deployGVR, namespace_, name, .merge, templateBody target.template⟩ := by
  obtain ⟨discovery, rsGVR, discovered, deployments, replicasets, listed⟩ := serves.discovered
  have chosen : (replicaSets.map ReplicaSet.toStored).find? (isTargetRS (getUID deployment) revision)
      = some target.toStored := by
    rw [List.find?_map]
    exact congrArg (Option.map ReplicaSet.toStored) first
  have template : (target.object.get ["spec", "template"]).bind asObject = some target.template := by
    rw [show target.object.get ["spec", "template"] = _ from target.templated]
    rfl
  simp only [rollbackWorkload, serves.connected, discovered, kinds, deployments, serves.found,
    if_true, rollbackDeployment, replicasets, listed, chosen, template, send, serves.accepts]

/-- For every kind that names Deployments: a rollback to a revision which one of the Deployment's
   ReplicaSets carries sends one merge patch, and that leaves the revision's template and nothing
   else changed exactly when the template replaces the present one. -/
theorem rollback_exact {m : WorkloadManager} {client : DynamicClient} {deployGVR : GVR}
    {namespace_ name kind : String} {deployment : Json} {replicaSets : List ReplicaSet}
    {revision : Int} (serves : Serves m client deployGVR namespace_ name deployment replicaSets)
    (kinds : normalizeWorkloadKind kind = "deployments")
    (carried : ∃ rs ∈ replicaSets, Carries deployment revision rs = true) :
    ∃ target, replicaSets.find? (Carries deployment revision) = some target ∧
      rollbackWorkload m kind namespace_ name revision =
        .ok ⟨deployGVR, namespace_, name, .merge, templateBody target.template⟩ ∧
      ∀ absent, RolledBack absent deployment (merge deployment (templateBody target.template))
        replicaSets revision ↔ Replaces absent deployment replicaSets revision target := by
  obtain ⟨target, first⟩ := Option.isSome_iff_exists.mp (List.find?_isSome.mpr carried)
  exact ⟨target, first, rollback_sent serves kinds first, fun absent => rolled_back_iff first⟩

section Run
variable {fields : List (String × String)}

theorem lookup_text {key : String} {value : Json}
    (found : (fields.map fun e => (e.1, Json.string e.2)).lookup key = some value) :
    ∃ text, value = .string text := by
  obtain ⟨before, after, whole, _⟩ := List.lookup_eq_some_iff.mp found
  have member : (key, value) ∈ fields.map fun e => (e.1, Json.string e.2) := by
    rw [whole]
    exact List.mem_append_right _ List.mem_cons_self
  obtain ⟨entry, _, same⟩ := List.mem_map.mp member
  exact ⟨entry.2, (congrArg Prod.snd same).symm⟩

def texts (fields : List (String × String)) : Json := entries (fields.map fun e => (e.1, .string e.2))

def appsGVR (resource : String) : GVR := ⟨"apps", "v1", resource⟩

def webTemplate (labels : List (String × String)) : String → Option Json :=
  fun key => [("metadata", entries [("labels", texts labels)])].lookup key

def webDeployment (labels : List (String × String)) : Json :=
  entries [("metadata", texts [("name", "web"), ("uid", "d1")]),
    ("spec", entries [("replicas", .number 2), ("template", .object (webTemplate labels))])]

def revisionOne (labels : List (String × String)) : Json := entries [("metadata", entries
      [("annotations", texts [( revisionAnnotation, "1")]),
        ("ownerReferences", .array [texts [("name", "web"), ("uid", "d1")]])]),
    ("spec", entries [("template", .object (webTemplate labels))])]

theorem field_get (value : Json) (key : String) (path : List String) {inner : Json}
    (there : value.field key = some inner) : value.get (key :: path) = inner.get path := by
  rw [Json.get, there]
  rfl

theorem texts_get {key : String} {value : Json}
    (found : (texts fields).get [key] = some value) : ∃ text, value = .string text := by
  rw [get_single] at found
  exact lookup_text found

def webReplicaSet (labels : List (String × String)) : ReplicaSet where
  object := revisionOne labels
  annotated := by
    intro key value found
    rw [field_get _ _ _ rfl, field_get _ _ _ rfl] at found
    exact texts_get found
  template := webTemplate labels
  templated := rfl
  labelled := by
    intro key value found
    rw [field_get _ _ _ rfl, field_get _ _ _ rfl] at found
    exact texts_get found

def webClient (deployment : Json) (replicaSets : List ReplicaSet) : DynamicClient where
  get := fun _ _ _ => .ok deployment
  list := fun _ _ => .ok (replicaSets.map ReplicaSet.toStored)
  patch := fun _ => none

def webManager (deployment : Json) (replicaSets : List ReplicaSet) : WorkloadManager where
  dynClient := some (webClient deployment replicaSets)
  discovery := some fun resource => some (appsGVR resource)

theorem web_serves (deployment : Json) (replicaSets : List ReplicaSet) :
    Serves (webManager deployment replicaSets) (webClient deployment replicaSets)
      (appsGVR "deployments") "shop" "web" deployment replicaSets := by
  constructor
  · rfl
  · exact ⟨_, appsGVR "replicasets", rfl, rfl, rfl, rfl⟩
  · rfl
  · intro _
    rfl

theorem covers_single {absent : Bool} {a b : Json} (key : String)
    (inner : CoversField absent (some a) (some b)) :
    Covers absent (entries [(key, a)]) (entries [(key, b)]) := by
  intro other
  by_cases here : other = key
  · subst here
    simpa [entries, Json.field] using inner
  · simp [entries, Json.field, List.lookup_cons, beq_false_of_ne here, CoversField]

theorem revision_carried (labels labels' : List (String × String)) :
    Carries (webDeployment labels) 1 (webReplicaSet labels') = true := by
  have owners : ownerUIDs (webReplicaSet labels').object = ["d1"] := rfl
  have owner : getUID (webDeployment labels) = "d1" := rfl
  have text : (webReplicaSet labels').object.get ["metadata", "annotations", revisionAnnotation] =
      some (.string "1") := rfl
  have number : parseInt64 "1" = some 1 := by decide
  rw [Carries, isTargetRS, owned, owners, owner, annotatedRevision, text]
  simp [asString, number]

/-- With the same labels on both sides the rollback is exact. -/
theorem same_label_exact : ∃ request,
    rollbackWorkload (webManager (webDeployment [("app", "v2")]) [webReplicaSet [("app", "v1")]])
        "Deployment" "shop" "web" 1 = .ok request ∧
      RolledBack false (webDeployment [("app", "v2")])
        (merge (webDeployment [("app", "v2")]) request.body) [webReplicaSet [("app", "v1")]] 1 := by
  obtain ⟨target, first, sent, exact_⟩ := rollback_exact
    (web_serves (webDeployment [("app", "v2")]) [webReplicaSet [("app", "v1")]])
    (show normalizeWorkloadKind "Deployment" = "deployments" from rfl)
    ⟨_, List.mem_cons_self, revision_carried [("app", "v2")] [("app", "v1")]⟩
  obtain rfl := List.mem_singleton.mp (List.mem_of_find?_eq_some first)
  refine ⟨_, sent, (exact_ false).mpr ⟨rfl, ?_, ?_⟩⟩
  · have app : CoversField false (some (.string "v2")) (some (.string "v1")) := trivial
    exact covers_single "metadata" (covers_single "labels" (covers_single "app" app))
  · intro rs listed _
    rw [List.mem_singleton.mp listed]

/-- A label added since the revision survives, and the controller's label comes along. -/
theorem added_label_survives : ∃ request,
    rollbackWorkload (webManager (webDeployment [("app", "web"), ("canary", "yes")])
        [webReplicaSet [("app", "web"), ("pod-template-hash", "5d4")]])
        "Deployment" "shop" "web" 1 = .ok request ∧
      (merge (webDeployment [("app", "web"), ("canary", "yes")]) request.body).get
        ["spec", "template", "metadata", "labels", "canary"] = some (.string "yes") ∧
      ∀ absent, ¬ RolledBack absent (webDeployment [("app", "web"), ("canary", "yes")])
        (merge (webDeployment [("app", "web"), ("canary", "yes")]) request.body)
        [webReplicaSet [("app", "web"), ("pod-template-hash", "5d4")]] 1 := by
  have first : [webReplicaSet [("app", "web"), ("pod-template-hash", "5d4")]].find?
      (Carries (webDeployment [("app", "web"), ("canary", "yes")]) 1) =
        some (webReplicaSet [("app", "web"), ("pod-template-hash", "5d4")]) := by
    rw [List.find?_cons_of_pos (revision_carried _ _)]
  refine ⟨_, rollback_sent (web_serves _ _) rfl first, rfl, ?_⟩
  intro absent rolled
  have unhashed := ((rolled_back_iff first).mp rolled).unhashed
  cases unhashed

end Run

end Deployments

end Rollback
