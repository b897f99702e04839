import Mathlib.Algebra.Group.Prod
import Radar.Base.KeyedFold
import Radar.Base.LabelSelector
import Radar.K8s.PodReferences

/- pkg/audit/checks.go: the checks for missing disruption budgets and for ConfigMaps and Secrets without a use, and how
   the findings of all checks are merged and counted. -/
namespace AuditChecks
open LabelSelector PodReferences List

section Model

structure PodSpec extends PodReferences.PodSpec where
  imagePullSecrets : List RefName

structure Pod where
  namespace_ : String
  spec : PodSpec

/-- A Deployment or a StatefulSet. -/
structure Workload where
  namespace_ : String
  name : String
  replicas : Option Int
  selector : Selector
  labels : Labels
  template : PodSpec

structure PodDisruptionBudget where
  namespace_ : String
  selector : Option Selector

/-- An Ingress with the names of its TLS secrets. -/
structure Ingress where
  namespace_ : String
  secretNames : List String

structure ConfigMap where
  namespace_ : String
  name : String

structure Secret extends ConfigMap where
  type_ : String
  certificateName : String

/-- What these checks read; budgets that may not be listed are none. -/
structure CheckInput where
  pods : List Pod
  deployments : List Workload
  statefulSets : List Workload
  ingresses : List Ingress
  podDisruptionBudgets : Option (List PodDisruptionBudget)
  configMaps : List ConfigMap
  secrets : List Secret

inductive Severity where
  | warning | danger
  deriving DecidableEq

structure Finding where
  group : String := ""
  kind : String
  namespace_ : String
  name : String
  checkID : String
  category : String
  severity : Severity := .warning
  message : String

/-- The findings of the other checks by their place in RunChecks; each check has an id of its own. -/
structure OtherFindings where
  early : List Finding
  middle : List Finding
  late : List Finding
  own : ∀ f ∈ early ++ middle ++ late, f.checkID ≠ "missingPDB" ∧ f.checkID ≠ "orphanConfigMapSecret"

def Workload.matchLabels (w : Workload) : Labels := fun key => w.selector.matchLabels.lookup key

def collectPDBSelectors (pdbs : List PodDisruptionBudget) : List (String × Selector) :=
  pdbs.filterMap fun pdb => pdb.selector.map fun selector => (pdb.namespace_, selector)

def CheckInput.workloads (input : CheckInput) : List (String × Workload) :=
  input.deployments.map (Prod.mk "Deployment") ++ input.statefulSets.map (Prod.mk "StatefulSet")

def Workload.r (w : Workload) : Int := w.replicas.getD 1

def missingPDB (pdbSelectors : List (String × Selector)) (kind : String) (w : Workload) : Option Finding :=
  if w.r ≤ 1 then none
  else if pdbSelectors.any fun ns => ns.1 == w.namespace_ && ns.2.matches_ w.matchLabels then none
  else some
    { kind, namespace_ := w.namespace_, name := w.name, checkID := "missingPDB", category := "Reliability"
      message := kind ++ " has " ++ toString w.r ++ " replicas but no PodDisruptionBudget" }

def checkMissingPDB (input : CheckInput) (pdbSelectors : List (String × Selector)) : List Finding :=
  input.workloads.filterMap fun w => missingPDB pdbSelectors w.1 w.2

def PodSpec.refs (spec : PodSpec) (kind : RefKind) : List String :=
  typedNames spec.toPodSpec kind ++ spec.volumes.flatMap (projectedNames kind) ++
    if kind = .secret then spec.imagePullSecrets.map Subtype.val else []

def referenced (input : CheckInput) (kind : RefKind) : List String :=
  (input.pods.flatMap fun pod => (pod.spec.refs kind).map fun n => pod.namespace_ ++ "/" ++ n) ++
    if kind = .secret then
      input.ingresses.flatMap fun ing => (ing.secretNames.filter (· ≠ "")).map fun n => ing.namespace_ ++ "/" ++ n
    else []

def kindName : RefKind → String
  | .configMap => "ConfigMap"
  | .secret => "Secret"

def orphan (kind : RefKind) (cm : ConfigMap) : Finding :=
  { kind := kindName kind, namespace_ := cm.namespace_, name := cm.name, checkID := "orphanConfigMapSecret"
    category := "Efficiency", message := kindName kind ++ " \"" ++ cm.name ++ "\" is not referenced by any pod" }

def unreferenced (input : CheckInput) (kind : RefKind) (cm : ConfigMap) : Bool :=
  !(referenced input kind).contains (cm.namespace_ ++ "/" ++ cm.name)

def checkOrphanConfigMapsSecrets (input : CheckInput) : List Finding :=
  (input.configMaps.filter fun cm => unreferenced input .configMap cm && cm.name != "kube-root-ca.crt").map
      (orphan .configMap) ++
    (input.secrets.filter fun sec => unreferenced input .secret sec.toConfigMap &&
      sec.type_ != "kubernetes.io/service-account-token" && sec.type_ != "helm.sh/release.v1" &&
      sec.certificateName == "").map fun sec => orphan .secret sec.toConfigMap

def groupForBuiltinKind (kind : String) : String :=
  if kind ∈ ["Deployment", "DaemonSet", "StatefulSet", "ReplicaSet"] then "apps"
  else if kind ∈ ["Job", "CronJob"] then "batch"
  else if kind = "HorizontalPodAutoscaler" then "autoscaling"
  else if kind ∈ ["Ingress", "NetworkPolicy"] then "networking.k8s.io"
  else if kind = "PodDisruptionBudget" then "policy"
  else ""

def Finding.grouped (f : Finding) : Finding :=
  { f with group := if f.group = "" then groupForBuiltinKind f.kind else f.group }

def resourceKey (group kind namespace_ name : String) : String :=
  group ++ "|" ++ kind ++ "|" ++ namespace_ ++ "|" ++ name

/-- The resource's key and the check. -/
def Finding.pair (f : Finding) : String × String := (resourceKey f.group f.kind f.namespace_ f.name, f.checkID)

/-- The first finding of a pair, and all of them. -/
structure Merged where
  first : Finding
  members : List Finding

def Merged.finding (m : Merged) : Finding :=
  { m.first with message := "; ".intercalate (m.members.map Finding.message) }

def merging : KeyedFold.Folding Finding Merged (String × String) where
  keyOf := Finding.pair
  key := fun m => m.first.pair
  start := fun f => ⟨f, []⟩
  add := fun m f => { m with members := m.members ++ [f] }
  key_start := fun _ => rfl
  key_add := fun _ _ => rfl

/-- A warning, or a danger, more. -/
def Finding.weight (f : Finding) : Nat × Nat :=
  match f.severity with
  | .warning => (1, 0)
  | .danger => (0, 1)

/-- The numbers of warnings and dangers, of each category and of all. -/
structure ScanResults where
  findings : List Finding
  categories : List (String × Nat × Nat)
  total : Nat × Nat

def buildResults (emitted : List Finding) : ScanResults :=
  let findings := (merging.gather emitted).map Merged.finding
  let categories := WriteMap.addAll [("Security", 0), ("Reliability", 0), ("Efficiency", 0)]
    (findings.map fun f => (f.category, f.weight))
  { findings, categories, total := (categories.map Prod.snd).sum }

section Run
variable (input : CheckInput) (others : OtherFindings)

def emitted : List Finding :=
  (others.early ++ (input.podDisruptionBudgets.elim [] fun pdbs => checkMissingPDB input (collectPDBSelectors pdbs)) ++
    others.middle ++ checkOrphanConfigMapsSecrets input ++ others.late).map Finding.grouped

def runChecks : ScanResults := buildResults (emitted input others)

end Run

end Model

section Statement

/-- More than one replica, and the budgets are listed and none selects what the workload's selector asks for. -/
def Uncovered (input : CheckInput) (w : Workload) : Prop :=
  1 < w.r ∧ ∃ pdbs, input.podDisruptionBudgets = some pdbs ∧ ∀ pdb ∈ pdbs, pdb.namespace_ = w.namespace_ →
    ∀ s, pdb.selector = some s → s.matches_ w.matchLabels = false

def Refers (spec : PodSpec) (kind : RefKind) (name : RefName) : Prop :=
  Uses spec.toPodSpec kind name ∨ Projects spec.toPodSpec kind name ∨ kind = .secret ∧ name ∈ spec.imagePullSecrets

structure Unused (input : CheckInput) (kind : RefKind) (ns : String) (name : RefName) : Prop where
  pods : ∀ pod ∈ input.pods, pod.namespace_ = ns → ¬ Refers pod.spec kind name
  ingresses : kind = .secret → ∀ ing ∈ input.ingresses, ing.namespace_ = ns → name.val ∉ ing.secretNames

/-- The warnings and the dangers. -/
def counts (fs : List Finding) : Nat × Nat :=
  (fs.countP fun f => f.severity = .warning, fs.countP fun f => f.severity = .danger)

structure Sound (input : CheckInput) (emitted : List Finding) (r : ScanResults) : Prop where
  uncovered : ∀ f ∈ r.findings, f.checkID = "missingPDB" →
    ∃ w, (f.kind, w) ∈ input.workloads ∧ w.namespace_ = f.namespace_ ∧ w.name = f.name ∧ Uncovered input w
  told : ∀ kind w, (kind, w) ∈ input.workloads → Uncovered input w →
    ∃ f ∈ r.findings, f.pair = (resourceKey (groupForBuiltinKind kind) kind w.namespace_ w.name, "missingPDB")
  unused : ∀ f ∈ r.findings, f.checkID = "orphanConfigMapSecret" →
    ∀ kind (name : RefName), f.kind = kindName kind → f.name = name.val → Unused input kind f.namespace_ name
  once : (r.findings.map Finding.pair).Nodup
  all : ∀ f ∈ emitted, f.pair ∈ r.findings.map Finding.pair
  kept : ∀ f ∈ r.findings,
    f.message = "; ".intercalate ((emitted.filter fun g => g.pair = f.pair).map Finding.message) ∧
      ∃ g ∈ emitted, g.pair = f.pair ∧ g.severity = f.severity
  category : ∀ c, WriteMap.amount r.categories c = counts (r.findings.filter fun f => f.category = c)
  total : r.total = counts r.findings

end Statement

section Conclusion
variable {input : CheckInput} {others : OtherFindings} {xs : List Finding} {f : Finding}

theorem first_kept (xs : List Finding) (m : Merged) : (xs.foldl merging.add m).first = m.first := by
  induction xs generalizing m with
  | nil => rfl
  | cons x rest ih => exact ih _

/-- A finding is the first of its pair with the messages of all of them. -/
theorem merged_of (member : f ∈ (buildResults xs).findings) : ∃ g ∈ xs,
    f = { g with message := "; ".intercalate ((xs.filter fun h => h.pair = g.pair).map Finding.message) } := by
  obtain ⟨m, held, rfl⟩ := mem_map.mp member
  obtain ⟨g, rest, listed, whole⟩ := (KeyedFold.gather_spec xs).2.2 m held
  have first : m.first = g := (congrArg Merged.first whole).trans (first_kept _ _)
  have members : m.members = xs.filter fun h => h.pair = m.first.pair :=
    KeyedFold.gather_members (F := merging) (fun _ => rfl) (fun _ _ => rfl) held
  refine ⟨g, mem_of_mem_filter (listed ▸ mem_cons_self), ?_⟩
  rw [Merged.finding, members, first]

theorem pairs_eq (xs : List Finding) :
    (buildResults xs).findings.map Finding.pair = (merging.gather xs).map merging.key := map_map

theorem emitted_cases (member : f ∈ emitted input others) : ∃ h : Finding, f = h.grouped ∧
    ((h.checkID ≠ "missingPDB" ∧ h.checkID ≠ "orphanConfigMapSecret") ∨
      (∃ pdbs, input.podDisruptionBudgets = some pdbs ∧ h ∈ checkMissingPDB input (collectPDBSelectors pdbs)) ∨
      h ∈ checkOrphanConfigMapsSecrets input) := by
  obtain ⟨h, listed, rfl⟩ := mem_map.mp member
  refine ⟨h, rfl, ?_⟩
  have own := others.own h
  simp only [mem_append] at listed own
  cases budgets : input.podDisruptionBudgets with
  | none => simp_all; tauto
  | some pdbs => simp_all; tauto

theorem uncovered_iff {pdbs : List PodDisruptionBudget} (listed : input.podDisruptionBudgets = some pdbs)
    (kind : String) (w : Workload) : (missingPDB (collectPDBSelectors pdbs) kind w).isSome ↔ Uncovered input w := by
  have covers : ((collectPDBSelectors pdbs).any fun ns => ns.1 == w.namespace_ && ns.2.matches_ w.matchLabels) = true ↔
      ∃ pdb ∈ pdbs, ∃ s, pdb.selector = some s ∧ pdb.namespace_ = w.namespace_ ∧ s.matches_ w.matchLabels = true := by
    simp only [collectPDBSelectors, any_eq_true, mem_filterMap, Option.map_eq_some_iff, Bool.and_eq_true,
      beq_iff_eq]
    grind
  simp only [missingPDB, Uncovered, listed]
  grind

theorem missing_fields {pdbSelectors : List (String × Selector)} {kind : String} {w : Workload}
    (missing : missingPDB pdbSelectors kind w = some f) :
    f.group = "" ∧ f.kind = kind ∧ f.namespace_ = w.namespace_ ∧ f.name = w.name ∧ f.checkID = "missingPDB" := by
  grind [missingPDB]

theorem unused_of {kind : RefKind} {cm : ConfigMap} (none_ : unreferenced input kind cm = true) {name : RefName}
    (own : cm.name = name.val) : Unused input kind cm.namespace_ name := by
  have absent : cm.namespace_ ++ "/" ++ name.val ∉ referenced input kind := by
    simpa [unreferenced, own] using none_
  constructor
  · rintro pod listed same refers
    refine absent (mem_append_left _ (mem_flatMap.mpr ⟨pod, listed, mem_map.mpr ⟨name, ?_, same ▸ rfl⟩⟩))
    rcases refers with uses | projects | ⟨rfl, pulled⟩
    · exact mem_append_left _ (mem_append_left _ (typed_iff.mpr ⟨name, uses, rfl⟩))
    · exact mem_append_left _ (mem_append_right _ (projected_iff.mpr ⟨name, projects, rfl⟩))
    · exact mem_append_right _ (by simpa using ⟨name.2, pulled⟩)
  · rintro rfl ing listed same secret
    refine absent (mem_append_right _ ?_)
    rw [if_pos rfl, ← same]
    exact mem_flatMap.mpr ⟨ing, listed, mem_map.mpr ⟨name, by simpa using ⟨secret, name.2⟩, rfl⟩⟩

theorem sum_weights (fs : List Finding) : (fs.map Finding.weight).sum = counts fs := by
  induction fs with
  | nil => rfl
  | cons f rest ih =>
    rw [map_cons, sum_cons, ih]
    cases severity : f.severity <;> simp [Finding.weight, counts, severity, add_comm]

theorem orphan_of (member : f ∈ checkOrphanConfigMapsSecrets input) :
    ∃ kind cm, f = orphan kind cm ∧ unreferenced input kind cm = true := by
  rcases mem_append.mp member with named | named
  all_goals
    obtain ⟨cm, kept, rfl⟩ := mem_map.mp named
    simp only [mem_filter, Bool.and_eq_true] at kept
    exact ⟨_, _, rfl, by tauto⟩

/-- Coverage goes by what a workload's selector asks for, use by the pods and Ingresses that are listed; merging loses
    no pair and no message, doubles none and counts what is left. -/
theorem runChecks_sound (input : CheckInput) (others : OtherFindings) :
    Sound input (emitted input others) (runChecks input others) where
  uncovered := by
    intro f member id
    obtain ⟨g, there, rfl⟩ := merged_of member
    obtain ⟨h, rfl, other | ⟨pdbs, listed, missing⟩ | orphaned⟩ := emitted_cases there
    · exact absurd id other.1
    · obtain ⟨w, held, made⟩ := mem_filterMap.mp missing
      obtain ⟨-, kind, ns, name, -⟩ := missing_fields made
      exact ⟨w.2, kind ▸ held, ns.symm, name.symm, (uncovered_iff listed _ _).mp (Option.isSome_of_eq_some made)⟩
    · obtain ⟨kind, cm, rfl, -⟩ := orphan_of orphaned
      exact absurd (show "orphanConfigMapSecret" = "missingPDB" from id) (by decide)
  told := by
    intro kind w held uncovered
    obtain ⟨pdbs, listed, _⟩ := uncovered.2
    obtain ⟨f, missing⟩ := Option.isSome_iff_exists.mp ((uncovered_iff listed kind w).mpr uncovered)
    have there : f.grouped ∈ emitted input others := by
      refine mem_map_of_mem ?_
      simp only [mem_append, listed, Option.elim_some]
      exact .inl (.inl (.inl (.inr (mem_filterMap.mpr ⟨_, held, missing⟩))))
    obtain ⟨m, kept, same⟩ := mem_map.mp (((KeyedFold.gather_spec (F := merging) _).2.1 _).mpr ⟨_, there, rfl⟩)
    obtain ⟨group, rfl, ns, name, id⟩ := missing_fields missing
    refine ⟨m.finding, mem_map_of_mem kept, same.trans ?_⟩
    simp [merging, Finding.pair, Finding.grouped, group, ns, name, id]
  unused := by
    intro f member id kind name same own
    obtain ⟨g, there, rfl⟩ := merged_of member
    obtain ⟨h, rfl, other | ⟨pdbs, listed, missing⟩ | orphaned⟩ := emitted_cases there
    · exact absurd id other.2
    · obtain ⟨w, held, made⟩ := mem_filterMap.mp missing
      exact absurd ((missing_fields made).2.2.2.2.symm.trans id) (by decide)
    · obtain ⟨kind', cm, rfl, none_⟩ := orphan_of orphaned
      have alike : kindName kind' = kindName kind := same
      obtain rfl : kind' = kind := by
        cases kind' <;> cases kind <;> first | rfl | exact absurd alike (by decide)
      exact unused_of none_ own
  once := pairs_eq (emitted input others) ▸ (KeyedFold.gather_spec _).1
  all := fun f member => pairs_eq (emitted input others) ▸ ((KeyedFold.gather_spec _).2.1 _).mpr ⟨f, member, rfl⟩
  kept := by
    intro f member
    obtain ⟨g, there, rfl⟩ := merged_of member
    exact ⟨rfl, g, there, rfl, rfl⟩
  category := by
    intro c
    rw [runChecks, buildResults, WriteMap.amount_addAll, ← sum_weights, WriteMap.total, filter_map, map_map]
    have zero : WriteMap.amount [("Security", (0 : Nat × Nat)), ("Reliability", 0), ("Efficiency", 0)] c = 0 := by
      simp only [WriteMap.amount, lookup_cons, lookup_nil]
      (repeat' split) <;> rfl
    rw [zero, zero_add]
    rfl
  total := by
    refine (WriteMap.sum_addAll (by simp [WriteMap.Keyed]) _).trans ?_
    rw [← sum_weights, map_map]
    simp [Function.comp_def, buildResults, runChecks]

def conf : RefName := ⟨"conf", by decide⟩

def web : Workload where
  namespace_ := "shop"
  name := "web"
  replicas := some 2
  selector := ⟨[("app", "web")], []⟩
  labels := fun key => [("app", "web"), ("tier", "front")].lookup key
  template := ⟨⟨[⟨"web", [], []⟩], [], [⟨"conf", some conf, none, none, none⟩]⟩, []⟩

def front : Selector := ⟨[("tier", "front")], []⟩

/-- No pod of the Deployment is there yet. -/
def shop : CheckInput := ⟨[], [web], [], [], some [⟨"shop", some front⟩], [⟨"shop", "conf"⟩], []⟩

def mount (severity : Severity) (message : String) : Finding where
  kind := "Deployment"
  namespace_ := "shop"
  name := "web"
  checkID := "sensitiveHostPath"
  category := "Security"
  severity := severity
  message := message

/-- Two host paths that the Deployment mounts too. -/
def mounts : OtherFindings where
  early := [mount .warning "Volume \"etc\" mounts sensitive host path /etc",
    mount .danger "Volume \"root\" mounts the entire host root filesystem"]
  middle := []
  late := []
  own := by decide

/-- The budget selects what the template has, the template mounts what is said to be unused, and the danger is merged
    into a warning. -/
theorem shop_misled : ((runChecks shop mounts).findings.map fun f => (f.checkID, f.name, f.severity)) =
      [("sensitiveHostPath", "web", .warning), ("missingPDB", "web", .warning),
        ("orphanConfigMapSecret", "conf", .warning)] ∧
    front.matches_ web.labels = true ∧ Refers web.template .configMap conf ∧
    ∃ f ∈ emitted shop mounts, f.pair.2 = "sensitiveHostPath" ∧ f.severity = .danger := by
  refine ⟨by decide +kernel, by decide, .inl ?_, by decide +kernel⟩
  exact .volume _ mem_cons_self rfl

end Conclusion

end AuditChecks
