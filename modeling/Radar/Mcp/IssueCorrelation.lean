import Radar.Issues.Types
import Radar.Mcp.ChangeFeed

/- internal/mcp/issue_correlation.go: which issues are marked as having no recent changes, and when the
   marker is true of everything that was recorded. -/
namespace IssueCorrelation
open GoText Timeline RecentChanges ChangeFeed PodReferences Issues List

section Correlation

inductive Workload where
  | deployment
  | statefulSet
  | daemonSet

/-- What the correlation reads beside the store: discovery and the active context, the clock, which
goes forward, and the workloads of the cluster, of which the cache may lack some. -/
structure Around where
  lowering : Lowering
  getResource : String → Option String
  activeContext : String
  parse : Parse
  observationStart : Time
  started : Time
  /-- The time of each query of each lookup for each issue. -/
  now : Nat → Nat → Nat → Time
  answered : Nat → Time
  forward : ∀ issue lookup query, (now issue lookup query).ns ≤ (answered issue).ns
  workloads : Workload → String → String → Option PodSpec
  cached : Workload → String → String → Bool

def correlationIssueCap : Nat := 10
def correlationChangeCap : Nat := 3
def correlationFieldLimit : Int := 5
def correlationMinObservation : Int := 300000000000

/-- The two fields the correlation fills. -/
structure Marks where
  correlatedChanges : List RecentChange
  noRecentChanges : Option Int

def unmarked : Marks := ⟨[], none⟩

variable (around : Around)

def Around.canonicalKind (kind : String) : String :=
  ChangeFeed.canonicalKind around.lowering around.getResource kind

def Around.cluster (issue lookup : Nat) : Cluster :=
  ⟨around.canonicalKind, around.activeContext, around.now issue lookup⟩

/-- In nanoseconds, none where too little was observed to claim anything. -/
def correlationWindow : Int := if around.observationStart.isZero then 0
  else
    let observed := around.started.ns - around.observationStart.ns
    let window := if observed < defaultSince then observed else defaultSince
    if window < correlationMinObservation then 0 else window

def trackedKind (kind : String) : Bool :=
  isConfigKind (around.canonicalKind kind) || isSpecKind (around.canonicalKind kind)

def workloadObjectFromCache (kind namespace_ name : String) : Option PodSpec :=
  let get w := if around.cached w namespace_ name then around.workloads w namespace_ name else none
  if around.lowering.toLower kind = "deployment" then get .deployment
  else if around.lowering.toLower kind = "statefulset" then get .statefulSet
  else if around.lowering.toLower kind = "daemonset" then get .daemonSet
  else none

def filterSpecConfigChanges (changes : List RecentChange) : List RecentChange := changes.filter evident

variable (ask : QueryOptions → List Recorded)

def correlationChangesForIssue (i : Nat) (iss : Issue) (window : Int) : List RecentChange × Bool :=
  if isWorkloadKind around.lowering iss.kind then
    recentForWorkloadAndConfigMaps around.lowering around.parse ask (around.cluster i)
      (workloadObjectFromCache around iss.kind iss.namespace_ iss.name) iss.kind iss.namespace_ iss.name
      window correlationChangeCap correlationFieldLimit
  else
    recentForResource around.lowering around.parse ask (around.cluster i 0) iss.kind iss.namespace_ iss.name
      window correlationChangeCap correlationFieldLimit

/-- What an issue that is looked at gets. -/
def markIssue (i : Nat) (iss : Issue) (window : Int) : Marks :=
  let found := correlationChangesForIssue around ask i iss window
  let changes := filterSpecConfigChanges found.1
  if changes.length = 0 then
    if found.2 then unmarked else ⟨[], some (window / 1000000000)⟩
  else ⟨if correlationChangeCap < changes.length then changes.take correlationChangeCap else changes, none⟩

/-- Only critical issues of kinds whose changes are recorded are looked at. -/
def lookedAt (iss : Issue) : Bool := iss.severity == .critical && trackedKind around iss.kind

/-- The marks of the issues from the i-th on, so many having been checked, and whether the cap was hit. -/
def attachFrom (window : Int) (i checked : Nat) : List Issue → List Marks × Bool
  | [] => ([], false)
  | iss :: rest =>
    if ¬ lookedAt around iss then
      let later := attachFrom window (i + 1) checked rest
      (unmarked :: later.1, later.2)
    else if correlationIssueCap ≤ checked then ((iss :: rest).map fun _ => unmarked, true)
    else
      let later := attachFrom window (i + 1) (checked + 1) rest
      (markIssue around ask i iss window :: later.1, later.2)

def attachIssueChangeCorrelation (issues : List Issue) : List Marks × Bool :=
  if correlationWindow around = 0 then (issues.map fun _ => unmarked, false)
  else attachFrom around ask (correlationWindow around) 0 0 issues

end Correlation

section Claims
variable (around : Around) (maxSize : Int) (history : List Recorded) (issues : List Issue)

/-- A pod template has the ConfigMap's name in a volume or in the environment of a container. -/
def References (spec : PodSpec) (name : String) : Prop := ∃ ref : RefName, ref.val = name ∧
  ((∃ v ∈ spec.volumes, v.configMap = some ref ∨
      ∃ sources, v.projected = some sources ∧ ∃ source ∈ sources, source.configMap = some ref) ∨
    ∃ c ∈ spec.initContainers ++ spec.containers, (∃ from_ ∈ c.envFrom, from_.configMapRef = some ref) ∨
      ∃ env ∈ c.env, ∃ source, env.valueFrom = some source ∧ source.configMapKeyRef = some ref)

def workloadOf (kind : String) : Option Workload := if kind = "Deployment" then some .deployment
  else if kind = "StatefulSet" then some .statefulSet
  else if kind = "DaemonSet" then some .daemonSet
  else none

/-- An event of the issue's subject, or of a ConfigMap that its pod template references. -/
def Concerns (iss : Issue) (e : Recorded) : Prop :=
  (around.activeContext = "" ∨ e.clusterContext = around.activeContext) ∧ e.namespace_ = iss.namespace_ ∧
      ((e.kind = around.canonicalKind iss.kind ∧ e.name = iss.name) ∨
        e.kind = "ConfigMap" ∧ ∃ w spec, workloadOf (around.canonicalKind iss.kind) = some w ∧
          around.workloads w iss.namespace_ iss.name = some spec ∧ References spec e.name)

/-- Within so many seconds before an issue was answered. -/
def Within (i : Nat) (seconds : Int) (e : Recorded) : Prop :=
  (around.answered i).ns - seconds * 1000000000 ≤ e.timestamp.ns ∧ e.timestamp.ns ≤ (around.answered i).ns

/-- No marker denies a change that was recorded. -/
def Honest (marks : List Marks) : Prop := ∀ i iss w, issues[i]? = some iss →
  (marks[i]?.bind Marks.noRecentChanges) = some w → ∀ e ∈ history, Concerns around iss e →
    IsChange around.lowering e → ¬ Within around i w e

/-- What is asked for an issue, by kind and name. -/
def asked (iss : Issue) : List (String × String) := if isWorkloadKind around.lowering iss.kind then
    lookups around.lowering (workloadObjectFromCache around iss.kind iss.namespace_ iss.name) iss.kind iss.name
  else [(iss.kind, iss.name)]

def lookupQuery (i : Nat) (iss : Issue) (part : (String × String) × Nat) : Query :=
  resourceQuery (around.cluster i part.2) part.1.1 iss.namespace_ part.1.2 (correlationWindow around)
    correlationChangeCap correlationFieldLimit

/-- An issue that is looked at, among the first so many. -/
structure Checked (i : Nat) (iss : Issue) : Prop where
  observed : correlationWindow around ≠ 0
  looked : lookedAt around iss = true
  early : ((issues.take i).filter (lookedAt around)).length < correlationIssueCap

/-- Where the fetches for an issue have room and something has changed, one of them shows a change. -/
def Tells (i : Nat) (iss : Issue) : Prop := (∀ part ∈ (asked around iss).zipIdx,
    Roomy maxSize history (around.cluster i part.2) (lookupQuery around i iss part)) →
  (∃ e ∈ history, Concerns around iss e ∧ IsChange around.lowering e ∧
    Within around i (correlationWindow around / 1000000000) e) →
  ∃ part ∈ (asked around iss).zipIdx, ∃ e, Shown maxSize history (around.cluster i part.2)
    (lookupQuery around i iss part) around.lowering e

end Claims

section Loop
variable {around : Around} {ask : QueryOptions → List Recorded} {window : Int}

theorem attach_at (i checked n : Nat) (issues : List Issue) :
    (attachFrom around ask window i checked issues).1[n]? = issues[n]?.map fun iss =>
      if lookedAt around iss = true ∧
          checked + ((issues.take n).filter (lookedAt around)).length < correlationIssueCap then
        markIssue around ask (i + n) iss window
      else unmarked := by
  induction issues generalizing i checked n with
  | nil => rfl
  | cons iss rest ih =>
    rw [attachFrom]
    by_cases looked : lookedAt around iss = true
    · rw [if_neg (not_not.mpr looked)]
      by_cases full : correlationIssueCap ≤ checked
      · rw [if_pos full, getElem?_map]
        cases (iss :: rest)[n]? with
        | none => rfl
        | some found => exact congrArg some (if_neg (by omega)).symm
      · rw [if_neg full]
        cases n with
        | zero =>
          have room : checked < correlationIssueCap := Nat.lt_of_not_le full
          simp [looked, room]
        | succ n =>
          rw [getElem?_cons_succ, getElem?_cons_succ, ih, take_succ_cons,
            filter_cons_of_pos looked, length_cons]
          refine congrArg (fun mark => rest[n]?.map mark) (funext fun iss' => ?_)
          rw [Nat.add_assoc i, Nat.add_comm 1 n, Nat.add_assoc checked, Nat.add_comm 1]
    · rw [if_pos looked]
      cases n with
      | zero => simp [looked]
      | succ n =>
        rw [getElem?_cons_succ, getElem?_cons_succ, ih, take_succ_cons,
          filter_cons_of_neg looked]
        refine congrArg (fun mark => rest[n]?.map mark) (funext fun iss' => ?_)
        rw [Nat.add_assoc i, Nat.add_comm 1 n]

/-- An issue has the marker where it was looked at and nothing was found in fetches with room. -/
theorem marker_iff {issues : List Issue} {i : Nat} {iss : Issue} (here : issues[i]? = some iss) (w : Int) :
    ((attachIssueChangeCorrelation around ask issues).1[i]?.bind Marks.noRecentChanges) = some w ↔
      Checked around issues i iss ∧ (markIssue around ask i iss (correlationWindow around)).noRecentChanges =
        some w := by
  unfold attachIssueChangeCorrelation
  by_cases observed : correlationWindow around = 0
  · rw [if_pos observed, getElem?_map, here]
    exact iff_of_false (by simp [unmarked]) fun both => both.1.observed observed
  · rw [if_neg observed, attach_at, here, Nat.zero_add, Nat.zero_add]
    by_cases both : lookedAt around iss = true ∧
        ((issues.take i).filter (lookedAt around)).length < correlationIssueCap
    · rw [Option.map_some, if_pos both, Option.bind_some, and_iff_right ⟨observed, both.1, both.2⟩]
    · rw [Option.map_some, if_neg both]
      exact iff_of_false (by simp [unmarked]) fun marked => both ⟨marked.1.looked, marked.1.early⟩

end Loop

section Fetches
variable {around : Around} {maxSize : Int} {history : List Recorded} {i : Nat} {iss : Issue}

/-- What is found for an issue is what its lookups find: whether some fetch was full, and whether there
is a change to tell of where none was. -/
theorem issue_found : ((correlationChangesForIssue around (query (recordAll maxSize history)) i iss
        (correlationWindow around)).2 = false ↔
      ∀ part ∈ (asked around iss).zipIdx,
        Roomy maxSize history (around.cluster i part.2) (lookupQuery around i iss part)) ∧
    ((∀ part ∈ (asked around iss).zipIdx,
        Roomy maxSize history (around.cluster i part.2) (lookupQuery around i iss part)) →
      ((∃ c ∈ (correlationChangesForIssue around (query (recordAll maxSize history)) i iss
          (correlationWindow around)).1, evident c = true) ↔
        ∃ part ∈ (asked around iss).zipIdx, ∃ e, Shown maxSize history (around.cluster i part.2)
          (lookupQuery around i iss part) around.lowering e)) := by
  unfold correlationChangesForIssue asked lookupQuery
  by_cases workload : isWorkloadKind around.lowering iss.kind = true
  · rw [if_pos workload, if_pos workload, recentForWorkloadAndConfigMaps]
    refine ⟨?_, fun roomy => ?_⟩
    · rw [any_eq_false]
      refine forall_mem_map.trans (forall₂_congr fun part _ => ?_)
      rw [Bool.not_eq_true, resource_unsaturated]
    · rw [rank_evident]
      have each := fun part looked => resource_evident around.lowering around.parse _ _ _ _ _ _ _ _ _
        (roomy part looked)
      constructor
      · rintro ⟨c, listed, shown⟩
        obtain ⟨answer, made, member⟩ := mem_flatMap.mp listed
        obtain ⟨part, looked, rfl⟩ := mem_map.mp made
        exact ⟨part, looked, (each part looked).mp ⟨c, member, shown⟩⟩
      · rintro ⟨part, looked, found⟩
        obtain ⟨c, member, shown⟩ := (each part looked).mpr found
        exact ⟨c, mem_flatMap.mpr ⟨_, mem_map.mpr ⟨part, looked, rfl⟩, member⟩, shown⟩
  · have only : [(iss.kind, iss.name)].zipIdx = [((iss.kind, iss.name), 0)] := rfl
    rw [if_neg workload, if_neg workload, only]
    simp only [mem_singleton, forall_eq, exists_eq_left]
    exact ⟨resource_unsaturated around.lowering around.parse _ _ _ _ _ _ _ _ _,
      fun roomy => resource_evident around.lowering around.parse _ _ _ _ _ _ _ _ _ roomy⟩

theorem mark_iff {ask : QueryOptions → List Recorded} {window w : Int} :
    (markIssue around ask i iss window).noRecentChanges = some w ↔
      (correlationChangesForIssue around ask i iss window).2 = false ∧
        (¬ ∃ c ∈ (correlationChangesForIssue around ask i iss window).1, evident c = true) ∧
          window / 1000000000 = w := by
  have none_ : (filterSpecConfigChanges (correlationChangesForIssue around ask i iss window).1).length = 0 ↔
      ¬ ∃ c ∈ (correlationChangesForIssue around ask i iss window).1, evident c = true := by
    rw [length_eq_zero_iff, filterSpecConfigChanges, filter_eq_nil_iff]
    simp
  unfold markIssue
  dsimp only
  rw [← none_]
  by_cases empty : (filterSpecConfigChanges (correlationChangesForIssue around ask i iss window).1).length = 0
  · rw [if_pos empty]
    cases (correlationChangesForIssue around ask i iss window).2 <;> simp [unmarked, empty]
  · rw [if_neg empty]
    exact iff_of_false (by simp) fun all => empty all.2.1

end Fetches

/-- No marker denies a recorded change just where each issue looked at whose fetches have room and that
has changed is shown a change. -/
theorem honest_iff (around : Around) (maxSize : Int) (history : List Recorded) (issues : List Issue) :
    Honest around history issues
        (attachIssueChangeCorrelation around (query (recordAll maxSize history)) issues).1 ↔
      ∀ i iss, issues[i]? = some iss → Checked around issues i iss → Tells around maxSize history i iss := by
  constructor
  · rintro honest i iss here checked roomy ⟨e, recorded, concerns, change, within⟩
    by_contra silent
    obtain ⟨full, found⟩ := @issue_found around maxSize history i iss
    have marked := mark_iff.mpr ⟨full.mpr roomy, (found roomy).not.mpr silent, rfl⟩
    exact honest i iss _ here ((marker_iff here _).mpr ⟨checked, marked⟩) e recorded concerns change within
  · intro tells i iss w here marked e recorded concerns change within
    obtain ⟨checked, mark⟩ := (marker_iff here w).mp marked
    obtain ⟨full, found⟩ := @issue_found around maxSize history i iss
    obtain ⟨unsaturated, silent, rfl⟩ := mark_iff.mp mark
    have roomy := full.mp unsaturated
    exact silent ((found roomy).mpr
      (tells i iss here checked roomy ⟨e, recorded, concerns, change, within⟩))

section Keeping
variable {around : Around} {maxSize : Int} {history : List Recorded} {issues : List Issue} {i : Nat}
  {iss : Issue}

theorem mem_directConfigMapNames {spec : PodSpec} {name : String} :
    name ∈ directConfigMapNames (some spec) ↔ References spec name := by
  rw [directConfigMapNames, (Arrange.sort_perm _ _).mem_iff, Firsts.firsts_id_iff, mem_append, References]
  have named : ∀ ref : Option RefName, name ∈ nameOf ref ↔ ∃ n, ref = some n ∧ n.val = name := by
    intro ref
    cases ref with
    | none => simp [nameOf]
    | some n => simp [nameOf, eq_comm]
  constructor
  · rintro (volume | container)
    · obtain ⟨v, listed, member⟩ := mem_flatMap.mp volume
      rcases mem_append.mp member with own | projected
      · obtain ⟨n, same, value⟩ := (named _).mp own
        exact ⟨n, value, .inl ⟨v, listed, .inl same⟩⟩
      · obtain ⟨source, inside, there⟩ := mem_flatMap.mp projected
        obtain ⟨n, same, value⟩ := (named _).mp there
        cases sources : v.projected with
        | none => rw [sources] at inside; exact absurd inside not_mem_nil
        | some all =>
          rw [sources] at inside
          exact ⟨n, value, .inl ⟨v, listed, .inr ⟨all, sources, source, inside, same⟩⟩⟩
    · obtain ⟨c, listed, member⟩ := mem_flatMap.mp container
      rcases mem_append.mp member with from_ | env
      · obtain ⟨source, inside, there⟩ := mem_flatMap.mp from_
        obtain ⟨n, same, value⟩ := (named _).mp there
        exact ⟨n, value, .inr ⟨c, listed, .inl ⟨source, inside, same⟩⟩⟩
      · obtain ⟨var, inside, there⟩ := mem_flatMap.mp env
        obtain ⟨source, given, own⟩ := mem_flatMap.mp there
        obtain ⟨n, same, value⟩ := (named _).mp own
        exact ⟨n, value, .inr ⟨c, listed, .inr ⟨var, inside, source, Option.mem_toList.mp given, same⟩⟩⟩
  · rintro ⟨n, value, ⟨v, listed, own | ⟨all, sources, source, inside, same⟩⟩ |
      ⟨c, listed, ⟨source, inside, same⟩ | ⟨var, inside, source, given, same⟩⟩⟩
    · exact .inl (mem_flatMap.mpr ⟨v, listed, mem_append_left _ ((named _).mpr ⟨n, own, value⟩)⟩)
    · refine .inl (mem_flatMap.mpr ⟨v, listed, mem_append_right _ (mem_flatMap.mpr
        ⟨source, ?_, (named _).mpr ⟨n, same, value⟩⟩)⟩)
      rw [sources]
      exact inside
    · exact .inr (mem_flatMap.mpr ⟨c, listed, mem_append_left _ (mem_flatMap.mpr
        ⟨source, inside, (named _).mpr ⟨n, same, value⟩⟩)⟩)
    · exact .inr (mem_flatMap.mpr ⟨c, listed, mem_append_right _ (mem_flatMap.mpr
        ⟨var, inside, mem_flatMap.mpr ⟨source, Option.mem_toList.mpr given,
          (named _).mpr ⟨n, same, value⟩⟩⟩)⟩)

/-- Asked about are the issue's subject and, for a workload, the ConfigMaps its cached pod template references. -/
theorem asked_iff (around : Around) (iss : Issue) (part : String × String) : part ∈ asked around iss ↔
    part = (iss.kind, iss.name) ∨ isWorkloadKind around.lowering iss.kind = true ∧
      ∃ spec name, workloadObjectFromCache around iss.kind iss.namespace_ iss.name = some spec ∧
        References spec name ∧ part = ("ConfigMap", name) := by
  unfold asked lookups
  split
  next workload =>
    rw [mem_append, mem_singleton, mem_map, and_iff_right workload]
    cases workloadObjectFromCache around iss.kind iss.namespace_ iss.name with
    | none => simp [directConfigMapNames]
    | some spec => simp [mem_directConfigMapNames, eq_comm]
  next other => simp [other]

/-- An event that no stage on the way to the marker can drop: the store has it still, it has an
identifier and no owner, and what it is of is asked about by the names it is recorded under. -/
structure Kept (around : Around) (maxSize : Int) (history : List Recorded) (i : Nat) (iss : Issue)
    (e : Recorded) : Prop where
  retained : e ∈ retained maxSize history
  identified : e.id ≠ ""
  own : ∀ e' ∈ ChangeFeed.retained maxSize history, e'.id = e.id → e' = e
  unowned : e.owner = none
  looked : ∃ kind, (kind, e.name) ∈ asked around iss ∧ Settled (around.cluster i 0) kind e.name e.kind

theorem kept_told {e : Recorded} (kept : Kept around maxSize history i iss e)
    (observed : 0 < correlationWindow around) (concerns : Concerns around iss e)
    (change : IsChange around.lowering e)
    (within : Within around i (correlationWindow around / 1000000000) e) :
    ∃ part ∈ (asked around iss).zipIdx, ∃ e', Shown maxSize history (around.cluster i part.2)
      (lookupQuery around i iss part) around.lowering e' := by
  obtain ⟨kind, listed, settled⟩ := kept.looked
  obtain ⟨j, inside, place⟩ := mem_iff_getElem.mp listed
  refine ⟨((kind, e.name), j), ?_, ?_⟩
  · rw [mem_zipIdx_iff_getElem?, getElem?_eq_getElem inside, place]
  · have clock := around.forward i j 0
    have reach : (around.now i j 0).ns - correlationWindow around ≤ e.timestamp.ns := by
      have low := within.1
      omega
    have settled' : Settled (around.cluster i j) kind e.name e.kind :=
      ⟨settled.kind, settled.tracked, settled.name⟩
    exact counts_shown settled' ⟨kept.retained, kept.identified, kept.own, kept.unowned, concerns.1, reach⟩
      change observed rfl concerns.2.1 rfl

theorem window_positive (observed : correlationWindow around ≠ 0) : 0 < correlationWindow around := by
  have least : (0 : Int) < correlationMinObservation := by decide
  unfold correlationWindow at observed ⊢
  by_cases blank : around.observationStart.isZero = true
  · exact absurd (if_pos blank) observed
  · rw [if_neg blank] at observed ⊢
    dsimp only at observed ⊢
    generalize (if around.started.ns - around.observationStart.ns < defaultSince then
      around.started.ns - around.observationStart.ns else defaultSince) = window at observed ⊢
    by_cases short : window < correlationMinObservation
    · exact absurd (if_pos short) observed
    · rw [if_neg short]
      omega

/-- Where every change an issue concerns is kept, the issue is told of its changes. -/
theorem kept_tells (checked : Checked around issues i iss)
    (kept : ∀ e ∈ history, Concerns around iss e → IsChange around.lowering e →
      Within around i (correlationWindow around / 1000000000) e → Kept around maxSize history i iss e) :
    Tells around maxSize history i iss := by
  rintro _ ⟨e, recorded, concerns, change, within⟩
  exact kept_told (kept e recorded concerns change within) (window_positive checked.observed) concerns change
    within

end Keeping

section Inputs

def noon : Time := ⟨63839707200 * 1000000000, 0⟩

/-- A quiet cluster that was watched for two hours before noon. -/
def quiet : Around where
  lowering := asciiLowering
  getResource _ := none
  activeContext := "prod"
  parse _ := noon
  observationStart := ⟨63839700000 * 1000000000, 0⟩
  started := noon
  now _ _ _ := noon
  answered _ := noon
  forward _ _ _ := le_refl _
  workloads _ _ _ := none
  cached _ _ _ := false

def crashing : Issue where
  severity := .critical
  source := .problem
  category := ⟨"crash"⟩
  categoryGroup := ⟨""⟩
  id := "issue"
  groupingScope := ⟨""⟩
  kind := "Deployment"
  group := "apps"
  namespace_ := "shop"
  name := "web"
  reason := "CrashLoopBackOff"
  message := ""
  diagnosis := ⟨"", "", "", "", 0, false⟩
  firstSeen := noon
  lastSeen := noon
  count := 1
  owner := ⟨"", "", "", ""⟩
  restartCount := 0
  lastTerminatedReason := ""
  affected := ⟨0, 0, 0, 0, 0⟩
  members := []
  membersTruncated := false
  issueTiming := ""
  issueTimingBasis := ""

def probeDiff : DiffInfo :=
  ⟨[⟨"spec.template.spec.containers[web].readinessProbe", .string "/health", .string "/healthz"⟩], ""⟩

/-- The probe of a Deployment changed five minutes before noon. -/
def probeChange (owner : Option OwnerInfo) : Recorded where
  id := "web-spec"
  timestamp := ⟨63839706900 * 1000000000, 0⟩
  source := .informer
  clusterContext := "prod"
  kind := "Deployment"
  apiVersion := "apps/v1"
  namespace_ := "shop"
  name := "web"
  uid := ""
  eventType := .update
  reason := ""
  message := ""
  healthState := ""
  owner := owner
  labels := []
  count := 0
  correlationID := ""
  diff := some probeDiff

/-- Something else was recorded at noon. -/
def other (id : String) : Recorded :=
  { probeChange none with id := id, timestamp := noon, name := "cart", diff := none }

theorem probe_change (owner : Option OwnerInfo) : IsChange asciiLowering (probeChange owner) := by
  have path : hasPrefix (asciiLowering.toLower "spec.template.spec.containers[web].readinessProbe") "spec." =
      true := by decide +kernel
  have spec : hasSpecConfigField asciiLowering (probeChange owner) probeDiff = true := by
    simp [hasSpecConfigField, probeDiff, path]
  refine ⟨"desired-state or configuration field changed", .inl ?_⟩
  have source : (probeChange owner).source = .informer := rfl
  have updated : (probeChange owner).eventType = .update := rfl
  have diff : (probeChange owner).diff = some probeDiff := rfl
  have some_ : probeDiff.fields.length ≠ 0 := by decide
  simp [classify, source, updated, diff, some_, spec]

theorem probe_concerns (owner : Option OwnerInfo) : Concerns quiet crashing (probeChange owner) := by
  have kind : quiet.canonicalKind "Deployment" = "Deployment" := by decide +kernel
  exact ⟨.inr rfl, rfl, .inl ⟨kind.symm, rfl⟩⟩

theorem probe_time : noon.ns - 3600 * 1000000000 ≤ (probeChange none).timestamp.ns := by decide

theorem probe_past : (probeChange none).timestamp.ns ≤ noon.ns := by decide

theorem probe_told : Tells quiet 200 [probeChange none] 0 crashing := by
  refine @kept_tells _ _ _ [crashing] _ _ ⟨by decide +kernel, by decide +kernel, by decide +kernel⟩ ?_
  rintro e member - - -
  obtain rfl := mem_singleton.mp member
  refine ⟨mem_cons_self, by decide, ?_, rfl, "Deployment", mem_cons_self, by decide +kernel, .inr (by decide +kernel),
    by decide +kernel⟩
  rintro e held -
  exact mem_singleton.mp held

/-- A marker on the crashing Deployment denies the change of its probe. -/
theorem probe_denied {owner : Option OwnerInfo} {history : List Recorded} {marks : List Marks}
    (recorded : probeChange owner ∈ history)
    (marked : (marks[0]?.bind Marks.noRecentChanges) = some 3600) : ¬ Honest quiet history [crashing] marks := by
  intro honest
  exact honest 0 crashing 3600 rfl marked _ recorded (probe_concerns owner) (probe_change owner)
    ⟨probe_time, probe_past⟩

/-- A change of a Deployment that an operator owns is not looked for, and one that the store has
overwritten is not found. -/
theorem changes_denied :
    ¬ Honest quiet [probeChange (some ⟨"WebApp", "web"⟩)] [crashing] (attachIssueChangeCorrelation quiet
      (query (recordAll 200 [probeChange (some ⟨"WebApp", "web"⟩)])) [crashing]).1 ∧
    ¬ Honest quiet [probeChange none, other "a", other "b"] [crashing] (attachIssueChangeCorrelation quiet
      (query (recordAll 2 [probeChange none, other "a", other "b"])) [crashing]).1 :=
  ⟨probe_denied mem_cons_self (by decide +kernel), probe_denied mem_cons_self (by decide +kernel)⟩

end Inputs

end IssueCorrelation
