import Radar.Base.LabelSelector
import Radar.Topology.Neighborhood

/- pkg/hpadiag: the metrics of a HorizontalPodAutoscaler, each with its current value. Quantities are
   the texts they print as. -/
namespace HpaMetrics
open GoText LabelSelector NodeRef List

section Model

structure MetricIdentifier where
  name : String
  selector : Option Selector
  deriving DecidableEq

/-- What a metric is read from. A type without its source, or of no known name, is unknown. -/
inductive MetricSource where
  | resource (name : String)
  | containerResource (container name : String)
  | pods (metric : MetricIdentifier)
  | object (apiVersion kind name : String) (metric : MetricIdentifier)
  | external (metric : MetricIdentifier)
  | unknown (type_ : String)
  deriving DecidableEq

structure MetricTarget where
  type_ : String
  averageUtilization : Option Int
  value : Option String
  averageValue : Option String

structure MetricSpec where
  source : MetricSource
  target : MetricTarget

structure MetricStatus where
  source : MetricSource
  averageUtilization : Option Int
  averageValue : Option String
  value : Option String
  deriving DecidableEq

structure Condition where
  type_ : String
  status : String
  reason : String
  message : String

structure Hpa where
  minReplicas : Option Int
  maxReplicas : Int
  currentReplicas : Int
  desiredReplicas : Int
  generation : Int
  observedGeneration : Option Int
  conditions : List Condition
  metrics : List MetricSpec
  currentMetrics : List MetricStatus

structure MetricSummary where
  type_ : String
  name : String
  current : String
  target : String
  status : String
  deriving DecidableEq

def MetricSource.type_ : MetricSource → String
  | resource _ => "Resource"
  | containerResource _ _ => "ContainerResource"
  | pods _ => "Pods"
  | object _ _ _ _ => "Object"
  | external _ => "External"
  | unknown type_ => type_

/-- metricSpecName and metricStatusName. -/
def MetricSource.name : MetricSource → String
  | resource name => name
  | containerResource container name => container ++ "/" ++ name
  | pods metric => metric.name
  | object _ kind name metric => kind ++ "/" ++ name ++ "/" ++ metric.name
  | external metric => metric.name
  | unknown _ => "unknown"

def metricKey (source : MetricSource) : String := source.type_ ++ "/" ++ source.name

def formatTarget (spec : MetricSpec) : String := match spec.source with
  | .unknown _ => ""
  | _ =>
    if spec.target.type_ = "Utilization" then
      (spec.target.averageUtilization.map fun n => toString n ++ "% utilization").getD ""
    else if spec.target.type_ = "Value" then spec.target.value.getD ""
    else if spec.target.type_ = "AverageValue" then
      (spec.target.averageValue.map (· ++ " average")).getD ""
    else ""

def formatCurrent (status : MetricStatus) : String :=
  match status.source, status.averageUtilization, status.averageValue with
  | .unknown _, _, _ => ""
  | _, some n, _ => toString n ++ "% utilization"
  | _, none, some quantity => quantity ++ " average"
  | _, none, none => status.value.getD ""

/-- The map of the current metrics keeps the last one of a key. -/
def current (hpa : Hpa) (spec : MetricSpec) : Option MetricStatus :=
  hpa.currentMetrics.reverse.find? fun status => metricKey status.source = metricKey spec.source

def summaryOf (spec : MetricSpec) (status : Option MetricStatus) : MetricSummary :=
  let shown := (status.map formatCurrent).getD ""
  ⟨spec.source.type_, spec.source.name, shown, formatTarget spec, if shown = "" then "missing" else "ok"⟩

def summarizeMetrics (hpa : Hpa) : List MetricSummary :=
  (hpa.metrics.map fun spec => summaryOf spec (current hpa spec)) ++
  hpa.currentMetrics.filterMap fun status =>
    if hpa.metrics.any fun spec => metricKey spec.source = metricKey status.source then none
    else if status.source.name = "unknown" ∧ formatCurrent status = "" then none
    else some ⟨status.source.type_, status.source.name, formatCurrent status, "", "status_only"⟩

inductive ReasonID where
  | scalingUp | scalingDown | limitedMax | limitedMin | metricsUnavailable | unableToScale
  | scalingDisabled | pinned | staleStatus | scaleDownStabilized | missingCurrentMetric
  deriving DecidableEq

structure Reason where
  id : ReasonID
  message : String
  detail : String
  conditionType : String
  conditionReason : String
  deriving DecidableEq

def conditionReason (id : ReasonID) (cond : Condition) (fallback : String) : Reason :=
  ⟨id, if cond.message = "" then fallback else cond.message, "", cond.type_, cond.reason⟩

def isPinned (min max : Int) : Bool := 0 < max ∧ min = max

def limitedReason (casing : Casing) (min max : Int) (cond : Condition) : List Reason :=
  let reason := casing.toLower cond.reason
  let message := casing.toLower cond.message
  let many := contains reason "toomany"
  let few := contains reason "toofew"
  if isPinned min max ∧ (many ∨ few ∨ contains message "maximum" ∨ contains message "minimum") then
    [conditionReason .pinned cond ("HPA is pinned at " ++ toString max ++ " replicas")]
  else if many ∨ contains message "maximum" then
    [conditionReason .limitedMax cond ("HPA is capped at maxReplicas=" ++ toString max)]
  else if few ∨ contains message "minimum" then
    [conditionReason .limitedMin cond ("HPA is held at minReplicas=" ++ toString min)]
  else if contains reason "stabiliz" ∨ contains message "stabiliz" then
    [conditionReason .scaleDownStabilized cond
      "HPA is holding replicas because of scale-down stabilization"]
  else []

/-- The reasons that are found before the metrics are looked at. -/
def earlyReasons (casing : Casing) (hpa : Hpa) : List Reason := let min := hpa.minReplicas.getD 1
  let observed := hpa.observedGeneration.getD 0
  let cond (type_ status : String) : List Condition :=
    ((hpa.conditions.reverse.find? fun c => c.type_ = type_).toList).filter fun c => c.status = status
  ((cond "AbleToScale" "False").map fun c =>
    conditionReason .unableToScale c "HPA controller cannot scale the target") ++
  ((cond "ScalingActive" "False").map fun c => if casing.equalFold c.reason "ScalingDisabled" ∨
        contains (casing.toLower c.message) "scaling is disabled" then
      conditionReason .scalingDisabled c
        "HPA scaling is disabled because the target has zero replicas"
    else conditionReason .metricsUnavailable c "HPA controller cannot read scaling metrics") ++
  ((cond "ScalingLimited" "True").flatMap (limitedReason casing min hpa.maxReplicas)) ++
  (if 0 < hpa.generation ∧ 0 < observed ∧ observed < hpa.generation then
    [⟨.staleStatus, "HPA status has not observed the latest spec generation yet",
      "observed generation " ++ toString observed ++ ", current generation " ++
        toString hpa.generation, "", ""⟩]
  else []) ++
  (let scaling (way : String) := "Scaling " ++ way ++ " from " ++ toString hpa.currentReplicas ++
      " to " ++ toString hpa.desiredReplicas ++ " replicas"
    if hpa.currentReplicas < hpa.desiredReplicas then [⟨.scalingUp, scaling "up", "", "", ""⟩]
    else if hpa.desiredReplicas < hpa.currentReplicas then
      [⟨.scalingDown, scaling "down", "", "", ""⟩]
    else [])

def missingMetricNames (metrics : List MetricSummary) : List String :=
  (metrics.filter fun m => m.status = "missing").map MetricSummary.name

def missingReason (names : List String) : Reason :=
  ⟨.missingCurrentMetric, "HPA status is missing current values for one or more configured metrics",
    ", ".intercalate names, "", ""⟩

def hasReason (reasons : List Reason) (id : ReasonID) : Bool := reasons.any fun r => r.id = id

/-- The reasons and the metrics of the diagnosis. -/
def analyze (casing : Casing) (hpa : Hpa) : List Reason × List MetricSummary :=
  let early := earlyReasons casing hpa
  let metrics := summarizeMetrics hpa
  let missing := missingMetricNames metrics
  let reasons := early ++
    if hpa.currentMetrics ≠ [] ∧ missing ≠ [] ∧ ¬ hasReason early .metricsUnavailable then
      [missingReason missing]
    else []
  let pinned := isPinned (hpa.minReplicas.getD 1) hpa.maxReplicas ∧
    hpa.currentReplicas = hpa.desiredReplicas ∧ hpa.desiredReplicas = hpa.maxReplicas ∧
    ¬ hasReason reasons .pinned
  (reasons ++ if pinned then
      [⟨.pinned, "HPA is pinned at " ++ toString hpa.maxReplicas ++ " replicas", "", "", ""⟩]
    else [], metrics)

end Model

section Statement

/-- An autoscaler whose every status entry is of one configured metric, and no two of the same. -/
structure Reported extends Hpa where
  apart : (currentMetrics.map MetricStatus.source).Nodup
  configured : ∀ status ∈ currentMetrics, ∃! i : Fin metrics.length, (metrics.get i).source = status.source

/-- The metric's own status entry. -/
def own (hpa : Hpa) (spec : MetricSpec) : Option MetricStatus :=
  hpa.currentMetrics.find? fun status => status.source = spec.source

structure ShowsOwn (casing : Casing) (hpa : Hpa) : Prop where
  metrics : (analyze casing hpa).2 = hpa.metrics.map fun spec => summaryOf spec (own hpa spec)
  once : ∀ status ∈ hpa.currentMetrics,
    ∃! i : Fin hpa.metrics.length, current hpa (hpa.metrics.get i) = some status
  missing : hpa.currentMetrics ≠ [] → hasReason (analyze casing hpa).1 .metricsUnavailable = false →
    (analyze casing hpa).1.filter (fun r => r.id = .missingCurrentMetric) =
      let names := (hpa.metrics.filter fun spec =>
        ((own hpa spec).map formatCurrent).getD "" = "").map fun spec => spec.source.name
      if names = [] then [] else [missingReason names]

end Statement

section Pairing
variable {hpa : Hpa} {spec : MetricSpec} {status : MetricStatus}

theorem current_some (found : current hpa spec = some status) :
    status ∈ hpa.currentMetrics ∧ metricKey status.source = metricKey spec.source :=
  ⟨mem_reverse.mp (mem_of_find?_eq_some found), by simpa using find?_some found⟩

theorem current_exists (member : status ∈ hpa.currentMetrics)
    (same : metricKey status.source = metricKey spec.source) :
    ∃ other, current hpa spec = some other := by
  rw [← Option.isSome_iff_exists, current, find?_isSome]
  exact ⟨status, mem_reverse.mpr member, decide_eq_true same⟩

theorem own_of_source (apart : (hpa.currentMetrics.map MetricStatus.source).Nodup)
    (member : status ∈ hpa.currentMetrics) (same : status.source = spec.source) :
    own hpa spec = some status := by
  obtain ⟨other, found⟩ : ∃ other, own hpa spec = some other := by
    rw [← Option.isSome_iff_exists, own, find?_isSome]
    exact ⟨status, member, decide_eq_true same⟩
  have source : other.source = spec.source := by simpa using find?_some found
  rw [found, inj_on_of_nodup_map apart (mem_of_find?_eq_some found) member
    (source.trans same.symm)]

/-- Where one metric only has the key of an entry, the entry under a metric's key is its own. -/
theorem current_own (hpa : Reported)
    (single : ∀ status ∈ hpa.currentMetrics,
      ∃! i : Fin hpa.metrics.length, metricKey (hpa.metrics.get i).source = metricKey status.source)
    (member : spec ∈ hpa.metrics) : current hpa.toHpa spec = own hpa.toHpa spec := by
  obtain ⟨i, rfl⟩ := get_of_mem member
  cases found : current hpa.toHpa (hpa.metrics.get i) with
  | some status =>
    obtain ⟨listed, key⟩ := current_some found
    obtain ⟨j, source, _⟩ := hpa.configured status listed
    have here := (single status listed).unique key.symm (congrArg metricKey source)
    rw [← here] at source
    exact (own_of_source hpa.apart listed source.symm).symm
  | none =>
    cases owned : own hpa.toHpa (hpa.metrics.get i) with
    | none => rfl
    | some status =>
      have source : status.source = (hpa.metrics.get i).source := by
        simpa using find?_some owned
      obtain ⟨other, some_⟩ := current_exists (mem_of_find?_eq_some owned) (congrArg metricKey source)
      exact absurd (found.symm.trans some_) (by simp)

theorem summaries_own (hpa : Reported)
    (settled : ∀ spec ∈ hpa.metrics, current hpa.toHpa spec = own hpa.toHpa spec) :
    summarizeMetrics hpa.toHpa = hpa.metrics.map fun spec => summaryOf spec (own hpa.toHpa spec) := by
  have rest : hpa.currentMetrics.filterMap (fun status =>
      if hpa.metrics.any fun spec => metricKey spec.source = metricKey status.source then none
      else if status.source.name = "unknown" ∧ formatCurrent status = "" then none
      else some (MetricSummary.mk status.source.type_ status.source.name (formatCurrent status) ""
        "status_only")) = [] := by
    rw [filterMap_eq_nil_iff]
    intro status listed
    obtain ⟨i, source, _⟩ := hpa.configured status listed
    rw [if_pos]
    exact any_eq_true.mpr ⟨_, get_mem _ i, decide_eq_true (congrArg metricKey source)⟩
  rw [summarizeMetrics, rest, append_nil]
  exact map_congr_left fun spec member => by rw [settled spec member]

end Pairing

section Reasons

theorem early_not_missing (casing : Casing) (hpa : Hpa) :
    ∀ r ∈ earlyReasons casing hpa, r.id ≠ .missingCurrentMetric := by
  intro r member
  simp only [earlyReasons, mem_append, mem_map, mem_flatMap] at member
  rcases member with (((⟨c, _, rfl⟩ | ⟨c, _, rfl⟩) | ⟨c, _, limited⟩) | stale) | scaling
  · simp [conditionReason]
  · split <;> simp [conditionReason]
  · unfold limitedReason at limited
    dsimp only at limited
    split_ifs at limited <;> simp_all [conditionReason]
  · split at stale <;> simp_all
  · split_ifs at scaling <;> simp_all

/-- The one reason of missing values follows the missing metrics. -/
theorem missing_reasons (casing : Casing) (hpa : Hpa) (reported : hpa.currentMetrics ≠ [])
    (available : hasReason (analyze casing hpa).1 .metricsUnavailable = false) :
    (analyze casing hpa).1.filter (fun r => r.id = .missingCurrentMetric) =
      if missingMetricNames (summarizeMetrics hpa) = [] then []
      else [missingReason (missingMetricNames (summarizeMetrics hpa))] := by
  have early : (earlyReasons casing hpa).filter (fun r => r.id = .missingCurrentMetric) = [] := by
    rw [filter_eq_nil_iff]
    intro r member found
    exact early_not_missing casing hpa r member (of_decide_eq_true found)
  have fine : hasReason (earlyReasons casing hpa) .metricsUnavailable = false := by
    simp only [analyze, hasReason, any_append, Bool.or_eq_false_iff] at available ⊢
    exact available.1.1
  simp only [analyze, filter_append, early, nil_append, fine]
  split_ifs <;> simp_all [missingReason]

end Reasons

section Conclusion

/-- Every metric is shown with its own value exactly where no other metric goes by the name of one
that is reported. -/
theorem shows_own_iff (casing : Casing) (hpa : Reported) :
    ShowsOwn casing hpa.toHpa ↔ ∀ status ∈ hpa.currentMetrics, ∃! i : Fin hpa.metrics.length,
        metricKey (hpa.metrics.get i).source = metricKey status.source := by
  constructor
  · intro shows status listed
    obtain ⟨i, source, _⟩ := hpa.configured status listed
    refine ⟨i, congrArg metricKey source, fun j key => ?_⟩
    obtain ⟨last, found⟩ :=
      @current_exists hpa.toHpa (hpa.metrics.get i) status listed (congrArg metricKey source).symm
    have same : current hpa.toHpa (hpa.metrics.get j) = some last := by
      rw [← found]
      unfold current
      rw [key, source]
    exact (shows.once last (current_some found).1).unique same found
  · intro single
    have settled := fun spec => @current_own spec hpa single
    have summaries := summaries_own hpa settled
    refine ⟨summaries, fun status listed => ?_, fun reported available => ?_⟩
    · obtain ⟨i, source, _⟩ := hpa.configured status listed
      refine ⟨i, ?_, fun j found => ?_⟩
      · exact (settled _ (List.get_mem _ i)).trans (own_of_source hpa.apart listed source.symm)
      · exact (single status listed).unique (current_some found).2.symm (congrArg metricKey source)
    · rw [missing_reasons casing hpa.toHpa reported available, summaries]
      have names : missingMetricNames (hpa.metrics.map fun spec =>
          summaryOf spec (own hpa.toHpa spec)) = (hpa.metrics.filter fun spec =>
            ((own hpa.toHpa spec).map formatCurrent).getD "" = "").map
              fun spec => spec.source.name := by
        unfold missingMetricNames
        rw [List.filter_map, List.map_map]
        congr 1
        apply List.filter_congr
        intro spec _
        simp only [Function.comp_apply, summaryOf]
        split <;> simp_all
      rw [names]

def queueMetric (queue : String) : MetricSource := .external ⟨"queue_depth", some ⟨[("queue", queue)], []⟩⟩

/-- Two queues of one external metric, told apart by its selector. -/
def twoQueues : Reported where
  minReplicas := some 1
  maxReplicas := 5
  currentReplicas := 2
  desiredReplicas := 2
  generation := 1
  observedGeneration := some 1
  conditions := []
  metrics := [⟨queueMetric "orders", ⟨"Value", none, some "30", none⟩⟩,
    ⟨queueMetric "mails", ⟨"Value", none, some "30", none⟩⟩]
  currentMetrics := [⟨queueMetric "orders", none, none, some "90"⟩,
    ⟨queueMetric "mails", none, none, some "4"⟩]
  apart := by decide
  configured := by
    simp only [List.forall_mem_cons]
    refine ⟨⟨0, rfl, by decide⟩, ⟨1, rfl, by decide⟩, fun _ member => absurd member List.not_mem_nil⟩

theorem second_queue_shown_twice : ¬ ShowsOwn Neighborhood.asciiCasing twoQueues.toHpa := by
  intro shows
  obtain ⟨i, found, _⟩ := shows.once _ List.mem_cons_self
  have none_ : ∀ i : Fin 2, current twoQueues.toHpa (twoQueues.metrics.get i) ≠
      some ⟨queueMetric "orders", none, none, some "90"⟩ := by
    decide
  exact none_ i found

end Conclusion

end HpaMetrics
