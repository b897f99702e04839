import Mathlib.Data.Prod.Lex
import Radar.K8s.PodReferences
import Radar.Mcp.MutationPreview
import Radar.Timeline.RecentChanges

/- internal/meaningfulchanges/meaningfulchanges.go over the ring of pkg/timeline/memory_store.go: the
   events with their diffs, what the feed makes of them, and that neither its ranks nor its limits hide
   a change from those who only ask whether there was one. -/
namespace ChangeFeed
open GoText JsonTree Timeline TimelineFilter RecentChanges Arrange Rfc3339 PodReferences List
variable {opts : QueryOptions}

section Events

structure FieldChange where
  path : String
  oldValue : Value
  newValue : Value

structure DiffInfo where
  fields : List FieldChange
  summary : String

structure Recorded extends TimelineEvent where
  diff : Option DiffInfo

/-- The ring of a memory store, its slots the events with their diffs. -/
abbrev Store := RingLog.Ring Recorded

def zeroRecord : Recorded := { toTimelineEvent := MemoryStore.zeroEvent, diff := none }

def storeSize (maxSize : Int) : Nat := if maxSize ≤ 0 then 1000 else maxSize.toNat

def newMemoryStore (maxSize : Int) : Store := ⟨List.replicate (storeSize maxSize) zeroRecord, 0, 0⟩

/-- A store of so many slots after the events of a history, the first one first. -/
def recordAll (maxSize : Int) (history : List Recorded) : Store :=
  history.foldl RingLog.Ring.push (newMemoryStore maxSize)

/-- What Query passes on of what it meets. -/
def admits (opts : QueryOptions) (e : Recorded) : Bool :=
  MemoryStore.admits opts (presetFilter opts.filterPreset) e.toTimelineEvent

def query (m : Store) (opts : QueryOptions) : List Recorded :=
  Paging.collect (admits opts) opts.offset.toNat opts.pageLimit (m.recent zeroRecord) [] 0

/-- The newest events of a history, as many as there are slots. -/
def retained (maxSize : Int) (history : List Recorded) : List Recorded :=
  history.reverse.take (storeSize maxSize)

end Events

section Kinds
variable (l : Lowering)

/-- The kinds with the other names they go by, for when discovery does not know them. -/
def knownKinds : List (String × List String) := [("ConfigMap", ["cm", "configmap", "configmaps"]),
    ("Deployment", ["deploy", "deployment", "deployments"]),
    ("StatefulSet", ["statefulset", "statefulsets"]),
    ("DaemonSet", ["daemonset", "daemonsets"]),
    ("Service", ["svc", "service", "services"]),
    ("Ingress", ["ingress", "ingresses"]),
    ("HorizontalPodAutoscaler", ["hpa", "horizontalpodautoscaler", "horizontalpodautoscalers"]),
    ("Pod", ["pod", "pods"]),
    ("Application", ["application", "applications"]),
    ("Kustomization", ["kustomization", "kustomizations"]),
    ("HelmRelease", ["helmrelease", "helmreleases"]),
    ("GitRepository", ["gitrepository", "gitrepositories"]),
    ("OCIRepository", ["ocirepository", "ocirepositories"]),
    ("HelmRepository", ["helmrepository", "helmrepositories"]),
    ("CronJob", ["cronjob", "cronjobs"]),
    ("ResourceQuota", ["resourcequota", "resourcequotas", "quota", "quotas"]),
    ("LimitRange", ["limitrange", "limitranges", "limits"]),
    ("Job", ["job", "jobs"]),
    ("ReplicaSet", ["replicaset", "replicasets", "rs"]),
    ("Secret", ["secret", "secrets"]),
    ("PersistentVolumeClaim", ["pvc", "persistentvolumeclaim", "persistentvolumeclaims"]),
    ("PersistentVolume", ["pv", "persistentvolume", "persistentvolumes"]),
    ("ServiceAccount", ["serviceaccount", "serviceaccounts", "sa"]),
    ("NetworkPolicy", ["networkpolicy", "networkpolicies"]),
    ("PodDisruptionBudget", ["poddisruptionbudget", "poddisruptionbudgets", "pdb"]),
    ("MutatingWebhookConfiguration", ["mutatingwebhookconfiguration", "mutatingwebhookconfigurations"]),
    ("ValidatingWebhookConfiguration",
      ["validatingwebhookconfiguration", "validatingwebhookconfigurations"]),
    ("HTTPRoute", ["httproute", "httproutes"]),
    ("GRPCRoute", ["grpcroute", "grpcroutes"]),
    ("Gateway", ["gateway", "gateways"])]

def upperFirst (kind : String) : String := match kind.toList with
  | [] => ""
  | c :: rest => String.ofList (c.toUpper :: rest)

/-- The kind that discovery finds, or the table, or the text itself. -/
def canonicalKind (getResource : String → Option String) (kind : String) : String :=
  match (getResource (trimSpace kind)).filter fun found => found ≠ "" with
  | some found => found
  | none => match knownKinds.find? fun known => known.2.contains (l.toLower (trimSpace kind)) with
    | some known => known.1
    | none => if kind = "" then "" else if l.toLower kind ≠ kind then kind else upperFirst kind

def isConfigKind (kind : String) : Bool := kind == "ConfigMap"

def isWebhookConfigKind (kind : String) : Bool :=
  kind == "MutatingWebhookConfiguration" || kind == "ValidatingWebhookConfiguration"

def isLifecycleOnlyKind (kind : String) : Bool := lifecycleOnlyKinds.contains kind

def isSpecKind (kind : String) : Bool := specKinds.contains kind

def isWorkloadKind (kind : String) : Bool :=
  ["deployment", "deployments", "statefulset", "statefulsets", "daemonset", "daemonsets", "pod",
    "pods"].contains (l.toLower (trimSpace kind))

end Kinds

section Changes
variable (l : Lowering)

inductive ChangeCategory where
  | specConfig
  | lifecycle
  | runtimeStatus
  deriving DecidableEq

def hasSpecConfigField (e : Recorded) (diff : DiffInfo) : Bool :=
  isConfigKind e.kind || isWebhookConfigKind e.kind || diff.fields.any fun f => let p := l.toLower f.path
      hasPrefix p "spec." || hasPrefix p "metadata.generation" || p == "immutable" || hasPrefix p "data"

def hasRuntimeStatusField (diff : DiffInfo) : Bool :=
  diff.fields.any fun f => hasPrefix (l.toLower f.path) "status."

/-- What kind of change an event is and why, nothing where it is none. -/
def classify (e : Recorded) : Option (ChangeCategory × String) := if e.source ≠ .informer then none
  else if e.eventType = .add ∨ e.eventType = .delete then
    if isLifecycleOnlyKind e.kind then
      if e.eventType = .delete then some (.lifecycle, "secret deleted (name only)") else none
    else if isConfigKind e.kind ∨ isSpecKind e.kind then
      if e.eventType = .add ∧ e.reason = "recreated" ∧ (e.diff.any fun diff => diff.fields.length ≠ 0) then
        some (.specConfig, "recreated with desired-state or configuration changes")
      else some (.lifecycle, "resource create/delete for config or desired state")
    else none
  else match e.diff with
  | none => none
  | some diff =>
    if diff.fields.length = 0 then none
    else if hasSpecConfigField l e diff then
      some (.specConfig, "desired-state or configuration field changed")
    else if hasRuntimeStatusField l diff then some (.runtimeStatus, "status field changed")
    else none

structure RecentChange where
  kind : String
  namespace_ : String
  name : String
  changeType : String
  summary : List UInt8
  timestamp : List Char
  changeCategory : ChangeCategory
  rankReason : String
  fields : List FieldChange

/-- A text cut to so many bytes, one of which becomes the ellipsis. -/
def truncate (s : String) (max : Nat) : List UInt8 := let bytes := MutationPreview.bytesOf s
  if bytes.length ≤ max then bytes else bytes.take (max - 1) ++ MutationPreview.bytesOf "…"

def eventSummary (e : Recorded) : List UInt8 := match e.diff.filter fun diff => diff.summary ≠ "" with
  | some diff => MutationPreview.bytesOf diff.summary
  | none =>
    if e.message ≠ "" then truncate e.message 160
    else MutationPreview.bytesOf (eventTypeText e.eventType)

/-- Time.Format to RFC 3339, without the nanoseconds. -/
def formatRFC3339 (t : Time) : List Char := appendInt (year t) 4 ++ '-' ::
    (appendClock (Calendar.isLeap (year t)) (Calendar.yearDay (localDay t)) (daySecond t) ++
      appendZone t.offset)

def fromEvent (fieldLimit : Int) (e : Recorded) : Option RecentChange := (classify l e).map fun c =>
    let fields := (e.diff.map DiffInfo.fields).getD []
    { kind := e.kind, namespace_ := e.namespace_, name := e.name, changeType := eventTypeText e.eventType,
      summary := eventSummary e, timestamp := formatRFC3339 e.timestamp, changeCategory := c.1,
      rankReason := c.2,
      fields := if 0 < fieldLimit ∧ fieldLimit < fields.length then fields.take fieldLimit.toNat else fields }

def score (c : RecentChange) : Int := match c.changeCategory with
  | .specConfig => 100
  | .lifecycle => 70
  | .runtimeStatus => 40

def changeKey (c : RecentChange) : String :=
  c.kind ++ "/" ++ c.namespace_ ++ "/" ++ c.name ++ "/" ++ c.changeType

/-- How time.Parse reads a timestamp, the zero time where it fails. -/
abbrev Parse := List Char → Time

variable (parse : Parse)

def ranksBefore (a b : RecentChange) : Bool := if score a ≠ score b then decide (score b < score a)
  else if !(parse a.timestamp).equal (parse b.timestamp) then
    (parse a.timestamp).after (parse b.timestamp)
  else decide (changeKey a < changeKey b)

def rankAndCap (changes : List RecentChange) (limit : Int) : List RecentChange :=
  let ranked := sortStable (ranksBefore parse) changes
  if 0 < limit ∧ limit < ranked.length then ranked.take limit.toNat else ranked

/-- The ranked changes, and whether there were more of them. -/
def rankedChanges (events : List Recorded) (name : String) (limit fieldLimit : Int) :
    List RecentChange × Bool :=
  let out := (events.filter fun e => !(name != "" && e.name != name)).filterMap (fromEvent l fieldLimit)
  (rankAndCap parse out limit, decide (limit < out.length))

def dedupeEvents (events : List Recorded) : List Recorded :=
  Firsts.firsts (fun e => dedupeKey e.toTimelineEvent) [] events

def coalesceRecreatePairs (events : List Recorded) : List Recorded :=
  events.filter fun e => !(e.eventType == .delete &&
    (recreates (events.map Recorded.toTimelineEvent) (resourceKey e.toTimelineEvent)).any fun ts =>
      !e.timestamp.after ts)

/-- The events that recent ranks, as the store answers its queries. -/
def candidates (ask : QueryOptions → List Recorded) (k : Cluster) (q : Query) : List Recorded :=
  coalesceRecreatePairs (dedupeEvents ((queries k (normalizeQuery k q)).flatMap ask))

/-- The ranked changes, whether more of them qualified, and whether some query was full. -/
def recent (ask : QueryOptions → List Recorded) (k : Cluster) (q : Query) :
    List RecentChange × Bool × Bool :=
  let q' := normalizeQuery k q
  let ranked := rankedChanges l parse (candidates ask k q) q'.name q'.limit q'.fieldLimit
  (ranked.1, ranked.2, (queries k q').any fun opts => decide (opts.limit ≤ (ask opts).length))

def resourceQuery (k : Cluster) (kind namespace_ name : String) (since limit fieldLimit : Int) : Query :=
  ⟨[namespace_], [k.canonicalKind kind], name, since, limit, fieldLimit⟩

def recentForResource (ask : QueryOptions → List Recorded) (k : Cluster) (kind namespace_ name : String)
    (since limit fieldLimit : Int) : List RecentChange × Bool :=
  let answer := recent l parse ask k (resourceQuery k kind namespace_ name since limit fieldLimit)
  (answer.1, answer.2.2)

end Changes

section References

def containerRefs (c : Container) : List String :=
  c.envFrom.flatMap (fun from_ => nameOf from_.configMapRef) ++
    c.env.flatMap fun env => env.valueFrom.toList.flatMap fun source => nameOf source.configMapKeyRef

def volumeRefs (v : Volume) : List String := nameOf v.configMap ++
    (v.projected.getD []).flatMap fun source => nameOf source.configMap

def directConfigMapNames (obj : Option PodSpec) : List String := match obj with
  | none => []
  | some spec => sortStable MutationPreview.lessText (Firsts.firsts id []
    (spec.volumes.flatMap volumeRefs ++ (spec.initContainers ++ spec.containers).flatMap containerRefs))

/-- What is asked about a workload and the ConfigMaps of its pod template, each lookup with the clock
of its own. -/
def lookups (l : Lowering) (obj : Option PodSpec) (kind name : String) : List (String × String) :=
  (if isWorkloadKind l kind then [(kind, name)] else []) ++
    (directConfigMapNames obj).map fun cm => ("ConfigMap", cm)

def recentForWorkloadAndConfigMaps (l : Lowering) (parse : Parse) (ask : QueryOptions → List Recorded)
    (k : Nat → Cluster) (obj : Option PodSpec) (kind namespace_ name : String)
    (since limit fieldLimit : Int) : List RecentChange × Bool :=
  let answers := (lookups l obj kind name).zipIdx.map fun lookup =>
    recentForResource l parse ask (k lookup.2) lookup.1.1 namespace_ lookup.1.2 since limit fieldLimit
  (rankAndCap parse (answers.flatMap Prod.fst) limit, answers.any Prod.snd)

end References

section Retention
variable (maxSize : Int) (history : List Recorded)

theorem size_positive : 0 < storeSize maxSize := by
  unfold storeSize
  split <;> omega

theorem record_holds : RingLog.Holds (recordAll maxSize history) history.reverse ∧
    (recordAll maxSize history).slots.length = storeSize maxSize := by
  have start : RingLog.Holds (newMemoryStore maxSize) [] ∧
      (newMemoryStore maxSize).slots.length = storeSize maxSize := by
    have size : (newMemoryStore maxSize).slots.length = storeSize maxSize := length_replicate
    refine ⟨RingLog.holds_empty _ ?_, size⟩
    rw [length_replicate]
    exact size_positive maxSize
  have pushes : ∀ (events : List Recorded) (m : Store) (log : List Recorded), RingLog.Holds m log →
      RingLog.Holds (events.foldl RingLog.Ring.push m) (events.reverse ++ log) ∧
        (events.foldl RingLog.Ring.push m).slots.length = m.slots.length := by
    intro events
    induction events with
    | nil => exact fun m log holds => ⟨holds, rfl⟩
    | cons e rest ih =>
      intro m log holds
      obtain ⟨later, size⟩ := ih (m.push e) (e :: log) (RingLog.holds_push holds e)
      rw [reverse_cons, append_assoc, singleton_append]
      exact ⟨later, size.trans (by simp [RingLog.Ring.push])⟩
  obtain ⟨holds, size⟩ := pushes history _ _ start.1
  rw [append_nil] at holds
  exact ⟨holds, size.trans start.2⟩

theorem record_recent : (recordAll maxSize history).recent zeroRecord = retained maxSize history := by
  obtain ⟨holds, size⟩ := record_holds maxSize history
  rw [RingLog.recent_eq holds, size, retained]

/-- Query gives a page of what is admitted among the events retained. -/
theorem query_eq : query (recordAll maxSize history) opts =
    Paging.page opts.offset.toNat opts.pageLimit ((retained maxSize history).filter (admits opts)) := by
  rw [query, Paging.collect_page, record_recent]

/-- The ring of events with their diffs answers as the store of the events does. -/
theorem query_events : (query (recordAll maxSize history) opts).map Recorded.toTimelineEvent =
    ((((history.map Recorded.toTimelineEvent).foldl MemoryStore.Store.append
      (MemoryStore.newMemoryStore maxSize)).query opts).1) := by
  have same : MemoryStore.newMemoryStore maxSize = MemoryStore.newMemoryStore (storeSize maxSize) := by
    have positive := size_positive maxSize
    have given : ¬ ((storeSize maxSize : Int) ≤ 0) := by omega
    simp only [MemoryStore.newMemoryStore, if_neg given, Int.toNat_natCast]
    rfl
  obtain ⟨empty, size⟩ := @MemoryStore.refines_new (storeSize maxSize)
    (by have positive := size_positive maxSize; omega)
  have refines := MemoryStore.refines_batch empty (history.map Recorded.toTimelineEvent)
  have kept := MemoryStore.batch_size (history.map Recorded.toTimelineEvent)
    (MemoryStore.newMemoryStore (storeSize maxSize))
  have answer := MemoryStore.query_eq refines opts
  rw [kept, size, Int.toNat_natCast, append_nil] at answer
  rw [same]
  refine Eq.trans ?_ answer.symm
  rw [query_eq, Paging.page, Paging.page, retained, map_take, map_drop, ← map_reverse,
    ← map_take, filter_map]
  rfl

end Retention

section Ranking
variable {l : Lowering} {parse : Parse}

/-- What the correlation keeps: what a failing workload does to its own status is no evidence. -/
def evident (c : RecentChange) : Bool := c.changeCategory == .specConfig || c.changeCategory == .lifecycle

theorem evident_iff (c : RecentChange) : evident c = true ↔ 40 < score c := by
  unfold evident score
  cases c.changeCategory <;> decide

/-- A change of spec or configuration, or a creation or deletion. -/
def IsChange (l : Lowering) (e : Recorded) : Prop :=
  ∃ reason, classify l e = some (.specConfig, reason) ∨ classify l e = some (.lifecycle, reason)

def rankKey (parse : Parse) (c : RecentChange) : ℤ ×ₗ (ℤ ×ₗ String) :=
  toLex (-score c, toLex (-(parse c.timestamp).ns, changeKey c))

theorem ranks_key (parse : Parse) : Selection.Ranks (ranksBefore parse) (rankKey parse) := by
  intro a b
  rw [rankKey, rankKey, Prod.Lex.toLex_lt_toLex, Prod.Lex.toLex_lt_toLex, ranksBefore]
  by_cases scores : score a = score b
  · by_cases times : (parse a.timestamp).ns = (parse b.timestamp).ns
    · simp [scores, times, Time.equal]
    · simp [scores, times, Time.equal, Time.after]
  · have differ : ¬ -score a = -score b := by omega
    simp [scores]

theorem rank_evident (limit : Int) (changes : List RecentChange) :
    (∃ c ∈ rankAndCap parse changes limit, evident c = true) ↔ ∃ c ∈ changes, evident c = true := by
  have members := fun c => (sort_perm (ranksBefore parse) changes).mem_iff (a := c)
  constructor
  · rintro ⟨c, kept, shown⟩
    refine ⟨c, (members c).mp ?_, shown⟩
    unfold rankAndCap at kept
    dsimp only at kept
    split at kept
    · exact mem_of_mem_take kept
    · exact kept
  · rintro ⟨c, listed, shown⟩
    have sorted := sort_ordered (ranks_key parse) changes
    have member := (members c).mpr listed
    unfold rankAndCap
    dsimp only
    cases order : sortStable (ranksBefore parse) changes with
    | nil => exact absurd (order ▸ member) not_mem_nil
    | cons first rest =>
      rw [order] at sorted member
      have leads : evident first = true := by
        rcases mem_cons.mp member with rfl | later
        · exact shown
        · -- no score behind the first one is higher
          have le := (pairwise_cons.mp sorted).1 c later
          rw [rankKey, rankKey, Prod.Lex.toLex_le_toLex] at le
          rw [evident_iff] at shown ⊢
          omega
      refine ⟨first, ?_, leads⟩
      split
      next cut =>
        have some_ : 0 < limit.toNat := by omega
        obtain ⟨n, succ⟩ := Nat.exists_eq_succ_of_ne_zero (Nat.pos_iff_ne_zero.mp some_)
        rw [succ, take_succ_cons]
        exact mem_cons_self
      next => exact mem_cons_self

theorem from_evident {fieldLimit : Int} {e : Recorded} :
    (∃ c, fromEvent l fieldLimit e = some c ∧ evident c = true) ↔ IsChange l e := by
  unfold fromEvent IsChange
  cases kind : classify l e with
  | none => simp
  | some found =>
    obtain ⟨category, reason⟩ := found
    cases category <;> simp [evident]

theorem ranked_evident (events : List Recorded) (name : String) (limit fieldLimit : Int) :
    (∃ c ∈ (rankedChanges l parse events name limit fieldLimit).1, evident c = true) ↔
      ∃ e ∈ events, (name = "" ∨ e.name = name) ∧ IsChange l e := by
  rw [rankedChanges, rank_evident]
  constructor
  · rintro ⟨c, listed, shown⟩
    obtain ⟨e, kept, made⟩ := mem_filterMap.mp listed
    obtain ⟨member, named⟩ := mem_filter.mp kept
    refine ⟨e, member, ?_, from_evident.mp ⟨c, made, shown⟩⟩
    by_cases any : name = ""
    · exact .inl any
    · exact .inr (by simpa [any] using named)
  · rintro ⟨e, member, named, change⟩
    obtain ⟨c, made, shown⟩ := (@from_evident l fieldLimit e).mpr change
    refine ⟨c, mem_filterMap.mpr ⟨e, mem_filter.mpr ⟨member, ?_⟩, made⟩, shown⟩
    rcases named with rfl | same
    · rfl
    · simp [same]

end Ranking

section Fetches
variable {l : Lowering} {parse : Parse} (maxSize : Int) (history : List Recorded) (k : Cluster) (q : Query)

/-- The answers of a store that has no limits on its answers, but no more slots. -/
def unlimited (opts : QueryOptions) : List Recorded := (retained maxSize history).filter (admits opts)

/-- No query of a fetch meets as many events as it takes. -/
def Roomy : Prop := ∀ opts ∈ queries k (normalizeQuery k q),
  ((unlimited maxSize history opts).length : Int) < opts.limit

/-- What a fetch without limits shows of changes. -/
def Shown (l : Lowering) (e : Recorded) : Prop :=
  e ∈ candidates (unlimited maxSize history) k q ∧ (q.name = "" ∨ e.name = q.name) ∧ IsChange l e

theorem query_taken (asked : opts ∈ queries k (normalizeQuery k q)) :
    query (recordAll maxSize history) opts = (unlimited maxSize history opts).take opts.limit.toNat := by
  have page := query_page asked
  have count : opts.limit.toNat = opts.pageLimit := by omega
  have offset : opts.offset = 0 := by
    unfold queries at asked
    split at asked
    · simp only [mem_cons, not_mem_nil, or_false] at asked
      rcases asked with rfl | rfl <;> rfl
    · simp only [mem_cons, not_mem_nil, or_false] at asked
      rcases asked with rfl | rfl | rfl <;> rfl
  rw [query_eq, Paging.page, offset, count]
  rfl

theorem unsaturated_iff :
    (recent l parse (query (recordAll maxSize history)) k q).2.2 = false ↔ Roomy maxSize history k q := by
  rw [recent, any_eq_false, Roomy]
  refine forall₂_congr fun opts asked => ?_
  have low := (query_limit asked).1
  rw [query_taken maxSize history k q asked, decide_eq_true_eq, length_take]
  omega

/-- A fetch that is not full has a change to tell of just where one is shown. -/
theorem recent_evident (roomy : Roomy maxSize history k q) :
    (∃ c ∈ (recent l parse (query (recordAll maxSize history)) k q).1, evident c = true) ↔
      ∃ e, Shown maxSize history k q l e := by
  have same : ∀ opts ∈ queries k (normalizeQuery k q),
      query (recordAll maxSize history) opts = unlimited maxSize history opts := by
    intro opts asked
    have short := roomy opts asked
    rw [query_taken maxSize history k q asked, take_of_length_le (by omega)]
  have fetched : candidates (query (recordAll maxSize history)) k q =
      candidates (unlimited maxSize history) k q := by
    rw [candidates, candidates, flatMap_def, flatMap_def, map_congr_left same]
  rw [recent, ranked_evident, fetched]
  rfl

variable (l parse) (kind namespace_ name : String) (since limit fieldLimit : Int)

theorem resource_unsaturated : (recentForResource l parse (query (recordAll maxSize history)) k kind namespace_
    name since limit fieldLimit).2 = false ↔
      Roomy maxSize history k (resourceQuery k kind namespace_ name since limit fieldLimit) := by
  rw [recentForResource, unsaturated_iff]

theorem resource_evident
    (roomy : Roomy maxSize history k (resourceQuery k kind namespace_ name since limit fieldLimit)) :
    (∃ c ∈ (recentForResource l parse (query (recordAll maxSize history)) k kind namespace_ name since limit
        fieldLimit).1, evident c = true) ↔
      ∃ e, Shown maxSize history k (resourceQuery k kind namespace_ name since limit fieldLimit) l e := by
  rw [recentForResource, recent_evident maxSize history k _ roomy]

end Fetches

section Telling
variable {l : Lowering} {k : Cluster} {maxSize : Int} {history : List Recorded}
  {kind namespace_ name : String} {since limit fieldLimit : Int} {e : Recorded}

/-- A resource whose kind and name the feed asks for as they are. -/
structure Settled (k : Cluster) (kind name asked : String) : Prop where
  kind : k.canonicalKind (k.canonicalKind (k.canonicalKind kind)) = asked
  tracked : isConfigKind asked = true ∨ isSpecKind asked = true
  name : trimSpace name = name

/-- An event that the store still has and that counts for the feed: it has an identifier of its own, it
is no one's but the resource's, and it is from the cluster and the time asked about. -/
structure Counts (maxSize : Int) (history : List Recorded) (k : Cluster) (since : Int) (e : Recorded) :
    Prop where
  retained : e ∈ retained maxSize history
  identified : e.id ≠ ""
  own : ∀ e' ∈ ChangeFeed.retained maxSize history, e'.id = e.id → e' = e
  unowned : e.owner = none
  context : k.activeContext = "" ∨ e.clusterContext = k.activeContext
  recent : (k.now 0).ns - since ≤ e.timestamp.ns

theorem tracked_own {asked : String} (tracked : isConfigKind asked = true ∨ isSpecKind asked = true) :
    asked ≠ "" ∧ isLifecycleOnlyKind asked = false ∧ asked ≠ "ReplicaSet" ∧ asked ≠ "Pod" ∧
      asked ≠ "Event" := by
  have listed : asked ∈ configKinds ++ specKinds := by
    rcases tracked with config | spec
    · have same : asked = "ConfigMap" := beq_iff_eq.mp config
      exact same ▸ mem_cons_self
    · exact mem_append_right _ (contains_iff_mem.mp spec)
  have all : ∀ kind ∈ configKinds ++ specKinds, kind ≠ "" ∧ isLifecycleOnlyKind kind = false ∧
      kind ≠ "ReplicaSet" ∧ kind ≠ "Pod" ∧ kind ≠ "Event" := by decide
  exact all asked listed

theorem change_source (change : IsChange l e) : e.source = .informer := by
  obtain ⟨reason, found⟩ := change
  by_contra other
  simp [classify, other] at found

/-- An add of a kind whose desired state is told of is a change. -/
theorem add_change (source : e.source = .informer) (added : e.eventType = .add)
    (tracked : isConfigKind e.kind = true ∨ isSpecKind e.kind = true) : IsChange l e := by
  have other : ¬ isLifecycleOnlyKind e.kind = true := by simp [(tracked_own tracked).2.1]
  unfold IsChange classify
  rw [if_neg (not_not.mpr source), if_pos (.inl added), if_neg other, if_pos tracked]
  by_cases recreated : e.eventType = .add ∧ e.reason = "recreated" ∧
      (e.diff.any fun diff => diff.fields.length ≠ 0) = true
  · rw [if_pos recreated]
    exact ⟨_, .inl rfl⟩
  · rw [if_neg recreated]
    exact ⟨_, .inr rfl⟩

theorem recreates_some {events : List TimelineEvent} {key : String} {ts : Time}
    (found : recreates events key = some ts) :
    ∃ e ∈ events, e.eventType = .add ∧ e.reason = "recreated" ∧ resourceKey e = key := by
  have step : ∀ (rest : List TimelineEvent) (held : Option Time),
      (held ≠ none → ∃ e ∈ events, e.eventType = .add ∧ e.reason = "recreated" ∧ resourceKey e = key) →
      (∀ e ∈ rest, e ∈ events) → rest.foldl (fun held e =>
        if e.eventType = .add ∧ e.reason = "recreated" ∧ resourceKey e = key ∧
            held.all (fun ts => e.timestamp.after ts) then some e.timestamp else held) held ≠ none →
      ∃ e ∈ events, e.eventType = .add ∧ e.reason = "recreated" ∧ resourceKey e = key := by
    intro rest
    induction rest with
    | nil => exact fun held known _ left => known left
    | cons e rest ih =>
      intro held known inside left
      rw [foldl_cons] at left
      refine ih _ (fun taken => ?_) (fun e' member => inside e' (mem_cons_of_mem e member)) left
      by_cases add : e.eventType = .add ∧ e.reason = "recreated" ∧ resourceKey e = key ∧
          held.all (fun ts => e.timestamp.after ts)
      · exact ⟨e, inside e mem_cons_self, add.1, add.2.1, add.2.2.1⟩
      · rw [if_neg add] at taken
        exact known taken
  exact step events none (by simp) (fun _ member => member) (by rw [recreates] at found; simp [found])

/-- What a fetch for one resource passes on is of that resource. -/
structure Asked (asked namespace_ name : String) (e : Recorded) : Prop where
  kind : e.kind = asked
  namespace_ : e.namespace_ = namespace_
  source : e.source = .informer
  identified : e.id ≠ ""
  name : name = "" ∨ e.name = name

theorem resource_queries (k : Cluster) (kind namespace_ name : String) (since limit fieldLimit : Int) :
    queries k (normalizeQuery k (resourceQuery k kind namespace_ name since limit fieldLimit)) =
      [queryCandidates k (normalizeQuery k (resourceQuery k kind namespace_ name since limit fieldLimit)) 0
          [k.canonicalKind (k.canonicalKind kind)] (candidateLimit
            (normalizeQuery k (resourceQuery k kind namespace_ name since limit fieldLimit)).limit (name ≠ "")),
        queryLifecycleCandidates k
          (normalizeQuery k (resourceQuery k kind namespace_ name since limit fieldLimit)) 1
          [k.canonicalKind (k.canonicalKind kind)]] := by
  rw [queries, if_pos (.inl (by simp [normalizeQuery, resourceQuery]))]
  rfl

theorem asked_kinds {asked : String} (settled : Settled k kind name asked) :
    compactKinds k [k.canonicalKind (k.canonicalKind kind)] = [asked] := by
  have some_ := (tracked_own settled.tracked).1
  rw [compactKinds, map_singleton, settled.kind, filter_cons_of_pos (by simpa using some_)]
  rfl

theorem asked_names {asked : String} (settled : Settled k kind name asked) :
    compactNames name = if name = "" then [] else [name] := by
  rw [compactNames, settled.name]

/-- Every query for given kinds asks for these, by namespace, source and name. -/
theorem queries_ask {q : Query} (some_ : 0 < q.kinds.length) (listed : opts ∈ queries k q) :
    opts.kinds = compactKinds k q.kinds ∧ opts.namespaces = q.namespaces ∧ opts.sources = [.informer] ∧
      opts.names = compactNames q.name := by
  rw [queries, if_pos (.inl some_), mem_cons, mem_singleton] at listed
  rcases listed with rfl | rfl
  · simp [queryCandidates]
  · simp [queryLifecycleCandidates, queryCandidates]

theorem admitted_asked {asked : String} (settled : Settled k kind name asked) (listed : opts ∈ queries k
      (normalizeQuery k (resourceQuery k kind namespace_ name since limit fieldLimit)))
    (admitted : admits opts e = true) : Asked asked namespace_ name e := by
  obtain ⟨kinds, namespaces, sources, names⟩ := queries_ask (by simp [normalizeQuery, resourceQuery]) listed
  rw [normalizeQuery, resourceQuery, map_singleton, asked_kinds settled] at kinds
  rw [normalizeQuery, resourceQuery] at namespaces
  rw [normalizeQuery, resourceQuery, asked_names settled] at names
  simp only [admits, MemoryStore.admits, MemoryStore.matchesFilters, kinds, namespaces, sources, names,
    Bool.and_eq_true] at admitted
  refine ⟨?_, ?_, ?_, ?_, ?_⟩
  · simpa using admitted.2.1.1.1.1.1.1.2
  · simpa using admitted.2.1.1.1.1.1.1.1.2
  · simpa using admitted.2.1.1.1.1.2
  · simpa using admitted.1
  · by_cases any : name = ""
    · exact .inl any
    · simpa [any] using admitted.2.1.1.1.1.1.2

/-- A change that counts is admitted by the first query of its resource's fetch. -/
theorem counts_admitted {asked : String} (settled : Settled k kind name asked)
    (counts : Counts maxSize history k since e) (change : IsChange l e) (positive : 0 < since)
    (kinds : e.kind = asked) (namespaces : e.namespace_ = namespace_) (names : e.name = name) :
    e ∈ unlimited maxSize history (queryCandidates k
      (normalizeQuery k (resourceQuery k kind namespace_ name since limit fieldLimit)) 0
      [k.canonicalKind (k.canonicalKind kind)] (candidateLimit
        (normalizeQuery k (resourceQuery k kind namespace_ name since limit fieldLimit)).limit (name ≠ ""))) := by
  obtain ⟨_, _, replica, pod, event⟩ := tracked_own settled.tracked
  have window : (normalizeQuery k (resourceQuery k kind namespace_ name since limit fieldLimit)).since = since :=
    if_neg (not_le.mpr positive)
  have source := change_source change
  have recent := counts.recent
  have context := counts.context
  refine mem_filter.mpr ⟨counts.retained, ?_⟩
  have listed : compactNames name = [] ∨ compactNames name = [e.name] := by
    rw [asked_names settled, names]
    by_cases any : name = ""
    · exact .inl (if_pos any)
    · exact .inr (if_neg any)
  have before : e.timestamp.before ⟨(k.now 0).ns - since, (k.now 0).offset⟩ = false := by
    simp only [Time.before, decide_eq_false_iff_not]
    omega
  have managed : e.isManaged = false := by
    simp [TimelineEvent.isManaged, counts.unowned, kinds, replica, pod, event]
  have named : (compactNames name).isEmpty = true ∨ (compactNames name).contains e.name = true := by
    rcases listed with none_ | one
    · exact .inl (by rw [none_]; rfl)
    · exact .inr (by rw [one]; simp)
  have preset : presetFilter "" = none := rfl
  simp only [admits, MemoryStore.admits, MemoryStore.matchesFilters, queryCandidates, asked_kinds settled,
    window, preset, before, managed, source, kinds, Bool.and_eq_true, Bool.or_eq_true]
  refine ⟨by simpa using counts.identified, ⟨⟨⟨⟨⟨⟨⟨⟨⟨⟨⟨trivial, ?_⟩, .inr rfl⟩, .inl rfl⟩, ?_⟩, ?_⟩, ?_⟩, ?_⟩, ?_⟩, ?_⟩, ?_⟩, ?_⟩⟩
  · simpa using context
  · exact .inr (by simp [normalizeQuery, resourceQuery, namespaces])
  · exact .inr (by simp)
  · exact named
  · exact .inr (by decide)
  · exact .inl rfl
  · rfl
  · rfl
  · decide

/-- A change that counts is told of, or the recreation that followed it is. -/
theorem counts_shown {asked : String} (settled : Settled k kind name asked)
    (counts : Counts maxSize history k since e) (change : IsChange l e) (positive : 0 < since)
    (kinds : e.kind = asked) (namespaces : e.namespace_ = namespace_) (names : e.name = name) :
    ∃ e', Shown maxSize history k (resourceQuery k kind namespace_ name since limit fieldLimit) l e' := by
  have fetched := @counts_admitted l k maxSize history kind namespace_ name since limit fieldLimit e asked
    settled counts change positive kinds namespaces names
  have all : ∀ e' ∈ (queries k (normalizeQuery k
      (resourceQuery k kind namespace_ name since limit fieldLimit))).flatMap (unlimited maxSize history),
      e' ∈ retained maxSize history ∧ Asked asked namespace_ name e' := by
    intro e' member
    obtain ⟨opts, listed, answered⟩ := mem_flatMap.mp member
    obtain ⟨kept, admitted⟩ := mem_filter.mp answered
    exact ⟨kept, admitted_asked settled listed admitted⟩
  have member : e ∈ (queries k (normalizeQuery k
      (resourceQuery k kind namespace_ name since limit fieldLimit))).flatMap (unlimited maxSize history) := by
    refine mem_flatMap.mpr ⟨_, ?_, fetched⟩
    rw [resource_queries]
    exact mem_cons_self
  have deduped : e ∈ dedupeEvents ((queries k (normalizeQuery k
      (resourceQuery k kind namespace_ name since limit fieldLimit))).flatMap (unlimited maxSize history)) := by
    obtain ⟨y, held, same⟩ : ∃ y ∈ dedupeEvents _, dedupeKey y.toTimelineEvent = dedupeKey e.toTimelineEvent :=
      Firsts.firsts_covers [] member
    obtain ⟨kept, asked_⟩ := all y (Firsts.firsts_mem held)
    have ids : y.id = e.id := by
      simpa [dedupeKey, asked_.identified, counts.identified] using same
    exact counts.own y kept ids ▸ held
  generalize events_ : dedupeEvents ((queries k (normalizeQuery k
    (resourceQuery k kind namespace_ name since limit fieldLimit))).flatMap (unlimited maxSize history)) =
      events at deduped
  have inside : ∀ e' ∈ events, Asked asked namespace_ name e' := by
    intro e' listed
    rw [← events_] at listed
    exact (all e' (Firsts.firsts_mem listed)).2
  have shown : ∀ e' ∈ coalesceRecreatePairs events, IsChange l e' →
      Shown maxSize history k (resourceQuery k kind namespace_ name since limit fieldLimit) l e' := by
    intro e' listed change'
    refine ⟨?_, (inside e' (mem_of_mem_filter listed)).name, change'⟩
    rw [candidates, events_]
    exact listed
  by_cases kept : e ∈ coalesceRecreatePairs events
  · exact ⟨e, shown e kept change⟩
  · -- the deletion of a resource that came back: the add that replaced it stays
    have dropped : ∃ ts, recreates (events.map Recorded.toTimelineEvent) (resourceKey e.toTimelineEvent) =
        some ts := by
      by_contra never
      refine kept (mem_filter.mpr ⟨deduped, ?_⟩)
      have none_ := Option.eq_none_iff_forall_ne_some.mpr fun ts found => never ⟨ts, found⟩
      rw [none_]
      simp
    obtain ⟨ts, found⟩ := dropped
    obtain ⟨add, listed, added, _, _⟩ := recreates_some found
    obtain ⟨e', member', rfl⟩ := mem_map.mp listed
    have asked' := inside e' member'
    refine ⟨e', shown e' (mem_filter.mpr ⟨member', ?_⟩) ?_⟩
    · rw [added]
      rfl
    · exact add_change asked'.source added (asked'.kind ▸ settled.tracked)

end Telling

end ChangeFeed
