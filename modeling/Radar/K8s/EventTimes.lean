import Radar.Base.GoText
import Radar.Timeline.Types

/- pkg/k8score/transform.go: the transform of the cached objects; and the event loops of
   internal/k8s/detect_scheduling.go and internal/k8s/detect.go, which read cached events. -/
namespace EventTimes
open GoText Timeline List

structure ObjectReference where
  kind : String
  namespace_ : String
  name : String
  uid : String
  apiVersion : String
  resourceVersion : String
  fieldPath : String
  deriving DecidableEq

structure ObjectMeta where
  name : String
  namespace_ : String
  uid : String
  resourceVersion : String
  creationTimestamp : Time
  labels : List (String × String)
  annotations : List (String × String)
  managedFields : List String
  deriving DecidableEq

structure EventSeries where
  count : Int
  lastObservedTime : Time
  deriving DecidableEq

/-- core/v1. A time that is not set is the zero time. -/
structure Event extends ObjectMeta where
  involvedObject : ObjectReference
  reason : String
  message : String
  source : String
  firstTimestamp : Time
  lastTimestamp : Time
  count : Int
  type : String
  eventTime : Time
  series : Option EventSeries
  action : String
  related : Option ObjectReference
  reportingController : String
  reportingInstance : String
  deriving DecidableEq

/-- What an informer hands to the transform; the kind stands for the Go type. -/
inductive Object where
  | event (e : Event)
  | resource (kind : String) (objectMeta : ObjectMeta)

def zeroTime : Time := ⟨0, 0⟩

def lastAppliedAnnotation : String := "kubectl.kubernetes.io/last-applied-configuration"

def annotatedKinds : List String :=
  [ "Pod", "Service", "Node", "Namespace", "PersistentVolumeClaim", "PersistentVolume", "ConfigMap",
    "Secret", "ServiceAccount", "Deployment", "DaemonSet", "StatefulSet", "ReplicaSet", "Ingress",
    "IngressClass", "Job", "CronJob", "HorizontalPodAutoscaler", "PodDisruptionBudget",
    "StorageClass"]

/-- The event built anew of the fields that are named, all others with their zero values. -/
def stripEvent (e : Event) : Event where
  name := e.name
  namespace_ := e.namespace_
  uid := e.uid
  resourceVersion := e.resourceVersion
  creationTimestamp := e.creationTimestamp
  labels := []
  annotations := []
  managedFields := []
  involvedObject := e.involvedObject
  reason := e.reason
  message := e.message
  source := ""
  firstTimestamp := e.firstTimestamp
  lastTimestamp := e.lastTimestamp
  count := e.count
  type := e.type
  eventTime := zeroTime
  series := none
  action := ""
  related := none
  reportingController := ""
  reportingInstance := ""

def dropManagedFields : Object → Object
  | .event e => .event (stripEvent e)
  | .resource kind objectMeta =>
    let unmanaged := { objectMeta with managedFields := [] }
    .resource kind (if annotatedKinds.contains kind then
      { unmanaged with
        annotations := unmanaged.annotations.filter fun a => a.1 != lastAppliedAnnotation }
      else unmanaged)

def eventLastTime (e : Event) : Time :=
  if e.lastTimestamp.isZero = false then e.lastTimestamp else e.eventTime

def eventFirstTime (e : Event) : Time :=
  if e.firstTimestamp.isZero = false then e.firstTimestamp else e.eventTime

def second : Int := 1000000000

def minute : Int := 60 * second

/-- Time.Sub, which stops at the largest and the smallest duration. -/
def sub (t u : Time) : Int := max (-0x8000000000000000) (min 0x7fffffffffffffff (t.ns - u.ns))

section Loop
variable {α β γ : Type}

/-- The entry of a key replaced by a later one, or a new entry at the end. -/
def keepLatest (after : β → β → Bool) (key : String) (c : β) : List (String × β) → List (String × β)
  | [] => [(key, c)]
  | (name, cur) :: rest =>
    if name = key then (name, if after c cur then c else cur) :: rest
    else (name, cur) :: keepLatest after key c rest

/-- One entry for each key, that of the latest event, in the order the keys come up. -/
def latestPer (admitted : α → Option (String × β)) (after : β → β → Bool) (events : List α) :
    List (String × β) :=
  events.foldl
    (fun held e =>
      match admitted e with
      | none => held
      | some (key, c) => keepLatest after key c held) []

end Loop

/-- A candidate of the detectors: an event and the reason it is read for. -/
structure Candidate where
  ev : Event
  reason : String

def Candidate.after (c cur : Candidate) : Bool := (eventLastTime c.ev).after (eventLastTime cur.ev)

section Admission

def admissionFailureWindow : Int := 30 * minute

def classifyAdmissionFailure (lowering : Lowering) (msg : String) : Option String :=
  let lower := lowering.toLower msg
  if contains lower "exceeded quota" || contains lower "failed quota" then some "QuotaExceeded"
  else if contains lower "violates podsecurity" || contains lower "violates pod security" then
    some "PodSecurityViolation"
  else if contains lower "admission webhook" && contains lower "denied" then some "WebhookDenied"
  else if contains lower "forbidden" && (contains lower "limitrange" || contains lower "maximum" ||
      contains lower "minimum") then some "LimitRangeViolation"
  else if contains lower "forbidden" && contains lower "cannot create resource" &&
      contains lower "\"pods\"" then some "RBACForbidden"
  else none

structure Detection where
  kind : String
  namespace_ : String
  name : String
  severity : String
  reason : String
  message : String
  age : String
  ageSeconds : Int
  duration : String
  durationSeconds : Int
  deriving DecidableEq

/-- What the detectors take from elsewhere in the cache: whether a controller is still short of pods,
   the problems its conditions show beside those listed, and how a duration is written. -/
structure Surroundings where
  lowering : Lowering
  now : Time
  admissionTargetStillBlocked : ObjectReference → Bool
  detectAdmissionConditionProblems : List String → List Detection
  formatAge : Int → String
  stuck : String → Bool

variable (around : Surroundings)

def objectKey (obj : ObjectReference) : String := obj.kind ++ "/" ++ obj.namespace_ ++ "/" ++ obj.name

def admitFailedCreate (e : Event) : Option (String × Candidate) := if e.reason ≠ "FailedCreate" then none
  else if (eventLastTime e).isZero = false ∧
      admissionFailureWindow < sub around.now (eventLastTime e) then none
  else
    match classifyAdmissionFailure around.lowering e.message with
    | none => none
    | some reason =>
      if around.admissionTargetStillBlocked e.involvedObject = false then none
      else some (objectKey e.involvedObject, ⟨e, reason⟩)

def admissionDetection (c : Candidate) : Detection := let ageDur := sub around.now (eventFirstTime c.ev)
  { kind := c.ev.involvedObject.kind
    namespace_ := c.ev.involvedObject.namespace_
    name := c.ev.involvedObject.name
    severity := "critical"
    reason := c.reason
    message := "pod creation blocked: " ++ trimSpace c.ev.message
    age := around.formatAge ageDur
    ageSeconds := ageDur.tdiv second
    duration := around.formatAge ageDur
    durationSeconds := ageDur.tdiv second }

def detectAdmissionFailures (events : List Event) : List Detection :=
  let latest := latestPer (admitFailedCreate around) Candidate.after events
  let problems := latest.map fun entry => admissionDetection around entry.2
  problems ++ around.detectAdmissionConditionProblems
    (problems.map fun p => p.kind ++ "/" ++ p.namespace_ ++ "/" ++ p.name)

end Admission

section PostBind
variable (around : Surroundings)

def postBindFailureWindow : Int := 10 * minute

def classifyPostBindFailure (lowering : Lowering) (reason msg : String) : Option String :=
  let lower := lowering.toLower msg
  if reason = "FailedCreatePodSandBox" ∨ contains lower "failed to create pod sandbox" = true then
    if contains lower "assign an ip" || contains lower "insufficientfreeaddresses" ||
        contains lower "no ip addresses available" || contains lower "all ip addresses" then
      some "IPExhaustion"
    else some "SandboxCreationFailed"
  else if reason = "FailedAttachVolume" then
    if contains lower "multi-attach" then some "VolumeMultiAttach" else some "VolumeAttach"
  else if reason = "FailedMount" then some "VolumeMount"
  else none

def isVolumePostBindReason (reason : String) : Bool :=
  ["VolumeMultiAttach", "VolumeAttach", "VolumeMount"].contains reason

def podKey (obj : ObjectReference) : String := obj.namespace_ ++ "/" ++ obj.name

def expired (e : Event) : Bool :=
  !(eventLastTime e).isZero && decide (postBindFailureWindow < sub around.now (eventLastTime e))

/-- Of a pod's post-bind events those that have expired go into a map of their own. -/
def admitPostBind (old : Bool) (e : Event) : Option (String × Candidate) :=
  if e.involvedObject.kind ≠ "Pod" then none
  else
    match classifyPostBindFailure around.lowering e.reason e.message with
    | none => none
    | some reason =>
      if around.stuck (podKey e.involvedObject) = false then none
      else if expired around e = old then some (podKey e.involvedObject, ⟨e, reason⟩)
      else none

/-- What detectPostBindProblems reads of the two maps: reason and message of the recent failures, and
   the pods whose expired failure is one of a volume. -/
def postBindFailures (events : List Event) : List (String × String × String) × List String :=
  let latest := latestPer (admitPostBind around false) Candidate.after events
  let expiredLatest := latestPer (admitPostBind around true) Candidate.after events
  (latest.map fun entry => (entry.1, entry.2.reason, entry.2.ev.message),
    (expiredLatest.filter fun entry => isVolumePostBindReason entry.2.reason).map (·.1))

def admitExpired (e : Event) : Option (String × Candidate) := if e.involvedObject.kind ≠ "Pod" then none
  else
    match classifyPostBindFailure around.lowering e.reason e.message with
    | none => none
    | some reason =>
      if expired around e then some (podKey e.involvedObject, ⟨e, reason⟩) else none

def expiredVolumePostBindPodKeys (events : List Event) : List String :=
  let latestReason := latestPer (admitExpired around) Candidate.after events
  (latestReason.filter fun entry => isVolumePostBindReason entry.2.reason).map (·.1)

end PostBind

section Latest
variable (around : Surroundings)

structure PvcPendingFailure where
  message : String
  cause : String
  action : String
  at_ : Time

def pvcPendingFailureFromEvent (e : Event) : Option PvcPendingFailure := let trimmed := trimSpace e.message
  let message := if trimmed = "" then e.reason else trimmed
  if e.reason = "ProvisioningFailed" then
    some
      { message := message
        cause := "Storage provisioner failed to create a volume."
        action := "Check the StorageClass/provisioner and CSI controller events or logs; " ++
          "fix the provisioner error, quota, credentials, or backend volume settings."
        at_ := eventLastTime e }
  else if e.reason = "FailedBinding" then
    some
      { message := message
        cause := "PVC could not bind to a PersistentVolume."
        action := "Check matching PersistentVolumes, StorageClass topology and volumeBindingMode, " ++
          "and any consuming pod scheduling constraints."
        at_ := eventLastTime e }
  else none

def admitPvcFailure (e : Event) : Option (String × PvcPendingFailure) :=
  if e.type ≠ "Warning" ∨ e.involvedObject.kind ≠ "PersistentVolumeClaim" then none
  else
    match pvcPendingFailureFromEvent e with
    | none => none
    | some failure =>
      if failure.at_.isZero then none else some (podKey e.involvedObject, failure)

def latestPVCPendingFailures (events : List Event) : List (String × PvcPendingFailure) :=
  latestPer admitPvcFailure (fun failure cur => failure.at_.after cur.at_) events

def probeFailureWindow : Int := 10 * minute

structure ProbeFailure where
  reason : String
  message : String
  at_ : Time

def classifyProbeFailureEvent (lowering : Lowering) (reason msg : String) : Option String :=
  if reason ≠ "Unhealthy" then none
  else if contains (lowering.toLower msg) "liveness probe failed" then some "LivenessProbeFailed"
  else if contains (lowering.toLower msg) "readiness probe failed" then some "ReadinessProbeFailed"
  else none

def admitProbeFailure (e : Event) : Option (String × ProbeFailure) :=
  if e.involvedObject.kind ≠ "Pod" then none
  else
    match classifyProbeFailureEvent around.lowering e.reason e.message with
    | none => none
    | some reason =>
      let t := eventLastTime e
      if t.isZero = true ∨ probeFailureWindow < sub around.now t then none
      else some (podKey e.involvedObject, ⟨reason, trimSpace e.message, t⟩)

def latestProbeFailures (events : List Event) : List (String × ProbeFailure) :=
  latestPer (admitProbeFailure around) (fun failure cur => failure.at_.after cur.at_) events

end Latest

section Kept

theorem keep_latest_map {β γ : Type} {after : β → β → Bool} {after' : γ → γ → Bool} (h : β → γ)
    (same : ∀ c cur, after' (h c) (h cur) = after c cur) (key : String) (c : β)
    (held : List (String × β)) :
    (keepLatest after key c held).map (Prod.map id h) =
      keepLatest after' key (h c) (held.map (Prod.map id h)) := by
  induction held with
  | nil => rfl
  | cons entry rest ih =>
    obtain ⟨name, cur⟩ := entry
    simp only [map_cons, Prod.map_apply, id_eq, keepLatest]
    by_cases here : name = key
    · rw [if_pos here, if_pos here, map_cons, same]
      split <;> rfl
    · rw [if_neg here, if_neg here, map_cons, ih]
      rfl

/-- A loop seen through what is read of its entries. -/
theorem latest_per_map {α β γ : Type} {admitted : α → Option (String × β)} {after : β → β → Bool}
    {after' : γ → γ → Bool} (h : β → γ) (same : ∀ c cur, after' (h c) (h cur) = after c cur)
    (events : List α) :
    (latestPer admitted after events).map (Prod.map id h) =
      latestPer (fun e => (admitted e).map (Prod.map id h)) after' events := by
  have run : ∀ held, (events.foldl (fun held e =>
        match admitted e with
        | none => held
        | some (key, c) => keepLatest after key c held) held).map (Prod.map id h) =
      events.foldl (fun held e =>
        match (admitted e).map (Prod.map id h) with
        | none => held
        | some (key, c) => keepLatest after' key c held) (held.map (Prod.map id h)) := by
    induction events with
    | nil => intro held; rfl
    | cons e rest ih =>
      intro held
      rw [foldl_cons, foldl_cons, ih]
      cases admitted e with
      | none => rfl
      | some entry => exact congrArg (rest.foldl _) (keep_latest_map h same entry.1 entry.2 held)
  exact run []

theorem latest_per_congr {α β : Type} {admitted : α → Option (String × β)} {after : β → β → Bool}
    {f : α → α} {events : List α} (same : ∀ e ∈ events, admitted (f e) = admitted e) :
    latestPer admitted after (events.map f) = latestPer admitted after events := by
  rw [latestPer, latestPer, foldl_map]
  apply foldl_ext
  intro held e member
  rw [same e member]

/-- All that the detectors read of a candidate. -/
structure Reading where
  involvedObject : ObjectReference
  message : String
  reason : String
  first : Int
  last : Int

def Candidate.reading (c : Candidate) : Reading :=
  ⟨c.ev.involvedObject, c.ev.message, c.reason, (eventFirstTime c.ev).ns, (eventLastTime c.ev).ns⟩

def Reading.after (c cur : Reading) : Bool := decide (cur.last < c.last)

theorem candidates_alike {admitted : Event → Option (String × Candidate)} {events : List Event}
    (same : ∀ e ∈ events, (admitted (stripEvent e)).map (Prod.map id Candidate.reading) =
      (admitted e).map (Prod.map id Candidate.reading)) :
    (latestPer admitted Candidate.after (events.map stripEvent)).map (Prod.map id Candidate.reading) =
      (latestPer admitted Candidate.after events).map (Prod.map id Candidate.reading) := by
  have seen := @latest_per_map _ _ _ admitted Candidate.after Reading.after Candidate.reading
    fun _ _ => rfl
  rw [seen, seen, latest_per_congr same]

section Alike
variable {α κ : Type} {k : α → κ} {xs ys : List α}

/-- What depends on the keys alone is the same on lists with the same keys. -/
theorem map_alike {δ : Type} {g : α → δ} (determined : ∀ x y, k x = k y → g x = g y)
    (alike : xs.map k = ys.map k) : xs.map g = ys.map g := by
  induction xs generalizing ys with
  | nil =>
    rw [map_nil, eq_comm, map_eq_nil_iff] at alike
    rw [alike]
  | cons x rest ih =>
    cases ys with
    | nil => cases alike
    | cons y more =>
      obtain ⟨first, later⟩ := cons.inj alike
      rw [map_cons, map_cons, determined x y first, ih later]

theorem filter_alike {p : α → Bool} (determined : ∀ x y, k x = k y → p x = p y)
    (alike : xs.map k = ys.map k) : (xs.filter p).map k = (ys.filter p).map k := by
  induction xs generalizing ys with
  | nil =>
    rw [map_nil, eq_comm, map_eq_nil_iff] at alike
    rw [alike]
  | cons x rest ih =>
    cases ys with
    | nil => cases alike
    | cons y more =>
      obtain ⟨first, later⟩ := cons.inj alike
      rw [filter_cons, filter_cons, determined x y first]
      split
      · rw [map_cons, map_cons, first, ih later]
      · exact ih later

end Alike

/-- Where a legacy time is not set, there is no event time to fall back on either. -/
structure Timed (e : Event) : Prop where
  first : e.firstTimestamp.isZero = true → e.eventTime.isZero = true
  last : e.lastTimestamp.isZero = true → e.eventTime.isZero = true

instance (e : Event) : Decidable (Timed e) :=
  decidable_of_iff ((e.firstTimestamp.isZero = true → e.eventTime.isZero = true) ∧
    (e.lastTimestamp.isZero = true → e.eventTime.isZero = true))
    ⟨fun both => ⟨both.1, both.2⟩, fun timed => ⟨timed.first, timed.last⟩⟩

theorem zero_ns (t : Time) : t.isZero = true ↔ t.ns = 0 := beq_iff_eq

/-- A time taken over, or the zero time for one that falls back on the event time. -/
theorem fallback_alike (legacy eventTime : Time) : (if legacy.isZero = false then legacy else zeroTime).ns =
        (if legacy.isZero = false then legacy else eventTime).ns ↔
      (legacy.isZero = true → eventTime.isZero = true) := by
  rw [zero_ns eventTime]
  cases legacy.isZero with
  | false => simp
  | true => simp [zeroTime, eq_comm]

theorem times_alike_iff (e : Event) : ((eventFirstTime (stripEvent e)).ns = (eventFirstTime e).ns ∧
      (eventLastTime (stripEvent e)).ns = (eventLastTime e).ns) ↔ Timed e := by
  constructor
  · rintro ⟨first, last⟩
    exact ⟨(fallback_alike _ _).mp first, (fallback_alike _ _).mp last⟩
  · intro timed
    exact ⟨(fallback_alike _ _).mpr timed.first, (fallback_alike _ _).mpr timed.last⟩

section Detectors
variable (around : Surroundings) {e : Event}

theorem zero_alike {t u : Time} (same : t.ns = u.ns) : t.isZero = u.isZero := by
  rw [Time.isZero, Time.isZero, same]

theorem sub_alike {t u : Time} (same : t.ns = u.ns) : sub around.now t = sub around.now u := by
  rw [sub, sub, same]

theorem reading_alike (timed : Timed e) (reason : String) :
    (⟨stripEvent e, reason⟩ : Candidate).reading = (⟨e, reason⟩ : Candidate).reading := by
  obtain ⟨first, last⟩ := (times_alike_iff e).mpr timed
  simp only [Candidate.reading, first, last]
  rfl

theorem expired_alike (timed : Timed e) : expired around (stripEvent e) = expired around e := by
  have last := ((times_alike_iff e).mpr timed).2
  rw [expired, expired, zero_alike last, sub_alike around last]

theorem strip_fields (e : Event) : (stripEvent e).reason = e.reason ∧ (stripEvent e).message = e.message ∧
    (stripEvent e).involvedObject = e.involvedObject := ⟨rfl, rfl, rfl⟩

theorem failed_create_alike (timed : Timed e) :
    (admitFailedCreate around (stripEvent e)).map (Prod.map id Candidate.reading) =
      (admitFailedCreate around e).map (Prod.map id Candidate.reading) := by
  have last := ((times_alike_iff e).mpr timed).2
  simp only [admitFailedCreate, strip_fields, zero_alike last, sub_alike around last]
  split
  · rfl
  · split
    · rfl
    · split
      · rfl
      · split
        · rfl
        · simp only [Option.map_some, Prod.map_apply, reading_alike timed]

theorem post_bind_alike (timed : Timed e) (old : Bool) :
    (admitPostBind around old (stripEvent e)).map (Prod.map id Candidate.reading) =
      (admitPostBind around old e).map (Prod.map id Candidate.reading) := by
  simp only [admitPostBind, strip_fields, expired_alike around timed]
  split
  · rfl
  · split
    · rfl
    · split
      · rfl
      · split
        · simp only [Option.map_some, Prod.map_apply, reading_alike timed]
        · rfl

theorem admit_expired_alike (timed : Timed e) :
    (admitExpired around (stripEvent e)).map (Prod.map id Candidate.reading) =
      (admitExpired around e).map (Prod.map id Candidate.reading) := by
  simp only [admitExpired, strip_fields, expired_alike around timed]
  split
  · rfl
  · split
    · rfl
    · split
      · simp only [Option.map_some, Prod.map_apply, reading_alike timed]
      · rfl

/-- A last time that is set is that of the API object to the letter. -/
theorem last_kept (timed : Timed e) (set_ : (eventLastTime e).isZero = false) :
    eventLastTime (stripEvent e) = eventLastTime e := by
  have legacy : e.lastTimestamp.isZero = false := by
    cases zero : e.lastTimestamp.isZero with
    | false => rfl
    | true =>
      rw [eventLastTime, zero, if_neg Bool.noConfusion, timed.last zero] at set_
      cases set_
  rw [eventLastTime, eventLastTime, if_pos legacy]
  exact if_pos legacy

theorem pvc_undated (undated : (eventLastTime e).isZero = true) : admitPvcFailure e = none := by
  unfold admitPvcFailure pvcPendingFailureFromEvent
  by_cases provisioning : e.reason = "ProvisioningFailed"
  · simp [provisioning, undated]
  · by_cases binding : e.reason = "FailedBinding"
    · simp [binding, undated]
    · simp [provisioning, binding]

theorem probe_undated (undated : (eventLastTime e).isZero = true) : admitProbeFailure around e = none := by
  unfold admitProbeFailure
  split
  · rfl
  · split
    · rfl
    · rw [if_pos (Or.inl undated)]

theorem pvc_alike (timed : Timed e) : admitPvcFailure (stripEvent e) = admitPvcFailure e := by
  cases undated : (eventLastTime e).isZero with
  | true =>
    have last := ((times_alike_iff e).mpr timed).2
    rw [pvc_undated undated, pvc_undated ((zero_alike last).trans undated)]
  | false =>
    have kept := last_kept timed undated
    unfold admitPvcFailure pvcPendingFailureFromEvent
    rw [kept]
    rfl

theorem probe_alike (timed : Timed e) :
    admitProbeFailure around (stripEvent e) = admitProbeFailure around e := by
  cases undated : (eventLastTime e).isZero with
  | true =>
    have last := ((times_alike_iff e).mpr timed).2
    rw [probe_undated around undated, probe_undated around ((zero_alike last).trans undated)]
  | false =>
    have kept := last_kept timed undated
    unfold admitProbeFailure
    rw [kept]
    rfl

theorem detection_read {c d : Candidate} (same : c.reading = d.reading) :
    admissionDetection around c = admissionDetection around d := by
  obtain ⟨object, message, reason, first, _⟩ := Reading.mk.inj same
  rw [admissionDetection, admissionDetection, object, message, reason, sub_alike around first]

end Detectors

/-- The detectors find the same in the cached events as in those of the API server: the same times,
   and with them the same decisions. -/
structure Unchanged (events cached : List Event) : Prop where
  first : cached.map (fun e => (eventFirstTime e).ns) = events.map fun e => (eventFirstTime e).ns
  last : cached.map (fun e => (eventLastTime e).ns) = events.map fun e => (eventLastTime e).ns
  admission : ∀ around, detectAdmissionFailures around cached = detectAdmissionFailures around events
  postBind : ∀ around, postBindFailures around cached = postBindFailures around events
  expiredVolume : ∀ around,
    expiredVolumePostBindPodKeys around cached = expiredVolumePostBindPodKeys around events
  pvc : latestPVCPendingFailures cached = latestPVCPendingFailures events
  probe : ∀ around, latestProbeFailures around cached = latestProbeFailures around events

theorem volume_read {c d : String × Candidate}
    (same : Prod.map id Candidate.reading c = Prod.map id Candidate.reading d) :
    isVolumePostBindReason c.2.reason = isVolumePostBindReason d.2.reason := by
  obtain ⟨_, read⟩ := Prod.mk.inj same
  obtain ⟨_, _, reason, _, _⟩ := Reading.mk.inj read
  rw [reason]

theorem key_read {c d : String × Candidate}
    (same : Prod.map id Candidate.reading c = Prod.map id Candidate.reading d) : c.1 = d.1 :=
  (Prod.mk.inj same).1

theorem timed_unchanged {events : List Event} (timed : ∀ e ∈ events, Timed e) :
    Unchanged events (events.map stripEvent) := by
  constructor
  · rw [map_map]
    exact map_congr_left fun e member => ((times_alike_iff e).mpr (timed e member)).1
  · rw [map_map]
    exact map_congr_left fun e member => ((times_alike_iff e).mpr (timed e member)).2
  · intro around
    have alike := candidates_alike fun e member => failed_create_alike around (timed e member)
    have detections := map_alike (g := fun entry : String × Candidate => admissionDetection around entry.2)
      (fun c d same => detection_read around (Prod.mk.inj same).2) alike
    rw [detectAdmissionFailures, detectAdmissionFailures, detections]
  · intro around
    have recent := candidates_alike fun e member => post_bind_alike around (timed e member) false
    have old := candidates_alike fun e member => post_bind_alike around (timed e member) true
    have rows := map_alike (g := fun entry : String × Candidate =>
      (entry.1, entry.2.reason, entry.2.ev.message)) (fun c d same => by
        obtain ⟨key, read⟩ := Prod.mk.inj same
        obtain ⟨_, message, reason, _, _⟩ := Reading.mk.inj read
        exact congrArg₂ Prod.mk key (congrArg₂ Prod.mk reason message)) recent
    have keys := map_alike (fun c d => key_read) (filter_alike (fun c d => volume_read) old)
    rw [postBindFailures, postBindFailures, rows, keys]
  · intro around
    have old := candidates_alike fun e member => admit_expired_alike around (timed e member)
    exact map_alike (fun c d => key_read) (filter_alike (fun c d => volume_read) old)
  · exact latest_per_congr fun e member => pvc_alike (timed e member)
  · intro around
    exact latest_per_congr fun e member => probe_alike around (timed e member)

/-- For every list of events: caching them changes nothing for the detectors exactly when each has
   both legacy times or no event time. -/
theorem times_kept_iff (events : List Event) :
    (events.map fun e => dropManagedFields (.event e)) = (events.map stripEvent).map .event ∧
      (Unchanged events (events.map stripEvent) ↔ ∀ e ∈ events, Timed e) := by
  refine ⟨by rw [List.map_map]; rfl, ?_⟩
  constructor
  · intro unchanged e member
    have first := unchanged.first
    have last := unchanged.last
    rw [List.map_map] at first last
    exact (times_alike_iff e).mp
      ⟨List.map_inj_left.mp first e member, List.map_inj_left.mp last e member⟩
  · exact timed_unchanged

section Run

def pod (name : String) : ObjectReference := ⟨"Pod", "shop", name, "u1", "v1", "7", ""⟩

/-- An event of the events API, which sets no legacy times. -/
def modernEvent (eventTime : Time) : Event where
  name := "cart.17"
  namespace_ := "shop"
  uid := "e1"
  resourceVersion := "9"
  creationTimestamp := eventTime
  labels := []
  annotations := []
  managedFields := []
  involvedObject := pod "cart"
  reason := "Unhealthy"
  message := "Liveness probe failed"
  source := ""
  firstTimestamp := zeroTime
  lastTimestamp := zeroTime
  count := 0
  type := "Warning"
  eventTime := eventTime
  series := none
  action := "Probing"
  related := none
  reportingController := "kubelet"
  reportingInstance := "node-1"

def calm (now : Time) : Surroundings :=
  ⟨asciiLowering, now, fun _ => true, fun _ => [], fun _ => "", fun _ => true⟩

/-- A probe that failed a minute ago is seen in the event of the API server and not in the cached
   one. -/
theorem modern_event_unseen :
    (latestProbeFailures (calm ⟨600 * second, 0⟩) [modernEvent ⟨540 * second, 0⟩]).length = 1 ∧
      latestProbeFailures (calm ⟨600 * second, 0⟩) [stripEvent (modernEvent ⟨540 * second, 0⟩)] = [] ∧
      ¬ Unchanged [modernEvent ⟨540 * second, 0⟩]
        ([modernEvent ⟨540 * second, 0⟩].map stripEvent) := by
  refine ⟨by decide, rfl, fun unchanged => ?_⟩
  have last := unchanged.last
  exact absurd last (by decide)

end Run

end Kept

end EventTimes
