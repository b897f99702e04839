import Mathlib.Data.List.Induction
import Radar.Base.GoText
import Radar.Timeline.MemoryStore

/- internal/k8s/cache.go: recordToTimelineStore over the in-memory store of pkg/timeline, and which
   notifications of the informers reach the timeline. The join of a recreated object with its
   predecessor only enriches an event; whether it found a change is read off the notification. -/
namespace SeenRecording
open Timeline GoText List

/-- A watched object's API group, kind, namespace and name. -/
structure Resource where
  group : String
  kind : String
  namespace_ : String
  name : String
  slashless : '/' ∉ kind.toList ∧ '/' ∉ namespace_.toList

def resourceKey (kind namespace_ name : String) : String := kind ++ "/" ++ namespace_ ++ "/" ++ name

inductive Operation where
  | add | update | delete
  deriving DecidableEq

def operationToEventType : Operation → EventType
  | .add => .add
  | .update => .update
  | .delete => .delete

structure Condition where
  type_ : String
  status : String
  message : String
  lastTransitionTime : Time

/-- What recordToTimelineStore reads of an object. `goType` is the kind of a typed object and empty
for an unstructured one; `healthState` is what DetermineHealthState makes of it. -/
structure Object where
  goType : String
  apiVersion : String
  creationTimestamp : Time
  generation : Int
  healthState : String
  owner : Option OwnerInfo
  labels : List (String × String)
  startTime : Option Time
  completionTime : Option Time
  failed : Int
  readyReplicas : Int
  replicas : Int
  conditions : List Condition

def Object.unstructured (obj : Object) : Bool := obj.goType == ""

/-- The routines of the differs, and the digest behind the id of a historical event. -/
structure Differs where
  computeDiff : String → Object → Object → Bool
  kindHasDiffer : String → Bool
  historicalID : String → String → String → Time → String → String

structure Notification where
  resource : Resource
  uid : String
  op : Operation
  oldObj : Option Object
  newObj : Option Object
  now : Time
  freshID : String
  clusterContext : String
  recreated : Bool

def Notification.key (n : Notification) : String :=
  resourceKey n.resource.kind n.resource.namespace_ n.resource.name

/-- The new object, the old one where there is no new one. -/
def Notification.obj (n : Notification) : Option Object := n.newObj.or n.oldObj

def extractAPIVersion (obj : Option Object) : String := match obj with
  | some obj => if obj.unstructured then obj.apiVersion else ""
  | none => ""

section History
variable (differs : Differs)

def newHistoricalEvent (n : Notification) (ts : Time) (reason message healthState : String) :
    TimelineEvent where
  id := differs.historicalID n.resource.kind n.resource.namespace_ n.resource.name ts reason
  timestamp := ts
  source := .historical
  clusterContext := n.clusterContext
  kind := n.resource.kind
  apiVersion := extractAPIVersion n.obj
  namespace_ := n.resource.namespace_
  name := n.resource.name
  uid := ""
  eventType := .update
  reason := reason
  message := message
  healthState := healthState
  owner := n.obj.bind (·.owner)
  labels := (n.obj.map (·.labels)).getD []
  count := 0
  correlationID := ""

/-- The health of the created event, for the kinds that have one. -/
def createdHealth (kind : String) (obj : Object) : Option String :=
  if kind ∈ ["Pod", "Deployment", "StatefulSet", "DaemonSet", "Job"] then
    if obj.goType = kind then some "unknown" else none
  else if kind = "ReplicaSet" then
    if obj.goType = kind then
      some (if 0 < obj.readyReplicas ∧ obj.readyReplicas = obj.replicas then "healthy"
        else "unknown")
    else none
  else if kind ∈ ["Service", "Ingress", "CronJob", "HorizontalPodAutoscaler"] then
    if obj.goType = kind then some "healthy" else none
  else if obj.unstructured then some "unknown" else none

def conditionHealth (kind : String) (cond : Condition) : String :=
  if cond.type_ = (if kind = "Pod" then "Ready" else "Available") ∧ cond.status = "True" then
    "healthy"
  else if cond.status = "False" then "degraded"
  else "unknown"

def timeEvent (n : Notification) (time : Option Time) (reason health : String) : List TimelineEvent :=
  match time with
  | some ts => if ts.isZero then [] else [newHistoricalEvent differs n ts reason "" health]
  | none => []

def extractTimelineHistoricalEvents (n : Notification) (obj : Object) : List TimelineEvent :=
  let kind := n.resource.kind
  match createdHealth kind obj with
  | none => []
  | some health =>
    timeEvent differs n (some obj.creationTimestamp) "created" health ++
    (if kind = "Pod" ∨ kind = "Job" then timeEvent differs n obj.startTime "started" "degraded"
      else []) ++
    (if kind = "Job" then
      timeEvent differs n obj.completionTime "completed"
        (if 0 < obj.failed then "unhealthy" else "healthy")
      else []) ++
    if kind = "Pod" ∨ kind = "Deployment" then
      (obj.conditions.filter fun cond => !cond.lastTransitionTime.isZero).map fun cond =>
        newHistoricalEvent differs n cond.lastTransitionTime cond.type_ cond.message
          (conditionHealth kind cond)
    else []

end History

/-- The store, its map of seen resources, and the flag of the informer cache. -/
structure State where
  store : MemoryStore.Store
  seenResources : String → Bool
  initialSyncComplete : Bool

def State.isResourceSeen (s : State) (key : String) : Bool := s.seenResources key

def State.markResourceSeen (s : State) (key : String) : State :=
  { s with seenResources := fun k => if k = key then true else s.seenResources k }

def State.clearResourceSeen (s : State) (key : String) : State :=
  { s with seenResources := fun k => if k = key then false else s.seenResources k }

/-- RecordEventsWithBroadcast: the in-memory store takes every batch. -/
def State.recordEvents (s : State) (events : List TimelineEvent) : State :=
  { s with store := s.store.appendBatch events }

def maxAddAge : Int := 30 * 1000000000

/-- An add of an object older than half a minute is no creation. -/
def stale (n : Notification) : Bool := match n.obj with
  | some obj => decide (maxAddAge < n.now.ns - obj.creationTimestamp.ns)
  | none => false

def isSyncEvent (s : State) (n : Notification) : Bool := !s.initialSyncComplete || stale n

section Record
variable (differs : Differs)

/-- An update in which the differs find nothing, of an unchanged generation. -/
def undiffed (n : Notification) : Bool := match n.oldObj, n.newObj with
  | some old, some new =>
    !differs.computeDiff n.resource.kind old new &&
      (differs.kindHasDiffer n.resource.kind || (old.unstructured && new.unstructured)) &&
      !(old.generation != new.generation && decide (0 < old.generation) && decide (0 < new.generation))
  | _, _ => false

def newInformerEvent (n : Notification) : TimelineEvent where
  id := n.freshID
  timestamp := n.now
  source := .informer
  clusterContext := n.clusterContext
  kind := n.resource.kind
  apiVersion := extractAPIVersion n.obj
  namespace_ := n.resource.namespace_
  name := n.resource.name
  uid := n.uid
  eventType := operationToEventType n.op
  reason := if n.recreated then "recreated" else ""
  message := ""
  healthState := (n.obj.map (·.healthState)).getD ""
  owner := n.obj.bind (·.owner)
  labels := (n.obj.map (·.labels)).getD []
  count := 0
  correlationID := ""

def historicalEvents (n : Notification) : List TimelineEvent := match n.newObj with
  | some obj => extractTimelineHistoricalEvents differs n obj
  | none => []

def recordToTimelineStore (s : State) (n : Notification) : State := match n.op with
  | .add =>
    if s.isResourceSeen n.key then s
    else if isSyncEvent s n then
      (s.recordEvents (historicalEvents differs n)).markResourceSeen n.key
    else
      (s.recordEvents (historicalEvents differs n ++ [newInformerEvent n])).markResourceSeen n.key
  | .update => if undiffed differs n then s else s.recordEvents [newInformerEvent n]
  | .delete => (s.clearResourceSeen n.key).recordEvents [newInformerEvent n]

/-- What happens to the timeline: a notification, the end of the initial sync, and a reset of the
informer cache, after which a sync begins anew. -/
inductive Step where
  | notify (n : Notification)
  | syncComplete
  | reset

def step (s : State) : Step → State
  | .notify n => recordToTimelineStore differs s n
  | .syncComplete => { s with initialSyncComplete := true }
  | .reset => { s with initialSyncComplete := false }

def State.new (maxSize : Int) : State := ⟨MemoryStore.newMemoryStore maxSize, fun _ => false, false⟩

def run (maxSize : Int) (steps : List Step) : State := steps.foldl (step differs) (State.new maxSize)

/-- What a notification appends to the store. -/
def written (s : State) (n : Notification) : List TimelineEvent := match n.op with
  | .add =>
    if s.isResourceSeen n.key then []
    else if isSyncEvent s n then historicalEvents differs n
    else historicalEvents differs n ++ [newInformerEvent n]
  | .update => if undiffed differs n then [] else [newInformerEvent n]
  | .delete => [newInformerEvent n]

end Record

/-- An add under the key has been taken since the last delete under it. -/
def Known (steps : List Step) (key : String) : Prop :=
  ∃ before n after, steps = before ++ .notify n :: after ∧ n.op = .add ∧ n.key = key ∧
    ∀ m, Step.notify m ∈ after → m.key = key → m.op ≠ .delete

section Seen
variable {differs : Differs}

theorem key_inj {a b : Resource}
    (same : resourceKey a.kind a.namespace_ a.name = resourceKey b.kind b.namespace_ b.name) :
    (a.kind, a.namespace_, a.name) = (b.kind, b.namespace_, b.name) := by
  have chars := congrArg String.toList same
  simp only [resourceKey, String.toList_append] at chars
  have text : "/".toList = ['/'] := rfl
  simp only [text, append_assoc, singleton_append] at chars
  obtain ⟨kinds, rest⟩ := sep_inj a.slashless.1 b.slashless.1 chars
  obtain ⟨namespaces, names⟩ := sep_inj a.slashless.2 b.slashless.2 rest
  rw [String.toList_inj.mp kinds, String.toList_inj.mp namespaces, String.toList_inj.mp names]

/-- Of the state, a notification writes what `written` says. -/
theorem record_store (s : State) (n : Notification) :
    (recordToTimelineStore differs s n).store = s.store.appendBatch (written differs s n) := by
  unfold recordToTimelineStore written
  cases n.op with
  | add =>
    dsimp only
    split
    next => rfl
    next => split <;> rfl
  | update =>
    dsimp only
    split <;> rfl
  | delete => rfl

theorem record_seen (s : State) (n : Notification) (key : String) :
    (recordToTimelineStore differs s n).seenResources key = if n.key = key then
        match n.op with
        | .add => true
        | .update => s.seenResources key
        | .delete => false
      else s.seenResources key := by
  unfold recordToTimelineStore
  cases n.op with
  | add =>
    dsimp only
    by_cases own : n.key = key
    · subst own
      split
      next seen => simpa [State.isResourceSeen] using seen
      next => split <;> simp [State.markResourceSeen]
    · rw [if_neg own]
      split
      next => rfl
      next => split <;> simp [State.markResourceSeen, State.recordEvents, Ne.symm own]
  | update =>
    dsimp only
    split <;> simp [State.recordEvents]
  | delete =>
    by_cases own : n.key = key
    · simp [State.clearResourceSeen, State.recordEvents, own]
    · simp [State.clearResourceSeen, State.recordEvents, own, Ne.symm own]

theorem record_sync (s : State) (n : Notification) :
    (recordToTimelineStore differs s n).initialSyncComplete = s.initialSyncComplete := by
  unfold recordToTimelineStore
  cases n.op with
  | add =>
    dsimp only
    split
    next => rfl
    next => split <;> rfl
  | update =>
    dsimp only
    split <;> rfl
  | delete => rfl

theorem run_concat (maxSize : Int) (steps : List Step) (last : Step) :
    run differs maxSize (steps ++ [last]) = step differs (run differs maxSize steps) last := by
  simp [run]

theorem known_nil (key : String) : ¬ Known [] key := by
  rintro ⟨before, n, after, whole, -⟩
  simp at whole

theorem known_concat (steps : List Step) (last : Step) (key : String) : Known (steps ++ [last]) key ↔
      (∃ n, last = .notify n ∧ n.key = key ∧ n.op = .add) ∨
      Known steps key ∧ ∀ m, last = .notify m → m.key = key → m.op ≠ .delete := by
  constructor
  · rintro ⟨before, n, after, whole, added, own, kept⟩
    rcases eq_nil_or_concat after with rfl | ⟨earlier, final, rfl⟩
    · obtain ⟨-, ends⟩ := append_inj' whole rfl
      exact .inl ⟨n, head_eq_of_cons_eq ends, own, added⟩
    · rw [concat_eq_append, ← cons_append, ← append_assoc] at whole
      obtain ⟨front, ends⟩ := append_inj' whole rfl
      obtain rfl := head_eq_of_cons_eq ends
      rw [concat_eq_append] at kept
      refine .inr ⟨⟨before, n, earlier, front, added, own, fun m member => ?_⟩, fun m is => ?_⟩
      · exact kept m (mem_append_left _ member)
      · exact kept m (mem_append_right _ (is ▸ mem_singleton_self _))
  · rintro (⟨n, rfl, own, added⟩ | ⟨⟨before, n, after, rfl, added, own, kept⟩, last_kept⟩)
    · exact ⟨steps, n, [], rfl, added, own, fun m member => by simp at member⟩
    · refine ⟨before, n, after ++ [last], by simp, added, own, fun m member => ?_⟩
      rcases mem_append.mp member with earlier | final
      · exact kept m earlier
      · exact last_kept m (mem_singleton.mp final).symm

/-- The map of seen resources says what the history says, key by key. -/
theorem seen_iff_known (maxSize : Int) (steps : List Step) (key : String) :
    (run differs maxSize steps).seenResources key = true ↔ Known steps key := by
  induction steps using reverseRecOn with
  | nil => exact iff_of_false (by simp [run, State.new]) (known_nil key)
  | append_singleton steps last ih =>
    rw [run_concat, known_concat]
    cases last with
    | notify n =>
      rw [step, record_seen]
      by_cases own : n.key = key
      · rw [if_pos own]
        cases op : n.op with
        | add => simp [own, op]
        | update => simp [own, op, ih]
        | delete => simp [own, op]
      · simp [own, ih]
    | syncComplete => simp [step, ih]
    | reset => simp [step, ih]

theorem sync_congr {s s' : State} (same : s.initialSyncComplete = s'.initialSyncComplete)
    (steps : List Step) : (steps.foldl (step differs) s).initialSyncComplete =
      (steps.foldl (step differs) s').initialSyncComplete := by
  induction steps generalizing s s' with
  | nil => exact same
  | cons first rest ih =>
    refine ih ?_
    cases first with
    | notify n => rw [step, step, record_sync, record_sync, same]
    | syncComplete => rfl
    | reset => rfl

/-- Only the key's own notifications decide whether it is known. -/
theorem known_without {before after : List Step} {m : Notification} {key : String}
    (other : m.key ≠ key) : Known (before ++ .notify m :: after) key ↔ Known (before ++ after) key := by
  induction after using reverseRecOn with
  | nil =>
    rw [append_nil, known_concat]
    constructor
    · rintro (⟨n, is, own, -⟩ | ⟨earlier, -⟩)
      · cases is
        exact absurd own other
      · exact earlier
    · intro earlier
      refine .inr ⟨earlier, fun n is own => ?_⟩
      cases is
      exact absurd own other
  | append_singleton after last ih =>
    rw [← append_assoc, ← cons_append, ← append_assoc, known_concat, known_concat, ih]

theorem written_congr {s s' : State} {n : Notification}
    (seen : s.seenResources n.key = s'.seenResources n.key)
    (sync : s.initialSyncComplete = s'.initialSyncComplete) :
    written differs s n = written differs s' n := by
  unfold written isSyncEvent State.isResourceSeen
  rw [seen, sync]

end Seen

/-- After the sync, the add of an object no older than half a minute under a key that is not known
reaches the store; and what a notification appends is what it would append if any one notification
about another kind, namespace or name had never come. -/
theorem creations_recorded (differs : Differs) (maxSize : Int) (steps : List Step)
    (n : Notification) :
    (n.op = .add → (run differs maxSize steps).initialSyncComplete = true → stale n = false →
      ¬ Known steps n.key →
      (recordToTimelineStore differs (run differs maxSize steps) n).store =
        (run differs maxSize steps).store.appendBatch
          (historicalEvents differs n ++ [newInformerEvent n])) ∧
    ∀ before m after, steps = before ++ .notify m :: after →
      (m.resource.kind, m.resource.namespace_, m.resource.name) ≠
        (n.resource.kind, n.resource.namespace_, n.resource.name) →
      (recordToTimelineStore differs (run differs maxSize steps) n).store =
        (run differs maxSize steps).store.appendBatch
          (written differs (run differs maxSize (before ++ after)) n) := by
  constructor
  · intro added synced young unknown
    have unseen : (run differs maxSize steps).isResourceSeen n.key = false := by
      have seen_iff : (run differs maxSize steps).seenResources n.key = true ↔ Known steps n.key :=
        seen_iff_known maxSize steps n.key
      rw [← seen_iff, Bool.not_eq_true] at unknown
      exact unknown
    have current : isSyncEvent (run differs maxSize steps) n = false := by
      simp [isSyncEvent, synced, young]
    rw [record_store, written, added]
    dsimp only
    rw [if_neg (by simp [unseen]), if_neg (by simp [current])]
  · intro before m after whole other
    have apart : m.key ≠ n.key := fun same => other (key_inj same)
    have seen : (run differs maxSize steps).seenResources n.key =
        (run differs maxSize (before ++ after)).seenResources n.key := by
      rw [Bool.eq_iff_iff, seen_iff_known, seen_iff_known, whole, known_without apart]
    have sync : (run differs maxSize steps).initialSyncComplete =
        (run differs maxSize (before ++ after)).initialSyncComplete := by
      rw [whole, run, run, List.foldl_append, List.foldl_append, List.foldl_cons]
      exact sync_congr (record_sync _ m) after
    rw [record_store, written_congr seen sync]

section Histories

theorem service_slashless : '/' ∉ "Service".toList ∧ '/' ∉ "shop".toList := by decide

theorem config_slashless : '/' ∉ "ConfigMap".toList ∧ '/' ∉ "shop".toList := by decide

def plainDiffers : Differs := ⟨fun _ _ _ => false, fun _ => false, fun _ _ _ _ _ => "hist"⟩

/-- An object of a kind without historical events, created at the given second. -/
def bareObject (goType apiVersion : String) (second : Int) : Object :=
  ⟨goType, apiVersion, ⟨second * 1000000000, 0⟩, 1, "unknown", none, [], none, none, 0, 0, 0, []⟩

def addAt (resource : Resource) (obj : Object) (second : Int) : Notification :=
  ⟨resource, "uid", .add, none, some obj, ⟨second * 1000000000, 0⟩, "id", "", false⟩

def coreService : Resource := ⟨"", "Service", "shop", "web", service_slashless⟩

def knativeService : Resource := ⟨"serving.knative.dev", "Service", "shop", "web", service_slashless⟩

def settings : Resource := ⟨"", "ConfigMap", "shop", "settings", config_slashless⟩

def settingsAdd : Notification := addAt settings (bareObject "ConfigMap" "" 3600) 3610

def lateSettingsAdd : Notification := addAt settings (bareObject "ConfigMap" "" 3600) 7200

def knativeAdd : Notification := addAt knativeService (bareObject "" "serving.knative.dev/v1" 3600) 3601

def coreAdd : Notification := addAt coreService (bareObject "Service" "" 3602) 3603

/-- An hour-old ConfigMap that comes up after the sync leaves nothing in the store, though nothing
has been notified before; and the Service behind a Knative Service is lost to its name. -/
theorem late_add_skipped : (run plainDiffers 10 [.syncComplete]).initialSyncComplete = true ∧
      (recordToTimelineStore plainDiffers (run plainDiffers 10 [.syncComplete])
        lateSettingsAdd).store = (run plainDiffers 10 [.syncComplete]).store ∧
      (recordToTimelineStore plainDiffers
        (run plainDiffers 10 [.syncComplete, .notify knativeAdd]) coreAdd).store =
        (run plainDiffers 10 [.syncComplete, .notify knativeAdd]).store := by
  refine ⟨rfl, ?_, ?_⟩
  · rw [record_store]
    have nothing : written plainDiffers (run plainDiffers 10 [.syncComplete]) lateSettingsAdd =
        [] := by decide
    rw [nothing]
    rfl
  · rw [record_store]
    have nothing : written plainDiffers (run plainDiffers 10 [.syncComplete, .notify knativeAdd])
        coreAdd = [] := by decide
    rw [nothing]
    rfl

theorem settings_recorded : (recordToTimelineStore plainDiffers
        (run plainDiffers 10 [.syncComplete, .notify coreAdd]) settingsAdd).store =
      (run plainDiffers 10 [.syncComplete, .notify coreAdd]).store.appendBatch
        (historicalEvents plainDiffers settingsAdd ++ [newInformerEvent settingsAdd]) ∧
    (recordToTimelineStore plainDiffers
        (run plainDiffers 10 [.syncComplete, .notify coreAdd]) settingsAdd).store =
      (run plainDiffers 10 [.syncComplete, .notify coreAdd]).store.appendBatch
        (written plainDiffers (run plainDiffers 10 [.syncComplete]) settingsAdd) := by
  have unknown : ¬ Known [.syncComplete, .notify coreAdd] settingsAdd.key := by
    have unseen : ¬ (run plainDiffers 10 [.syncComplete, .notify coreAdd]).seenResources
        settingsAdd.key = true := by decide
    exact fun known => unseen ((seen_iff_known 10 _ _).mpr known)
  have law := creations_recorded plainDiffers 10 [.syncComplete, .notify coreAdd] settingsAdd
  exact ⟨law.1 rfl rfl (by decide) unknown, law.2 [.syncComplete] coreAdd [] rfl (by decide)⟩

end Histories
end SeenRecording
