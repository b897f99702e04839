import Mathlib.Data.List.Basic

/- pkg/timeline/types.go and the query options of pkg/timeline/store.go. -/
namespace Timeline

/-- A time.Time: nanoseconds since the zero time, January 1 of year 1 in UTC, and the zone's
   offset from UTC in seconds. Comparisons look at the instant only. -/
structure Time where
  ns : Int
  offset : Int
  deriving DecidableEq, Repr

def Time.isZero (t : Time) : Bool := t.ns == 0

def Time.before (t u : Time) : Bool := decide (t.ns < u.ns)

def Time.after (t u : Time) : Bool := decide (u.ns < t.ns)

def Time.equal (t u : Time) : Bool := t.ns == u.ns

/-- The declared sources and event types, and every other value of the string types behind them. -/
inductive EventSource where
  | informer
  | k8sEvent
  | historical
  | other (text : String) (undeclared : text ∉ ["informer", "k8s_event", "historical"])
  deriving DecidableEq, Repr

inductive EventType where
  | add
  | update
  | delete
  | normal
  | warning
  | other (text : String) (undeclared : text ∉ ["add", "update", "delete", "Normal", "Warning"])
  deriving DecidableEq, Repr

structure OwnerInfo where
  kind : String
  name : String
  deriving DecidableEq, Repr

structure TimelineEvent where
  id : String
  timestamp : Time
  source : EventSource
  clusterContext : String
  kind : String
  apiVersion : String
  namespace_ : String
  name : String
  uid : String
  eventType : EventType
  reason : String
  message : String
  healthState : String
  owner : Option OwnerInfo
  labels : List (String × String)
  count : Int
  correlationID : String
  deriving DecidableEq, Repr

def TimelineEvent.isManaged (e : TimelineEvent) : Bool :=
  e.owner.isSome || e.kind == "ReplicaSet" || e.kind == "Pod" || e.kind == "Event"

structure QueryOptions where
  namespaces : List String
  kinds : List String
  names : List String
  since : Time
  until_ : Time
  sources : List EventSource
  eventTypes : List EventType
  clusterContext : String
  filterPreset : String
  limit : Int
  offset : Int
  includeManaged : Bool
  excludeDeleted : Bool
  includeK8sEvents : Bool
  deriving DecidableEq, Repr

def defaultQueryOptions : QueryOptions where
  namespaces := []
  kinds := []
  names := []
  since := ⟨0, 0⟩
  until_ := ⟨0, 0⟩
  sources := []
  eventTypes := []
  clusterContext := ""
  filterPreset := ""
  limit := 200
  offset := 0
  includeManaged := false
  excludeDeleted := false
  includeK8sEvents := true

/-- The page size both stores use. -/
def QueryOptions.pageLimit (opts : QueryOptions) : Nat :=
  if opts.limit ≤ 0 then 200 else if 10000 < opts.limit then 10000 else opts.limit.toNat

end Timeline
