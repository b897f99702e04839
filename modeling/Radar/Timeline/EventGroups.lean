import Radar.Base.Arrange
import Radar.Base.Firsts
import Radar.Base.KeyedFold
import Radar.Timeline.Types

/- pkg/timeline/grouping.go: the events of a timeline gathered into groups. -/
namespace EventGroups
open Timeline KeyedFold Firsts List

inductive GroupingMode where
  | none
  | owner
  | app
  | namespace_
  | other (text : String) (undeclared : text ∉ ["none", "owner", "app", "namespace"])
  deriving DecidableEq

/-- A group in the Children of another. It has no children, health or count of its own. -/
structure ChildGroup where
  id : String
  kind : String
  name : String
  namespace_ : String
  events : List TimelineEvent
  deriving DecidableEq

structure EventGroup where
  id : String
  kind : String
  name : String
  namespace_ : String
  events : List TimelineEvent
  children : List ChildGroup
  healthState : String
  eventCount : Nat
  deriving DecidableEq

variable {group : EventGroup}

def toplevelKinds : List String :=
  ["Deployment", "Rollout", "DaemonSet", "StatefulSet", "Service", "Job", "CronJob", "Workflow",
    "CronWorkflow"]

def isToplevelWorkload (e : TimelineEvent) : Bool := toplevelKinds.contains e.kind

def label (labels : List (String × String)) (key : String) : String := (labels.lookup key).getD ""

def getAppLabel (e : TimelineEvent) : String :=
  if label e.labels "app.kubernetes.io/name" ≠ "" then label e.labels "app.kubernetes.io/name"
  else label e.labels "app"

def resourceKey (kind namespace_ name : String) : String := kind ++ "/" ++ namespace_ ++ "/" ++ name

def eventKey (e : TimelineEvent) : String := resourceKey e.kind e.namespace_ e.name

def ownerKey (e : TimelineEvent) : Option String :=
  e.owner.map fun owner => resourceKey owner.kind e.namespace_ owner.name

/-- The rank of a health state. One that the order does not list has the rank of a healthy one. -/
def healthOrder (h : String) : Nat :=
  if h = "unknown" then 1 else if h = "degraded" then 2 else if h = "unhealthy" then 3 else 0

def worseHealth (a b : String) : String := if healthOrder a < healthOrder b then b else a

section Owner

def resourceEvents (events : List TimelineEvent) (key : String) : List TimelineEvent :=
  events.filter fun e => eventKey e = key

/-- The group a top-level workload's first event opens. -/
def openGroup (events : List TimelineEvent) (e : TimelineEvent) : EventGroup :=
  ⟨eventKey e, e.kind, e.name, e.namespace_, resourceEvents events (eventKey e), [], "", 0⟩

def childGroup (events : List TimelineEvent) (e : TimelineEvent) : ChildGroup :=
  ⟨eventKey e, e.kind, e.name, e.namespace_, resourceEvents events (eventKey e)⟩

def addChild (events : List TimelineEvent) (group : EventGroup) (e : TimelineEvent) : EventGroup :=
  if (group.children.any fun child => child.id == eventKey e) = false ∧
      0 < (resourceEvents events (eventKey e)).length then
    { group with children := group.children ++ [childGroup events e] }
  else group

/-- An event is put below the group of its owner, if there is one. -/
def attach (events : List TimelineEvent) (groups : List EventGroup) (e : TimelineEvent) : List EventGroup :=
  groups.map fun group => if ownerKey e = some group.id then addChild events group e else group

def EventGroup.shown (group : EventGroup) : List TimelineEvent :=
  group.events ++ group.children.flatMap ChildGroup.events

def closeGroup (group : EventGroup) : EventGroup := { group with
    eventCount := group.children.foldl (fun n child => n + child.events.length) group.events.length
    healthState := group.children.foldl
      (fun worst child => child.events.foldl (fun worst e => worseHealth worst e.healthState) worst)
      (group.events.foldl (fun worst e => worseHealth worst e.healthState) "unknown") }

def groupByOwner (events : List TimelineEvent) : List EventGroup :=
  let opened := (firsts eventKey [] (events.filter isToplevelWorkload)).map (openGroup events)
  (events.foldl (attach events) opened).map closeGroup

end Owner

section Keyed

/-- A group as it is before its first event, whose health it then keeps. -/
def startGroup (key kind name namespace_ : String) (e : TimelineEvent) : EventGroup :=
  ⟨key, kind, name, namespace_, [], [], e.healthState, 0⟩

def addEvent (group : EventGroup) (e : TimelineEvent) : EventGroup := { group with
    events := group.events ++ [e]
    eventCount := group.eventCount + 1
    healthState := worseHealth group.healthState e.healthState }

def groupBy (keyOf : TimelineEvent → String) (kind : String) (name namespace_ : TimelineEvent → String) :
    Folding TimelineEvent EventGroup String where
  keyOf := keyOf
  key := EventGroup.id
  start := fun e => startGroup (keyOf e) kind (name e) (namespace_ e) e
  add := addEvent
  key_start := fun _ => rfl
  key_add := fun _ _ => rfl

def appLabel (e : TimelineEvent) : String := if getAppLabel e = "" then "__ungrouped__" else getAppLabel e

def appKey (e : TimelineEvent) : String := e.namespace_ ++ "/" ++ appLabel e

def groupByApp (events : List TimelineEvent) : List EventGroup :=
  (groupBy appKey "App" appLabel TimelineEvent.namespace_).gather events

def namespaceKey (e : TimelineEvent) : String := if e.namespace_ = "" then "__cluster__" else e.namespace_

def groupByNamespace (events : List TimelineEvent) : List EventGroup :=
  (groupBy namespaceKey "Namespace" namespaceKey namespaceKey).gather events

end Keyed

/-- The groups of a mode, before they are sorted. -/
def groupsOf (mode : GroupingMode) (events : List TimelineEvent) : List EventGroup := match mode with
  | .owner => groupByOwner events
  | .app => groupByApp events
  | .namespace_ => groupByNamespace events
  | .none | .other _ _ => []

/-- What GroupEvents may answer: the map of groups and the sort leave the order of groups with equally
    many events open. -/
def GroupEvents (mode : GroupingMode) (events : List TimelineEvent) (groups : List EventGroup) : Prop :=
  Arrange.Arranged (fun a b => b.eventCount ≤ a.eventCount) (groupsOf mode events) groups

/-- The sort always has an answer. -/
theorem groups_answered (mode : GroupingMode) (events : List TimelineEvent) :
    ∃ groups, GroupEvents mode events groups := by
  have ranks : Selection.Ranks (fun a b : EventGroup => decide (b.eventCount < a.eventCount))
      fun g => OrderDual.toDual g.eventCount := by
    intro a b
    simp
  exact ⟨_, Arrange.sort_perm _ (groupsOf mode events), Arrange.sort_ordered ranks _⟩

/-- TimelineMeta without the time the query took. -/
structure TimelineResponse where
  groups : List EventGroup
  ungrouped : List TimelineEvent
  totalEvents : Nat
  groupCount : Nat
  hasMore : Bool
  deriving DecidableEq

/-- The answer both stores make of the groups. -/
def groupedResponse (limit : Int) (events : List TimelineEvent) (groups : List EventGroup) :
    TimelineResponse :=
  let limit := if limit ≤ 0 then 200 else limit.toNat
  let hasMore := decide (limit < groups.length)
  let listed := if hasMore then groups.take limit else groups
  ⟨listed, [], events.length, listed.length, hasMore⟩

section OwnerGroups
variable {events : List TimelineEvent}

/-- The first event of each resource that an owner has. -/
def ownedBy (events : List TimelineEvent) (key : String) : List TimelineEvent :=
  firsts eventKey [] (events.filter fun e => ownerKey e = some key)

def roots (events : List TimelineEvent) : List TimelineEvent :=
  firsts eventKey [] (events.filter isToplevelWorkload)

def ownerGroup (events : List TimelineEvent) (root : TimelineEvent) : EventGroup :=
  { openGroup events root with
    children := (ownedBy events (eventKey root)).map (childGroup events) }

def attachOne (events : List TimelineEvent) (group : EventGroup) (e : TimelineEvent) : EventGroup :=
  if ownerKey e = some group.id then addChild events group e else group

theorem attach_each (xs : List TimelineEvent) (groups : List EventGroup) :
    xs.foldl (attach events) groups = groups.map fun group => xs.foldl (attachOne events) group := by
  induction xs generalizing groups with
  | nil => simp
  | cons e rest ih =>
    rw [foldl_cons, ih, attach, map_map]
    rfl

theorem add_child_eq {kept : List TimelineEvent} {e : TimelineEvent}
    (held : group.children = kept.map (childGroup events)) (present : e ∈ events) :
    addChild events group e = if eventKey e ∈ kept.map eventKey then group
      else { group with children := (kept ++ [e]).map (childGroup events) } := by
  have some : 0 < (resourceEvents events (eventKey e)).length :=
    length_pos_of_mem (mem_filter.mpr ⟨present, decide_eq_true rfl⟩)
  have found : (group.children.any fun child => child.id == eventKey e) = false ↔
      eventKey e ∉ kept.map eventKey := by
    rw [held, any_map, any_eq_false]
    simp [childGroup]
  unfold addChild
  by_cases seen : eventKey e ∈ kept.map eventKey
  · rw [if_pos seen, if_neg fun both => found.mp both.1 seen]
  · rw [if_neg seen, if_pos ⟨found.mpr seen, some⟩, held, map_append, map_singleton]

/-- The children of a group are the resources its events name it the owner of, each once. -/
theorem attach_children {kept xs : List TimelineEvent}
    (held : group.children = kept.map (childGroup events)) (inside : xs ⊆ events) :
    xs.foldl (attachOne events) group = { group with
        children := (firsts eventKey kept (xs.filter fun e => ownerKey e = some group.id)).map
          (childGroup events) } := by
  induction xs generalizing group kept with
  | nil => rw [filter_nil, firsts, ← held, foldl_nil]
  | cons e rest ih =>
    have later : rest ⊆ events := fun x member => inside (mem_cons_of_mem e member)
    rw [foldl_cons, attachOne]
    by_cases own : ownerKey e = some group.id
    · rw [if_pos own, filter_cons_of_pos (by simpa using own), firsts,
        add_child_eq held (inside mem_cons_self)]
      by_cases seen : eventKey e ∈ kept.map eventKey
      · rw [if_pos seen, if_pos seen, ih held later]
      · rw [if_neg seen, if_neg seen, ih rfl later]
    · rw [if_neg own, filter_cons_of_neg (by simpa using own), ih held later]

theorem group_by_owner_eq (events : List TimelineEvent) :
    groupByOwner events = (roots events).map fun root => closeGroup (ownerGroup events root) := by
  rw [groupByOwner, attach_each, map_map, map_map]
  apply map_congr_left
  intro root _
  have childless : (openGroup events root).children = [].map (childGroup events) := rfl
  simp only [Function.comp_apply]
  rw [attach_children childless (List.Subset.refl events)]
  rfl

theorem count_shown (group : EventGroup) : (closeGroup group).eventCount = group.shown.length := by
  have sums : ∀ (children : List ChildGroup) (n : Nat),
      children.foldl (fun n child => n + child.events.length) n =
        n + (children.flatMap ChildGroup.events).length := by
    intro children
    induction children with
    | nil => simp
    | cons child rest ih =>
      intro n
      rw [foldl_cons, ih, flatMap_cons, length_append, Nat.add_assoc]
  rw [EventGroup.shown, length_append]
  exact sums group.children group.events.length

theorem firsts_once (xs : List TimelineEvent) : ((firsts eventKey [] xs).map eventKey).Nodup := by
  have start : (([] : List TimelineEvent).map eventKey).Nodup := nodup_nil
  exact firsts_nodup start xs

theorem roots_once : ((roots events).map eventKey).Nodup := firsts_once _

theorem owned_once (owner : String) : ((ownedBy events owner).map eventKey).Nodup := firsts_once _

/-- The resources that open a group. -/
def Toplevel (events : List TimelineEvent) (key : String) : Prop :=
  ∃ e ∈ events, isToplevelWorkload e = true ∧ eventKey e = key

theorem mem_roots {key : String} : key ∈ (roots events).map eventKey ↔ Toplevel events key := by
  rw [mem_map]
  constructor
  · rintro ⟨e, member, own⟩
    obtain ⟨present, top⟩ := mem_filter.mp (firsts_mem member)
    exact ⟨e, present, top, own⟩
  · rintro ⟨e, present, top, own⟩
    have listed := mem_filter.mpr ⟨present, top⟩
    obtain ⟨first, member, same⟩ := (firsts_covers [] listed : ∃ y ∈ roots events, _)
    exact ⟨first, member, same.trans own⟩

/-- The resources below a group, as the events name them. -/
theorem mem_owned {owner key : String} : key ∈ (ownedBy events owner).map eventKey ↔
    ∃ e ∈ events, eventKey e = key ∧ ownerKey e = some owner := by
  rw [mem_map]
  constructor
  · rintro ⟨e, member, own⟩
    obtain ⟨present, above⟩ := mem_filter.mp (firsts_mem member)
    exact ⟨e, present, own, of_decide_eq_true above⟩
  · rintro ⟨e, present, own, above⟩
    have listed : e ∈ events.filter fun e => ownerKey e = some owner :=
      mem_filter.mpr ⟨present, decide_eq_true above⟩
    obtain ⟨first, member, same⟩ := (firsts_covers [] listed : ∃ y ∈ ownedBy events owner, _)
    exact ⟨first, member, same.trans own⟩

/-- A group shows the events of its own resource and of those it is named the owner of. -/
theorem mem_shown {root e : TimelineEvent} : e ∈ (ownerGroup events root).shown ↔
    e ∈ events ∧ (eventKey e = eventKey root ∨
      ∃ c ∈ events, eventKey c = eventKey e ∧ ownerKey c = some (eventKey root)) := by
  have own : ∀ key, e ∈ resourceEvents events key ↔ e ∈ events ∧ eventKey e = key := by
    intro key
    rw [resourceEvents, mem_filter, decide_eq_true_iff]
  have below : e ∈ ((ownedBy events (eventKey root)).map (childGroup events)).flatMap
      ChildGroup.events ↔ e ∈ events ∧ eventKey e ∈ (ownedBy events (eventKey root)).map eventKey := by
    rw [flatMap_map, mem_flatMap, mem_map]
    constructor
    · rintro ⟨c, listed, member⟩
      obtain ⟨present, same⟩ := (own _).mp member
      exact ⟨present, c, listed, same.symm⟩
    · rintro ⟨present, c, listed, same⟩
      exact ⟨c, listed, (own _).mpr ⟨present, same.symm⟩⟩
  rw [EventGroup.shown, mem_append, ownerGroup, openGroup, own, below, mem_owned, ← and_or_left]

end OwnerGroups

section KeyedGroups
variable {keyOf name namespace_ : TimelineEvent → String} {kind : String}

theorem foldl_add (xs : List TimelineEvent) (group : EventGroup) : xs.foldl addEvent group = { group with
        events := group.events ++ xs
        eventCount := group.eventCount + xs.length
        healthState := xs.foldl (fun worst e => worseHealth worst e.healthState)
          group.healthState } := by
  induction xs generalizing group with
  | nil => simp
  | cons e rest ih =>
    rw [foldl_cons, ih]
    simp [addEvent, Nat.add_assoc, Nat.add_comm 1]

/-- A group of the keyed modes: its events are those of its key, and its health starts at the first. -/
theorem keyed_group {events : List TimelineEvent}
    (member : group ∈ (groupBy keyOf kind name namespace_).gather events) :
    ∃ first rest, (events.filter fun e => keyOf e = group.id) = first :: rest ∧
      group.shown = first :: rest ∧ group.eventCount = group.shown.length ∧
      group.healthState = (first :: rest).foldl
        (fun worst e => worseHealth worst e.healthState) first.healthState := by
  obtain ⟨first, rest, listed, whole⟩ := (gather_spec events).2.2 group member
  have made : group = (first :: rest).foldl addEvent
      (startGroup (keyOf first) kind (name first) (namespace_ first) first) := by
    rw [← listed]
    exact whole
  rw [foldl_add] at made
  have shown : group.shown = first :: rest := by
    rw [made]
    simp [EventGroup.shown, startGroup]
  refine ⟨first, rest, listed, shown, ?_, by rw [made]; rfl⟩
  rw [shown, made]
  simp [startGroup]

end KeyedGroups

end EventGroups
