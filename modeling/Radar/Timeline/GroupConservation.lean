import Radar.Timeline.EventGroups
import Radar.Timeline.MemoryStore

/- Whether the groups of a timeline hold every event once. -/
namespace GroupConservation
open Timeline EventGroups KeyedFold Firsts List

/-- The groups and what is left ungrouped are the events, each as often as it was listed. -/
structure Conserves (events : List TimelineEvent) (groups : List EventGroup)
    (ungrouped : List TimelineEvent) : Prop where
  once : (groups.flatMap EventGroup.shown ++ ungrouped).Perm events
  counted : (groups.map EventGroup.eventCount).sum = events.length

/-- A top-level workload with events of its own, which an event of the resource names its owner. -/
def Manages (events : List TimelineEvent) (owner key : String) : Prop :=
  Toplevel events owner ∧ ∃ e ∈ events, eventKey e = key ∧ ownerKey e = some owner

/-- A top-level workload that nothing listed owns, or a resource that one such workload owns. -/
def Placed (events : List TimelineEvent) (key : String) : Prop :=
  (Toplevel events key ∧ ∀ owner, ¬ Manages events owner key) ∨
    ¬ Toplevel events key ∧ ∃ owner, Manages events owner key ∧
      ∀ other, Manages events other key → other = owner

def Placement (mode : GroupingMode) (events : List TimelineEvent) : Prop := match mode with
  | .owner => ∀ e ∈ events, Placed events (eventKey e)
  | .app | .namespace_ => True
  | .none | .other _ _ => events = []

section Owner
variable {events : List TimelineEvent}

/-- The resources whose events a group shows. -/
def blocksOf (events : List TimelineEvent) (root : TimelineEvent) : List String :=
  eventKey root :: (ownedBy events (eventKey root)).map eventKey

theorem shown_blocks (root : TimelineEvent) :
    (ownerGroup events root).shown = (blocksOf events root).flatMap (resourceEvents events) := by
  rw [EventGroup.shown, blocksOf, flatMap_cons, flatMap_map]
  exact congrArg _ (flatMap_map ..)

/-- The groups below which a resource is shown. -/
def managers (events : List TimelineEvent) (key : String) : List String :=
  ((roots events).map eventKey).filter fun owner => key ∈ (ownedBy events owner).map eventKey

theorem mem_managers {owner key : String} : owner ∈ managers events key ↔ Manages events owner key := by
  rw [managers, mem_filter, mem_roots, decide_eq_true_iff, mem_owned, Manages]

theorem count_owner_blocks (key : String) : ((roots events).flatMap (blocksOf events)).count key =
    ((roots events).map eventKey).count key + (managers events key).length := by
  unfold managers
  induction roots events with
  | nil => simp
  | cons root rest ih =>
    rw [flatMap_cons, count_append, ih, blocksOf, map_cons, count_cons,
      count_cons, (owned_once (eventKey root)).count, filter_cons]
    by_cases below : key ∈ (ownedBy events (eventKey root)).map eventKey
    · simp only [below, if_true, decide_true, length_cons]
      omega
    · simp only [below, if_false, decide_false, Bool.false_eq_true]
      omega

theorem placed_iff (key : String) :
    ((roots events).flatMap (blocksOf events)).count key = 1 ↔ Placed events key := by
  have once : (managers events key).Nodup := roots_once.filter _
  have none_iff : (managers events key).length = 0 ↔ ∀ owner, ¬ Manages events owner key := by
    rw [length_eq_zero_iff, eq_nil_iff_forall_not_mem]
    simp only [mem_managers]
  have one_iff : (managers events key).length = 1 ↔ ∃ owner, Manages events owner key ∧
      ∀ other, Manages events other key → other = owner := by
    simp only [← mem_managers]
    constructor
    · intro one
      obtain ⟨owner, single⟩ := length_eq_one_iff.mp one
      exact ⟨owner, by simp [single], by simp [single]⟩
    · rintro ⟨owner, member, only⟩
      rw [length_eq_one_iff]
      exact ⟨owner, (perm_singleton.mp
        ((perm_ext_iff_of_nodup once (nodup_singleton owner)).mpr fun other => by
          rw [mem_singleton]
          exact ⟨only other, fun same => same ▸ member⟩))⟩
  rw [count_owner_blocks, roots_once.count, Placed, ← none_iff, ← one_iff]
  by_cases top : Toplevel events key
  · rw [if_pos (mem_roots.mpr top)]
    simp [top]
  · rw [if_neg (mem_roots.not.mpr top)]
    simp [top]

theorem owner_once_iff : ((groupByOwner events).flatMap EventGroup.shown).Perm events ↔
    ∀ e ∈ events, Placed events (eventKey e) := by
  have blocks : (groupByOwner events).flatMap EventGroup.shown =
      ((roots events).flatMap (blocksOf events)).flatMap (resourceEvents events) := by
    rw [group_by_owner_eq, flatMap_map, flatMap_assoc]
    exact congrArg flatten (map_congr_left fun root _ => shown_blocks root)
  rw [blocks]
  have listed : (((roots events).flatMap (blocksOf events)).flatMap (resourceEvents events)).Perm
      events ↔ ∀ e ∈ events, ((roots events).flatMap (blocksOf events)).count (eventKey e) = 1 :=
    Partition.blocks_perm_iff
  simp only [placed_iff] at listed
  exact listed

end Owner

section Keyed
variable {keyOf name namespace_ : TimelineEvent → String} {kind : String}

theorem keyed_once (events : List TimelineEvent) :
    (((groupBy keyOf kind name namespace_).gather events).flatMap EventGroup.shown).Perm events := by
  obtain ⟨distinct, used, _⟩ := gather_spec (F := groupBy keyOf kind name namespace_) events
  have split := (Partition.partition_by_key distinct used).all
  have same : ((groupBy keyOf kind name namespace_).gather events).map EventGroup.shown =
      (((groupBy keyOf kind name namespace_).gather events).map EventGroup.id).map fun key =>
        events.filter fun e => decide (keyOf e = key) := by
    rw [map_map]
    apply map_congr_left
    intro group member
    obtain ⟨first, rest, listed, shown, _⟩ := keyed_group member
    exact shown.trans listed.symm
  rw [flatMap_def, same]
  exact split

theorem keyed_count (events : List TimelineEvent) :
    ∀ g ∈ (groupBy keyOf kind name namespace_).gather events, g.eventCount = g.shown.length := by
  intro group member
  obtain ⟨_, _, _, _, counted, _⟩ := keyed_group member
  exact counted

end Keyed

section Result
variable {mode : GroupingMode} {events : List TimelineEvent} {groups : List EventGroup}

theorem count_of_mode (mode : GroupingMode) (events : List TimelineEvent) :
    ∀ g ∈ groupsOf mode events, g.eventCount = g.shown.length := by
  cases mode with
  | none => simp [groupsOf]
  | other => simp [groupsOf]
  | owner =>
    intro g member
    rw [groupsOf, group_by_owner_eq] at member
    obtain ⟨root, _, rfl⟩ := mem_map.mp member
    exact count_shown _
  | app => exact keyed_count events
  | namespace_ => exact keyed_count events

theorem once_of_mode (mode : GroupingMode) (events : List TimelineEvent) :
    ((groupsOf mode events).flatMap EventGroup.shown).Perm events ↔ Placement mode events := by
  cases mode with
  | none => simp [groupsOf, Placement]
  | other => simp [groupsOf, Placement]
  | owner => exact owner_once_iff
  | app => exact iff_true_intro (keyed_once events)
  | namespace_ => exact iff_true_intro (keyed_once events)

/-- The groups hold every event once, and count as many, exactly when every resource has one place
   among them. By app and by namespace it always has. -/
theorem grouping_conserves_iff (limit : Int) (answer : GroupEvents mode events groups) :
    Conserves events groups (groupedResponse limit events groups).ungrouped ↔ Placement mode events := by
  have shown : (groups.flatMap EventGroup.shown).Perm
      ((groupsOf mode events).flatMap EventGroup.shown) := answer.perm.flatMap_right _
  rw [← once_of_mode]
  constructor
  · intro conserves
    have once := conserves.once
    rw [groupedResponse, List.append_nil] at once
    exact shown.symm.trans once
  · intro once
    constructor
    · rw [groupedResponse, List.append_nil]
      exact shown.trans once
    · have counts : groups.map EventGroup.eventCount = groups.map fun g => g.shown.length :=
        List.map_congr_left fun g member =>
          count_of_mode mode events g (answer.perm.mem_iff.mp member)
      rw [counts, ← List.length_flatMap]
      exact (shown.trans once).length_eq

end Result

section Inputs

def ownedEvent (kind name : String) (owner : Option OwnerInfo) : TimelineEvent :=
  { MemoryStore.zeroEvent with
    id := kind ++ name, timestamp := ⟨1, 0⟩, kind := kind, namespace_ := "shop", name := name,
    owner := owner }

def webEvents : List TimelineEvent :=
  [ownedEvent "ReplicaSet" "web-7d8" (some ⟨"Deployment", "web"⟩), ownedEvent "Deployment" "web" none]

def backupEvents : List TimelineEvent :=
  [ownedEvent "Job" "backup-1" (some ⟨"CronJob", "backup"⟩), ownedEvent "CronJob" "backup" none]

def podEvents : List TimelineEvent := [ownedEvent "Pod" "web-7d8-x" (some ⟨"ReplicaSet", "web-7d8"⟩)]

def withManaged : QueryOptions := { defaultQueryOptions with includeManaged := true }

/-- What a query returns from a store that holds the events, the newest first. -/
def returned (events : List TimelineEvent) : List TimelineEvent :=
  (((MemoryStore.newMemoryStore 5).appendBatch events.reverse).query withManaged).1

theorem web_conserved : Conserves webEvents (groupsOf .owner webEvents)
    (groupedResponse 200 webEvents (groupsOf .owner webEvents)).ungrouped := by
  have answer : GroupEvents .owner webEvents (groupsOf .owner webEvents) := ⟨List.Perm.refl _, by decide⟩
  apply (grouping_conserves_iff 200 answer).mpr
  have once : ∀ e ∈ webEvents,
      ((roots webEvents).flatMap (blocksOf webEvents)).count (eventKey e) = 1 := by decide
  exact fun e member => (placed_iff _).mp (once e member)

/-- A pod whose ReplicaSet opens no group is lost, and a Job below its CronJob is shown twice. -/
theorem lost_and_doubled : (returned podEvents = podEvents ∧ GroupEvents .owner podEvents [] ∧
      ¬ Conserves podEvents [] (groupedResponse 200 podEvents []).ungrouped) ∧
    returned backupEvents = backupEvents ∧
      GroupEvents .owner backupEvents (groupsOf .owner backupEvents).reverse ∧
      ((groupsOf .owner backupEvents).map EventGroup.eventCount).sum = 3 ∧
      ¬ Conserves backupEvents (groupsOf .owner backupEvents).reverse
        (groupedResponse 200 backupEvents (groupsOf .owner backupEvents).reverse).ungrouped := by
  refine ⟨⟨by decide, ⟨by decide, by decide⟩, ?_⟩, by decide, ⟨List.reverse_perm _, by decide⟩,
    by decide, ?_⟩
  · intro conserves
    exact absurd conserves.counted (by decide)
  · intro conserves
    exact absurd conserves.counted (by decide)

end Inputs

end GroupConservation
