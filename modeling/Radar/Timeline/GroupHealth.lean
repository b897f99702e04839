import Radar.Timeline.EventGroups
import Radar.Timeline.MemoryStore

/- The health a timeline group takes from its events. -/
namespace GroupHealth
open Timeline EventGroups KeyedFold Firsts Selection List

def healths (events : List TimelineEvent) : List String := events.map TimelineEvent.healthState

/-- One of the healths, and none of them is worse. -/
structure Worst (hs : List String) (h : String) : Prop where
  among : h ∈ hs
  above : ∀ h' ∈ hs, healthOrder h' ≤ healthOrder h

structure HealthLaw (mode : GroupingMode) (events : List TimelineEvent) : Prop where
  worst : ∀ groups, GroupEvents mode events groups → ∀ g ∈ groups, Worst (healths g.shown) g.healthState
  healthy : ∀ groups, GroupEvents mode events groups → ∀ g ∈ groups,
    (∀ e ∈ g.shown, e.healthState = "healthy") → g.healthState = "healthy"
  ids : ∀ events', events'.Perm events → ∀ groups groups', GroupEvents mode events groups →
    GroupEvents mode events' groups' → (groups'.map EventGroup.id).Perm (groups.map EventGroup.id)
  stable : ∀ events', events'.Perm events → ∀ groups groups', GroupEvents mode events groups →
    GroupEvents mode events' groups' → ∀ g ∈ groups, ∀ g' ∈ groups', g'.id = g.id →
      g'.healthState = g.healthState

/-- Events of one key that differ in their health have one of the key with a state that is worse than
   healthy. -/
def Agreeing (keyOf : TimelineEvent → String) (events : List TimelineEvent) : Prop :=
  ∀ a ∈ events, ∀ b ∈ events, keyOf a = keyOf b → a.healthState = b.healthState ∨
    ∃ e ∈ events, keyOf e = keyOf a ∧ 0 < healthOrder e.healthState

/-- Under every top-level workload there is an event with a state that is worse than healthy. -/
def Troubled (events : List TimelineEvent) : Prop :=
  ∀ key, Toplevel events key → ∃ e ∈ events, 0 < healthOrder e.healthState ∧
    (eventKey e = key ∨ ∃ c ∈ events, eventKey c = eventKey e ∧ ownerKey c = some key)

def Decided (mode : GroupingMode) (events : List TimelineEvent) : Prop := match mode with
  | .owner => Troubled events
  | .app => Agreeing appKey events
  | .namespace_ => Agreeing namespaceKey events
  | .none | .other _ _ => True

section Fold
variable {hs hs' : List String} {h h' : String}

theorem order_inj (positive : 0 < healthOrder h) (same : healthOrder h = healthOrder h') : h = h' := by
  unfold healthOrder at positive same
  grind

theorem worst_unique (worst : Worst hs h) (worst' : Worst hs h') (positive : 0 < healthOrder h) : h = h' :=
  order_inj positive (le_antisymm (worst'.above h worst.among) (worst.above h' worst'.among))

/-- The health a loop of worseHealth comes to. -/
def worse (x held : String) : Bool := decide (healthOrder held < healthOrder x)

theorem worse_ranks : Ranks worse fun h => OrderDual.toDual (healthOrder h) := by
  intro x held
  simp [worse]

theorem fold_eq (seed : String) (events : List TimelineEvent) :
    events.foldl (fun worst e => worseHealth worst e.healthState) seed =
      select worse seed (healths events) := by
  rw [select, healths, foldl_map]
  congr 1
  funext held e
  simp [worseHealth, worse]

theorem select_worst (seed : String) (hs : List String) : Worst (seed :: hs) (select worse seed hs) := by
  constructor
  · exact select_mem worse seed hs
  · intro h member
    exact select_le worse_ranks seed hs member

/-- A seed that is one of the healths does no harm. -/
theorem seed_within (member : h ∈ hs) : Worst hs (select worse h hs) := by
  obtain ⟨among, above⟩ := select_worst h hs
  constructor
  · rcases mem_cons.mp among with same | inside
    · rw [same]
      exact member
    · exact inside
  · exact fun h' inside => above h' (mem_cons_of_mem h inside)

/-- The seed unknown is right exactly where some health is not better than it. -/
theorem seed_unknown_iff : Worst hs (select worse "unknown" hs) ↔ ∃ h ∈ hs, 0 < healthOrder h := by
  obtain ⟨among, above⟩ := select_worst "unknown" hs
  have seed : 1 ≤ healthOrder (select worse "unknown" hs) := above "unknown" mem_cons_self
  constructor
  · intro worst
    exact ⟨_, worst.among, seed⟩
  · rintro ⟨h, member, positive⟩
    refine ⟨?_, fun h' inside => above h' (mem_cons_of_mem _ inside)⟩
    rcases mem_cons.mp among with same | inside
    · have level : healthOrder h = healthOrder "unknown" := by
        have most := above h (mem_cons_of_mem _ member)
        rw [same] at most
        exact le_antisymm most positive
      rw [same, ← order_inj positive level]
      exact member
    · exact inside

end Fold

section Owner
variable {events events' : List TimelineEvent}

theorem close_health (group : EventGroup) :
    (closeGroup group).healthState = select worse "unknown" (healths group.shown) := by
  have nested : ∀ (children : List ChildGroup) (seed : String), children.foldl (fun worst child =>
        child.events.foldl (fun worst e => worseHealth worst e.healthState) worst) seed =
      (children.flatMap ChildGroup.events).foldl
        (fun worst e => worseHealth worst e.healthState) seed := by
    intro children seed
    rw [flatMap_def, foldl_flatten, foldl_map]
  rw [← fold_eq, EventGroup.shown, foldl_append]
  exact nested group.children _

theorem owner_group {g : EventGroup} (member : g ∈ groupByOwner events) :
    Toplevel events g.id ∧ g.healthState = select worse "unknown" (healths g.shown) ∧
      ∀ e, e ∈ g.shown ↔ e ∈ events ∧ (eventKey e = g.id ∨
        ∃ c ∈ events, eventKey c = eventKey e ∧ ownerKey c = some g.id) := by
  rw [group_by_owner_eq] at member
  obtain ⟨root, listed, rfl⟩ := mem_map.mp member
  exact ⟨mem_roots.mp (mem_map_of_mem listed), close_health _, fun e => mem_shown⟩

theorem owner_ids : (groupByOwner events).map EventGroup.id = (roots events).map eventKey := by
  rw [group_by_owner_eq, map_map]
  rfl

theorem owner_ids_perm (perm : events'.Perm events) :
    ((groupByOwner events').map EventGroup.id).Perm ((groupByOwner events).map EventGroup.id) := by
  rw [owner_ids, owner_ids, perm_ext_iff_of_nodup roots_once roots_once]
  intro key
  rw [mem_roots, mem_roots]
  simp only [Toplevel, perm.mem_iff]

theorem owner_worst_iff : (∀ g ∈ groupByOwner events, Worst (healths g.shown) g.healthState) ↔
    Troubled events := by
  constructor
  · intro worst key top
    have listed : key ∈ (groupByOwner events).map EventGroup.id := owner_ids ▸ mem_roots.mpr top
    obtain ⟨g, member, rfl⟩ := mem_map.mp listed
    obtain ⟨_, health, shown⟩ := owner_group member
    have mine := worst g member
    rw [health, seed_unknown_iff] at mine
    obtain ⟨h, inside, positive⟩ := mine
    obtain ⟨e, member', rfl⟩ := mem_map.mp inside
    obtain ⟨present, place⟩ := (shown e).mp member'
    exact ⟨e, present, positive, place⟩
  · intro troubled g member
    obtain ⟨top, health, shown⟩ := owner_group member
    obtain ⟨e, present, positive, place⟩ := troubled g.id top
    rw [health, seed_unknown_iff]
    exact ⟨_, mem_map_of_mem ((shown e).mpr ⟨present, place⟩), positive⟩

theorem owner_stable (perm : events'.Perm events) {g g' : EventGroup}
    (member : g ∈ groupByOwner events) (member' : g' ∈ groupByOwner events') (same : g'.id = g.id) :
    g'.healthState = g.healthState := by
  obtain ⟨_, health, shown⟩ := owner_group member
  obtain ⟨_, health', shown'⟩ := owner_group member'
  have alike : ∀ e, e ∈ g'.shown ↔ e ∈ g.shown := by
    intro e
    rw [shown, shown', same]
    simp only [perm.mem_iff]
  have worst := select_worst "unknown" (healths g.shown)
  have worst' := select_worst "unknown" (healths g'.shown)
  have moved : Worst ("unknown" :: healths g.shown) (select worse "unknown" (healths g'.shown)) := by
    have listed : ∀ h, h ∈ "unknown" :: healths g'.shown ↔ h ∈ "unknown" :: healths g.shown := by
      intro h
      simp only [healths, mem_cons, mem_map, alike]
    exact ⟨(listed _).mp worst'.among, fun h inside => worst'.above h ((listed h).mpr inside)⟩
  rw [health, health']
  exact worst_unique moved worst (moved.above "unknown" mem_cons_self)

end Owner

section Keyed
variable {keyOf name namespace_ : TimelineEvent → String} {kind : String}
  {events events' : List TimelineEvent}

def keyed (keyOf : TimelineEvent → String) (kind : String) (name namespace_ : TimelineEvent → String)
    (events : List TimelineEvent) : List EventGroup :=
  (groupBy keyOf kind name namespace_).gather events

theorem keyed_ids_perm (perm : events'.Perm events) :
    ((keyed keyOf kind name namespace_ events').map EventGroup.id).Perm
      ((keyed keyOf kind name namespace_ events).map EventGroup.id) := by
  obtain ⟨distinct, used, _⟩ := gather_spec (F := groupBy keyOf kind name namespace_) events
  obtain ⟨distinct', used', _⟩ := gather_spec (F := groupBy keyOf kind name namespace_) events'
  refine (perm_ext_iff_of_nodup distinct' distinct).mpr fun key => ?_
  rw [used, used']
  simp only [perm.mem_iff]

theorem keyed_worst {g : EventGroup} (member : g ∈ keyed keyOf kind name namespace_ events) :
    Worst (healths g.shown) g.healthState ∧ ∀ e, e ∈ g.shown ↔ e ∈ events ∧ keyOf e = g.id := by
  obtain ⟨first, rest, listed, shown, _, health⟩ := keyed_group member
  constructor
  · rw [health, fold_eq, shown]
    exact seed_within (mem_map_of_mem mem_cons_self)
  · intro e
    rw [shown, ← listed, mem_filter, decide_eq_true_iff]

/-- Where no state of a key is worse than healthy, the first event listed gives its own. -/
theorem first_listed {a : TimelineEvent} {rest : List TimelineEvent} (perm : (a :: rest).Perm events)
    (none : ∀ e ∈ events, keyOf e = keyOf a → healthOrder e.healthState = 0) :
    ∃ g ∈ keyed keyOf kind name namespace_ (a :: rest), g.id = keyOf a ∧ g.healthState = a.healthState := by
  obtain ⟨_, used, _⟩ := gather_spec (F := groupBy keyOf kind name namespace_) (a :: rest)
  obtain ⟨g, member, same⟩ := mem_map.mp ((used (keyOf a)).mpr ⟨a, mem_cons_self, rfl⟩)
  have same : g.id = keyOf a := same
  obtain ⟨first, later, listed, _, _, health⟩ := keyed_group member
  refine ⟨g, member, same, ?_⟩
  rw [same, filter_cons_of_pos (by simp), cons.injEq] at listed
  rw [health, fold_eq, ← listed.1, select_held]
  intro h inside
  obtain ⟨e, present, rfl⟩ := mem_map.mp inside
  have own : e ∈ (a :: rest).filter fun e => keyOf e = keyOf a := by
    rw [filter_cons_of_pos (by simp), listed.2]
    exact listed.1 ▸ present
  obtain ⟨present', key⟩ := mem_filter.mp own
  rw [worse, none e (perm.mem_iff.mp present') (of_decide_eq_true key), decide_eq_false_iff_not]
  exact Nat.not_lt_zero _

theorem keyed_stable_iff : (∀ events', events'.Perm events → ∀ g ∈ keyed keyOf kind name namespace_ events,
        ∀ g' ∈ keyed keyOf kind name namespace_ events', g'.id = g.id →
          g'.healthState = g.healthState) ↔ Agreeing keyOf events := by
  constructor
  · intro stable a present b present' same
    by_contra neither
    rw [not_or] at neither
    have none : ∀ e ∈ events, keyOf e = keyOf a → healthOrder e.healthState = 0 := by
      intro e member key
      by_contra positive
      exact neither.2 ⟨e, member, key, Nat.pos_of_ne_zero positive⟩
    obtain ⟨rest, perm⟩ := exists_front present
    obtain ⟨rest', perm'⟩ := exists_front present'
    obtain ⟨g, member, id, health⟩ :=
      (first_listed perm none : ∃ g ∈ keyed keyOf kind name namespace_ (a :: rest), _)
    obtain ⟨g', member', id', health'⟩ :=
      (first_listed perm' (same ▸ none) : ∃ g ∈ keyed keyOf kind name namespace_ (b :: rest'), _)
    obtain ⟨_, used, _⟩ := gather_spec (F := groupBy keyOf kind name namespace_) events
    obtain ⟨whole, listed, own⟩ := mem_map.mp ((used (keyOf a)).mpr ⟨a, present, rfl⟩)
    have first := stable _ perm whole listed g member (id.trans own.symm)
    have second := stable _ perm' whole listed g' member' ((id'.trans same.symm).trans own.symm)
    exact neither.1 (health.symm.trans (first.trans (second.symm.trans health')))
  · intro agreeing events' perm g member g' member' same
    obtain ⟨worst, shown⟩ := keyed_worst member
    obtain ⟨worst', shown'⟩ := keyed_worst member'
    have alike : ∀ h, h ∈ healths g'.shown ↔ h ∈ healths g.shown := by
      intro h
      simp only [healths, mem_map, shown, shown', perm.mem_iff, same]
    have moved : Worst (healths g.shown) g'.healthState :=
      ⟨(alike _).mp worst'.among, fun h inside => worst'.above h ((alike h).mpr inside)⟩
    by_cases positive : 0 < healthOrder g'.healthState
    · exact worst_unique moved worst positive
    · obtain ⟨a, inside, own⟩ := mem_map.mp moved.among
      obtain ⟨b, inside', own'⟩ := mem_map.mp worst.among
      obtain ⟨present, key⟩ := (shown a).mp inside
      obtain ⟨present', key'⟩ := (shown b).mp inside'
      rw [← own, ← own']
      rcases agreeing a present b present' (key.trans key'.symm) with equal | ⟨e, listed, key'', more⟩
      · exact equal
      · have below := moved.above _ (mem_map_of_mem ((shown e).mpr ⟨listed, key''.trans key⟩))
        omega

end Keyed

section Result
variable {mode : GroupingMode} {events events' : List TimelineEvent}

/-- In which order the groups come does not matter to the law. -/
theorem law_of_groups : HealthLaw mode events ↔
    (∀ g ∈ groupsOf mode events, Worst (healths g.shown) g.healthState) ∧ ∀ events', events'.Perm events →
        ((groupsOf mode events').map EventGroup.id).Perm ((groupsOf mode events).map EventGroup.id) ∧
          ∀ g ∈ groupsOf mode events, ∀ g' ∈ groupsOf mode events', g'.id = g.id →
            g'.healthState = g.healthState := by
  constructor
  · intro law
    obtain ⟨groups, answer⟩ := groups_answered mode events
    refine ⟨fun g member => law.worst groups answer g (answer.perm.mem_iff.mpr member), ?_⟩
    intro events' perm
    obtain ⟨groups', answer'⟩ := groups_answered mode events'
    constructor
    · have ids := law.ids events' perm groups groups' answer answer'
      exact (answer'.perm.map _).symm.trans (ids.trans (answer.perm.map _))
    · intro g member g' member'
      exact law.stable events' perm groups groups' answer answer' g
        (answer.perm.mem_iff.mpr member) g' (answer'.perm.mem_iff.mpr member')
  · rintro ⟨worst, moved⟩
    constructor
    · intro groups answer g member
      exact worst g (answer.perm.mem_iff.mp member)
    · intro groups answer g member all
      obtain ⟨e, inside, own⟩ := mem_map.mp (worst g (answer.perm.mem_iff.mp member)).among
      exact own.symm.trans (all e inside)
    · intro events' perm groups groups' answer answer'
      exact (answer'.perm.map _).trans ((moved events' perm).1.trans (answer.perm.map _).symm)
    · intro events' perm groups groups' answer answer' g member g' member'
      exact (moved events' perm).2 g (answer.perm.mem_iff.mp member) g'
        (answer'.perm.mem_iff.mp member')

theorem keyed_law_iff {keyOf name namespace_ : TimelineEvent → String} {kind : String}
    (gathered : ∀ events, groupsOf mode events = keyed keyOf kind name namespace_ events) :
    HealthLaw mode events ↔ Agreeing keyOf events := by
  rw [law_of_groups]
  simp only [gathered]
  constructor
  · intro law
    exact keyed_stable_iff.mp fun events' perm => (law.2 events' perm).2
  · intro agreeing
    refine ⟨fun g member => (keyed_worst member).1, fun events' perm => ⟨keyed_ids_perm perm, ?_⟩⟩
    exact keyed_stable_iff.mpr agreeing events' perm

/-- A group has the worst health of its events, whatever their order, exactly when in owner mode some
   event below every top-level workload is worse than healthy, and in the other modes the events of one
   group that are all healthy or without a declared state have the same one. -/
theorem health_law_iff (mode : GroupingMode) (events : List TimelineEvent) :
    HealthLaw mode events ↔ Decided mode events := by
  cases mode with
  | none => exact iff_of_true (law_of_groups.mpr (by simp [groupsOf])) trivial
  | other => exact iff_of_true (law_of_groups.mpr (by simp [groupsOf])) trivial
  | owner =>
    rw [law_of_groups]
    constructor
    · intro law
      exact owner_worst_iff.mp law.1
    · intro troubled
      refine ⟨owner_worst_iff.mpr troubled, fun events' perm => ⟨owner_ids_perm perm, ?_⟩⟩
      intro g member g' member' same
      exact owner_stable perm member member' same
  | app => exact keyed_law_iff fun _ => rfl
  | namespace_ => exact keyed_law_iff fun _ => rfl

end Result

section Inputs

def healthEvent (id health : String) : TimelineEvent := { MemoryStore.zeroEvent with
    id := id, timestamp := ⟨1, 0⟩, kind := "Deployment", namespace_ := "shop", name := "web",
    healthState := health }

def healthyEvent : TimelineEvent := healthEvent "a" "healthy"

def unsetEvent : TimelineEvent := healthEvent "b" ""

/-- A healthy Deployment is shown as unknown by owner, and a namespace with one healthy event and one
   without a state takes the state of whichever comes first. -/
theorem healthy_shown_unknown : (∃ groups, GroupEvents .owner [healthyEvent] groups ∧ ∃ g ∈ groups,
      (∀ e ∈ g.shown, e.healthState = "healthy") ∧ g.healthState = "unknown") ∧
    (∃ groups groups', GroupEvents .namespace_ [healthyEvent, unsetEvent] groups ∧
      GroupEvents .namespace_ [unsetEvent, healthyEvent] groups' ∧
      ∃ g ∈ groups, ∃ g' ∈ groups', g'.id = g.id ∧ g'.healthState ≠ g.healthState) ∧
    ¬ HealthLaw .owner [healthyEvent] ∧ ¬ HealthLaw .namespace_ [healthyEvent, unsetEvent] := by
  have single : GroupEvents .owner [healthyEvent] (groupsOf .owner [healthyEvent]) :=
    ⟨List.Perm.refl _, by decide⟩
  have first : GroupEvents .namespace_ [healthyEvent, unsetEvent]
      (groupsOf .namespace_ [healthyEvent, unsetEvent]) := ⟨List.Perm.refl _, by decide⟩
  have second : GroupEvents .namespace_ [unsetEvent, healthyEvent]
      (groupsOf .namespace_ [unsetEvent, healthyEvent]) := ⟨List.Perm.refl _, by decide⟩
  have shown : ∃ g ∈ groupsOf .owner [healthyEvent],
      (∀ e ∈ g.shown, e.healthState = "healthy") ∧ g.healthState = "unknown" := by decide
  have differ : ∃ g ∈ groupsOf .namespace_ [healthyEvent, unsetEvent],
      ∃ g' ∈ groupsOf .namespace_ [unsetEvent, healthyEvent], g'.id = g.id ∧
        g'.healthState ≠ g.healthState := by decide
  refine ⟨⟨_, single, shown⟩, ⟨_, _, first, second, differ⟩, ?_, ?_⟩
  · intro law
    obtain ⟨g, member, all, health⟩ := shown
    exact absurd ((law.healthy _ single g member all).symm.trans health) (by decide)
  · intro law
    obtain ⟨g, member, g', member', same, other⟩ := differ
    exact other (law.stable _ (List.Perm.swap _ _ _) _ _ first second g member g' member' same)

end Inputs

end GroupHealth
