import Radar.Timeline.ResourceHierarchy

/- Whether a Kubernetes Event that joins the lane of its owner leaves the lanes of a timeline as they are. -/
namespace AttachedEvents
open ResourceHierarchy List
open Timeline (OwnerInfo)
variable {lane : ResourceLane} {lanes : List ResourceLane} {c p : String} {rest : List ResourceLane}
variable {label : String} {gs : List (List ResourceLane)}

section Claims
variable (events : List UiEvent) (topology : Option UiTopology) (groupByApp : Bool) (l : String)

/-- The namespace in a lane's id is that of its events: always so without slashes in kinds and namespaces. -/
def Spelled : Prop :=
  ∀ event ∈ events, laneOf event = l → event.namespace_ = ((GoText.split '/' l).drop 1).headD ""

def Owned : Prop := ∃ event ∈ events, laneOf event = l ∧ event.owner ≠ none

/-- The lanes and parents before the labels are looked at. -/
def linked (t : UiTopology) : Building :=
  t.edges.foldl (edgeStep (topologyGroups (some t))) (owned (topologyGroups (some t)) events)

/-- Neither an edge nor a label puts the lane and another one together. -/
structure Unplaced (t : UiTopology) : Prop where
  edges : (linked events t).laneParent l = none ∨ (linked events t).laneParent l = some l
  labels : groupByApp = true → ∀ lanes ∈ appGroups (laneAppLabels t.nodes) (linked events t),
    (∃ lane ∈ lanes, lane.id = l) → lanes.length < 2

def Settled : Prop := Owned events l ∨ ∀ t, topology = some t → Unplaced events groupByApp l t

/-- The lanes and parents in the end. -/
def built : Building :=
  linkParents topology groupByApp (topologyGroups topology) (owned (topologyGroups topology) events)

/-- The edge that gives the lane a parent makes the parent a lane, which comes to lie below the lane itself. -/
def Circular : Prop :=
  ∃ t, topology = some t ∧ ∃ before edge after parent, t.edges = before ++ edge :: after ∧
    nominated edge = some (l, parent) ∧ parent ≠ l ∧
    (let b := before.foldl (edgeStep (topologyGroups topology)) (owned (topologyGroups topology) events)
     b.laneParent l = none ∧ has b.lanes l = true ∧ has b.lanes parent = false) ∧
    ∃ n, Ascent.Returns (parentLane (built events topology groupByApp)) l n

/-- The same lanes, each below the same lane, and no other lane's events changed. -/
structure Unmoved (h h' : Hierarchy) : Prop where
  lanes : ∀ id, has h'.lanes id = has h.lanes id
  nesting : ∀ child root, child ∈ childrenOf h'.lanes root ↔ child ∈ childrenOf h.lanes root
  events : ∀ id, id ≠ l → eventsOf h'.lanes id = eventsOf h.lanes id

end Claims

section Apart
variable {groups : String → Option String} {l : String} {b b' b'' : Building} {fresh : ResourceLane}

def others (l : String) (lanes : List ResourceLane) : List ResourceLane := lanes.filter fun lane => lane.id ≠ l

/-- The same but for one lane and where it stands. -/
structure Apart (l : String) (b b' : Building) : Prop where
  lanes : others l b'.lanes = others l b.lanes
  parents : ∀ c, c ≠ l → b'.laneParent c = b.laneParent c

theorem apart_symm (apart : Apart l b b') : Apart l b' b :=
  ⟨apart.lanes.symm, fun c other => (apart.parents c other).symm⟩

theorem apart_trans (first : Apart l b b') (second : Apart l b' b'') : Apart l b b'' :=
  ⟨second.lanes.trans first.lanes, fun c other => (second.parents c other).trans (first.parents c other)⟩

theorem has_others {id : String} (other : id ≠ l) : has (others l lanes) id = has lanes id := by
  rw [Bool.eq_iff_iff, has_iff, has_iff, others, mem_map, mem_map]
  constructor
  · rintro ⟨lane, member, own⟩
    exact ⟨lane, mem_of_mem_filter member, own⟩
  · rintro ⟨lane, member, rfl⟩
    exact ⟨lane, mem_filter.mpr ⟨member, decide_eq_true other⟩, rfl⟩

theorem apart_has (apart : Apart l b b') {id : String} (other : id ≠ l) : has b'.lanes id = has b.lanes id := by
  rw [← has_others other, apart.lanes, has_others other]

theorem others_ensure : others l (ensure lanes fresh) =
    if fresh.id = l then others l lanes else ensure (others l lanes) fresh := by
  by_cases own : fresh.id = l
  · rw [if_pos own, ensure]
    split
    next => rfl
    next => simp [others, filter_append, own]
  · rw [if_neg own, ensure, ensure, has_others own]
    split
    next => rfl
    next => simp [others, filter_append, own]

/-- Both give a lane the same parent. -/
theorem apart_set (apart : Apart l b b') :
    Apart l ⟨ensure b.lanes fresh, setAt b.laneParent c p⟩ ⟨ensure b'.lanes fresh, setAt b'.laneParent c p⟩ := by
  refine ⟨?_, fun d other => ?_⟩
  · simp only [others_ensure, apart.lanes]
  · simp only [setAt]
    split
    next => rfl
    next => exact apart.parents d other

/-- The lane itself gets a parent that is there. -/
theorem apart_self (apart : Apart l b b') {p : String} (there : fresh.id = l ∨ has b'.lanes fresh.id = true) :
    Apart l b ⟨ensure b'.lanes fresh, setAt b'.laneParent l p⟩ := by
  refine ⟨?_, fun d other => ?_⟩
  · rcases there with own | held
    · simp only [others_ensure, if_pos own, apart.lanes]
    · simp only [ensure, if_pos held, apart.lanes]
  · simp only [setAt, if_neg other]
    exact apart.parents d other

theorem ownerStep_apart (apart : Apart l b b') (lane : ResourceLane) :
    Apart l (ownerStep groups b lane) (ownerStep groups b' lane) := by
  unfold ownerStep
  cases ownerOf lane with
  | none => exact apart
  | some owner => exact apart_set apart

/-- Where the lane's owner is the lane itself its step is not seen from the others. -/
theorem ownerSteps_skip (self : ∀ lane ∈ lanes, lane.id = l →
      ∀ owner, ownerOf lane = some owner → laneIdOf owner.kind lane.namespace_ owner.name = l)
    (apart : Apart l b b') :
    Apart l ((others l lanes).foldl (ownerStep groups) b) (lanes.foldl (ownerStep groups) b') := by
  induction lanes generalizing b b' with
  | nil => exact apart
  | cons lane rest ih =>
    have rest_ := fun lane' member => self lane' (mem_cons_of_mem lane member)
    rw [foldl_cons]
    by_cases own : lane.id = l
    · have skipped : others l (lane :: rest) = others l rest := by simp [others, own]
      rw [skipped]
      refine ih rest_ ?_
      unfold ownerStep
      cases found : ownerOf lane with
      | none => exact apart
      | some owner =>
        rw [own]
        exact apart_self apart (.inl (self lane mem_cons_self own owner found))
    · have kept : others l (lane :: rest) = lane :: others l rest := by simp [others, own]
      rw [kept, foldl_cons]
      exact ih rest_ (ownerStep_apart apart lane)

end Apart

section Owners
variable {groups : String → Option String} {l : String} {b : Building}

theorem ownerSteps_other {c : String} (absent : ∀ lane ∈ lanes, lane.id ≠ c) :
    (lanes.foldl (ownerStep groups) b).laneParent c = b.laneParent c := by
  induction lanes generalizing b with
  | nil => rfl
  | cons lane rest ih =>
    rw [foldl_cons, ih fun lane' member => absent lane' (mem_cons_of_mem lane member)]
    unfold ownerStep
    cases ownerOf lane with
    | none => rfl
    | some owner => exact if_neg (Ne.symm (absent lane mem_cons_self))

/-- The parent that a lane gets from its events. -/
theorem ownerSteps_at (distinct : (lanes.map ResourceLane.id).Nodup) (member : lane ∈ lanes)
    (free : b.laneParent lane.id = none) : (lanes.foldl (ownerStep groups) b).laneParent lane.id =
      (ownerOf lane).map fun owner => laneIdOf owner.kind lane.namespace_ owner.name := by
  induction lanes generalizing b with
  | nil => exact absurd member not_mem_nil
  | cons first rest ih =>
    obtain ⟨fresh, later⟩ := nodup_cons.mp distinct
    rw [foldl_cons]
    by_cases own : first.id = lane.id
    · obtain rfl : lane = first := inj_on_of_nodup_map distinct member mem_cons_self own.symm
      have absent : ∀ lane' ∈ rest, lane'.id ≠ lane.id := fun lane' inside same =>
        fresh (same ▸ mem_map_of_mem inside)
      rw [ownerSteps_other absent]
      unfold ownerStep
      cases ownerOf lane with
      | none => exact free
      | some owner => exact if_pos rfl
    · have inside := (mem_cons.mp member).resolve_left fun same => own (congrArg ResourceLane.id same.symm)
      refine ih later inside ?_
      have still := @ownerSteps_other [first] groups b lane.id fun lane' one =>
        mem_singleton.mp one ▸ own
      exact still.trans free

theorem ownerSteps_keep {id : String} (here : has b.lanes id = true) :
    has (lanes.foldl (ownerStep groups) b).lanes id = true := by
  induction lanes generalizing b with
  | nil => exact here
  | cons lane rest ih =>
    obtain ⟨more, longer, _⟩ := @ownerStep_lanes groups b lane
    refine ih ?_
    rw [has_iff] at here ⊢
    rw [longer, map_append]
    exact mem_append_left _ here

end Owners

section Gathered
variable {groups : String → Option String} {l : String} {events before after : List UiEvent} {event : UiEvent}
variable {x : UiEvent}

theorem lane_events (member : lane ∈ eventLanes groups events) :
    lane.events = (laneOrder events).filter fun x => laneOf x = lane.id :=
  KeyedFold.gather_members (F := laneFolding groups) (f := ResourceLane.events)
    (fun event => (folding_start event).2) (fun lane event => (folding_add lane event).2) member

theorem lane_iff : has (eventLanes groups events) l = true ↔ ∃ event ∈ events, laneOf event = l := by
  rw [has_iff, eventLanes]
  refine ((KeyedFold.gather_spec (F := laneFolding groups) (laneOrder events)).2.1 l).trans ?_
  simp only [order_perm.mem_iff]
  rfl

theorem lanes_distinct : ((eventLanes groups events).map ResourceLane.id).Nodup :=
  (KeyedFold.gather_spec (F := laneFolding groups) (laneOrder events)).1

theorem adds_namespace (xs : List UiEvent) (lane : ResourceLane) :
    (xs.foldl (laneFolding groups).add lane).namespace_ = lane.namespace_ := by
  induction xs generalizing lane with
  | nil => rfl
  | cons x rest ih =>
    rw [foldl_cons, ih]
    simp only [laneFolding]
    cases attaches x <;> rfl

theorem lane_namespace (spelled : Spelled events l) (member : lane ∈ eventLanes groups events)
    (own : lane.id = l) : lane.namespace_ = ((GoText.split '/' l).drop 1).headD "" := by
  obtain ⟨x, rest, listed, whole⟩ := (KeyedFold.gather_spec (F := laneFolding groups) (laneOrder events)).2.2 lane
    member
  have first : x ∈ events ∧ laneOf x = l := by
    have head : x ∈ (laneOrder events).filter fun x => decide (laneOf x = lane.id) :=
      listed ▸ mem_cons_self
    obtain ⟨inside, key⟩ := mem_filter.mp head
    exact ⟨order_perm.mem_iff.mp inside, (of_decide_eq_true key).trans own⟩
  have kept : lane.namespace_ = ((laneFolding groups).start x).namespace_ := by
    rw [whole]
    exact adds_namespace _ _
  rw [kept]
  have key := first.2
  simp only [laneFolding, laneOf] at key ⊢
  cases found : attaches x with
  | none => exact spelled x first.1 first.2
  | some owner =>
    rw [found] at key
    rw [← key]
    rfl

/-- An attached Event's owner is the lane it is attached to. -/
theorem attached_owner (spelled : Spelled events l)
    (member : lane ∈ eventLanes groups events) (own : lane.id = l) (inside : x ∈ events)
    (key : laneOf x = l) {owner : OwnerInfo} (attached : attaches x = some owner) :
    laneIdOf owner.kind lane.namespace_ owner.name = l := by
  rw [lane_namespace spelled member own, ← spelled x inside key]
  simpa [laneOf, attached] using key

theorem attaches_owner {owner : OwnerInfo} (attached : attaches x = some owner) : x.owner = some owner := by
  unfold attaches at attached
  split at attached
  next => exact attached
  next => cases attached

theorem owner_found (member : lane ∈ eventLanes groups events) {owner : OwnerInfo}
    (found : ownerOf lane = some owner) :
    ∃ x ∈ events, laneOf x = lane.id ∧ x.owner = some owner := by
  rw [ownerOf, lane_events member] at found
  obtain ⟨x, inside, own⟩ := exists_of_findSome?_eq_some found
  obtain ⟨listed, key⟩ := mem_filter.mp inside
  exact ⟨x, order_perm.mem_iff.mp listed, of_decide_eq_true key, own⟩

theorem owner_some (member : lane ∈ eventLanes groups events)
    (inside : x ∈ events) (key : laneOf x = lane.id) (owner : x.owner ≠ none) :
    ownerOf lane ≠ none := by
  intro none_
  rw [ownerOf, lane_events member, findSome?_eq_none_iff] at none_
  exact owner (none_ x (mem_filter.mpr ⟨order_perm.mem_iff.mpr inside, decide_eq_true key⟩))

/-- With no owner but of attached Events the lane can only be its own parent. -/
theorem owner_self (spelled : Spelled events l)
    (plain : ∀ x ∈ events, attaches x = none → laneOf x = l → x.owner = none)
    (member : lane ∈ eventLanes groups events) (own : lane.id = l) {owner : OwnerInfo}
    (found : ownerOf lane = some owner) : laneIdOf owner.kind lane.namespace_ owner.name = l := by
  obtain ⟨x, inside, key, named⟩ := owner_found member found
  cases attached : attaches x with
  | none =>
    rw [plain x inside attached (key.trans own)] at named
    cases named
  | some owner' =>
    obtain rfl : owner' = owner := Option.some.inj ((attaches_owner attached).symm.trans named)
    exact attached_owner spelled member own inside (key.trans own) attached

/-- The other lanes are made of the same events. -/
theorem eventLanes_others (key : laneOf event = l) (attached : attaches event ≠ none) :
    others l (eventLanes groups (before ++ event :: after)) = others l (eventLanes groups (before ++ after)) := by
  have part : ∀ events : List UiEvent, others l (eventLanes groups events) =
      (laneFolding groups).gather ((laneOrder events).filter fun x => decide (laneOf x ≠ l)) :=
    fun events => KeyedFold.gather_filter (F := laneFolding groups) (fun id => decide (id ≠ l)) (laneOrder events)
  rw [part, part]
  congr 1
  simp [laneOrder, filter_append, attached, key]

/-- Lanes that differ in the events of one lane at most, and there not in its owner. -/
structure Paired (l : String) (lane lane' : ResourceLane) : Prop where
  id : lane'.id = lane.id
  namespace_ : lane'.namespace_ = lane.namespace_
  owner : ownerOf lane' = ownerOf lane
  same : lane.id ≠ l → lane' = lane

theorem paired_refl (lane : ResourceLane) : Paired l lane lane := ⟨rfl, rfl, rfl, fun _ => rfl⟩

theorem ownerOf_add (lane : ResourceLane) (x : UiEvent) :
    ownerOf ((laneFolding groups).add lane x) = (ownerOf lane).or x.owner := by
  rw [ownerOf, (folding_add lane x).2, findSome?_append, findSome?_singleton]
  rfl

theorem add_fields (lane : ResourceLane) (x : UiEvent) : ((laneFolding groups).add lane x).id = lane.id ∧
    ((laneFolding groups).add lane x).namespace_ = lane.namespace_ := by
  simp only [laneFolding]
  cases attaches x with
  | none => exact ⟨rfl, rfl⟩
  | some owner => exact ⟨rfl, rfl⟩

theorem paired_add (x : UiEvent) {lane lane' : ResourceLane} (paired : Paired l lane lane') :
    Paired l ((laneFolding groups).add lane x) ((laneFolding groups).add lane' x) where
  id := by rw [(add_fields lane' x).1, (add_fields lane x).1, paired.id]
  namespace_ := by rw [(add_fields lane' x).2, (add_fields lane x).2, paired.namespace_]
  owner := by rw [ownerOf_add, ownerOf_add, paired.owner]
  same := fun other => by rw [paired.same fun own => other ((add_fields lane x).1.trans own)]

theorem paired_inserts (xs : List UiEvent) {lanes lanes' : List ResourceLane}
    (paired : List.Forall₂ (Paired l) lanes lanes') :
    List.Forall₂ (Paired l) (xs.foldl (laneFolding groups).insert lanes)
      (xs.foldl (laneFolding groups).insert lanes') := by
  induction xs generalizing lanes lanes' with
  | nil => exact paired
  | cons x rest ih =>
    exact ih (KeyedFold.insert_rel (fun _ _ paired => paired.id) (fun x _ _ => paired_add x) paired_refl paired x)

/-- One more event joins a lane that has an owner. -/
theorem paired_insert (key : laneOf event = l) (here : has lanes l = true)
    (owned : ∀ lane ∈ lanes, lane.id = l → ownerOf lane ≠ none) :
    List.Forall₂ (Paired l) lanes ((laneFolding groups).insert lanes event) := by
  induction lanes with
  | nil => simp [has] at here
  | cons lane rest ih =>
    rw [KeyedFold.Folding.insert]
    by_cases own : lane.id = l
    · have mine : (laneFolding groups).key lane = (laneFolding groups).keyOf event := own.trans key.symm
      rw [if_pos mine]
      refine .cons ⟨(add_fields lane event).1, (add_fields lane event).2, ?_, fun other => absurd own other⟩
        (forall₂_same.mpr fun lane _ => paired_refl lane)
      rw [ownerOf_add]
      cases found : ownerOf lane with
      | none => exact absurd found (owned lane mem_cons_self own)
      | some owner => rfl
    · have later : has rest l = true := by
        rw [has_iff] at here ⊢
        exact (mem_cons.mp here).resolve_left fun same => own same.symm
      have foreign : (laneFolding groups).key lane ≠ (laneFolding groups).keyOf event :=
        fun same => own (same.trans key)
      rw [if_neg foreign]
      exact .cons (paired_refl lane) (ih later fun lane' member => owned lane' (mem_cons_of_mem lane member))

/-- Where an event of its own gives the lane an owner the lanes stay where they are. -/
theorem eventLanes_paired (key : laneOf event = l) (attached : attaches event ≠ none)
    (inside : x ∈ before ++ after) (direct : attaches x = none) (mine : laneOf x = l)
    (named : x.owner ≠ none) : List.Forall₂ (Paired l) (eventLanes groups (before ++ after))
      (eventLanes groups (before ++ event :: after)) := by
  obtain ⟨front, parts⟩ : ∃ front, front = ((before ++ after).filter fun event => attaches event = none) ++
    before.filter fun event => attaches event ≠ none := ⟨_, rfl⟩
  have order : laneOrder (before ++ after) = front ++ after.filter fun event => attaches event ≠ none := by
    simp [laneOrder, parts, filter_append]
  have order' : laneOrder (before ++ event :: after) =
      front ++ event :: after.filter fun event => attaches event ≠ none := by
    simp [laneOrder, parts, filter_append, attached]
  have first : x ∈ front := parts ▸ mem_append_left _ (mem_filter.mpr ⟨inside, decide_eq_true direct⟩)
  rw [eventLanes, eventLanes, order, order', KeyedFold.Folding.gather, KeyedFold.Folding.gather,
    foldl_append, foldl_append, foldl_cons]
  refine paired_inserts _ (paired_insert key ?_ ?_)
  · exact has_iff.mpr (((KeyedFold.gather_spec (F := laneFolding groups) front).2.1 l).mpr ⟨x, first, mine⟩)
  · intro lane member own none_
    have listed := KeyedFold.gather_members (F := laneFolding groups) (f := ResourceLane.events)
      (fun event => (folding_start event).2) (fun lane event => (folding_add lane event).2) member
    rw [ownerOf, listed, findSome?_eq_none_iff] at none_
    exact named (none_ x (mem_filter.mpr ⟨first, decide_eq_true (mine.trans own.symm)⟩))

end Gathered

section Owners
variable {groups : String → Option String} {l : String} {b b' : Building} {lanes' : List ResourceLane}

/-- The same lanes and parents. -/
structure Twin (l : String) (b b' : Building) : Prop where
  apart : Apart l b b'
  parent : b'.laneParent l = b.laneParent l
  here : has b.lanes l = true
  here' : has b'.lanes l = true

theorem twin_owners (paired : List.Forall₂ (Paired l) lanes lanes') (twin : Twin l b b') :
    Twin l (lanes.foldl (ownerStep groups) b) (lanes'.foldl (ownerStep groups) b') := by
  induction paired generalizing b b' with
  | nil => exact twin
  | @cons lane lane' rest rest' head tail ih =>
    refine ih ?_
    have same : ownerStep groups b' lane' = ownerStep groups b' lane := by
      rw [ownerStep, ownerStep, head.owner, head.namespace_, head.id]
    rw [same]
    refine ⟨ownerStep_apart twin.apart lane, ?_, ?_, ?_⟩
    · unfold ownerStep
      cases ownerOf lane with
      | none => exact twin.parent
      | some owner =>
        simp only [setAt]
        split
        next => rfl
        next => exact twin.parent
    · exact @ownerSteps_keep [lane] groups b l twin.here
    · exact @ownerSteps_keep [lane] groups b' l twin.here'

theorem owners_self (distinct : (lanes.map ResourceLane.id).Nodup)
    (self : ∀ owner, ownerOf lane = some owner → laneIdOf owner.kind lane.namespace_ owner.name = l)
    (member : lane ∈ lanes) (own : lane.id = l) (named : ownerOf lane ≠ none) :
    (lanes.foldl (ownerStep groups) ⟨lanes, fun _ => none⟩).laneParent l = some l := by
  obtain ⟨owner, found⟩ := Option.ne_none_iff_exists'.mp named
  have given := @ownerSteps_at lane lanes groups ⟨lanes, fun _ => none⟩ distinct member rfl
  rw [own, found] at given
  rw [given, Option.map_some, self owner found]

/-- What the owners give with the event and without it. -/
structure AfterOwners (events : List UiEvent) (l : String) (b b' : Building) : Prop where
  apart : Apart l b b'
  here' : has b'.lanes l = true
  owned : Owned events l → Twin l b b' ∧ b.laneParent l ≠ none
  ownerless : ¬ Owned events l → b.laneParent l = none ∧ b'.laneParent l = some l

theorem after_owners {before after : List UiEvent} {event : UiEvent} {owner : OwnerInfo}
    (attached : attaches event = some owner) (key : laneOf event = l)
    (spelled : Spelled (before ++ event :: after) l) :
    AfterOwners (before ++ after) l (owned groups (before ++ after)) (owned groups (before ++ event :: after)) := by
  have inside : ∀ x, x ∈ before ++ after → x ∈ before ++ event :: after := by
    intro x member
    rcases mem_append.mp member with first | second
    · exact mem_append_left _ first
    · exact mem_append_right _ (mem_cons_of_mem event second)
  have mine : event ∈ before ++ event :: after := mem_append_right _ mem_cons_self
  have spelled_ : Spelled (before ++ after) l := fun x member => spelled x (inside x member)
  have some_ : attaches event ≠ none := by rw [attached]; exact fun none => nomatch none
  have here' : has (eventLanes groups (before ++ event :: after)) l = true := lane_iff.mpr ⟨event, mine, key⟩
  have others_ : Apart l ⟨eventLanes groups (before ++ after), fun _ => none⟩
      ⟨eventLanes groups (before ++ event :: after), fun _ => none⟩ :=
    ⟨eventLanes_others key some_, fun _ _ => rfl⟩
  by_cases direct : ∃ x ∈ before ++ after, attaches x = none ∧ laneOf x = l ∧ x.owner ≠ none
  · obtain ⟨x, member, free, own, named⟩ := direct
    have here : has (eventLanes groups (before ++ after)) l = true := lane_iff.mpr ⟨x, member, own⟩
    have twin : Twin l (owned groups (before ++ after)) (owned groups (before ++ event :: after)) :=
      twin_owners (eventLanes_paired key some_ member free own named) ⟨others_, rfl, here, here'⟩
    refine ⟨twin.apart, twin.here', fun _ => ⟨twin, ?_⟩, fun none => absurd ⟨x, member, own, named⟩ none⟩
    obtain ⟨lane, listed, same⟩ := mem_map.mp (has_iff.mp here)
    rw [← same, owned, ownerSteps_at lanes_distinct listed rfl]
    simpa using owner_some listed member (own.trans same.symm) named
  · have plain : ∀ x ∈ before ++ after, attaches x = none → laneOf x = l → x.owner = none := by
      intro x member free own
      by_contra named
      exact direct ⟨x, member, free, own, named⟩
    have plain' : ∀ x ∈ before ++ event :: after, attaches x = none → laneOf x = l → x.owner = none := by
      intro x member free own
      rcases mem_append.mp member with first | second
      · exact plain x (mem_append_left _ first) free own
      · rcases mem_cons.mp second with rfl | later
        · exact absurd free some_
        · exact plain x (mem_append_right _ later) free own
    have self := fun lane member own owner => @owner_self lane groups l _ spelled_ plain member own owner
    have self' := fun lane member own owner => @owner_self lane groups l _ spelled plain' member own owner
    have first : Apart l _ (owned groups (before ++ after)) := ownerSteps_skip self ⟨rfl, fun _ _ => rfl⟩
    have second : Apart l _ (owned groups (before ++ event :: after)) := ownerSteps_skip self' others_
    rw [eventLanes_others key some_] at second
    have apart := apart_trans (apart_symm first) second
    have parent' : (owned groups (before ++ event :: after)).laneParent l = some l := by
      obtain ⟨lane, listed, same⟩ := mem_map.mp (has_iff.mp here')
      have named : event.owner ≠ none := by
        rw [attaches_owner attached]
        exact fun none => nomatch none
      exact owners_self lanes_distinct (self' lane listed same) listed same
        (owner_some listed mine (key.trans same.symm) named)
    refine ⟨apart, ownerSteps_keep here', ?_, fun ownerless => ⟨?_, parent'⟩⟩
    · rintro ⟨x, member, own, named⟩
      have here : has (eventLanes groups (before ++ after)) l = true := lane_iff.mpr ⟨x, member, own⟩
      obtain ⟨lane, listed, same⟩ := mem_map.mp (has_iff.mp here)
      have parent : (owned groups (before ++ after)).laneParent l = some l :=
        owners_self lanes_distinct (self lane listed same) listed same
          (owner_some listed member (own.trans same.symm) named)
      refine ⟨⟨apart, parent'.trans parent.symm, ownerSteps_keep here, ownerSteps_keep here'⟩, ?_⟩
      rw [parent]
      exact fun none => nomatch none
    · by_cases here : has (eventLanes groups (before ++ after)) l = true
      · obtain ⟨lane, listed, same⟩ := mem_map.mp (has_iff.mp here)
        rw [← same, owned, ownerSteps_at lanes_distinct listed rfl, Option.map_eq_none_iff]
        by_contra named
        obtain ⟨owner', found⟩ := Option.ne_none_iff_exists'.mp named
        obtain ⟨x, member, own, given⟩ := owner_found listed found
        exact ownerless ⟨x, member, own.trans same, by rw [given]; exact fun none => nomatch none⟩
      · rw [owned, ownerSteps_other fun lane listed same => here (has_iff.mpr (mem_map.mpr ⟨lane, listed, same⟩))]

end Owners

section Edges
variable {groups : String → Option String} {l : String} {b b' : Building} {edges : List UiEdge}
variable {edge : UiEdge}

/-- An edge is taken up where it nominates a parent for a lane that has none. -/
theorem edgeStep_eq {child parent : String} (found : nominated edge = some (child, parent)) :
    edgeStep groups b edge = if b.laneParent child = none ∧ has b.lanes child = true then
      ⟨ensure b.lanes (laneFromId groups parent), setAt b.laneParent child parent⟩ else b := by
  rw [edgeStep, found]

theorem edgeStep_keep (given : b.laneParent c = some p) (edge : UiEdge) :
    (edgeStep groups b edge).laneParent c = some p := by
  unfold edgeStep
  split
  next => exact given
  next child parent _ =>
    split
    next able =>
      have other : c ≠ child := by
        rintro rfl
        rw [given] at able
        exact nomatch able.1
      exact (if_neg other).trans given
    next => exact given

theorem edges_keep (given : b.laneParent c = some p) :
    (edges.foldl (edgeStep groups) b).laneParent c = some p := by
  induction edges generalizing b with
  | nil => exact given
  | cons edge rest ih => exact ih (edgeStep_keep given edge)

theorem edgeStep_here {id : String} (here : has b.lanes id = true) (edge : UiEdge) :
    has (edgeStep groups b edge).lanes id = true := by
  unfold edgeStep
  split
  next => exact here
  next =>
    split
    next => exact has_ensure.mpr (.inl here)
    next => exact here

theorem edges_here {id : String} (here : has b.lanes id = true) :
    has (edges.foldl (edgeStep groups) b).lanes id = true := by
  induction edges generalizing b with
  | nil => exact here
  | cons edge rest ih => exact ih (edgeStep_here here edge)

theorem edgeStep_apart (apart : Apart l b b') (placed : b'.laneParent l ≠ none)
    (there : ∀ p, nominated edge = some (l, p) → b.laneParent l = none → has b.lanes l = true →
      p = l ∨ has b.lanes p = true) :
    Apart l (edgeStep groups b edge) (edgeStep groups b' edge) := by
  cases found : nominated edge with
  | none =>
    rw [edgeStep, edgeStep, found]
    exact apart
  | some ends =>
    obtain ⟨child, parent⟩ := ends
    rw [edgeStep_eq found, edgeStep_eq found]
    by_cases own : child = l
    · subst own
      have blocked : ¬ (b'.laneParent child = none ∧ has b'.lanes child = true) := fun able => placed able.1
      rw [if_neg blocked]
      split
      next able => exact apart_symm (apart_self (apart_symm apart) (there parent found able.1 able.2))
      next => exact apart
    · rw [apart.parents child own, apart_has apart own]
      split
      next => exact apart_set apart
      next => exact apart

/-- The graph acts alike as long as no edge makes a new lane the parent of the one that differs. -/
theorem edges_apart (apart : Apart l b b') (placed : b'.laneParent l ≠ none)
    (there : ∀ before edge after p, edges = before ++ edge :: after → nominated edge = some (l, p) →
      (before.foldl (edgeStep groups) b).laneParent l = none →
      has (before.foldl (edgeStep groups) b).lanes l = true →
      p = l ∨ has (before.foldl (edgeStep groups) b).lanes p = true) :
    Apart l (edges.foldl (edgeStep groups) b) (edges.foldl (edgeStep groups) b') := by
  induction edges generalizing b b' with
  | nil => exact apart
  | cons edge rest ih =>
    obtain ⟨p, given⟩ := Option.ne_none_iff_exists'.mp placed
    refine ih (edgeStep_apart apart placed fun p => there [] edge rest p rfl) ?_ ?_
    · rw [edgeStep_keep given edge]
      exact fun none => nomatch none
    · intro before edge' after p split_
      exact there (edge :: before) edge' after p (by rw [split_]; rfl)

/-- A parent once nominated where it could be given is the parent in the end. -/
theorem edges_nominated {before after : List UiEdge}
    (split_ : edges = before ++ edge :: after) (found : nominated edge = some (c, p))
    (free : (before.foldl (edgeStep groups) b).laneParent c = none)
    (here : has (before.foldl (edgeStep groups) b).lanes c = true) :
    (edges.foldl (edgeStep groups) b).laneParent c = some p := by
  rw [split_, foldl_append, foldl_cons]
  refine edges_keep ?_
  rw [edgeStep_eq found, if_pos ⟨free, here⟩]
  exact if_pos rfl

end Edges

section Labels
variable {l : String} {b b' : Building} {labels : String → Option String}
  {laneParent laneParent' : String → Option String}

theorem gives_keep {first c p : String} (given : laneParent c = some p) :
    rest.foldl (give first) laneParent c = some p := by
  induction rest generalizing laneParent with
  | nil => exact given
  | cons lane rest ih =>
    refine ih ?_
    unfold give
    split
    next free =>
      have other : c ≠ lane.id := by
        rintro rfl
        rw [given] at free
        cases free
      exact (if_neg other).trans given
    next => exact given

theorem gives_other {first c : String} (absent : ∀ lane ∈ rest, lane.id ≠ c) :
    rest.foldl (give first) laneParent c = laneParent c := by
  induction rest generalizing laneParent with
  | nil => rfl
  | cons lane rest ih =>
    rw [foldl_cons, ih fun lane' member => absent lane' (mem_cons_of_mem lane member)]
    unfold give
    split
    next => exact if_neg (Ne.symm (absent lane mem_cons_self))
    next => rfl

theorem gives_at {first c : String} (member : ∃ lane ∈ rest, lane.id = c)
    (free : laneParent c = none) : rest.foldl (give first) laneParent c = some first := by
  obtain ⟨lane, inside, rfl⟩ := member
  induction rest generalizing laneParent with
  | nil => exact absurd inside not_mem_nil
  | cons head rest ih =>
    rw [foldl_cons]
    by_cases own : head.id = lane.id
    · refine gives_keep ?_
      rw [give, own, if_pos free]
      exact if_pos rfl
    · refine ih ((mem_cons.mp inside).resolve_left fun same => own (congrArg ResourceLane.id same.symm)) ?_
      unfold give
      split
      next => exact (if_neg (Ne.symm own)).trans free
      next => exact free

/-- What a group does: its first lane, if there are several, becomes the parent of the others. -/
theorem groupStep_eq {first : ResourceLane} (several : 2 ≤ lanes.length)
    (sorted : sortedGroup lanes = first :: rest) :
    groupStep laneParent lanes = rest.foldl (give first.id) laneParent := by
  rw [groupStep, if_neg (by omega), sorted]

theorem sorted_length : (sortedGroup lanes).length = lanes.length := (Arrange.sort_perm _ lanes).length_eq

theorem sorted_cons (several : 2 ≤ lanes.length) : ∃ first rest, sortedGroup lanes = first :: rest := by
  cases sorted : sortedGroup lanes with
  | nil =>
    have length := @sorted_length lanes
    rw [sorted, length_nil] at length
    omega
  | cons first rest => exact ⟨first, rest, rfl⟩

theorem groupStep_keep (given : laneParent c = some p) : groupStep laneParent lanes c = some p := by
  by_cases few : lanes.length < 2
  · rw [groupStep, if_pos few]
    exact given
  · obtain ⟨first, rest, sorted⟩ := sorted_cons (Nat.not_lt.mp few)
    rw [groupStep_eq (Nat.not_lt.mp few) sorted]
    exact gives_keep given

theorem groupStep_other {c : String} (absent : ∀ lane ∈ lanes, lane.id ≠ c) :
    groupStep laneParent lanes c = laneParent c := by
  by_cases few : lanes.length < 2
  · rw [groupStep, if_pos few]
  · obtain ⟨first, rest, sorted⟩ := sorted_cons (Nat.not_lt.mp few)
    rw [groupStep_eq (Nat.not_lt.mp few) sorted]
    refine gives_other fun lane member => absent lane ?_
    exact mem_sortedGroup.mp (sorted ▸ mem_cons_of_mem first member)

/-- Groups act alike on maps that differ in a lane that none of several lanes has. -/
theorem groups_apart (gs : List (List ResourceLane))
    (alone : ∀ lanes ∈ gs, (∃ lane ∈ lanes, lane.id = l) → lanes.length < 2)
    (same : ∀ c, c ≠ l → laneParent' c = laneParent c) :
    (∀ c, c ≠ l → gs.foldl groupStep laneParent' c = gs.foldl groupStep laneParent c) ∧
      gs.foldl groupStep laneParent l = laneParent l := by
  induction gs generalizing laneParent laneParent' with
  | nil => exact ⟨same, rfl⟩
  | cons lanes rest ih =>
    have own := alone lanes mem_cons_self
    have still : groupStep laneParent lanes l = laneParent l := by
      by_cases few : lanes.length < 2
      · rw [groupStep, if_pos few]
      · exact groupStep_other fun lane member mine => few (own ⟨lane, member, mine⟩)
    have step : ∀ c, c ≠ l → groupStep laneParent' lanes c = groupStep laneParent lanes c := by
      intro c other
      by_cases few : lanes.length < 2
      · rw [groupStep, groupStep, if_pos few, if_pos few]
        exact same c other
      · obtain ⟨first, rest, sorted⟩ := sorted_cons (Nat.not_lt.mp few)
        rw [groupStep_eq (Nat.not_lt.mp few) sorted, groupStep_eq (Nat.not_lt.mp few) sorted]
        cases given : laneParent c with
        | some p => rw [gives_keep given, gives_keep ((same c other).trans given)]
        | none =>
          by_cases inside : ∃ lane ∈ rest, lane.id = c
          · rw [gives_at inside given, gives_at inside ((same c other).trans given)]
          · have absent : ∀ lane ∈ rest, lane.id ≠ c := fun lane member mine => inside ⟨lane, member, mine⟩
            rw [gives_other absent, gives_other absent]
            exact same c other
    obtain ⟨all, at_⟩ := ih (fun g listed => alone g (mem_cons_of_mem lanes listed)) step
    exact ⟨all, at_.trans still⟩

theorem groups_keep (given : laneParent c = some p) : gs.foldl groupStep laneParent c = some p := by
  induction gs generalizing laneParent with
  | nil => exact given
  | cons lanes rest ih => exact ih (groupStep_keep given)

theorem filterMap_others {f : ResourceLane → Option (String × ResourceLane)}
    (keeps : ∀ lane entry, f lane = some entry → entry.2 = lane) (lanes : List ResourceLane) :
    (lanes.filterMap f).filter (fun entry => entry.2.id ≠ l) = (others l lanes).filterMap f := by
  induction lanes with
  | nil => rfl
  | cons lane rest ih =>
    by_cases own : lane.id = l
    · have skipped : others l (lane :: rest) = others l rest := by simp [others, own]
      rw [skipped, ← ih, filterMap_cons]
      cases found : f lane with
      | none => rfl
      | some entry => simp [keeps lane entry found, own]
    · have kept : others l (lane :: rest) = lane :: others l rest := by simp [others, own]
      rw [kept, filterMap_cons, filterMap_cons, ← ih]
      cases found : f lane with
      | none => rfl
      | some entry => simp [keeps lane entry found, own]

/-- The lanes to be grouped are the same but for the one that has a parent. -/
theorem labelled_apart (apart : Apart l b b') (placed : b'.laneParent l ≠ none) :
    labelled labels b' = (labelled labels b).filter fun entry => entry.2.id ≠ l := by
  have keeps : ∀ (b : Building) lane entry, labelEntry labels b lane = some entry → entry.2 = lane :=
    fun b lane entry found => (labelEntry_iff.mp found).1
  have free : labelled labels b' = (labelled labels b').filter fun entry => entry.2.id ≠ l := by
    refine (filter_eq_self.mpr fun entry member => ?_).symm
    have other : entry.2.id ≠ l := fun own => placed (own ▸ (mem_labelled.mp member).2.1)
    exact decide_eq_true other
  rw [free, labelled, labelled, filterMap_others (keeps b'), filterMap_others (keeps b), apart.lanes]
  refine filterMap_congr fun lane member => ?_
  rw [labelEntry, labelEntry, apart.parents lane.id (of_decide_eq_true (mem_filter.mp member).2)]

theorem mem_appGroups (member : (label, lane) ∈ labelled labels b) :
    ((labelled labels b).filter fun entry => entry.1 = label).map Prod.snd ∈ appGroups labels b := by
  obtain ⟨group, listed, key⟩ := mem_map.mp
    (((KeyedFold.gather_spec (F := appFolding) (labelled labels b)).2.1 label).mpr ⟨_, member, rfl⟩)
  have parts := KeyedFold.gather_members (F := appFolding) (f := Prod.snd) (fun _ => rfl) (fun _ _ => rfl) listed
  refine mem_map.mpr ⟨group, listed, ?_⟩
  rw [parts, key]
  rfl

theorem folds_skip {α : Type} {f : α → List ResourceLane} {keep : α → Bool} {gs : List α}
    (idle : ∀ g ∈ gs, keep g = false → (f g).length < 2) :
    ((gs.filter keep).map f).foldl groupStep laneParent = (gs.map f).foldl groupStep laneParent := by
  induction gs generalizing laneParent with
  | nil => rfl
  | cons g rest ih =>
    have rest_ := fun g' member => idle g' (mem_cons_of_mem g member)
    cases kept : keep g with
    | true => rw [filter_cons_of_pos kept, map_cons, map_cons, foldl_cons, foldl_cons, ih rest_]
    | false =>
      have same : groupStep laneParent (f g) = laneParent := if_pos (idle g mem_cons_self kept)
      rw [filter_cons_of_neg (by simp [kept]), map_cons, foldl_cons, same, ih rest_]

/-- A lane that is in no group of several may be left out. -/
theorem appGroups_skip (apart : Apart l b b') (placed : b'.laneParent l ≠ none)
    (alone : ∀ lanes ∈ appGroups labels b, (∃ lane ∈ lanes, lane.id = l) → lanes.length < 2) :
    (appGroups labels b').foldl groupStep laneParent = (appGroups labels b).foldl groupStep laneParent := by
  rw [appGroups, appGroups, labelled_apart apart placed]
  by_cases listed : ∃ entry ∈ labelled labels b, entry.2.id = l
  · obtain ⟨⟨label, lane⟩, member, own⟩ := listed
    have few := alone _ (mem_appGroups member) ⟨lane, by simpa using member, own⟩
    rw [length_map] at few
    have apart_ : ∀ entry ∈ labelled labels b, decide (entry.2.id ≠ l) = decide (entry.1 ≠ label) := by
      intro entry inside
      have same : entry.2.id = l ↔ entry.1 = label := by
        constructor
        · intro mine
          have first := (mem_labelled.mp inside).2.2.2
          have second := (mem_labelled.mp member).2.2.2
          rw [mine] at first
          rw [own] at second
          exact Option.some.inj (first.symm.trans second)
        · intro mine
          -- two entries of the label would be a group of two
          by_contra other
          have pair : [entry, (label, lane)].Subperm ((labelled labels b).filter fun entry => entry.1 = label) := by
            refine subperm_of_subset ?_ ?_
            · refine nodup_cons.mpr ⟨fun same => other ?_, nodup_singleton _⟩
              rw [mem_singleton.mp same]
              exact own
            · intro e either
              rcases mem_cons.mp either with rfl | last
              · exact mem_filter.mpr ⟨inside, decide_eq_true mine⟩
              · rw [mem_singleton.mp last]
                exact mem_filter.mpr ⟨member, decide_eq_true rfl⟩
          have length := pair.length_le
          simp only [length_cons, length_nil] at length
          omega
      simp only [ne_eq, same]
    rw [filter_congr apart_]
    have parts := KeyedFold.gather_filter (F := appFolding) (fun key => decide (key ≠ label)) (labelled labels b)
    change _ = appFolding.gather ((labelled labels b).filter fun entry => decide (entry.1 ≠ label)) at parts
    rw [← parts]
    refine folds_skip fun group inside other => ?_
    have key : group.1 = label := not_not.mp (of_decide_eq_false other)
    have members := KeyedFold.gather_members (F := appFolding) (f := Prod.snd) (fun _ => rfl) (fun _ _ => rfl) inside
    rw [length_map, members]
    change ((labelled labels b).filter fun entry => decide (entry.1 = group.1)).length < 2
    rw [key]
    exact few
  · have all : (labelled labels b).filter (fun entry => entry.2.id ≠ l) = labelled labels b :=
      filter_eq_self.mpr fun entry member => decide_eq_true (not_exists.mp listed entry ⟨member, ·⟩)
    rw [all]

theorem appStep_apart (nodes : List UiNode) (apart : Apart l b b') (placed : b'.laneParent l ≠ none)
    (alone : ∀ lanes ∈ appGroups (laneAppLabels nodes) b, (∃ lane ∈ lanes, lane.id = l) → lanes.length < 2) :
    Apart l (appStep nodes b) (appStep nodes b') ∧ (appStep nodes b).laneParent l = b.laneParent l := by
  obtain ⟨off, at_⟩ := groups_apart (appGroups (laneAppLabels nodes) b) alone apart.parents
  refine ⟨⟨apart.lanes, fun c other => ?_⟩, at_⟩
  rw [appStep, appStep]
  simp only [appGroups_skip apart placed alone]
  exact off c other

end Labels

section Nests
variable {l : String} {b b' : Building} {events events' : List UiEvent} (time : String → Option Int)

/-- What is built without a root resource. -/
def shown (b : Building) : Hierarchy := ⟨b.lanes.map (shownLane time b), topLevel b⟩

theorem shown_has (id : String) : has (shown time b).lanes id = has b.lanes id :=
  has_map fun lane => (shown_fields time lane).1

theorem shown_events (id : String) : eventsOf (shown time b).lanes id = eventsOf b.lanes id :=
  eventsOf_map (fun lane => (shown_fields time lane).1) fun lane => (shown_fields time lane).2.1

theorem children_iff (whole : Whole events b) {child root : String} :
    child ∈ childrenOf (shown time b).lanes root ↔ nestedUnder b child = some root := by
  by_cases here : has b.lanes root = true
  · rw [shown, (shown_children time whole.distinct (has_iff.mp here)).mem_iff, under, mem_filter,
      decide_eq_true_eq]
    refine ⟨And.right, fun nested => ⟨?_, nested⟩⟩
    obtain ⟨parent, given⟩ := Option.ne_none_iff_exists'.mp (nested_iff.mp nested).1
    exact has_iff.mp (whole.between child parent given).1
  · have absent : ((shown time b).lanes.find? fun lane => lane.id = root) = none := by
      rw [find?_eq_none]
      intro lane member own
      rw [← shown_has time root] at here
      exact here (has_iff.mpr (mem_map.mpr ⟨lane, member, of_decide_eq_true own⟩))
    rw [childrenOf, absent]
    constructor
    · exact fun none => absurd none not_mem_nil
    · exact fun nested => absurd (nested_iff.mp nested).2.2.2 here

theorem eventsOf_others {id : String} (other : id ≠ l) :
    eventsOf (others l lanes) id = eventsOf lanes id := by
  rw [eventsOf, eventsOf, others, find?_filter]
  congr 3
  funext lane
  by_cases own : lane.id = id
  · simp [own, other]
  · simp [own]

/-- Alike but for what the lane itself holds; its parent is the same or none but itself. -/
structure Close (l : String) (b b' : Building) : Prop where
  apart : Apart l b b'
  here : has b.lanes l = true
  here' : has b'.lanes l = true
  parent : b'.laneParent l = b.laneParent l ∨ (b.laneParent l = none ∨ b.laneParent l = some l) ∧
    (b'.laneParent l = none ∨ b'.laneParent l = some l)

theorem close_symm (close : Close l b b') : Close l b' b :=
  ⟨apart_symm close.apart, close.here', close.here, close.parent.imp Eq.symm And.symm⟩

theorem both_has (apart : Apart l b b') (here : has b.lanes l = true) (here' : has b'.lanes l = true) (id : String) :
    has b'.lanes id = has b.lanes id := by
  by_cases own : id = l
  · rw [own, here, here']
  · exact apart_has apart own

theorem both_above (apart : Apart l b b') (here : has b.lanes l = true) (here' : has b'.lanes l = true) {c : String}
    (other : c ≠ l) : parentLane b' c = parentLane b c := by
  simp only [parentLane, apart.parents c other, both_has apart here here']

theorem close_has (close : Close l b b') (id : String) : has b'.lanes id = has b.lanes id :=
  both_has close.apart close.here close.here' id

theorem close_above (close : Close l b b') {c : String} (other : c ≠ l) : parentLane b' c = parentLane b c :=
  both_above close.apart close.here close.here' other

theorem above_stuck (stuck : b.laneParent l = none ∨ b.laneParent l = some l) :
    RootWalk.Stuck (parentLane b) l := by
  rcases stuck with none | self
  · left
    rw [parentLane, none, Option.filter_none]
  · have above : parentLane b l = none ∨ parentLane b l = some l := by
      rw [parentLane, self, Option.filter_some]
      split
      next => exact .inr rfl
      next => exact .inl rfl
    exact above

theorem root_close (close : Close l b b') {x r : String} (root : RootWalk.Root (parentLane b) x r) :
    RootWalk.Root (parentLane b') x r := by
  rcases close.parent with same | ⟨stuck, stuck'⟩
  · have equal : parentLane b' = parentLane b := by
      funext c
      by_cases own : c = l
      · simp only [parentLane, own, same, close_has close]
      · exact close_above close own
    exact equal ▸ root
  · exact RootWalk.root_same (fun z other => close_above close other) (above_stuck stuck) (above_stuck stuck') root

theorem findRoot_iff (present : has b.lanes l = true) {r : String} :
    findRoot b l = some r ↔ RootWalk.Root (parentLane b) l r := by
  refine ⟨findRoot_root, fun root => ?_⟩
  obtain ⟨r', _, found⟩ := find_root present
  rw [found, RootWalk.root_unique (findRoot_root found) root]

theorem nested_close (whole : Whole events b) (close : Close l b b') {c r : String}
    (nested : nestedUnder b c = some r) : nestedUnder b' c = some r := by
  obtain ⟨placed, found, differ, root⟩ := nested_iff.mp nested
  obtain ⟨p, given⟩ := Option.ne_none_iff_exists'.mp placed
  have here := (whole.between c p given).1
  have here' : has b'.lanes c = true := (close_has close c).trans here
  refine nested_iff.mpr ⟨?_, ?_, differ, (close_has close r).trans root⟩
  · by_cases own : c = l
    · subst own
      rcases close.parent with same | ⟨stuck, _⟩
      · rwa [same]
      · have still := RootWalk.root_here (RootWalk.stuck_still (above_stuck stuck))
        exact absurd (RootWalk.root_unique (findRoot_root found) still) differ
    · rwa [close.apart.parents c own]
  · exact (findRoot_iff here').mpr (root_close close (findRoot_root found))

/-- Two buildings that are close show the same lanes and nesting. -/
theorem close_unmoved (whole : Whole events b) (whole' : Whole events' b') (close : Close l b b') :
    Unmoved l (shown time b) (shown time b') where
  lanes := fun id => by rw [shown_has, shown_has, close_has close]
  nesting := fun child root => by
    rw [children_iff time whole, children_iff time whole']
    exact ⟨nested_close whole' (close_symm close), nested_close whole close⟩
  events := fun id other => by
    rw [shown_events, shown_events, ← eventsOf_others other, close.apart.lanes, eventsOf_others other]

theorem above_given (whole : Whole events b) (given : b.laneParent c = some p) :
    parentLane b c = some p := by
  have there := (whole.between c p given).2
  have named : p ≠ "" := by
    obtain ⟨lane, member, rfl⟩ := mem_map.mp (has_iff.mp there)
    exact (whole.bare lane member).named
  rw [parentLane, given, Option.filter_some, if_pos (decide_eq_true ⟨named, there⟩)]

/-- A lane whose parent is another one, on no cycle, is shown below another. -/
theorem nested_open (whole : Whole events b) (given : b.laneParent c = some p)
    (straight : ∀ n, ¬ Ascent.Returns (parentLane b) c n) : ∃ r, nestedUnder b c = some r := by
  have here := (whole.between c p given).1
  obtain ⟨r, root, found⟩ := find_root here
  have placed : b.laneParent c ≠ none := by
    rw [given]
    exact Option.some_ne_none p
  refine ⟨r, nested_iff.mpr ⟨placed, found, ?_, root⟩⟩
  rintro rfl
  rcases RootWalk.root_still (findRoot_root found) with end_ | ⟨n, returns⟩
  · cases end_.symm.trans (above_given whole given)
  · exact straight n returns

theorem nested_still (still : RootWalk.Still (parentLane b) l) : nestedUnder b l = none := by
  cases nested : nestedUnder b l with
  | none => rfl
  | some r =>
    obtain ⟨_, found, differ, _⟩ := nested_iff.mp nested
    exact absurd (RootWalk.root_unique (findRoot_root found) (RootWalk.root_here still)) differ

theorem nested_root (whole : Whole events b) {c p r : String} (given : b.laneParent c = some p)
    (root : RootWalk.Root (parentLane b) c r) (other : r ≠ c) : nestedUnder b c = some r := by
  have here := (whole.between c p given).1
  obtain ⟨r', there, found⟩ := find_root here
  obtain rfl := RootWalk.root_unique (findRoot_root found) root
  have placed : b.laneParent c ≠ none := by
    rw [given]
    exact Option.some_ne_none p
  exact nested_iff.mpr ⟨placed, found, other, there⟩

/-- A lane whose parent has none is shown below it. -/
theorem nested_under (whole : Whole events b) (given : b.laneParent c = some p)
    (top : b.laneParent p = none) : nestedUnder b c = some p := by
  have end_ : parentLane b p = none := by rw [parentLane, top, Option.filter_none]
  refine nested_root whole given (RootWalk.root_end (above_given whole given) end_) ?_
  rintro rfl
  cases top.symm.trans given

end Nests

section Groups
variable {events : List UiEvent} {b : Building} {labels : String → Option String}
  {laneParent : String → Option String}

theorem groups_none {c : String}
    (idle : ∀ lanes ∈ gs, (∃ lane ∈ lanes, lane.id = c) → ∀ laneParent : String → Option String,
      laneParent c = none → groupStep laneParent lanes c = none) (free : laneParent c = none) :
    gs.foldl groupStep laneParent c = none := by
  induction gs generalizing laneParent with
  | nil => exact free
  | cons lanes rest ih =>
    refine ih (fun g listed => idle g (mem_cons_of_mem lanes listed)) ?_
    by_cases inside : ∃ lane ∈ lanes, lane.id = c
    · exact idle lanes mem_cons_self inside laneParent free
    · rw [groupStep_other fun lane member own => inside ⟨lane, member, own⟩]
      exact free

theorem groups_given (listed : lanes ∈ gs)
    (only : ∀ lanes' ∈ gs, (∃ lane ∈ lanes', lane.id = c) → lanes' = lanes)
    (gives : ∀ laneParent : String → Option String, laneParent c = none → groupStep laneParent lanes c = some p)
    (free : laneParent c = none) : gs.foldl groupStep laneParent c = some p := by
  induction gs generalizing laneParent with
  | nil => exact absurd listed not_mem_nil
  | cons first rest ih =>
    rw [foldl_cons]
    by_cases inside : ∃ lane ∈ first, lane.id = c
    · rw [only first mem_cons_self inside]
      exact groups_keep (gives laneParent free)
    · have still : groupStep laneParent first c = none := by
        rw [groupStep_other fun lane member own => inside ⟨lane, member, own⟩]
        exact free
      rcases mem_cons.mp listed with rfl | later
      · cases still.symm.trans (gives laneParent free)
      · exact ih later (fun g member => only g (mem_cons_of_mem first member)) still

theorem mem_group : lane ∈ ((labelled labels b).filter fun entry => entry.1 = label).map Prod.snd ↔
      (label, lane) ∈ labelled labels b := by
  simp

/-- The groups that have a labelled lane are the one of its label. -/
theorem appGroups_only (member : (label, lane) ∈ labelled labels b)
    (listed : lanes ∈ appGroups labels b) (inside : ∃ lane' ∈ lanes, lane'.id = lane.id) :
    lanes = ((labelled labels b).filter fun entry => entry.1 = label).map Prod.snd := by
  obtain ⟨label', rfl⟩ := appGroups_spec listed
  obtain ⟨lane', held, own⟩ := inside
  have first := (mem_labelled.mp (mem_group.mp held)).2.2.2
  have second := (mem_labelled.mp member).2.2.2
  rw [own] at first
  rw [Option.some.inj (first.symm.trans second)]

theorem group_distinct (distinct : (b.lanes.map ResourceLane.id).Nodup) (label : String) :
    ((((labelled labels b).filter fun entry => entry.1 = label).map Prod.snd).map ResourceLane.id).Nodup := by
  have part : ∀ lanes : List ResourceLane, ((lanes.filterMap (labelEntry labels b)).map Prod.snd).Sublist lanes := by
    intro lanes
    induction lanes with
    | nil => exact List.Sublist.refl []
    | cons lane rest ih =>
      rw [filterMap_cons]
      cases found : labelEntry labels b lane with
      | none => exact ih.cons lane
      | some entry =>
        have own := (labelEntry_iff.mp found).1
        rw [map_cons, own]
        exact ih.cons_cons lane
  exact distinct.sublist (((filter_sublist.map Prod.snd).trans (part b.lanes)).map ResourceLane.id)

/-- Where the labels put a lane: the first of a group stays without a parent and becomes that of the others. -/
theorem appStep_labelled (distinct : (b.lanes.map ResourceLane.id).Nodup) (nodes : List UiNode)
    {first : ResourceLane}
    (several : 2 ≤ (((labelled (laneAppLabels nodes) b).filter fun entry => entry.1 = label).map Prod.snd).length)
    (sorted : sortedGroup (((labelled (laneAppLabels nodes) b).filter fun entry => entry.1 = label).map Prod.snd) =
      first :: rest) :
    (appStep nodes b).laneParent first.id = none ∧
      ∀ lane ∈ rest, lane.id ≠ first.id ∧ (appStep nodes b).laneParent lane.id = some first.id := by
  have listed : ∀ lane ∈ first :: rest, (label, lane) ∈ labelled (laneAppLabels nodes) b := by
    intro lane member
    exact mem_group.mp (mem_sortedGroup.mp (sorted ▸ member))
  have free : ∀ lane ∈ first :: rest, b.laneParent lane.id = none :=
    fun lane member => (mem_labelled.mp (listed lane member)).2.1
  have apart : ((first :: rest).map ResourceLane.id).Nodup := by
    rw [← sorted]
    exact ((Arrange.sort_perm _ _).map ResourceLane.id).nodup_iff.mpr (group_distinct distinct label)
  obtain ⟨fresh, _⟩ := nodup_cons.mp apart
  have other : ∀ lane ∈ rest, lane.id ≠ first.id := fun lane member same =>
    fresh (same ▸ mem_map_of_mem member)
  constructor
  · refine groups_none (fun lanes inside mine laneParent none => ?_) (free first mem_cons_self)
    rw [appGroups_only (listed first mem_cons_self) inside mine, groupStep_eq several sorted,
      gives_other other]
    exact none
  · intro lane member
    refine ⟨other lane member, ?_⟩
    have entry := listed lane (mem_cons_of_mem first member)
    refine groups_given (mem_appGroups entry) (fun lanes inside mine => appGroups_only entry inside mine) ?_
      (free lane (mem_cons_of_mem first member))
    intro laneParent none
    rw [groupStep_eq several sorted]
    exact gives_at ⟨lane, member, rfl⟩ none

/-- A labelled lane ends without a parent or below one that has none. -/
theorem appStep_root (distinct : (b.lanes.map ResourceLane.id).Nodup) (nodes : List UiNode)
    (member : (label, lane) ∈ labelled (laneAppLabels nodes) b) :
    (appStep nodes b).laneParent lane.id = none ∨ ∃ first : ResourceLane,
      (label, first) ∈ labelled (laneAppLabels nodes) b ∧
        (appStep nodes b).laneParent lane.id = some first.id ∧ (appStep nodes b).laneParent first.id = none := by
  obtain ⟨group, same⟩ : ∃ group, group =
      ((labelled (laneAppLabels nodes) b).filter fun entry => entry.1 = label).map Prod.snd := ⟨_, rfl⟩
  have own : lane ∈ group := by
    rw [same]
    exact mem_group.mpr member
  by_cases few : group.length < 2
  · left
    refine groups_none (fun lanes inside mine laneParent none => ?_) (mem_labelled.mp member).2.1
    rw [groupStep, if_pos (by rw [appGroups_only member inside mine, ← same]; exact few)]
    exact none
  · obtain ⟨first, rest, sorted⟩ := sorted_cons (Nat.not_lt.mp few)
    obtain ⟨top, below⟩ := appStep_labelled distinct nodes (same ▸ Nat.not_lt.mp few) (same ▸ sorted)
    rcases mem_cons.mp (sorted ▸ mem_sortedGroup.mpr own) with rfl | later
    · exact .inl top
    · refine .inr ⟨first, ?_, (below lane later).2, top⟩
      have held : first ∈ group := mem_sortedGroup.mp (sorted ▸ mem_cons_self)
      exact mem_group.mp (same ▸ held)

end Groups

section Settle
variable {before after : List UiEvent} {event : UiEvent} {topology : Option UiTopology} {groupByApp : Bool}
variable {events : List UiEvent}

  {l : String} {t : UiTopology}

theorem linked_apart (owners : AfterOwners (before ++ after) l (owned (topologyGroups (some t)) (before ++ after))
      (owned (topologyGroups (some t)) (before ++ event :: after)))
    (there : ¬ Owned (before ++ after) l → ∀ front edge back p, t.edges = front ++ edge :: back →
      nominated edge = some (l, p) →
      (front.foldl (edgeStep (topologyGroups (some t)))
        (owned (topologyGroups (some t)) (before ++ after))).laneParent l = none →
      has (front.foldl (edgeStep (topologyGroups (some t)))
        (owned (topologyGroups (some t)) (before ++ after))).lanes l = true →
      p = l ∨ has (front.foldl (edgeStep (topologyGroups (some t)))
        (owned (topologyGroups (some t)) (before ++ after))).lanes p = true) :
    Apart l (linked (before ++ after) t) (linked (before ++ event :: after) t) ∧
      has (linked (before ++ event :: after) t).lanes l = true ∧
      (Owned (before ++ after) l → (linked (before ++ after) t).laneParent l ≠ none ∧
        (linked (before ++ event :: after) t).laneParent l = (linked (before ++ after) t).laneParent l) ∧
      (¬ Owned (before ++ after) l → (linked (before ++ event :: after) t).laneParent l = some l) := by
  by_cases named : Owned (before ++ after) l
  · obtain ⟨twin, placed⟩ := owners.owned named
    obtain ⟨p, given⟩ := Option.ne_none_iff_exists'.mp placed
    have given' := twin.parent.trans given
    refine ⟨edges_apart twin.apart (by rw [given']; exact Option.some_ne_none p) ?_, edges_here owners.here', ?_,
      fun none => absurd named none⟩
    · intro front edge back q _ _ free
      cases free.symm.trans (edges_keep given)
    · intro _
      have kept : (linked (before ++ after) t).laneParent l = some p := edges_keep given
      have kept' : (linked (before ++ event :: after) t).laneParent l = some p := edges_keep given'
      rw [kept, kept']
      exact ⟨Option.some_ne_none p, rfl⟩
  · obtain ⟨_, self⟩ := owners.ownerless named
    exact ⟨edges_apart owners.apart (by rw [self]; exact Option.some_ne_none l) (there named),
      edges_here owners.here', fun own => absurd own named, fun _ => edges_keep self⟩

/-- Where the lane is settled the event changes nothing but its events. -/
theorem settled_close (owners : ∀ groups, AfterOwners (before ++ after) l (owned groups (before ++ after))
      (owned groups (before ++ event :: after)))
    (here : has (built (before ++ after) topology groupByApp).lanes l = true)
    (settled : Settled (before ++ after) topology groupByApp l) :
    Close l (built (before ++ after) topology groupByApp) (built (before ++ event :: after) topology groupByApp) := by
  cases topology with
  | none =>
    refine ⟨(owners _).apart, here, (owners _).here', ?_⟩
    by_cases named : Owned (before ++ after) l
    · exact .inl ((owners _).owned named).1.parent
    · obtain ⟨free, self⟩ := (owners (topologyGroups none)).ownerless named
      exact .inr ⟨.inl free, .inr self⟩
  | some t =>
    have unplaced := fun named => settled.resolve_left named t rfl
    obtain ⟨apart, here', named_, self⟩ := linked_apart (owners (topologyGroups (some t))) fun named front edge back p
        split_ found free there => by
      have given : (linked (before ++ after) t).laneParent l = some p := edges_nominated split_ found free there
      rcases (unplaced named).edges with none | own
      · cases none.symm.trans given
      · exact .inl (Option.some.inj (given.symm.trans own))
    have placed' : (linked (before ++ event :: after) t).laneParent l ≠ none := by
      by_cases named : Owned (before ++ after) l
      · rw [(named_ named).2]
        exact (named_ named).1
      · rw [self named]
        exact Option.some_ne_none l
    have parent : (linked (before ++ event :: after) t).laneParent l = (linked (before ++ after) t).laneParent l ∨
        ((linked (before ++ after) t).laneParent l = none ∨ (linked (before ++ after) t).laneParent l = some l) ∧
          ((linked (before ++ event :: after) t).laneParent l = none ∨
            (linked (before ++ event :: after) t).laneParent l = some l) := by
      by_cases named : Owned (before ++ after) l
      · exact .inl (named_ named).2
      · exact .inr ⟨(unplaced named).edges, .inr (self named)⟩
    cases groupByApp with
    | false => exact ⟨apart, here, here', parent⟩
    | true =>
      have alone : ∀ lanes ∈ appGroups (laneAppLabels t.nodes) (linked (before ++ after) t),
          (∃ lane ∈ lanes, lane.id = l) → lanes.length < 2 := by
        intro lanes listed inside
        by_cases named : Owned (before ++ after) l
        · obtain ⟨label, rfl⟩ := appGroups_spec listed
          obtain ⟨lane, member, own⟩ := inside
          exact absurd (own ▸ (mem_labelled.mp (mem_group.mp member)).2.1) (named_ named).1
        · exact (unplaced named).labels rfl lanes listed inside
      obtain ⟨apart', still⟩ := appStep_apart t.nodes apart placed' alone
      obtain ⟨p, given⟩ := Option.ne_none_iff_exists'.mp placed'
      have still' : (appStep t.nodes (linked (before ++ event :: after) t)).laneParent l =
          (linked (before ++ event :: after) t).laneParent l := (groups_keep given).trans given.symm
      refine ⟨apart', here, here', ?_⟩
      have equal : (built (before ++ after) (some t) true).laneParent l = (linked (before ++ after) t).laneParent l :=
        still
      have equal' : (built (before ++ event :: after) (some t) true).laneParent l =
          (linked (before ++ event :: after) t).laneParent l := still'
      rw [equal, equal']
      exact parent

theorem built_whole (events : List UiEvent) : Whole events (built events topology groupByApp) :=
  linked_whole (owned_whole _ events) topology groupByApp

theorem built_shown (time : String → Option Int) {h : Hierarchy}
    (result : buildResourceHierarchy time events topology groupByApp = some h) :
    h = shown time (built events topology groupByApp) := by
  rw [build_eq time (built_whole events) topology groupByApp (gathered_eq events topology groupByApp)] at result
  exact (Option.some.inj result).symm

/-- A lane that is its own parent is shown below none. -/
theorem self_top {b : Building} (whole : Whole events b) (self : b.laneParent l = some l) :
    nestedUnder b l = none :=
  nested_still (RootWalk.stuck_still (.inr (above_given whole self)))

theorem built_linked (events : List UiEvent) (given : (linked events t).laneParent c = some p) :
    (built events (some t) groupByApp).laneParent c = some p := by
  cases groupByApp with
  | false => exact given
  | true => exact groups_keep given

theorem built_lanes (gba : Bool) {id : String} :
    has (built events (some t) gba).lanes id = has (linked events t).lanes id := by
  cases gba <;> rfl

/-- What the labels add where the lane has a parent in both runs. -/
theorem built_apart (gba : Bool) {events events' : List UiEvent} (apart : Apart l (linked events t) (linked events' t))
    (placed : (linked events t).laneParent l ≠ none) (placed' : (linked events' t).laneParent l ≠ none) :
    Apart l (built events (some t) gba) (built events' (some t) gba) := by
  cases gba with
  | false => exact apart
  | true =>
    refine (appStep_apart t.nodes apart placed' fun lanes listed inside => ?_).1
    obtain ⟨label, rfl⟩ := appGroups_spec listed
    obtain ⟨lane, member, own⟩ := inside
    exact absurd (own ▸ (mem_labelled.mp (mem_group.mp member)).2.1) placed

theorem unmoved_nesting {time : String → Option Int} {b b' : Building} {events events' : List UiEvent}
    (unmoved : Unmoved l (shown time b) (shown time b')) (whole : Whole events b) (whole' : Whole events' b')
    (child root : String) : nestedUnder b' child = some root ↔ nestedUnder b child = some root := by
  rw [← children_iff time whole, ← children_iff time whole']
  exact unmoved.nesting child root

/-- An edge had given the lane another parent: then the event moves something, unless the lanes go round. -/
theorem edge_moves (time : String → Option Int)
    (owners : AfterOwners (before ++ after) l (owned (topologyGroups (some t)) (before ++ after))
      (owned (topologyGroups (some t)) (before ++ event :: after)))
    (here : has (built (before ++ after) (some t) groupByApp).lanes l = true) (ownerless : ¬ Owned (before ++ after) l)
    {p : String} (given : (linked (before ++ after) t).laneParent l = some p) (other : p ≠ l)
    (open_ : ¬ Circular (before ++ after) (some t) groupByApp l) :
    ¬ Unmoved l (shown time (built (before ++ after) (some t) groupByApp))
      (shown time (built (before ++ event :: after) (some t) groupByApp)) := by
  intro unmoved
  have whole := @built_whole (some t) groupByApp (before ++ after)
  have whole' := @built_whole (some t) groupByApp (before ++ event :: after)
  have nesting := unmoved_nesting unmoved whole whole'
  have parent := @built_linked l p groupByApp t (before ++ after) given
  have self : (built (before ++ event :: after) (some t) groupByApp).laneParent l = some l :=
    built_linked _ (edges_keep (owners.ownerless ownerless).2)
  have placed : (linked (before ++ after) t).laneParent l ≠ none := by
    rw [given]
    exact Option.some_ne_none p
  by_cases around : ∃ n, Ascent.Returns (parentLane (built (before ++ after) (some t) groupByApp)) l n
  · obtain ⟨apart, here', _, self_⟩ := linked_apart owners fun _ front edge back q split_ found free there => by
      obtain rfl : p = q := Option.some.inj (given.symm.trans (edges_nominated split_ found free there))
      right
      by_contra absent
      exact open_ ⟨t, rfl, front, edge, back, p, split_, found, other, ⟨free, there, by simpa using absent⟩, around⟩
    have placed' : (linked (before ++ event :: after) t).laneParent l ≠ none := by
      rw [self_ ownerless]
      exact Option.some_ne_none l
    have apart' := built_apart groupByApp apart placed placed'
    have above := fun z other => @both_above l _ _ apart' here ((built_lanes groupByApp).trans here') z other
    obtain ⟨n, positive, round⟩ := around
    have up := above_given whole parent
    have still : RootWalk.Still (parentLane (built (before ++ after) (some t) groupByApp)) p := by
      refine .inr ⟨n, positive, ?_⟩
      rw [← Ascent.hop_up n up, Ascent.hop_succ, round]
      exact up
    have root : RootWalk.Root (parentLane (built (before ++ event :: after) (some t) groupByApp)) p l := by
      refine RootWalk.root_into above (above_given whole' self) ⟨n - 1, ?_⟩
      rw [← Ascent.hop_up (n - 1) up, Nat.sub_add_cancel positive]
      exact round
    have alive : (built (before ++ after) (some t) groupByApp).laneParent p ≠ none := by
      intro ended
      have gone : Ascent.hop (parentLane (built (before ++ after) (some t) groupByApp)) 2 l = none := by
        rw [Ascent.hop_up 1 up, Ascent.hop_succ, Ascent.hop_zero]
        exact (congrArg (Option.filter _) ended).trans (Option.filter_none _)
      exact Ascent.returns_alive ⟨positive, round⟩ 2 gone
    obtain ⟨q, next⟩ := Option.ne_none_iff_exists'.mp alive
    have moved := (nesting p l).mp (nested_root whole' ((apart'.parents p other).trans next) root (Ne.symm other))
    rw [nested_still still] at moved
    cases moved
  · obtain ⟨r, nested⟩ := nested_open whole parent fun n returns => around ⟨n, returns⟩
    have moved := (nesting l r).mpr nested
    rw [self_top whole' self] at moved
    cases moved

/-- A label had put the lane together with others: then the event moves something. -/
theorem label_moves (time : String → Option Int)
    (owners : AfterOwners (before ++ after) l (owned (topologyGroups (some t)) (before ++ after))
      (owned (topologyGroups (some t)) (before ++ event :: after)))
    (ownerless : ¬ Owned (before ++ after) l)
    (free : (linked (before ++ after) t).laneParent l = none ∨ (linked (before ++ after) t).laneParent l = some l)
    (listed : lanes ∈ appGroups (laneAppLabels t.nodes) (linked (before ++ after) t))
    (inside : ∃ lane ∈ lanes, lane.id = l) (several : 2 ≤ lanes.length) :
    ¬ Unmoved l (shown time (built (before ++ after) (some t) true))
      (shown time (built (before ++ event :: after) (some t) true)) := by
  intro unmoved
  have whole := @built_whole (some t) true (before ++ after)
  have whole' := @built_whole (some t) true (before ++ event :: after)
  have nesting := unmoved_nesting unmoved whole whole'
  obtain ⟨apart, _, _, self_⟩ := linked_apart owners fun _ front edge back p split_ found none there => by
    have given : (linked (before ++ after) t).laneParent l = some p := edges_nominated split_ found none there
    rcases free with free | own
    · cases free.symm.trans given
    · exact .inl (Option.some.inj (given.symm.trans own))
  have self : (built (before ++ event :: after) (some t) true).laneParent l = some l := groups_keep (self_ ownerless)
  have placed' : (linked (before ++ event :: after) t).laneParent l ≠ none := by
    rw [self_ ownerless]
    exact Option.some_ne_none l
  have others_ := @labelled_apart l _ _ (laneAppLabels t.nodes) apart placed'
  obtain ⟨label, rfl⟩ := appGroups_spec listed
  obtain ⟨first, rest, sorted⟩ := sorted_cons several
  have distinct : ((linked (before ++ after) t).lanes.map ResourceLane.id).Nodup := whole.distinct
  have distinct' : ((linked (before ++ event :: after) t).lanes.map ResourceLane.id).Nodup := whole'.distinct
  obtain ⟨top, below⟩ := appStep_labelled distinct t.nodes several sorted
  obtain ⟨lane, member, own⟩ := inside
  have standing : lane ∈ first :: rest := sorted ▸ mem_sortedGroup.mpr member
  rcases mem_cons.mp standing with rfl | later
  · -- the lane was the parent of the others of its group
    have more : rest ≠ [] := by
      rintro rfl
      have length := (congrArg length sorted).symm.trans sorted_length
      rw [length_singleton] at length
      omega
    obtain ⟨x, tail, rfl⟩ := exists_cons_of_ne_nil more
    obtain ⟨differ, given⟩ := below x mem_cons_self
    have nested : nestedUnder (built (before ++ after) (some t) true) x.id = some lane.id :=
      nested_under whole given top
    have moved := (nesting x.id lane.id).mpr nested
    have entry : (label, x) ∈ labelled (laneAppLabels t.nodes) (linked (before ++ event :: after) t) := by
      rw [others_]
      refine mem_filter.mpr ⟨?_, decide_eq_true fun same => differ (same.trans own.symm)⟩
      exact mem_group.mp (mem_sortedGroup.mp (sorted ▸ mem_cons_of_mem lane mem_cons_self))
    rcases appStep_root distinct' t.nodes entry with none | ⟨first', held, given', top'⟩
    · exact (nested_iff.mp moved).1 none
    · have nested' : nestedUnder (built (before ++ event :: after) (some t) true) x.id = some first'.id :=
        nested_under whole' given' top'
      rw [others_] at held
      refine of_decide_eq_true (mem_filter.mp held).2 ?_
      exact (Option.some.inj (nested'.symm.trans moved)).trans own
  · -- the lane was below another of its group
    have nested : nestedUnder (built (before ++ after) (some t) true) lane.id = some first.id :=
      nested_under whole (below lane later).2 top
    have moved := (nesting lane.id first.id).mpr nested
    rw [own, self_top whole' self] at moved
    cases moved

/-- Where an event of its lane has an owner already, or no edge and no label puts its lane and another one together,
    an attached Event changes neither lanes nor nesting, and elsewhere it does unless the lanes go round. -/
theorem attached_settled (time : String → Option Int) (before after : List UiEvent) (event : UiEvent)
    (topology : Option UiTopology) (groupByApp : Bool) {owner : OwnerInfo} {h h' : Hierarchy}
    (attached : attaches event = some owner)
    (first : buildResourceHierarchy time (before ++ after) topology groupByApp = some h)
    (second : buildResourceHierarchy time (before ++ event :: after) topology groupByApp = some h')
    (here : has h.lanes (laneOf event) = true) :
    (Spelled (before ++ event :: after) (laneOf event) ∧
        Settled (before ++ after) topology groupByApp (laneOf event) → Unmoved (laneOf event) h h') ∧
      (Spelled (before ++ event :: after) (laneOf event) → Unmoved (laneOf event) h h' →
        Settled (before ++ after) topology groupByApp (laneOf event) ∨
          Circular (before ++ after) topology groupByApp (laneOf event)) := by
  have owners := fun spelled groups => @after_owners groups (laneOf event) before after event owner attached rfl spelled
  rw [built_shown time first, shown_has] at here
  rw [built_shown time first, built_shown time second]
  constructor
  · rintro ⟨spelled, settled⟩
    exact close_unmoved time (built_whole _) (built_whole _) (settled_close (owners spelled) here settled)
  · intro spelled unmoved
    by_contra neither
    obtain ⟨unsettled, open_⟩ := not_or.mp neither
    obtain ⟨ownerless, placed⟩ := not_or.mp unsettled
    push Not at placed
    obtain ⟨t, rfl, placed⟩ := placed
    by_cases edges : (linked (before ++ after) t).laneParent (laneOf event) = none ∨
        (linked (before ++ after) t).laneParent (laneOf event) = some (laneOf event)
    · have labels : ¬ (groupByApp = true → ∀ lanes ∈ appGroups (laneAppLabels t.nodes) (linked (before ++ after) t),
          (∃ lane ∈ lanes, lane.id = laneOf event) → lanes.length < 2) := fun all => placed ⟨edges, all⟩
      push Not at labels
      obtain ⟨rfl, lanes, listed, inside, several⟩ := labels
      exact label_moves time (owners spelled _) ownerless edges listed inside several unmoved
    · obtain ⟨free, other⟩ := not_or.mp edges
      obtain ⟨p, given⟩ := Option.ne_none_iff_exists'.mp free
      exact edge_moves time (owners spelled _) here ownerless given (fun same => other (same ▸ given)) open_ unmoved

end Settle

section Sample

def sampleEvent (id kind name : String) (owner : Option OwnerInfo) : UiEvent :=
  ⟨id, "2024-05-01T00:00:00Z", kind, none, "shop", name, .update, none, owner⟩

def rolledOut : UiEvent := sampleEvent "1" "Deployment" "web" none

def scaled : UiEvent := sampleEvent "2" "Event" "web.17ab" (some ⟨"Deployment", "web"⟩)

def exposed : UiTopology := ⟨[], [⟨"service/shop/web", "deployment/shop/web", .exposes⟩]⟩

theorem spelled_sample : Spelled [rolledOut, scaled] "Deployment/shop/web" := by
  intro event member _
  rcases mem_pair.mp member with rfl | rfl
  · decide
  · decide

/-- Without a topology the event moves nothing. -/
theorem attached_settled_web :
    Unmoved "Deployment/shop/web" (shown (fun _ => none) (built [rolledOut] none false))
      (shown (fun _ => none) (built [rolledOut, scaled] none false)) := by
  have one := build_eq (fun _ => none) (built_whole [rolledOut]) none false (gathered_eq _ _ _)
  have two := build_eq (fun _ => none) (built_whole [rolledOut, scaled]) none false (gathered_eq _ _ _)
  have settled : Settled [rolledOut] none false "Deployment/shop/web" :=
    .inr fun _ absent => absurd absent (Option.some_ne_none _).symm
  exact (attached_settled (fun _ => none) [rolledOut] [] scaled none false rfl one two (by decide)).1
    ⟨spelled_sample, settled⟩

/-- A Service exposes the Deployment: its lane stands below the Service's until the event comes. -/
theorem attached_moves :
    ¬ ∀ (time : String → Option Int) (before after : List UiEvent) (event : UiEvent) (topology : Option UiTopology)
      (groupByApp : Bool) (owner : OwnerInfo) (h h' : Hierarchy), attaches event = some owner →
      buildResourceHierarchy time (before ++ after) topology groupByApp = some h →
      buildResourceHierarchy time (before ++ event :: after) topology groupByApp = some h' →
      has h.lanes (laneOf event) = true → Unmoved (laneOf event) h h' := by
  intro all
  have one := build_eq (fun _ => none) (built_whole [rolledOut]) (some exposed) false (gathered_eq _ _ _)
  have two := build_eq (fun _ => none) (built_whole [rolledOut, scaled]) (some exposed) false (gathered_eq _ _ _)
  have unmoved := all (fun _ => none) [rolledOut] [] scaled (some exposed) false _ _ _ rfl one two (by decide)
  have nesting := unmoved.nesting "Deployment/shop/web" "Service/shop/web"
  revert nesting
  decide

end Sample
end AttachedEvents
