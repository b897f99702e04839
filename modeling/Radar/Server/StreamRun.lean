import Radar.Base.Runs
import Radar.Server.EventStream

/- Runs of the event stream: subscriptions, changes, broadcasts and deliveries in any order. -/
namespace EventStream
open Topology NodeRef GoText List
variable {Object : Type} {namespaces : Option (List String)} {event : SSEEvent}
variable {status : ConnectionStatus} {showPolicyEffect : Bool} {group : ClientGroup}
variable {viewMode : String} {a : Step Object}

/-- About no namespaced resource, or about one of a listed namespace. -/
def SSEEvent.Within (listed : List String) : SSEEvent → Prop
  | .k8sEvent change => change.namespace_ = "" ∨ change.namespace_ ∈ listed
  | .topology topo => ∀ n ∈ topo.nodes, nodeNamespaceFromData n = "" ∨ nodeNamespaceFromData n ∈ listed
  | .notice _ _ => True

def SSEBroadcaster.frames (b : SSEBroadcaster Object) (ch : Nat) : List SSEEvent :=
  b.received ch ++ b.queue ch

/-- Every client's frames, sent or still queued, stay within its list. -/
def Confined (b : SSEBroadcaster Object) : Prop := ∀ c ∈ b.clients, ∀ listed, c.2.namespaces = some listed →
    ∀ event ∈ b.frames c.1, event.Within listed

/-- The resources of the listed namespaces, and those of none, are the same. -/
def Agree (listed : List String) (held other : Resources Object) : Prop :=
  ∀ key : ResourceKey, key.namespace_ = "" ∨ key.namespace_ ∈ listed → held key = other key

/-- The build for a list of namespaces names no others and reads no others. -/
def Filtered (build : Build Object) (held : Resources Object) (opts : BuildOptions) : Prop :=
  ∀ listed, opts.namespaces = some listed →
    (∀ topo, build opts held = some topo → (SSEEvent.topology topo).Within listed) ∧
    ∀ other, Agree listed held other → build opts other = build opts held

/-- What keeps a step from showing a client a namespace outside its list. -/
def Discreet (build : Build Object) (b : SSEBroadcaster Object) : Step Object → Prop
  | .subscribe namespaces viewMode showPolicyEffect _ => ∀ held, b.resources = some held →
      Filtered build held (topologyOptions namespaces viewMode showPolicyEffect)
  | .watched change => important change = true → change.namespace_ ≠ "" →
      ∀ c ∈ b.clients, ∀ listed, c.2.namespaces = some listed →
        (b.queue c.1).length < channelSize → change.namespace_ ∈ listed
  | .grouped _ => ∀ c ∈ b.clients, ∀ c' ∈ b.clients, c.2.key = c'.2.key →
      ∀ listed, c.2.namespaces = some listed → c'.2.namespaces = some listed
  | .sent position => ∀ group, b.pending[position]? = some group →
      ∀ held, b.resources = some held → Filtered build held group.options
  | _ => True

section Groups

/-- The group's channels, and its list of namespaces, are those of clients with its key. -/
def Seeded (clients : List (Nat × ClientInfo)) (group : ClientGroup) : Prop :=
  (∀ ch ∈ group.channels, ∃ c ∈ clients, c.1 = ch ∧ c.2.key = group.key) ∧
    ∃ c ∈ clients, c.2.key = group.key ∧ c.2.namespaces = group.namespaces

theorem seeded_add {clients : List (Nat × ClientInfo)} {groups : List ClientGroup}
    (seeded : ∀ group ∈ groups, Seeded clients group) {client : Nat × ClientInfo}
    (member : client ∈ clients) : ∀ group ∈ addToGroup groups client, Seeded clients group := by
  induction groups with
  | nil =>
    intro group only
    simp only [addToGroup, mem_singleton] at only
    subst only
    refine ⟨fun ch own => ?_, client, member, rfl, rfl⟩
    exact ⟨client, member, (mem_singleton.mp own).symm, rfl⟩
  | cons first rest ih =>
    have rest_seeded := fun group later => seeded group (mem_cons_of_mem first later)
    intro group listed
    simp only [addToGroup] at listed
    split at listed
    next same =>
      rcases mem_cons.mp listed with rfl | later
      · obtain ⟨own, seed⟩ := seeded first mem_cons_self
        refine ⟨fun ch joined => ?_, seed⟩
        rcases mem_append.mp joined with old | new
        · exact own ch old
        · exact ⟨client, member, (mem_singleton.mp new).symm, same.symm⟩
      · exact rest_seeded group later
    next =>
      rcases mem_cons.mp listed with rfl | later
      · exact seeded group mem_cons_self
      · exact ih rest_seeded group later

theorem client_groups_seeded (clients : List (Nat × ClientInfo)) :
    ∀ group ∈ clientGroups clients, Seeded clients group :=
  foldlRecOn (motive := fun groups => ∀ group ∈ groups, Seeded clients group) clients
    addToGroup (by simp) fun _ seeded _ member => seeded_add seeded member

theorem seeded_perm {order clients : List (Nat × ClientInfo)} (perm : order.Perm clients)
    (seeded : Seeded order group) : Seeded clients group := by
  obtain ⟨own, c, member, same⟩ := seeded
  refine ⟨fun ch joined => ?_, c, perm.mem_iff.mp member, same⟩
  obtain ⟨d, listed, rest⟩ := own ch joined
  exact ⟨d, perm.mem_iff.mp listed, rest⟩

end Groups

section Sends
variable {b : SSEBroadcaster Object} {ch : Nat} {targets : List Nat}

theorem mem_safe_send {queue : List SSEEvent} {e : SSEEvent} (sent : e ∈ safeSend queue event) :
    e ∈ queue ∨ e = event ∧ queue.length < channelSize := by
  unfold safeSend at sent
  split at sent
  next room => simpa [room] using sent
  next => exact .inl sent

theorem mem_frames_send {e : SSEEvent} (sent : e ∈ (b.sendTo targets event).frames ch) : e ∈ b.frames ch ∨
      e = event ∧ ch ∈ targets ∧ ch ∈ b.channels ∧ (b.queue ch).length < channelSize := by
  simp only [SSEBroadcaster.frames, SSEBroadcaster.sendTo, mem_append] at sent ⊢
  rcases sent with old | queued
  · exact .inl (.inl old)
  · split at queued
    next reached =>
      rcases mem_safe_send queued with old | ⟨same, room⟩
      · exact .inl (.inr old)
      · exact .inr ⟨same, reached.1, reached.2, room⟩
    next => exact .inl (.inr queued)

/-- What is sent to the client stays within its list if what it already had does. -/
theorem confined_send (confined : Confined b)
    (within : ∀ c ∈ b.clients, c.1 ∈ targets → (b.queue c.1).length < channelSize →
      ∀ listed, c.2.namespaces = some listed → event.Within listed) :
    Confined (b.sendTo targets event) := by
  intro c member listed own e sent
  rcases mem_frames_send sent with old | ⟨rfl, target, _, room⟩
  · exact confined c member listed own e old
  · exact within c member target room listed own

end Sends

/-- Channels are told apart, and a group under way gives its channels their own lists. -/
structure Sound (b : SSEBroadcaster Object) : Prop where
  opened : ∀ c ∈ b.clients, c.1 < b.opened
  unique : ∀ c ∈ b.clients, ∀ c' ∈ b.clients, c.1 = c'.1 → c = c'
  pending : ∀ group ∈ b.pending, ∀ ch ∈ group.channels, ch < b.opened
  grouped : ∀ group ∈ b.pending, ∀ c ∈ b.clients, c.1 ∈ group.channels →
    ∀ listed, c.2.namespaces = some listed → group.namespaces = some listed
  confined : Confined b

section Kept
variable {build : Build Object} {b t : SSEBroadcaster Object} {order : List (Nat × ClientInfo)}

theorem initial_sound : Sound (initial : SSEBroadcaster Object) := by
  constructor
  case opened => intro c member; cases member
  case unique => intro c member; cases member
  case pending => intro group member; cases member
  case grouped => intro group member; cases member
  case confined => intro c member; cases member

/-- Sending changes the frames alone. -/
theorem sound_send (sound : Sound b) {targets : List Nat}
    (confined : Confined (b.sendTo targets event)) : Sound (b.sendTo targets event) where
  opened := sound.opened
  unique := sound.unique
  pending := sound.pending
  grouped := sound.grouped
  confined := confined

theorem sorted_names {listed : List String} (sorted : sortNamespaces namespaces = some listed) :
    ∃ given, namespaces = some given ∧ ∀ ns, ns ∈ given ↔ ns ∈ listed := by
  obtain ⟨given, rfl, rfl⟩ := Option.map_eq_some_iff.mp sorted
  exact ⟨given, rfl, fun ns => (mem_mergeSort).symm⟩

theorem within_congr {listed given : List String} (same : ∀ ns, ns ∈ given ↔ ns ∈ listed)
    (within : event.Within given) : event.Within listed := by
  cases event with
  | k8sEvent change => exact within.imp_right (same _).mp
  | topology topo => exact fun n member => (within n member).imp_right (same _).mp
  | notice event data => trivial

theorem initial_within
    (discreet : Discreet build b (.subscribe namespaces viewMode showPolicyEffect status))
    {listed : List String} (own : sortNamespaces namespaces = some listed) :
    ∀ event ∈ initialFrames build b.resources namespaces viewMode showPolicyEffect status,
      event.Within listed := by
  obtain ⟨given, rfl, same⟩ := sorted_names own
  intro event sent
  simp only [initialFrames, mem_cons] at sent
  rcases sent with rfl | built
  · trivial
  · split at built
    next =>
      cases held : b.resources with
      | none => simp [held] at built
      | some resources =>
        rw [held, Option.bind_some] at built
        split at built
        next => cases built
        next topo done =>
          obtain rfl := mem_singleton.mp built
          exact within_congr same ((discreet resources held given rfl).1 topo done)
    next => cases built

theorem subscribe_sound (sound : Sound b)
    (discreet : Discreet build b (.subscribe namespaces viewMode showPolicyEffect status)) :
    Sound (b.subscribe build namespaces viewMode showPolicyEffect status) := by
  unfold SSEBroadcaster.subscribe
  split
  next => exact sound
  next =>
    have joined {c : Nat × ClientInfo} (member : c ∈ b.clients ++
        [(b.opened, ⟨sortNamespaces namespaces, viewMode, showPolicyEffect⟩)]) :
        (c ∈ b.clients ∧ c.1 < b.opened) ∨
          c = (b.opened, ⟨sortNamespaces namespaces, viewMode, showPolicyEffect⟩) := by
      rcases mem_append.mp member with old | new
      · exact .inl ⟨old, sound.opened c old⟩
      · exact .inr (mem_singleton.mp new)
    constructor
    case opened =>
      intro c member
      rcases joined member with ⟨_, below⟩ | rfl
      · exact Nat.lt_succ_of_lt below
      · exact Nat.lt_succ_self _
    case unique =>
      intro c member c' member' same
      rcases joined member with ⟨old, below⟩ | rfl
      · rcases joined member' with ⟨old', _⟩ | rfl
        · exact sound.unique c old c' old' same
        · exact absurd same (Nat.ne_of_lt below)
      · rcases joined member' with ⟨_, below'⟩ | rfl
        · exact absurd same.symm (Nat.ne_of_lt below')
        · rfl
    case pending =>
      intro group waiting ch target
      exact Nat.lt_succ_of_lt (sound.pending group waiting ch target)
    case grouped =>
      intro group waiting c member target
      rcases joined member with ⟨old, _⟩ | rfl
      · exact sound.grouped group waiting c old target
      · exact absurd (sound.pending group waiting _ target) (Nat.lt_irrefl _)
    case confined =>
      intro c member listed own event sent
      rcases joined member with ⟨old, below⟩ | rfl
      · have apart : c.1 ≠ b.opened := Nat.ne_of_lt below
        simp only [SSEBroadcaster.frames, if_neg apart] at sent
        exact sound.confined c old listed own event sent
      · simp only [SSEBroadcaster.frames, if_true, append_nil] at sent
        exact initial_within discreet own event sent

theorem broadcast_sound (sound : Sound b)
    (within : ∀ c ∈ b.clients, ∀ listed, c.2.namespaces = some listed →
      (b.queue c.1).length < channelSize → event.Within listed) : Sound (b.broadcast event) := by
  refine sound_send sound (confined_send sound.confined ?_)
  intro c member _ room listed own
  exact within c member listed own room

theorem group_sound (sound : Sound b) (waiting : group ∈ b.pending)
    (filtered : ∀ held, b.resources = some held → Filtered build held group.options) :
    Sound (b.sendGroup build group) := by
  unfold SSEBroadcaster.sendGroup
  split
  next => exact sound
  next topo built =>
    obtain ⟨held, cached, done⟩ := Option.bind_eq_some_iff.mp built
    refine sound_send sound (confined_send sound.confined ?_)
    intro c member target _ listed own
    have same : group.options.namespaces = some listed :=
      sound.grouped group waiting c member target listed own
    exact (filtered held cached listed same).1 topo done

theorem pending_sound (sound : Sound b) {rest : List ClientGroup}
    (waiting : ∀ group ∈ rest, (∀ ch ∈ group.channels, ch < b.opened) ∧
      ∀ c ∈ b.clients, c.1 ∈ group.channels →
        ∀ listed, c.2.namespaces = some listed → group.namespaces = some listed) :
    Sound { b with pending := rest } where
  opened := sound.opened
  unique := sound.unique
  pending := fun group member => (waiting group member).1
  grouped := fun group member => (waiting group member).2
  confined := sound.confined

/-- A delivery moves a frame from the queue to what the client has received. -/
theorem frames_delivered (b : SSEBroadcaster Object) (channel ch : Nat) : ({ b with
      queue := fun ch => if ch = channel then (b.queue ch).tail else b.queue ch
      received := fun ch => if ch = channel then b.received ch ++ (b.queue ch).head?.toList
        else b.received ch } : SSEBroadcaster Object).frames ch = b.frames ch := by
  unfold SSEBroadcaster.frames
  by_cases same : ch = channel
  · simp only [if_pos same]
    cases b.queue ch with
    | nil => simp
    | cons event rest => simp
  · simp only [if_neg same]

theorem send_group_clients (build : Build Object) (b : SSEBroadcaster Object) (group : ClientGroup) :
    (b.sendGroup build group).clients = b.clients ∧ (b.sendGroup build group).opened = b.opened ∧
      (b.sendGroup build group).pending = b.pending ∧
      (b.sendGroup build group).resources = b.resources := by
  unfold SSEBroadcaster.sendGroup
  split
  next => exact ⟨rfl, rfl, rfl, rfl⟩
  next => exact ⟨rfl, rfl, rfl, rfl⟩

/-- Groups are formed of some listing of the clients, and only while there is a cache. -/
theorem grouped_iff : step build b (.grouped order) = some t ↔ order.Perm b.clients ∧
      t = if b.resources.isNone then b else { b with pending := b.pending ++ clientGroups order } := by
  rw [step]
  by_cases perm : order.Perm b.clients
  · rw [if_neg (not_not.mpr perm), ← apply_ite some, Option.some.injEq, and_iff_right perm, eq_comm]
  · rw [if_pos perm]
    simp [perm]

theorem grouped_clients (first : step build b (.grouped order) = some t) : t.clients = b.clients := by
  obtain ⟨_, rfl⟩ := grouped_iff.mp first
  split
  next => rfl
  next => rfl

theorem grouped_sound (sound : Sound b)
    (discreet : Discreet build b (.grouped order)) (perm : order.Perm b.clients) :
    Sound { b with pending := b.pending ++ clientGroups order } := by
  refine pending_sound sound fun group waiting => ?_
  rcases mem_append.mp waiting with old | new
  · exact ⟨sound.pending group old, sound.grouped group old⟩
  · obtain ⟨own, seed, seeds, alike, gives⟩ := seeded_perm perm (client_groups_seeded order group new)
    constructor
    · intro ch target
      obtain ⟨c, member, rfl, _⟩ := own ch target
      exact sound.opened c member
    · intro c member target listed list
      obtain ⟨d, member', same, key⟩ := own c.1 target
      obtain rfl := sound.unique d member' c member same
      rw [← gives]
      exact discreet d member seed seeds (key.trans alike.symm) listed list

theorem step_sound (sound : Sound b) (discreet : Discreet build b a)
    (first : step build b a = some t) : Sound t := by
  cases a with
  | subscribe namespaces viewMode showPolicyEffect status =>
    obtain rfl := Option.some.inj first
    exact subscribe_sound sound discreet
  | unsubscribe channel =>
    obtain rfl := Option.some.inj first
    have left {c : Nat × ClientInfo} (member : c ∈ b.clients.filter fun c => c.1 ≠ channel) :
        c ∈ b.clients := (mem_filter.mp member).1
    exact {
      opened := fun c member => sound.opened c (left member)
      unique := fun c member c' member' => sound.unique c (left member) c' (left member')
      pending := sound.pending
      grouped := fun group waiting c member => sound.grouped group waiting c (left member)
      confined := fun c member => sound.confined c (left member) }
  | stored key object =>
    obtain rfl := Option.some.inj first
    exact { sound with }
  | switched resources =>
    obtain rfl := Option.some.inj first
    exact { sound with }
  | watched change =>
    obtain rfl := Option.some.inj first
    split
    next shown =>
      refine broadcast_sound sound fun c member listed own room => ?_
      by_cases unnamed : change.namespace_ = ""
      · exact .inl unnamed
      · exact .inr (discreet shown unnamed c member listed own room)
    next => exact sound
  | grouped order =>
    obtain ⟨perm, rfl⟩ := grouped_iff.mp first
    split
    next => exact sound
    next => exact grouped_sound sound discreet perm
  | sent position =>
    obtain ⟨group, found, rfl⟩ := Option.map_eq_some_iff.mp first
    have waiting : group ∈ b.pending := mem_of_getElem? found
    have sent := group_sound sound waiting fun held cached => discreet group found held cached
    obtain ⟨clients, opened, pending, _⟩ := send_group_clients build b group
    refine pending_sound sent fun other listed => ?_
    have before : other ∈ b.pending := mem_of_mem_eraseIdx listed
    rw [clients, opened]
    exact ⟨sound.pending other before, sound.grouped other before⟩
  | notified event data =>
    obtain rfl := Option.some.inj first
    exact broadcast_sound sound fun _ _ _ _ _ => trivial
  | delivered channel =>
    obtain rfl := Option.some.inj first
    refine { sound with confined := fun c member listed own event sent => ?_ }
    refine sound.confined c member listed own event ?_
    rwa [frames_delivered] at sent

end Kept

section Apart
variable {build : Build Object} {listed : List String} {b b' t : SSEBroadcaster Object}

/-- The step is about nothing outside the listed namespaces. -/
def inside (listed : List String) : Step Object → Bool
  | .stored key _ => key.namespace_ == "" || listed.contains key.namespace_
  | .watched change => change.namespace_ == "" || listed.contains change.namespace_
  | _ => true

/-- Two broadcasters that the clients of one list cannot tell apart. -/
structure Alike (listed : List String) (b b' : SSEBroadcaster Object) : Prop where
  clients : b.clients = b'.clients
  opened : b.opened = b'.opened
  pending : b.pending = b'.pending
  cached : b.resources.isSome = b'.resources.isSome
  resources : ∀ held, b.resources = some held → ∀ other, b'.resources = some other → Agree listed held other
  queue : ∀ c ∈ b.clients, c.2.namespaces = some listed → b.queue c.1 = b'.queue c.1
  received : ∀ c ∈ b.clients, c.2.namespaces = some listed → b.received c.1 = b'.received c.1

end Apart

section Runs
variable {build : Build Object}

theorem run_sound {steps : List (Step Object)} {b : SSEBroadcaster Object}
    (discreet : Runs.Guarded (step build) (Discreet build) initial steps)
    (run : Runs.exec (step build) initial steps = some b) : Sound b :=
  Runs.guarded_invariant (fun _ _ _ => step_sound) initial_sound discreet run

end Runs

section Cart

/-- The pods of a shop's cart and of a bank's ledger, as the builder lists them. -/
def pods : List ResourceKey := [⟨"Pod", "shop", "cart"⟩, ⟨"Pod", "bank", "ledger"⟩]

def podNode (key : ResourceKey) : Node :=
  { id := "pod/" ++ key.namespace_ ++ "/" ++ key.name, kind := key.kind, name := key.name
    status := .healthy, data := some [("namespace", .text key.namespace_)] }

def podBuild : Build Unit := fun opts held =>
  some ⟨(pods.filter fun key => opts.matchesNamespaceFilter key.namespace_ &&
    (held key).isSome).map podNode, []⟩

end Cart

end EventStream
