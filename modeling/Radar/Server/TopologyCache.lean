import Radar.Base.Runs

/- internal/server/sse.go: the relationship topology that GetCachedTopology hands out, and the
   goroutines that mark it dirty, rebuild it, store it and clear it. A goroutine's step is what it
   does under one lock, or one build; any others may come in between. -/
namespace TopologyCache
open Runs
variable {Context Resources Topology : Type}

/-- What a build reads: the cache of one cluster, behind `marks` dirty marks. -/
structure Snapshot (Context Resources : Type) where
  context : Context
  resources : Resources
  marks : Nat
  deriving DecidableEq

structure Built (Context Resources Topology : Type) where
  topology : Topology
  source : Snapshot Context Resources
  deriving DecidableEq

variable {topo : Built Context Resources Topology}

/-- What a goroutine does next. The constructors of one prefix are the steps of GetCachedTopology
(with rebuildCachedTopology), of broadcastTopologyUpdate and of initCachedTopology. -/
inductive Phase (Context Resources Topology : Type) where
  | getLook
  | getCache (topo : Option (Built Context Resources Topology))
  | getGate
  | getCheck
  | getBuild
  | getStore (topo : Built Context Resources Topology)
  | getRemark
  | getReread
  | broadcastCache
  | broadcastClients
  | broadcastWarming
  | broadcastMark
  | broadcastBuild
  | broadcastStore (topo : Built Context Resources Topology)
  | initBuild
  | initStore (topo : Built Context Resources Topology)
  | done

inductive Goroutine where
  | getCachedTopology
  | broadcastTopologyUpdate
  | initCachedTopology
  deriving DecidableEq

def Goroutine.entry : Goroutine → Phase Context Resources Topology
  | .getCachedTopology => .getLook
  | .broadcastTopologyUpdate => .broadcastCache
  | .initCachedTopology => .initBuild

/-- Who cleared the dirty flag last: a store, the switch callback, or a call about to rebuild. -/
inductive ClearedBy where
  | store | callback | call
  deriving DecidableEq

/-- A topology that GetCachedTopology returned, and how things stood then. -/
structure Return (Context Resources Topology : Type) where
  topology : Option (Built Context Resources Topology)
  pending : Bool
  marks : Nat
  callback : Option Context
  deriving DecidableEq

/-- The broadcaster and its surroundings. `marks`, `callback` (the context of the switch callback
that ran last), `clearedBy` and `returned` only record what happened. -/
structure Broadcaster (Context Resources Topology : Type) where
  resourceCache : Option (Context × Resources)
  cachedTopology : Option (Built Context Resources Topology)
  cachedTopologyDirty : Bool
  clients : Nat
  warmingUp : Bool
  goroutines : List (Phase Context Resources Topology)
  marks : Nat
  callback : Option Context
  clearedBy : ClearedBy
  returned : List (Return Context Resources Topology)

def newSSEBroadcaster (cache : Option (Context × Resources)) : Broadcaster Context Resources Topology where
  resourceCache := cache
  cachedTopology := none
  cachedTopologyDirty := false
  clients := 0
  warmingUp := true
  goroutines := []
  marks := 0
  callback := none
  clearedBy := .store
  returned := []

inductive Step (Context Resources : Type) where
  | started (goroutine : Goroutine)
  | advanced (position : Nat)
  /-- The informers move on. -/
  | changed (resources : Resources)
  | resetAllSubsystems
  | initAllSubsystems (context : Context) (resources : Resources)
  | contextSwitched (context : Context)
  | warmupDone
  | clientsConnected (count : Nat)

variable {label : Step Context Resources}

section Operations
variable (b : Broadcaster Context Resources Topology)

def Broadcaster.markDirty : Broadcaster Context Resources Topology :=
  { b with cachedTopologyDirty := true, marks := b.marks + 1 }

def Broadcaster.updateCachedTopology (topo : Built Context Resources Topology) :
    Broadcaster Context Resources Topology :=
  { b with cachedTopology := some topo, cachedTopologyDirty := false, clearedBy := .store }

def Broadcaster.clearFlag : Broadcaster Context Resources Topology :=
  { b with cachedTopologyDirty := false, clearedBy := .call }

def Broadcaster.returns (topo : Option (Built Context Resources Topology)) :
    Broadcaster Context Resources Topology :=
  { b with returned := b.returned ++ [⟨topo, b.cachedTopologyDirty, b.marks, b.callback⟩] }

/-- Of a resource cache that is torn down nothing can be built. -/
def Broadcaster.buildFullTopology (build : Resources → Option Topology) :
    Option (Built Context Resources Topology) :=
  b.resourceCache.bind fun cache =>
    (build cache.2).map fun topology => ⟨topology, cache.1, cache.2, b.marks⟩

end Operations

/-- One step of a goroutine, and the step it takes next. -/
def advance (build : Resources → Option Topology) (b : Broadcaster Context Resources Topology) :
    Phase Context Resources Topology →
      Broadcaster Context Resources Topology × Phase Context Resources Topology
  | .getLook =>
    if b.cachedTopologyDirty then (b, .getCache b.cachedTopology)
    else (b.returns b.cachedTopology, .done)
  | .getCache topo => if b.resourceCache.isNone then (b.returns topo, .done) else (b, .getGate)
  | .getGate =>
    if b.cachedTopologyDirty then (b.clearFlag, .getCheck)
    else (b.returns b.cachedTopology, .done)
  | .getCheck => (b, if b.resourceCache.isNone then .getRemark else .getBuild)
  | .getBuild =>
    match b.buildFullTopology build with
    | some topo => (b, .getStore topo)
    | none => (b, .getRemark)
  | .getStore topo => (b.updateCachedTopology topo, .getReread)
  -- rebuild failed: the next call retries
  | .getRemark => (b.markDirty, .getReread)
  | .getReread => (b.returns b.cachedTopology, .done)
  | .broadcastCache => (b, if b.resourceCache.isNone then .done else .broadcastClients)
  | .broadcastClients => (b, if b.clients = 0 then .broadcastMark else .broadcastWarming)
  | .broadcastWarming => (b, if b.warmingUp then .broadcastMark else .broadcastBuild)
  | .broadcastMark => (b.markDirty, .done)
  | .broadcastBuild =>
    match b.buildFullTopology build with
    | some topo => (b, .broadcastStore topo)
    | none => (b, .done)
  | .broadcastStore topo => (b.updateCachedTopology topo, .done)
  | .initBuild =>
    match b.buildFullTopology build with
    | some topo => (b, .initStore topo)
    | none => (b, .done)
  | .initStore topo => (b.updateCachedTopology topo, .done)
  | .done => (b, .done)

def step (build : Resources → Option Topology) (b : Broadcaster Context Resources Topology) :
    Step Context Resources → Option (Broadcaster Context Resources Topology)
  | .started goroutine => some { b with goroutines := b.goroutines ++ [goroutine.entry] }
  | .advanced position =>
    (b.goroutines[position]?).map fun phase => { (advance build b phase).1 with
        goroutines := b.goroutines.set position (advance build b phase).2 }
  | .changed resources =>
    b.resourceCache.map fun cache => { b with resourceCache := some (cache.1, resources) }
  | .resetAllSubsystems => some { b with resourceCache := none }
  | .initAllSubsystems context resources => some { b with resourceCache := some (context, resources) }
  | .contextSwitched context =>
    some { b with
      cachedTopology := none, cachedTopologyDirty := false, clearedBy := .callback
      warmingUp := true, callback := some context }
  | .warmupDone => some { b with warmingUp := false }
  | .clientsConnected count => some { b with clients := count }

/-- Built of resources read behind all these marks, in the context whose callback ran last. -/
def Fits (marks : Nat) (callback : Option Context) (topo : Built Context Resources Topology) : Prop :=
  topo.source.marks = marks ∧ ∀ context, callback = some context → topo.source.context = context

def Genuine (build : Resources → Option Topology) (topo : Built Context Resources Topology) : Prop :=
  build topo.source.resources = some topo.topology

/-- Whatever was returned while no dirty mark was pending is up to date and of the right cluster. -/
def Honest (build : Resources → Option Topology) (b : Broadcaster Context Resources Topology) : Prop :=
  ∀ r ∈ b.returned, r.pending = false → ∀ topo, r.topology = some topo →
    Genuine build topo ∧ Fits r.marks r.callback topo

/-- Nobody is rebuilding behind a flag already cleared. -/
def Settled (b : Broadcaster Context Resources Topology) : Prop :=
  b.cachedTopologyDirty = false → b.cachedTopology ≠ none → b.clearedBy ≠ .call

/-- A goroutine's next step comes in time: it returns the cached topology only while it is settled,
what it saw before the resource cache was torn down only while the mark is still there, and stores
only what no later mark or switch has overtaken. -/
def InTime (b : Broadcaster Context Resources Topology) : Phase Context Resources Topology → Prop
  | .getLook => Settled b
  | .getGate => Settled b
  | .getReread => Settled b
  | .getCache topo => topo ≠ none → b.resourceCache = none → b.cachedTopologyDirty = true
  | .getStore topo => Fits b.marks b.callback topo
  | .broadcastStore topo => Fits b.marks b.callback topo
  | .initStore topo => Fits b.marks b.callback topo
  | _ => True

def Timely (b : Broadcaster Context Resources Topology) : Step Context Resources → Prop
  | .advanced position => ∀ phase, b.goroutines[position]? = some phase → InTime b phase
  | _ => True

section Invariant
variable {build : Resources → Option Topology} {b : Broadcaster Context Resources Topology}
variable {phase : Phase Context Resources Topology}

/-- What a goroutine carries was built, and not after the marks there are. -/
def Carried (build : Resources → Option Topology) (marks : Nat) : Phase Context Resources Topology → Prop
  | .getCache (some topo) => Genuine build topo ∧ topo.source.marks < marks
  | .getStore topo => Genuine build topo ∧ topo.source.marks ≤ marks
  | .broadcastStore topo => Genuine build topo ∧ topo.source.marks ≤ marks
  | .initStore topo => Genuine build topo ∧ topo.source.marks ≤ marks
  | _ => True

/-- A topology is overtaken by a mark while the mark is pending or a call works on it, and only
then. -/
structure Sound (build : Resources → Option Topology)
    (b : Broadcaster Context Resources Topology) : Prop where
  genuine : ∀ topo, b.cachedTopology = some topo → Genuine build topo
  fresh : b.cachedTopologyDirty = false → b.clearedBy ≠ .call →
    ∀ topo, b.cachedTopology = some topo → Fits b.marks b.callback topo
  stale : b.cachedTopologyDirty = true ∨ b.clearedBy = .call →
    ∀ topo, b.cachedTopology = some topo → topo.source.marks < b.marks
  carried : ∀ phase ∈ b.goroutines, Carried build b.marks phase
  honest : Honest build b

theorem carried_later {marks later : Nat} (more : marks ≤ later) (carried : Carried build marks phase) :
    Carried build later phase := by
  unfold Carried at *
  split <;> grind

theorem sound_marks (sound : Sound build b) (cached : b.cachedTopology = some topo) :
    topo.source.marks ≤ b.marks := by
  by_cases settled : b.cachedTopologyDirty = false ∧ b.clearedBy ≠ .call
  · exact Nat.le_of_eq (sound.fresh settled.1 settled.2 topo cached).1
  · have pending : b.cachedTopologyDirty = true ∨ b.clearedBy = .call := by
      cases dirty : b.cachedTopologyDirty with
      | true => exact .inl rfl
      | false => exact .inr (by simpa [dirty] using settled)
    exact Nat.le_of_lt (sound.stale pending topo cached)

theorem mark_sound (sound : Sound build b) : Sound build b.markDirty where
  genuine := sound.genuine
  fresh := fun clean => absurd clean (by simp [Broadcaster.markDirty])
  stale := fun _ topo cached => Nat.lt_succ_of_le (sound_marks sound cached)
  carried := fun phase member => carried_later (Nat.le_succ _) (sound.carried phase member)
  honest := sound.honest

theorem store_sound (sound : Sound build b) (genuine : Genuine build topo)
    (fits : Fits b.marks b.callback topo) : Sound build (b.updateCachedTopology topo) where
  genuine := fun _ stored => Option.some.inj stored ▸ genuine
  fresh := fun _ _ _ stored => Option.some.inj stored ▸ fits
  stale := fun pending => absurd pending (by simp [Broadcaster.updateCachedTopology])
  carried := sound.carried
  honest := sound.honest

theorem clear_sound (sound : Sound build b)
    (pending : b.cachedTopologyDirty = true) : Sound build b.clearFlag where
  genuine := sound.genuine
  fresh := fun _ other => absurd rfl other
  stale := fun _ => sound.stale (.inl pending)
  carried := sound.carried
  honest := sound.honest

theorem return_sound (sound : Sound build b) {topo : Option (Built Context Resources Topology)}
    (right : b.cachedTopologyDirty = false → ∀ t, topo = some t →
      Genuine build t ∧ Fits b.marks b.callback t) : Sound build (b.returns topo) where
  genuine := sound.genuine
  fresh := sound.fresh
  stale := sound.stale
  carried := sound.carried
  honest := by
    intro r member
    rcases List.mem_append.mp member with old | new
    · exact sound.honest r old
    · obtain rfl := List.mem_singleton.mp new
      exact right

/-- A cached topology that is settled may be returned. -/
theorem return_cached_sound (sound : Sound build b)
    (settled : Settled b) : Sound build (b.returns b.cachedTopology) := by
  refine return_sound sound fun clean topo cached => ⟨sound.genuine topo cached, ?_⟩
  exact sound.fresh clean (settled clean (by simp [cached])) topo cached

theorem build_genuine (built : b.buildFullTopology build = some topo) :
    Genuine build topo ∧ topo.source.marks ≤ b.marks := by
  simp only [Broadcaster.buildFullTopology, Option.bind_eq_some_iff, Option.map_eq_some_iff] at built
  obtain ⟨cache, -, topology, made, rfl⟩ := built
  exact ⟨made, Nat.le_refl _⟩

/-- A step in time keeps the broadcaster sound, and what the goroutine carries on is sound too. -/
theorem advance_sound (sound : Sound build b) (carried : Carried build b.marks phase)
    (inTime : InTime b phase) :
    Sound build (advance build b phase).1 ∧
      Carried build (advance build b phase).1.marks (advance build b phase).2 := by
  cases phase with
  | getLook =>
    simp only [advance]
    split
    next dirty =>
      refine ⟨sound, ?_⟩
      cases cached : b.cachedTopology with
      | none => trivial
      | some topo => exact ⟨sound.genuine topo cached, sound.stale (.inl dirty) topo cached⟩
    next => exact ⟨return_cached_sound sound inTime, trivial⟩
  | getCache topo =>
    simp only [advance]
    split
    next torn =>
      refine ⟨return_sound sound fun clean t held => ?_, trivial⟩
      have pending := inTime (by simp [held]) (Option.isNone_iff_eq_none.mp torn)
      rw [clean] at pending
      exact absurd pending (by simp)
    next => exact ⟨sound, trivial⟩
  | getGate =>
    simp only [advance]
    split
    next dirty => exact ⟨clear_sound sound dirty, trivial⟩
    next => exact ⟨return_cached_sound sound inTime, trivial⟩
  | getCheck =>
    simp only [advance]
    refine ⟨sound, ?_⟩
    split <;> trivial
  | getBuild =>
    simp only [advance]
    split
    next topo built => exact ⟨sound, build_genuine built⟩
    next => exact ⟨sound, trivial⟩
  | getStore topo => exact ⟨store_sound sound carried.1 inTime, trivial⟩
  | getRemark => exact ⟨mark_sound sound, trivial⟩
  | getReread => exact ⟨return_cached_sound sound inTime, trivial⟩
  | broadcastCache =>
    simp only [advance]
    refine ⟨sound, ?_⟩
    split <;> trivial
  | broadcastClients =>
    simp only [advance]
    refine ⟨sound, ?_⟩
    split <;> trivial
  | broadcastWarming =>
    simp only [advance]
    refine ⟨sound, ?_⟩
    split <;> trivial
  | broadcastMark => exact ⟨mark_sound sound, trivial⟩
  | broadcastBuild =>
    simp only [advance]
    split
    next topo built => exact ⟨sound, build_genuine built⟩
    next => exact ⟨sound, trivial⟩
  | broadcastStore topo => exact ⟨store_sound sound carried.1 inTime, trivial⟩
  | initBuild =>
    simp only [advance]
    split
    next topo built => exact ⟨sound, build_genuine built⟩
    next => exact ⟨sound, trivial⟩
  | initStore topo => exact ⟨store_sound sound carried.1 inTime, trivial⟩
  | done => exact ⟨sound, trivial⟩

theorem advance_marks (b : Broadcaster Context Resources Topology)
    (phase : Phase Context Resources Topology) :
    b.marks ≤ (advance build b phase).1.marks := by
  unfold advance
  split <;> (try split) <;> simp [Broadcaster.markDirty, Broadcaster.returns,
    Broadcaster.updateCachedTopology, Broadcaster.clearFlag]

theorem goroutines_sound (sound : Sound build b)
    {goroutines : List (Phase Context Resources Topology)}
    (carried : ∀ phase ∈ goroutines, Carried build b.marks phase) :
    Sound build { b with goroutines := goroutines } where
  genuine := sound.genuine
  fresh := sound.fresh
  stale := sound.stale
  carried := carried
  honest := sound.honest

theorem step_sound {b next : Broadcaster Context Resources Topology}
    (sound : Sound build b) (timely : Timely b label)
    (taken : step build b label = some next) : Sound build next := by
  cases label with
  | started goroutine =>
    obtain rfl := Option.some.inj taken
    refine goroutines_sound sound fun phase member => ?_
    rcases List.mem_append.mp member with old | new
    · exact sound.carried phase old
    · obtain rfl := List.mem_singleton.mp new
      cases goroutine <;> trivial
  | advanced position =>
    obtain ⟨phase, running, rfl⟩ := Option.map_eq_some_iff.mp taken
    have member := List.mem_of_getElem? running
    obtain ⟨kept, carried⟩ := advance_sound sound (sound.carried phase member) (timely phase running)
    refine goroutines_sound kept fun other among => ?_
    rcases List.mem_or_eq_of_mem_set among with old | rfl
    · exact carried_later (advance_marks b phase) (sound.carried other old)
    · exact carried
  | changed resources =>
    obtain ⟨cache, -, rfl⟩ := Option.map_eq_some_iff.mp taken
    exact ⟨sound.genuine, sound.fresh, sound.stale, sound.carried, sound.honest⟩
  | resetAllSubsystems =>
    obtain rfl := Option.some.inj taken
    exact ⟨sound.genuine, sound.fresh, sound.stale, sound.carried, sound.honest⟩
  | initAllSubsystems context resources =>
    obtain rfl := Option.some.inj taken
    exact ⟨sound.genuine, sound.fresh, sound.stale, sound.carried, sound.honest⟩
  | contextSwitched context =>
    obtain rfl := Option.some.inj taken
    have gone : ∀ topo : Built Context Resources Topology, none ≠ some topo := by simp
    exact ⟨fun topo cached => absurd cached (gone topo), fun _ _ topo cached =>
      absurd cached (gone topo), fun _ topo cached => absurd cached (gone topo), sound.carried,
      sound.honest⟩
  | warmupDone =>
    obtain rfl := Option.some.inj taken
    exact ⟨sound.genuine, sound.fresh, sound.stale, sound.carried, sound.honest⟩
  | clientsConnected count =>
    obtain rfl := Option.some.inj taken
    exact ⟨sound.genuine, sound.fresh, sound.stale, sound.carried, sound.honest⟩

theorem start_sound (cache : Option (Context × Resources)) :
    Sound build (newSSEBroadcaster cache : Broadcaster Context Resources Topology) where
  genuine := by simp [newSSEBroadcaster]
  fresh := by simp [newSSEBroadcaster]
  stale := by simp [newSSEBroadcaster]
  carried := by simp [newSSEBroadcaster]
  honest := by simp [Honest, newSSEBroadcaster]

end Invariant

section Breach
variable {build : Resources → Option Topology} {b : Broadcaster Context Resources Topology}

theorem returned_dishonest (clean : b.cachedTopologyDirty = false) (misfit : ¬ Fits b.marks b.callback topo)
    (goroutines : List (Phase Context Resources Topology)) :
    ¬ Honest build { b.returns (some topo) with goroutines := goroutines } := by
  intro honest
  have member : (⟨some topo, b.cachedTopologyDirty, b.marks, b.callback⟩ :
      Return Context Resources Topology) ∈ b.returned ++ _ :=
    List.mem_append_right _ (List.mem_singleton.mpr rfl)
  exact misfit (honest _ member clean topo rfl).2

theorem overtaken_misfit (overtaken : topo.source.marks < b.marks) : ¬ Fits b.marks b.callback topo :=
  fun fits => absurd fits.1 (Nat.ne_of_lt overtaken)

/-- Returning what is cached behind a flag that a call has cleared. -/
theorem unsettled_dishonest (sound : Sound build b) (unsettled : ¬ Settled b)
    (goroutines : List (Phase Context Resources Topology)) :
    b.cachedTopologyDirty = false ∧
      ¬ Honest build { b.returns b.cachedTopology with goroutines := goroutines } := by
  simp only [Settled, Classical.not_imp, ne_eq, Classical.not_not] at unsettled
  obtain ⟨clean, held, cleared⟩ := unsettled
  obtain ⟨topo, cached⟩ := Option.ne_none_iff_exists'.mp held
  refine ⟨clean, ?_⟩
  rw [cached]
  exact returned_dishonest clean (overtaken_misfit (sound.stale (.inr cleared) topo cached)) _

/-- After a misplaced store the next call returns what was stored. -/
theorem stored_dishonest (misfit : ¬ Fits b.marks b.callback topo)
    (goroutines : List (Phase Context Resources Topology)) :
    ∃ more last, exec (step build) { b.updateCachedTopology topo with goroutines := goroutines }
      more = some last ∧ ¬ Honest build last := by
  refine ⟨[.started .getCachedTopology, .advanced goroutines.length], _, ?_,
    returned_dishonest (b := b.updateCachedTopology topo) rfl misfit
      ((goroutines ++ [Phase.getLook]).set goroutines.length .done)⟩
  simp [exec, step, advance, Goroutine.entry, Broadcaster.updateCachedTopology, Broadcaster.returns]

/-- A step out of time has a run go wrong, at once or at the next call. -/
theorem breach_exposed {next : Broadcaster Context Resources Topology} (sound : Sound build b)
    (late : ¬ Timely b label) (taken : step build b label = some next) :
    ∃ more last, exec (step build) next more = some last ∧ ¬ Honest build last := by
  cases label with
  | advanced position =>
    simp only [Timely, Classical.not_forall] at late
    obtain ⟨phase, running, late⟩ := late
    obtain rfl : _ = next := by simpa [step, running] using taken
    have carried := sound.carried phase (List.mem_of_getElem? running)
    cases phase with
    | getLook =>
      obtain ⟨clean, wrong⟩ := unsettled_dishonest sound late (b.goroutines.set position .done)
      exact ⟨[], _, by simp [exec, advance, clean], wrong⟩
    | getGate =>
      obtain ⟨clean, wrong⟩ := unsettled_dishonest sound late (b.goroutines.set position .done)
      exact ⟨[], _, by simp [exec, advance, clean], wrong⟩
    | getReread =>
      obtain ⟨-, wrong⟩ := unsettled_dishonest sound late (b.goroutines.set position .done)
      exact ⟨[], _, rfl, wrong⟩
    | getCache topo =>
      simp only [InTime, Classical.not_imp, Bool.not_eq_true] at late
      obtain ⟨held, torn, clean⟩ := late
      cases topo with
      | none => exact absurd rfl held
      | some topo =>
        have wrong : ¬ Honest build { b.returns (some topo) with
            goroutines := b.goroutines.set position .done } :=
          returned_dishonest clean (overtaken_misfit carried.2) _
        exact ⟨[], _, by simp [exec, advance, torn], wrong⟩
    | getStore topo => exact stored_dishonest late _
    | broadcastStore topo => exact stored_dishonest late _
    | initStore topo => exact stored_dishonest late _
    | _ => exact absurd trivial late
  | _ => exact absurd trivial late

/-- In a run whose steps all come in time every return is honest, and the first step out of time has
some continuation that returns what it must not. -/
theorem returns_honest (build : Resources → Option Topology)
    (cache : Option (Context × Resources)) (labels : List (Step Context Resources))
    (b : Broadcaster Context Resources Topology)
    (run : exec (step build) (newSSEBroadcaster cache) labels = some b)
    (timely : Guarded (step build) Timely (newSSEBroadcaster cache) labels) :
    Honest build b ∧ ∀ label next, step build b label = some next → ¬ Timely b label →
      ∃ more last, exec (step build) next more = some last ∧ ¬ Honest build last := by
  have sound : Sound build b :=
    guarded_invariant (fun _ _ _ sound timely => step_sound sound timely) (start_sound cache) timely
      run
  exact ⟨sound.honest, fun label next taken late => breach_exposed sound late taken⟩

end Breach

section Races

/-- Resources are a version number here, and every build succeeds. -/
def seeVersion (version : Nat) : Option Nat := some version

theorem misfit_dishonest {b : Broadcaster String Nat Nat} {r : Return String Nat Nat}
    {topo : Built String Nat Nat} (member : r ∈ b.returned) (clean : r.pending = false)
    (held : r.topology = some topo)
    (misfit : topo.source.marks ≠ r.marks ∨ ∃ context, r.callback = some context ∧
      topo.source.context ≠ context) : ¬ Honest seeVersion b := by
  intro honest
  obtain ⟨marks, contexts⟩ := (honest r member clean topo held).2
  rcases misfit with other | ⟨context, last, other⟩
  · exact other marks
  · exact other (contexts context last)

/-- A broadcast builds from staging, the context is switched to prod, then the broadcast stores. -/
def switchOvertaken : List (Step String Nat) :=
  [ .clientsConnected 1, .warmupDone, .started .broadcastTopologyUpdate, .advanced 0, .advanced 0,
    .advanced 0, .advanced 0, .resetAllSubsystems, .initAllSubsystems "prod" 7,
    .contextSwitched "prod", .advanced 0, .started .getCachedTopology, .advanced 1]

/-- A call rebuilds, the resources change and a broadcast without clients marks them, then the call
stores. -/
def markOvertaken : List (Step String Nat) :=
  [ .started .broadcastTopologyUpdate, .advanced 0, .advanced 0, .advanced 0,
    .started .getCachedTopology, .advanced 1, .advanced 1, .advanced 1, .advanced 1, .advanced 1,
    .changed 5, .started .broadcastTopologyUpdate, .advanced 2, .advanced 2, .advanced 2,
    .advanced 1, .started .getCachedTopology, .advanced 3]

/-- A first call has cleared the flag of a mark and not built yet when a second call comes. -/
def readOvertaken : List (Step String Nat) :=
  [ .started .initCachedTopology, .advanced 0, .advanced 0, .changed 5,
    .started .broadcastTopologyUpdate, .advanced 1, .advanced 1, .advanced 1,
    .started .getCachedTopology, .advanced 2, .advanced 2, .advanced 2,
    .started .getCachedTopology, .advanced 3]

def staging : Broadcaster String Nat Nat := newSSEBroadcaster (some ("staging", 0))

/-- What a run returned, with the marks and the callback of that moment. -/
def returnsOf (labels : List (Step String Nat)) : Option (List (Return String Nat Nat)) :=
  (exec (step seeVersion) staging labels).map (·.returned)

theorem overtaken_returns :
    returnsOf switchOvertaken = some [⟨some ⟨0, "staging", 0, 0⟩, false, 0, some "prod"⟩] ∧
      returnsOf markOvertaken = some [⟨some ⟨0, "staging", 0, 1⟩, false, 2, none⟩] ∧
      returnsOf readOvertaken = some [⟨some ⟨0, "staging", 0, 0⟩, false, 1, none⟩] := by
  decide

/-- A store after a switch, a store after a mark and a read behind a cleared flag each hand out a
topology of the wrong cluster or of before the last mark. -/
theorem overtaken_dishonest :
    (∃ b, exec (step seeVersion) staging switchOvertaken = some b ∧ ¬ Honest seeVersion b) ∧
      (∃ b, exec (step seeVersion) staging markOvertaken = some b ∧ ¬ Honest seeVersion b) ∧
      ∃ b, exec (step seeVersion) staging readOvertaken = some b ∧ ¬ Honest seeVersion b := by
  obtain ⟨switch, mark, read⟩ := overtaken_returns
  refine ⟨?_, ?_, ?_⟩
  · obtain ⟨b, run, returned⟩ := Option.map_eq_some_iff.mp switch
    refine ⟨b, run, misfit_dishonest (returned ▸ List.mem_singleton.mpr rfl) rfl rfl ?_⟩
    exact .inr ⟨"prod", rfl, by decide⟩
  · obtain ⟨b, run, returned⟩ := Option.map_eq_some_iff.mp mark
    refine ⟨b, run, misfit_dishonest (returned ▸ List.mem_singleton.mpr rfl) rfl rfl ?_⟩
    exact .inl (by decide)
  · obtain ⟨b, run, returned⟩ := Option.map_eq_some_iff.mp read
    refine ⟨b, run, misfit_dishonest (returned ▸ List.mem_singleton.mpr rfl) rfl rfl ?_⟩
    exact .inl (by decide)

def quietRun : List (Step String Nat) :=
  [ .started .initCachedTopology, .advanced 0, .advanced 0, .started .getCachedTopology, .advanced 1]

theorem quiet_timely : Guarded (step seeVersion) Timely staging quietRun := by
  refine ⟨trivial, fun _ taken => ?_⟩
  obtain rfl := Option.some.inj taken
  refine ⟨fun phase running => Option.some.inj running ▸ trivial, fun _ taken => ?_⟩
  obtain rfl := Option.some.inj taken
  refine ⟨fun phase running => ?_, fun _ taken => ?_⟩
  · obtain rfl := Option.some.inj running
    exact ⟨rfl, fun _ switched => absurd switched.symm (Option.some_ne_none _)⟩
  obtain rfl := Option.some.inj taken
  refine ⟨trivial, fun _ taken => ?_⟩
  obtain rfl := Option.some.inj taken
  refine ⟨fun phase running => ?_, fun _ _ => trivial⟩
  obtain rfl := Option.some.inj running
  exact fun _ _ same => ClearedBy.noConfusion same

theorem quiet_run_honest : ∃ b, exec (step seeVersion) staging quietRun = some b ∧
    b.returned = [⟨some ⟨0, "staging", 0, 0⟩, false, 0, none⟩] ∧ Honest seeVersion b := by
  have returns : returnsOf quietRun = some [⟨some ⟨0, "staging", 0, 0⟩, false, 0, none⟩] := by
    decide
  obtain ⟨b, run, returned⟩ := Option.map_eq_some_iff.mp returns
  exact ⟨b, run, returned, (returns_honest seeVersion (some ("staging", 0)) quietRun b run
    quiet_timely).1⟩

end Races
end TopologyCache
