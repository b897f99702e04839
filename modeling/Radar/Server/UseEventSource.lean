import Mathlib.Data.Rat.Floor
import Radar.Base.Runs

/- web/src/hooks/useEventSource.ts: what the page keeps of the event stream, once it is mounted. Messages that do not
   parse change nothing, and the clock does not go back. -/
namespace UseEventSource
open Runs
variable {N E : Type}

section Model

structure Topology (N : Type) where
  nodes : Option (List N)

def Topology.nodeCount (data : Topology N) : Nat := (data.nodes.map List.length).getD 0

def getTopologyThrottleMs (nodeCount : Nat) : Nat :=
  if nodeCount < 100 then 500 else if nodeCount < 300 then 1000 else if nodeCount < 500 then 2000 else 3000

/-- The two refs to timers keep the number of one that has been cleared; throttle and retry say when those that run
    are due. The last two fields are for the statements. -/
structure State (N E : Type) where
  now : Nat
  topology : Option (Topology N) := none
  events : List E := []
  connected : Bool := false
  isOpen : Bool := true
  reconnectDelay : ℚ := 3000
  retry : Option Nat := none
  waitingForTopologyAfterSwitch : Bool := false
  lastTopologyUpdate : Nat := 0
  pendingTopology : Option (Topology N) := none
  throttleTimeout : Bool := false
  throttle : Option Nat := none
  received : List (Topology N) := []
  heard : List E := []

inductive Step (N E : Type) where
  | wait (ms : Nat)
  | onopen
  | onerror
  | topology (data : Topology N)
  | k8sEvent (data : E)
  | contextChanged
  | reconnect
  | retry
  | throttle
  | viewChanged
  | namespacesChanged

variable (s : State N E)

def State.connect : State N E := { s with topology := none, isOpen := true, retry := none, received := [] }

def State.update (data : Topology N) : State N E :=
  { s with lastTopologyUpdate := s.now, topology := some data }

def State.onTopology (data : Topology N) : State N E :=
  let timeSinceLastUpdate := s.now - s.lastTopologyUpdate
  let throttleMs := getTopologyThrottleMs data.nodeCount
  if s.waitingForTopologyAfterSwitch then { s.update data with waitingForTopologyAfterSwitch := false }
  else if timeSinceLastUpdate < throttleMs then
    let held := { s with pendingTopology := some data }
    if s.throttleTimeout then held
    else { held with throttleTimeout := true, throttle := some (s.now + (throttleMs - timeSinceLastUpdate)) }
  else { s.update data with pendingTopology := none }

def State.onThrottle : State N E :=
  let s := { s with throttleTimeout := false, throttle := none }
  match s.pendingTopology with
  | none => s
  | some data => { s.update data with pendingTopology := none }

/-- Only a source that is not closed reports anything, and only a timer that is due fires. -/
def step : Step N E → Option (State N E)
  | .wait ms => some { s with now := s.now + ms }
  | .onopen => if s.isOpen then some { s with connected := true, reconnectDelay := 3000 } else none
  | .onerror =>
    if s.isOpen then
      some { s with
        connected := false
        isOpen := false
        retry := some (s.now + ⌊s.reconnectDelay⌋₊)
        reconnectDelay := min (s.reconnectDelay * 3 / 2) 30000 }
    else none
  | .topology data => if s.isOpen then some { s.onTopology data with received := data :: s.received } else none
  | .k8sEvent data =>
    if s.isOpen then some { s with events := (data :: s.events).take 100, heard := data :: s.heard } else none
  | .contextChanged =>
    if s.isOpen then
      some { s with
        topology := none, events := [], waitingForTopologyAfterSwitch := true, received := [], heard := [] }
    else none
  | .reconnect => some s.connect
  | .retry => if s.retry.any (· ≤ s.now) then some s.connect else none
  | .throttle => if s.throttle.any (· ≤ s.now) then some s.onThrottle else none
  | .viewChanged => some { s with throttle := none }.connect
  | .namespacesChanged => some { s with events := [], heard := [] }

end Model

section Statement
variable (s : State N E)

/-- The newest topology since the last clearing is shown, or held for a timer that runs and is due within three
    seconds of the last update; so are the newest events, and the page has a source or is about to open one. -/
structure Current : Prop where
  newest : s.pendingTopology.or s.topology = s.received.head?
  shown : ∀ data, s.topology = some data → data ∈ s.received
  held : s.throttleTimeout = false → s.pendingTopology = none
  running : s.throttleTimeout = s.throttle.isSome
  due : ∀ due, s.throttle = some due → due ≤ s.lastTopologyUpdate + 3000
  waits : s.waitingForTopologyAfterSwitch = true → s.pendingTopology = none
  past : s.lastTopologyUpdate ≤ s.now
  events : s.events = s.heard.take 100
  source : s.isOpen = s.retry.isNone
  delay : 3000 ≤ s.reconnectDelay ∧ s.reconnectDelay ≤ 30000

/-- No update is held when the topology is cleared, and no timer runs when the view changes. -/
def Settled : Step N E → Prop
  | .contextChanged | .reconnect | .retry => s.pendingTopology = none
  | .viewChanged => s.throttleTimeout = false
  | _ => True

/-- The ref names a timer that was cleared. -/
def Dead : Prop := s.throttleTimeout = true ∧ s.throttle = none

end Statement

section Conclusion
variable {s t : State N E} {a : Step N E}

theorem throttle_le (nodeCount : Nat) : getTopologyThrottleMs nodeCount ≤ 3000 := by
  grind [getTopologyThrottleMs]

theorem onTopology_current (current : Current s) (data : Topology N) :
    Current { s.onTopology data with received := data :: s.received } := by
  obtain ⟨newest, shown, held, running, due, waits, past, events, source, delay⟩ := current
  have bound := throttle_le data.nodeCount
  simp only [State.onTopology, State.update]
  split_ifs <;> constructor <;> simp <;> grind

theorem onThrottle_current (current : Current s) : Current s.onThrottle := by
  obtain ⟨newest, shown, held, running, due, waits, past, events, source, delay⟩ := current
  simp only [State.onThrottle, State.update]
  split
  next => constructor <;> grind
  next data pending =>
    have first : s.received.head? = some data := by rw [← newest, pending, Option.some_or]
    have member := List.mem_of_mem_head? first
    constructor <;> grind

theorem connect_current (current : Current s) (free : s.pendingTopology = none) : Current s.connect :=
  { current with newest := by rw [State.connect, free]; rfl, shown := nofun, source := rfl }

theorem step_current (current : Current s) (settled : (step s a).isSome → Settled s a) (taken : step s a = some t) :
    Current t := by
  have settled := settled (Option.isSome_of_eq_some taken)
  cases a with
  | topology data =>
    simp only [step] at taken
    split at taken <;> cases taken
    exact onTopology_current current data
  | throttle =>
    simp only [step] at taken
    split at taken <;> cases taken
    exact onThrottle_current current
  | k8sEvent data =>
    simp only [step] at taken
    split at taken <;> cases taken
    exact { current with events := by simp [current.events, List.take_take] }
  | onerror =>
    simp only [step] at taken
    split at taken <;> cases taken
    have delay := current.delay
    exact { current with
      source := rfl
      delay := ⟨le_min (by linarith) (by norm_num), min_le_right _ _⟩ }
  | wait ms =>
    cases taken
    exact { current with past := Nat.le_add_right_of_le current.past }
  | onopen =>
    simp only [step] at taken
    split at taken <;> cases taken
    exact { current with delay := by norm_num }
  | contextChanged =>
    simp only [step] at taken
    split at taken <;> cases taken
    exact { current with newest := by rw [settled]; rfl, shown := nofun, waits := fun _ => settled, events := rfl }
  | reconnect =>
    cases taken
    exact connect_current current settled
  | retry =>
    simp only [step] at taken
    split at taken <;> cases taken
    exact connect_current current settled
  | viewChanged =>
    cases taken
    exact connect_current { current with running := settled, due := nofun } (current.held settled)
  | namespacesChanged =>
    cases taken
    exact { current with events := rfl }

/-- The page is current all along a run exactly if no update is held when the topology is cleared, by a switch of the
    context or a new source, and no timer runs when the view changes. -/
theorem current_iff_settled (now : Nat) (steps : List (Step N E)) :
    Along step Current { now } steps ↔ Guarded step (fun s a => (step s a).isSome → Settled s a) { now } steps := by
  apply along_iff_guarded fun s a t => step_current
  · exact fun s => id
  · intro s a current kept enabled
    obtain ⟨t, taken⟩ := Option.isSome_iff_exists.mp enabled
    have after := kept t taken
    cases a <;> grind [step, Settled, State.connect, Current]
  · constructor <;> norm_num <;> nofun

theorem step_dead (dead : Dead s) (taken : step s a = some t) :
    a ≠ .throttle ∧ Dead t ∧ ∀ data, t.topology = some data → s.topology = some data ∨ a = .topology data := by
  cases a <;> grind [step, Dead, State.connect, State.onTopology, State.update]

/-- Once the view has changed while a timer runs, no update that is held is shown any more unless it is sent again. -/
theorem held_lost {steps : List (Step N E)} (dead : Dead s) (run : exec step s steps = some t) :
    .throttle ∉ steps ∧ Dead t ∧ ∀ data, t.topology = some data → s.topology = some data ∨ .topology data ∈ steps := by
  induction steps generalizing s with
  | nil =>
    cases run
    exact ⟨List.not_mem_nil, dead, fun data => .inl⟩
  | cons a rest ih =>
    obtain ⟨u, first, later⟩ := exec_cons run
    obtain ⟨other, dead', shown⟩ := step_dead dead first
    obtain ⟨others, dead'', shown'⟩ := ih dead' later
    exact ⟨by grind, dead'', fun data => by grind⟩

/-- What the new source sends at once is held too. -/
theorem update_lost : ∃ s : State Unit Unit,
    exec step { now := 5000 } [.topology ⟨none⟩, .topology ⟨none⟩, .viewChanged] = some s ∧
      ∀ t, exec step s [.topology ⟨some []⟩, .wait 5000] = some t → t.topology = none ∧ Dead t :=
  ⟨_, rfl, fun t run => ⟨by cases run; rfl, (held_lost ⟨rfl, rfl⟩ run).2.1⟩⟩

end Conclusion

end UseEventSource
