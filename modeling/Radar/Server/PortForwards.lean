import Radar.Base.GoText
import Radar.Base.Runs

/- internal/server/portforward.go: the sessions under the manager's lock, and the parties that write them: start requests,
   their forwarders, stop requests and StopAllPortForwards. -/
namespace PortForwards
open Runs

section Model

inductive Status where
  | starting | running | stopped | error
  deriving DecidableEq

/-- A session's goroutine: not begun, in runPortForward before readyCh or after it, or past it. -/
inductive Forwarder where
  | spawned | connecting | forwarding | done
  deriving DecidableEq

structure PortForwardSession where
  podPort : Nat
  status : Status
  error : String
  /-- Whether the session's context is done, and how often its stop channel was closed. -/
  cancelled : Bool
  stopCloses : Nat
  forwarder : Forwarder
  /-- The start request has yet to read the session again. -/
  sleeping : Bool
  /-- The variable that it shares with the goroutine holds the session. -/
  captured : Bool

structure PortForwardManager where
  /-- The sessions ever made, which their goroutines hold on to, and the IDs in the map. -/
  heap : Nat → Option PortForwardSession
  sessions : List Nat
  nextID : Nat
  /-- The lock was left held. -/
  locked : Bool
  /-- A session that the map does not hold was dereferenced. -/
  dereferenced : Bool

inductive Label where
  | insert (podPort : Nat)
  | spawn (id : Nat)
  | reread (id : Nat)
  | stop (id : Nat)
  | stopAll
  | ready (id : Nat)
  | fail (id : Nat) (err : String)
  | contextDone (id : Nat)
  | forwardingEnded (id : Nat)

def initial : PortForwardManager := ⟨fun _ => none, [], 0, false, false⟩

def newSession (podPort : Nat) : PortForwardSession := ⟨podPort, .starting, "", false, 0, .spawned, true, true⟩

def errorMessage (podPort : Nat) (errMsg : String) : String :=
  if GoText.contains errMsg "connection refused" then
    "Connection refused - nothing listening on port " ++ toString podPort ++ " in the pod"
  else if GoText.contains errMsg "lost connection" then
    "Lost connection to pod - port " ++ toString podPort ++ " may not be available"
  else errMsg

/-- The goroutine waits in one of its two selects. -/
def PortForwardSession.waiting (s : PortForwardSession) : Bool := s.forwarder == .connecting || s.forwarder == .forwarding

/-- The end of runPortForward without an error. -/
def PortForwardSession.ended (s : PortForwardSession) : PortForwardSession := { s with status := .stopped, forwarder := .done }

def runReady (s : PortForwardSession) : Option PortForwardSession :=
  if s.forwarder = .connecting then some { s with status := .running, forwarder := .forwarding } else none

def runFail (err : String) (s : PortForwardSession) : Option PortForwardSession :=
  if s.waiting then some { s with status := .error, error := errorMessage s.podPort err, forwarder := .done } else none

def runContextDone (s : PortForwardSession) : Option PortForwardSession :=
  if s.waiting ∧ s.cancelled = true then some s.ended else none

/-- ForwardPorts returns no error just when the stop channel is closed. -/
def runForwardingEnded (s : PortForwardSession) : Option PortForwardSession :=
  if s.waiting ∧ 0 < s.stopCloses then some s.ended else none

/-- What a goroutine does to its session. -/
def change (m : PortForwardManager) (id : Nat) (f : PortForwardSession → Option PortForwardSession) : Option PortForwardManager :=
  (m.heap id).bind fun s => (f s).map fun s' => { m with heap := Function.update m.heap id (some s') }

/-- The goroutine begins with the session that the variable holds by then. -/
def spawn (m : PortForwardManager) (id : Nat) : Option PortForwardManager := (m.heap id).bind fun s =>
    if s.forwarder ≠ .spawned then none
    else if s.captured = false then some { m with dereferenced := true }
    else some { m with heap := Function.update m.heap id (some { s with forwarder := .connecting }) }

def insert (m : PortForwardManager) (podPort : Nat) : PortForwardManager := { m with
    nextID := m.nextID + 1
    heap := Function.update m.heap (m.nextID + 1) (some (newSession podPort))
    sessions := (m.nextID + 1) :: m.sessions }

/-- The end of a start request: a session that is gone is dereferenced before the lock is released. -/
def reread (m : PortForwardManager) (id : Nat) : Option PortForwardManager := (m.heap id).bind fun s =>
    if s.sleeping = false then none
    else if id ∉ m.sessions then
      some { m with
        heap := Function.update m.heap id (some { s with sleeping := false, captured := false })
        dereferenced := true
        locked := true }
    else if s.status = .error then some { m with heap := Function.update m.heap id (some { s with sleeping := false }) }
    else some { m with heap := Function.update m.heap id (some { s with sleeping := false, status := .running }) }

/-- A stop channel closed again is a panic under the lock. -/
def handleStopPortForward (m : PortForwardManager) (id : Nat) : Option PortForwardManager :=
  if id ∉ m.sessions then some m
  else (m.heap id).map fun s => if s.stopCloses ≠ 0 then
      { m with
        heap := Function.update m.heap id (some { s with cancelled := true, stopCloses := s.stopCloses + 1 })
        locked := true }
    else
      { m with
        heap := Function.update m.heap id (some { s with cancelled := true, stopCloses := s.stopCloses + 1, status := .stopped })
        sessions := m.sessions.filter fun other => other ≠ id }

def stopAllPortForwards (m : PortForwardManager) : PortForwardManager := { m with
    heap := fun id => (m.heap id).map fun s => if id ∈ m.sessions then { s with cancelled := true, status := .stopped } else s
    sessions := [] }

/-- One step; all but the start of a goroutine wait for the lock. -/
def step (m : PortForwardManager) : Label → Option PortForwardManager
  | .spawn id => spawn m id
  | .insert podPort => if m.locked then none else some (insert m podPort)
  | .reread id => if m.locked then none else reread m id
  | .stop id => if m.locked then none else handleStopPortForward m id
  | .stopAll => if m.locked then none else some (stopAllPortForwards m)
  | .ready id => if m.locked then none else change m id runReady
  | .fail id err => if m.locked then none else change m id (runFail err)
  | .contextDone id => if m.locked then none else change m id runContextDone
  | .forwardingEnded id => if m.locked then none else change m id runForwardingEnded

end Model

variable {m : PortForwardManager}

section Statement

def Final (status : Status) : Prop := status = .stopped ∨ status = .error

/-- What the step to a state must not do. -/
structure Sound (m m' : PortForwardManager) : Prop where
  whole : m'.dereferenced = false
  released : m'.locked = false
  final : ∀ id s s', m.heap id = some s → m'.heap id = some s' → Final s.status → s'.status ≠ .running
  once : ∀ id s, m'.heap id = some s → s.stopCloses ≤ 1
  closed : ∀ id s, m'.heap id = some s → id ∉ m'.sessions → 0 < s.stopCloses

/-- A request reads again what is still in the map, a forwarder gets ready while its session is, and StopAllPortForwards finds
    none. -/
def Orderly (m : PortForwardManager) : Label → Prop
  | .reread id => ∀ s, m.heap id = some s → s.sleeping = true → id ∈ m.sessions
  | .ready id => ∀ s, m.heap id = some s → s.forwarder = .connecting → id ∈ m.sessions
  | .stopAll => m.sessions = []
  | _ => True

end Statement

section Invariant
variable {m' : PortForwardManager} {id : Nat}

/-- A session in the map is untouched by any stop, one outside was stopped and its channel closed. -/
structure Fine (listed : Prop) (s : PortForwardSession) : Prop where
  captured : s.captured = true
  failed : s.status = .error → s.forwarder = .done
  inside : listed → s.stopCloses = 0 ∧ s.cancelled = false ∧ s.status ≠ .stopped
  outside : ¬ listed → s.stopCloses = 1 ∧ Final s.status

structure Good (m : PortForwardManager) : Prop where
  whole : m.dereferenced = false
  released : m.locked = false
  made : ∀ id ∈ m.sessions, (m.heap id).isSome
  numbered : ∀ id s, m.heap id = some s → id ≤ m.nextID
  fine : ∀ id s, m.heap id = some s → Fine (id ∈ m.sessions) s

def Finally (m m' : PortForwardManager) : Prop :=
  ∀ id s s', m.heap id = some s → m'.heap id = some s' → Final s.status → s'.status ≠ .running

theorem sound_of_good (good : Good m') (final : Finally m m') : Sound m m' := by
  constructor
  · exact good.whole
  · exact good.released
  · exact final
  · intro id s held
    by_cases listed : id ∈ m'.sessions
    · have none := ((good.fine id s held).inside listed).1
      omega
    · have single := ((good.fine id s held).outside listed).1
      omega
  · intro id s held away
    have single := ((good.fine id s held).outside away).1
    omega

theorem final_not_running {status : Status} (final : Final status) : status ≠ .running := by
  rcases final with rfl | rfl <;> decide

/-- One session written anew, and perhaps taken out of the map. -/
theorem write_good (good : Good m) {s s' : PortForwardSession} (held : m.heap id = some s)
    (heap : m'.heap = Function.update m.heap id (some s')) (others : ∀ other, other ≠ id → (other ∈ m'.sessions ↔ other ∈ m.sessions))
    (count : m'.nextID = m.nextID) (whole : m'.dereferenced = false) (released : m'.locked = false)
    (fine : Fine (id ∈ m'.sessions) s') (final : Final s.status → s'.status ≠ .running) : Good m' ∧ Finally m m' := by
  have read : ∀ other t, m'.heap other = some t → other = id ∧ t = s' ∨ other ≠ id ∧ m.heap other = some t := by
    intro other t found
    rw [heap] at found
    exact update_cases found
  refine ⟨⟨whole, released, ?_, ?_, ?_⟩, ?_⟩
  · intro other listed
    rw [heap]
    by_cases here : other = id
    · rw [here, Function.update_self]
      rfl
    · rw [Function.update_of_ne here]
      exact good.made other ((others other here).mp listed)
  · intro other t found
    rw [count]
    rcases read other t found with ⟨rfl, -⟩ | ⟨-, before⟩
    · exact good.numbered _ s held
    · exact good.numbered other t before
  · intro other t found
    rcases read other t found with ⟨rfl, rfl⟩ | ⟨away, before⟩
    · exact fine
    · rw [others other away]
      exact good.fine other t before
  · intro other t t' before found done
    rcases read other t' found with ⟨rfl, rfl⟩ | ⟨-, same⟩
    · rw [held] at before
      exact final (Option.some.inj before ▸ done)
    · rw [before] at same
      exact Option.some.inj same ▸ final_not_running done

theorem change_good (good : Good m) {f : PortForwardSession → Option PortForwardSession}
    (moved : change m id f = some m') (kept : ∀ s s', m.heap id = some s → f s = some s' → Fine (id ∈ m.sessions) s →
      Fine (id ∈ m.sessions) s' ∧ (Final s.status → s'.status ≠ .running)) : Good m' ∧ Finally m m' := by
  obtain ⟨s, held, later⟩ := Option.bind_eq_some_iff.mp moved
  obtain ⟨s', run, rfl⟩ := Option.map_eq_some_iff.mp later
  have fine := kept s s' held run (good.fine id s held)
  exact write_good good held rfl (fun _ _ => Iff.rfl) rfl good.whole good.released fine.1 fine.2

theorem spawn_good (good : Good m) (moved : spawn m id = some m') : Good m' ∧ Finally m m' := by
  obtain ⟨s, held, later⟩ := Option.bind_eq_some_iff.mp moved
  have fine := good.fine id s held
  split at later
  · cases later
  · rename_i new
    rw [if_neg (by simp [fine.captured])] at later
    cases later
    have started : s.status ≠ .error := fun failed => new (by rw [fine.failed failed]; decide)
    exact write_good good held rfl (fun _ _ => Iff.rfl) rfl good.whole good.released
      ⟨fine.captured, fun failed => absurd failed started, fine.inside, fine.outside⟩ final_not_running

theorem insert_heap (m : PortForwardManager) (podPort : Nat) :
    (insert m podPort).heap = Function.update m.heap (m.nextID + 1) (some (newSession podPort)) := rfl

theorem insert_good (good : Good m) (podPort : Nat) :
    Good (insert m podPort) ∧ Finally m (insert m podPort) := by
  have fresh : m.heap (m.nextID + 1) = none := by
    cases held : m.heap (m.nextID + 1) with
    | none => rfl
    | some s =>
      have bound := good.numbered _ s held
      omega
  have read : ∀ other t, (insert m podPort).heap other = some t →
      other = m.nextID + 1 ∧ t = newSession podPort ∨ other ≠ m.nextID + 1 ∧ m.heap other = some t := by
    intro other t found
    rw [insert_heap] at found
    exact update_cases found
  refine ⟨⟨good.whole, good.released, ?_, ?_, ?_⟩, ?_⟩
  · intro other listed
    by_cases here : other = m.nextID + 1
    · rw [here, insert_heap, Function.update_self]
      rfl
    · rw [insert_heap, Function.update_of_ne here]
      exact good.made other ((List.mem_cons.mp listed).resolve_left here)
  · intro other t found
    rcases read other t found with ⟨rfl, -⟩ | ⟨-, before⟩
    · exact le_refl _
    · exact Nat.le_succ_of_le (good.numbered other t before)
  · intro other t found
    rcases read other t found with ⟨rfl, rfl⟩ | ⟨away, before⟩
    · refine ⟨rfl, ?_, fun _ => ⟨rfl, rfl, nofun⟩, fun away => absurd List.mem_cons_self away⟩
      intro failed
      cases failed
    · have same : other ∈ (insert m podPort).sessions ↔ other ∈ m.sessions := by simp [insert, away]
      rw [same]
      exact good.fine other t before
  · intro other t t' before found done
    rcases read other t' found with ⟨rfl, -⟩ | ⟨-, same⟩
    · rw [fresh] at before
      cases before
    · rw [before] at same
      exact Option.some.inj same ▸ final_not_running done

theorem reread_good (good : Good m) (orderly : Orderly m (.reread id))
    (moved : reread m id = some m') : Good m' ∧ Finally m m' := by
  obtain ⟨s, held, later⟩ := Option.bind_eq_some_iff.mp moved
  have fine := good.fine id s held
  split at later
  · cases later
  · rename_i awake
    have listed : id ∈ m.sessions := orderly s held (by simpa using awake)
    have inside := fine.inside listed
    rw [if_neg (not_not.mpr listed)] at later
    split at later
    · cases later
      exact write_good good held rfl (fun _ _ => Iff.rfl) rfl good.whole good.released
        ⟨fine.captured, fine.failed, fine.inside, fine.outside⟩ final_not_running
    · rename_i well
      cases later
      refine write_good good held rfl (fun _ _ => Iff.rfl) rfl good.whole good.released
        ⟨fine.captured, ?_, fun _ => ⟨inside.1, inside.2.1, nofun⟩, fun away => absurd listed away⟩ ?_
      · intro failed
        cases failed
      · intro final
        exact absurd final (not_or.mpr ⟨inside.2.2, well⟩)

theorem stop_good (good : Good m) (moved : handleStopPortForward m id = some m') :
    Good m' ∧ Finally m m' := by
  unfold handleStopPortForward at moved
  split at moved
  · cases moved
    exact ⟨good, fun id s s' held held' final => by
      rw [held] at held'
      exact Option.some.inj held' ▸ final_not_running final⟩
  · rename_i listed
    obtain ⟨s, held, later⟩ := Option.map_eq_some_iff.mp moved
    have inside := (good.fine id s held).inside (not_not.mp listed)
    rw [if_neg (not_not.mpr inside.1)] at later
    subst later
    have gone : id ∉ m.sessions.filter fun other => other ≠ id := by simp
    refine write_good good held rfl ?_ rfl good.whole good.released
      ⟨(good.fine id s held).captured, ?_, fun back => absurd back gone, fun _ => ⟨by rw [inside.1], .inl rfl⟩⟩ ?_
    · intro other away
      simp [away]
    · intro failed
      cases failed
    · intro _ running
      cases running

/-- Without a session, StopAllPortForwards leaves everything as it is. -/
theorem stopAll_idle (none : m.sessions = []) : stopAllPortForwards m = m := by
  obtain ⟨heap, sessions, nextID, locked, dereferenced⟩ := m
  cases none
  simp [stopAllPortForwards]

theorem finally_refl (m : PortForwardManager) : Finally m m := by
  intro id s s' held held' final
  rw [held] at held'
  exact Option.some.inj held' ▸ final_not_running final

theorem waiting_not_failed {listed : Prop} {s : PortForwardSession} (fine : Fine listed s) (waiting : s.waiting = true) :
    s.status ≠ .error := by
  intro failed
  simp [PortForwardSession.waiting, fine.failed failed] at waiting

/-- A forwarder that ends without an error was stopped, so its session is out of the map. -/
theorem ended_fine {listed : Prop} {s : PortForwardSession} (fine : Fine listed s) (away : ¬ listed) :
    Fine listed s.ended ∧ (Final s.status → s.ended.status ≠ .running) := by
  refine ⟨⟨fine.captured, ?_, fun listed => absurd listed away, fun _ => ⟨(fine.outside away).1, .inl rfl⟩⟩, ?_⟩
  · intro failed
    cases failed
  · intro _ running
    cases running

/-- Every orderly step keeps the invariant. -/
theorem step_good {a : Label} (good : Good m) (orderly : Orderly m a) (moved : step m a = some m') :
    Good m' ∧ Finally m m' := by
  have free : ¬ m.locked = true := by simp [good.released]
  cases a with
  | spawn id => exact spawn_good good moved
  | insert podPort =>
    rw [step, if_neg free] at moved
    cases moved
    exact insert_good good podPort
  | reread id =>
    rw [step, if_neg free] at moved
    exact reread_good good orderly moved
  | stop id =>
    rw [step, if_neg free] at moved
    exact stop_good good moved
  | stopAll =>
    rw [step, if_neg free, stopAll_idle orderly] at moved
    cases moved
    exact ⟨good, finally_refl m⟩
  | ready id =>
    rw [step, if_neg free] at moved
    refine change_good good moved ?_
    intro s s' held run fine
    unfold runReady at run
    split at run
    · rename_i connecting
      cases run
      have listed := orderly s held connecting
      have inside := fine.inside listed
      have well : s.status ≠ .error := waiting_not_failed fine (by simp [PortForwardSession.waiting, connecting])
      refine ⟨⟨fine.captured, ?_, fun _ => ⟨inside.1, inside.2.1, nofun⟩, fun away => absurd listed away⟩, ?_⟩
      · intro failed
        cases failed
      · intro final
        exact absurd final (not_or.mpr ⟨inside.2.2, well⟩)
    · cases run
  | fail id err =>
    rw [step, if_neg free] at moved
    refine change_good good moved ?_
    intro s s' held run fine
    unfold runFail at run
    split at run
    · cases run
      refine ⟨⟨fine.captured, fun _ => rfl, fun listed => ?_, fun away => ?_⟩, ?_⟩
      · exact ⟨(fine.inside listed).1, (fine.inside listed).2.1, nofun⟩
      · exact ⟨(fine.outside away).1, .inr rfl⟩
      · intro _ running
        cases running
    · cases run
  | contextDone id =>
    rw [step, if_neg free] at moved
    refine change_good good moved ?_
    intro s s' held run fine
    unfold runContextDone at run
    split at run
    · rename_i done
      cases run
      apply ended_fine fine
      intro listed
      rw [(fine.inside listed).2.1] at done
      cases done.2
    · cases run
  | forwardingEnded id =>
    rw [step, if_neg free] at moved
    refine change_good good moved ?_
    intro s s' held run fine
    unfold runForwardingEnded at run
    split at run
    · rename_i closed
      cases run
      apply ended_fine fine
      intro listed
      have open_ := (fine.inside listed).1
      omega
    · cases run

end Invariant

section Conclusion

theorem orderly_of_sound {a : Label} (good : Good m)
    (sound : ∀ m', step m a = some m' → Sound m m') : Orderly m a := by
  have free : ¬ m.locked = true := by simp [good.released]
  cases a with
  | reread id =>
    intro s held asleep
    by_contra away
    have moved : step m (.reread id) = some { m with
        heap := Function.update m.heap id (some { s with sleeping := false, captured := false })
        dereferenced := true
        locked := true } := by
      simp [step, free, reread, held, asleep, away]
    have whole := (sound _ moved).whole
    cases whole
  | ready id =>
    intro s held connecting
    by_contra away
    have moved : step m (.ready id) = some { m with
        heap := Function.update m.heap id (some { s with status := .running, forwarder := .forwarding }) } := by
      simp [step, free, change, held, runReady, connecting]
    exact (sound _ moved).final id s _ held (Function.update_self ..) ((good.fine id s held).outside away).2 rfl
  | stopAll =>
    show m.sessions = []
    rw [List.eq_nil_iff_forall_not_mem]
    intro id listed
    obtain ⟨s, held⟩ := Option.isSome_iff_exists.mp (good.made id listed)
    have moved : step m .stopAll = some (stopAllPortForwards m) := by
      simp [step, free]
    have found : (stopAllPortForwards m).heap id = some { s with cancelled := true, status := .stopped } := by
      simp [stopAllPortForwards, held, listed]
    have closed := (sound _ moved).closed id _ found List.not_mem_nil
    have inside := ((good.fine id s held).inside listed).1
    exact absurd inside (Nat.ne_of_gt closed)
  | spawn id => trivial
  | insert podPort => trivial
  | stop id => trivial
  | fail id err => trivial
  | contextDone id => trivial
  | forwardingEnded id => trivial

theorem initial_good : Good initial := by
  constructor
  · rfl
  · rfl
  · exact fun id listed => by cases listed
  · exact fun id s held => by cases held
  · exact fun id s held => by cases held

/-- Every step of a run is sound just where the run is orderly. -/
theorem sound_iff_orderly (run : List Label) :
    Throughout step (fun m _ m' => Sound m m') initial run ↔ Guarded step Orderly initial run := by
  have kept : ∀ m a m', Good m → Orderly m a → step m a = some m' → Good m' :=
    fun m a m' good orderly moved => (step_good good orderly moved).1
  have exactly : ∀ m a, Good m → (Orderly m a ↔ ∀ m', step m a = some m' → Sound m m') := by
    intro m a good
    constructor
    · intro orderly m' moved
      have good' := step_good good orderly moved
      exact sound_of_good good'.1 good'.2
    · exact orderly_of_sound good
  exact throughout_iff_guarded kept exactly initial_good run

/-- A session that is stopped before its start request reads it again. -/
theorem stopped_asleep : ¬ Throughout step (fun m _ m' => Sound m m') initial [.insert 80, .stop 1, .reread 1] := by
  intro throughout
  have first := (throughout _ rfl).2
  have second := (first _ rfl).2
  have third := (second _ rfl).1
  have whole := third.whole
  cases whole

end Conclusion

end PortForwards
